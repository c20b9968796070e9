import Havemind.TaskNote

/-!
Where an agent's writes can end up. The check reads the path as it is, the producer sends
it with backslashes as slashes: what is sent lies in a folder the task names, and in none
of the folders no task can open but through a backslash in the place of the first slash.
-/
namespace Havemind.AgentScope

open JsText JsonText VaultPath PathScope TaskNote List PathBoundary

/-- What is documented of the two methods beside `NormalForm`: a slash takes part in no
composition and in no context of a case mapping, and neither brings separators in or out. -/
structure Folding (unicode : UnicodeMethods) : Prop extends NormalForm unicode where
  nfc_slash : ∀ left right, unicode.normalizeNfc (left ++ slash :: right) =
    unicode.normalizeNfc left ++ slash :: unicode.normalizeNfc right
  lower_slash : ∀ left right, unicode.toLowerCase (left ++ slash :: right) =
    unicode.toLowerCase left ++ slash :: unicode.toLowerCase right
  lower_slash_iff : ∀ text, slash ∈ unicode.toLowerCase text ↔ slash ∈ text
  lower_backslash_iff : ∀ text, backslash ∈ unicode.toLowerCase text ↔ backslash ∈ text

/-- What the check is to promise of the path that is sent. -/
structure Scoped (unicode : UnicodeMethods) (task : AgentTask) (pushed : JsString) : Prop where
  plain : ∀ segment ∈ segmentsOf pushed,
    segment ≠ [] ∧ segment ≠ ascii "." ∧ segment ≠ ascii ".."
  named : ∃ folder ∈ task.mayWrite,
    inside (fold unicode pushed) (fold unicode (normalizeSeparators folder)) = true
  closed : ∀ folder ∈ never, inside (fold unicode pushed) (fold unicode folder) = false

/-- The part in front of the first separator names a closed folder, and that separator is
a backslash. -/
def OpensClosed (unicode : UnicodeMethods) (path : JsString) : Prop :=
  ∃ folder ∈ never, ∃ front rest, path = front ++ backslash :: rest ∧ slash ∉ front ∧
    fold unicode front = fold unicode folder

section
variable {unicode : UnicodeMethods} {path folder text : JsString}

theorem Folding.fold_append (F : Folding unicode) (left right : JsString) :
    fold unicode (left ++ slash :: right) = fold unicode left ++ slash :: fold unicode right := by
  unfold fold
  rw [F.nfc_slash, F.lower_slash]

theorem Folding.slash_mem_fold (F : Folding unicode) :
    slash ∈ fold unicode text ↔ slash ∈ text :=
  (F.lower_slash_iff _).trans (F.slash_iff _)

theorem Folding.backslash_mem_fold (F : Folding unicode) :
    backslash ∈ fold unicode text ↔ backslash ∈ text :=
  (F.lower_backslash_iff _).trans (F.backslash_iff _)

theorem inside_iff : inside path folder = true ↔
    path = folder ∨ ∃ rest, path = folder ++ slash :: rest := by
  unfold inside
  rw [decide_eq_true_iff, isPrefixOf_iff_prefix]
  refine or_congr Iff.rfl ⟨?_, ?_⟩
  · rintro ⟨rest, rfl⟩
    exact ⟨rest, by rw [append_assoc]; rfl⟩
  · rintro ⟨rest, rfl⟩
    exact ⟨rest, by rw [append_assoc]; rfl⟩

theorem normalizeSeparators_append (left right : JsString) :
    normalizeSeparators (left ++ slash :: right) =
      normalizeSeparators left ++ slash :: normalizeSeparators right := by
  unfold normalizeSeparators
  rw [map_append, map_cons]
  rfl

/-- What lies in a folder still does once both are folded. -/
theorem Folding.inside_fold (F : Folding unicode) (h : inside path folder = true) :
    inside (fold unicode (normalizeSeparators path))
      (fold unicode (normalizeSeparators folder)) = true := by
  rcases inside_iff.mp h with rfl | ⟨rest, rfl⟩
  · exact inside_iff.mpr (.inl rfl)
  · rw [normalizeSeparators_append, F.fold_append]
    exact inside_iff.mpr (.inr ⟨_, rfl⟩)

/-- Whether a folded text lies in a closed folder is decided in front of its first slash. -/
theorem Folding.inside_closed (F : Folding unicode) (hfolder : slash ∉ folder) :
    inside (fold unicode text) (fold unicode folder) = true ↔
      (slash ∉ text ∧ fold unicode text = fold unicode folder) ∨
      ∃ front rest, text = front ++ slash :: rest ∧ slash ∉ front ∧
        fold unicode front = fold unicode folder := by
  have hfold : slash ∉ fold unicode folder := fun hmem => hfolder (F.slash_mem_fold.mp hmem)
  rw [inside_iff]
  constructor
  · intro hinside
    by_cases hslash : slash ∈ text
    · obtain ⟨front, rest, rfl, hfront⟩ := eq_append_cons_of_mem hslash
      refine .inr ⟨front, rest, rfl, hfront, ?_⟩
      rw [F.fold_append] at hinside
      rcases hinside with hsame | ⟨rest', hsplit⟩
      · refine absurd ?_ hfold
        rw [← hsame]
        exact mem_append_right _ mem_cons_self
      · have hsegments := congrArg segmentsOf hsplit
        rw [segmentsOf_cons (fun hmem => hfront (F.slash_mem_fold.mp hmem)),
          segmentsOf_cons hfold] at hsegments
        exact (List.cons.inj hsegments).1
    · refine .inl ⟨hslash, ?_⟩
      rcases hinside with hsame | ⟨rest', hsplit⟩
      · exact hsame
      · refine absurd (F.slash_mem_fold.mp ?_) hslash
        rw [hsplit]
        exact mem_append_right _ mem_cons_self
  · rintro (⟨-, hsame⟩ | ⟨front, rest, rfl, -, hsame⟩)
    · exact .inl hsame
    · exact .inr ⟨fold unicode rest, by rw [F.fold_append, hsame]⟩

/-- Where the separators are, a normalised path shows. -/
theorem exists_separator {front rest : JsString} (h : normalizeSeparators path = front ++ slash :: rest)
    (hfront : slash ∉ front) :
    ∃ separator rest', path = front ++ separator :: rest' ∧
      (separator = slash ∨ separator = backslash) := by
  obtain ⟨front', tail, rfl, hmap, htail⟩ := map_eq_append_iff.mp h
  obtain ⟨separator, rest', rfl, hseparator, -⟩ := map_eq_cons_iff.mp htail
  have hplain : backslash ∉ front' := by
    intro hmem
    refine hfront ?_
    rw [← hmap]
    exact mem_map.mpr ⟨backslash, hmem, if_pos rfl⟩
  have hsame : front' = front := by
    rw [← hmap]
    exact (normalizeSeparators_eq hplain).symm
  refine ⟨separator, rest', by rw [hsame], ?_⟩
  by_cases hback : separator = backslash
  · exact .inr hback
  · rw [if_neg hback] at hseparator
    exact .inl hseparator

theorem never_plain : ∀ folder ∈ never, slash ∉ folder ∧ backslash ∉ folder := by
  decide +kernel

/-- A path the check lets pass reaches a closed folder through a backslash only. -/
theorem Folding.reaches_closed (F : Folding unicode)
    (hallowed : ∀ folder ∈ never, inside (fold unicode path) (fold unicode folder) = false) :
    (∃ folder ∈ never,
      inside (fold unicode (normalizeSeparators path)) (fold unicode folder) = true) ↔
      OpensClosed unicode path := by
  constructor
  · rintro ⟨folder, hnever, hinside⟩
    obtain ⟨hslash, -⟩ := never_plain folder hnever
    have hraw : ¬ inside (fold unicode path) (fold unicode folder) = true := by
      rw [hallowed folder hnever]
      exact Bool.false_ne_true
    rcases (F.inside_closed hslash).mp hinside with ⟨hnone, hsame⟩ | ⟨front, rest, hsplit, hfront, hsame⟩
    · have hback : backslash ∉ path := by
        intro hmem
        exact hnone (mem_map.mpr ⟨backslash, hmem, if_pos rfl⟩)
      rw [normalizeSeparators_eq hback] at hnone hsame
      exact absurd ((F.inside_closed hslash).mpr (.inl ⟨hnone, hsame⟩)) hraw
    · obtain ⟨separator, rest', rfl, rfl | rfl⟩ := exists_separator hsplit hfront
      · exact absurd ((F.inside_closed hslash).mpr (.inr ⟨front, rest', rfl, hfront, hsame⟩)) hraw
      · exact ⟨folder, hnever, front, rest', rfl, hfront, hsame⟩
  · rintro ⟨folder, hnever, front, rest, rfl, hfront, hsame⟩
    obtain ⟨hslash, hback⟩ := never_plain folder hnever
    have hplain : backslash ∉ front := by
      intro hmem
      have hfold := F.backslash_mem_fold.mpr hmem
      rw [hsame] at hfold
      exact hback (F.backslash_mem_fold.mp hfold)
    refine ⟨folder, hnever, (F.inside_closed hslash).mpr (.inr ⟨front, normalizeSeparators rest, ?_,
      hfront, hsame⟩)⟩
    have hfront' := normalizeSeparators_eq hplain
    unfold normalizeSeparators at hfront' ⊢
    rw [map_append, hfront', map_cons]
    rfl

end

variable {unicode : UnicodeMethods} {task : AgentTask} {path pushed : JsString}

/-- What a write that is let pass has been checked for. -/
theorem checked_of_allowed (h : checkWrite unicode path task = none) :
    (∀ folder ∈ never, inside (fold unicode path) (fold unicode folder) = false) ∧
      ∃ folder ∈ task.mayWrite, inside path folder = true := by
  unfold checkWrite at h
  split at h
  · cases h
  · split at h
    · cases h
    · next hfind =>
      split at h
      · next hnamed =>
        refine ⟨fun folder hnever => ?_, any_eq_true.mp hnamed⟩
        rw [← Bool.not_eq_true]
        exact List.find?_eq_none.mp hfind folder hnever
      · split at h <;> cases h

/-- What is sent is the path's wire form, with plain segments. -/
theorem pushedPath_eq (F : Folding unicode) (h : pushedPath unicode path = some pushed) :
    pushed = normalizeWirePath unicode path ∧ ∀ segment ∈ segmentsOf pushed,
      segment ≠ [] ∧ segment ≠ ascii "." ∧ segment ≠ ascii ".." := by
  obtain ⟨classified, hclassified, hpushed⟩ := Option.bind_eq_some_iff.mp h
  have hcanonical : classified.canonicalPath = normalizeWirePath unicode path := by
    unfold classifyVaultPath at hclassified
    dsimp only at hclassified
    split at hclassified
    · cases hclassified
    · cases hclassified
      rfl
  cases hresult : canonicalizeVaultPath unicode classified.canonicalPath with
  | error message =>
    rw [hresult] at hpushed
    cases hpushed
  | ok result =>
    rw [hresult] at hpushed
    cases hpushed
    obtain ⟨hnormal, -, -, -, hsegments, -⟩ := canonicalizeVaultPath_ok hresult
    refine ⟨?_, hsegments⟩
    rw [hnormal, hcanonical]
    exact F.idempotent _

theorem fold_wire (F : Folding unicode) (path : JsString) :
    fold unicode (normalizeWirePath unicode path) = fold unicode (normalizeSeparators path) := by
  unfold fold normalizeWirePath
  rw [F.idempotent]

/-- A write that is let pass and sent is where the check means it to be, unless a backslash
stands in the place of the slash behind a closed folder. -/
theorem writeAsAgent_scoped (unicode : UnicodeMethods) (F : Folding unicode)
    (text path pushed : JsString)
    (h : writeAsAgent unicode (parseTaskNote text) path = .ok (some pushed)) :
    Scoped unicode (parseTaskNote text) pushed ↔ ¬ OpensClosed unicode path := by
  generalize parseTaskNote text = task at h ⊢
  unfold writeAsAgent at h
  split at h
  · cases h
  · next hallowed =>
    obtain ⟨hclosed, folder, hfolder, hinside⟩ := checked_of_allowed hallowed
    obtain ⟨rfl, hplain⟩ := pushedPath_eq F (Except.ok.inj h)
    have hreaches := F.reaches_closed hclosed
    rw [← hreaches]
    constructor
    · rintro hscoped ⟨closed, hnever, hin⟩
      have hout := hscoped.closed closed hnever
      rw [fold_wire F, hin] at hout
      cases hout
    · intro hnone
      refine ⟨hplain, ⟨folder, hfolder, ?_⟩, fun closed hnever => ?_⟩
      · rw [fold_wire F]
        exact F.inside_fold hinside
      · rw [fold_wire F, ← Bool.not_eq_true]
        exact fun hin => hnone ⟨closed, hnever, hin⟩

theorem mem_map_asciiLower {unit : CodeUnit} (hfew : unit.toNat < 65 ∨ unit = backslash)
    (text : JsString) : unit ∈ text.map asciiLower ↔ unit ∈ text := by
  have hsame : ∀ other, asciiLower other = unit ↔ other = unit := by
    intro other
    unfold asciiLower
    split
    · next hletter =>
      have hsum : (other + 32).toNat = other.toNat + 32 := by
        rw [UInt16.toNat_add, Nat.mod_eq_of_lt]
        · rfl
        · have h32 : (32 : UInt16).toNat = 32 := rfl
          omega
      have hback : backslash.toNat = 92 := rfl
      refine iff_of_false ?_ ?_
      · rintro rfl
        rcases hfew with hlt | heq
        · omega
        · have := congrArg UInt16.toNat heq
          omega
      · rintro rfl
        rcases hfew with hlt | heq
        · omega
        · have := congrArg UInt16.toNat heq
          omega
    · exact Iff.rfl
  rw [mem_map]
  constructor
  · rintro ⟨other, hmem, heq⟩
    rwa [← (hsame other).mp heq]
  · exact fun hmem => ⟨unit, hmem, (hsame unit).mpr rfl⟩

theorem plainMethods_folding : Folding plainMethods where
  toNormalForm := plainMethods_normalForm
  nfc_slash _ _ := rfl
  lower_slash left right := map_append
  lower_slash_iff := mem_map_asciiLower (.inl (by decide))
  lower_backslash_iff := mem_map_asciiLower (.inr rfl)

/-- The notes of an inbox are sent as they are named. -/
def inboxTask : JsString := ascii "---\nmay_write: [Inbox]\n---\nSort."

theorem writeAsAgent_scoped_inbox :
    writeAsAgent plainMethods (parseTaskNote inboxTask) (ascii "Inbox/Plan.md") =
      .ok (some (ascii "Inbox/Plan.md")) ∧
    Scoped plainMethods (parseTaskNote inboxTask) (ascii "Inbox/Plan.md") := by
  have hsent : writeAsAgent plainMethods (parseTaskNote inboxTask) (ascii "Inbox/Plan.md") =
      .ok (some (ascii "Inbox/Plan.md")) := by decide +kernel
  refine ⟨hsent, (writeAsAgent_scoped plainMethods plainMethods_folding _ _ _ hsent).mpr ?_⟩
  rintro ⟨folder, -, front, rest, hsplit, -, -⟩
  have hmem : backslash ∈ ascii "Inbox/Plan.md" := by
    rw [hsplit]
    exact mem_append_right _ mem_cons_self
  exact absurd hmem (by decide +kernel)

/-- A task note that names a folder with a backslash. -/
def backslashTask : JsString := ascii "---\nmay_write: [Havemind\\Agents]\n---\nSort."

/-- The agent writes a task note, which no task note can allow. -/
theorem writeAsAgent_opens_control :
    writeAsAgent plainMethods (parseTaskNote backslashTask) (ascii "Havemind\\Agents/Bot.md") =
      .ok (some (ascii "Havemind/Agents/Bot.md")) ∧
    ¬ Scoped plainMethods (parseTaskNote backslashTask) (ascii "Havemind/Agents/Bot.md") := by
  refine ⟨by decide +kernel, fun hscoped => ?_⟩
  have hout := hscoped.closed (ascii "Havemind") (by decide +kernel)
  exact absurd hout (by decide +kernel)

end Havemind.AgentScope
