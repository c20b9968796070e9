import Havemind.PathBoundary

/-!
The producer's scope of the vault: which paths it sends, under which form and
of which kind. The scope and the checks of the wire are separate chains over
separately normalised forms; a path in scope is one the wire accepts.
-/
namespace Havemind.PathScope

open JsText JsonText VaultPath PathBoundary List
open VaultPayload (SyncContentKind)

section
variable (unicode : UnicodeMethods)

def syncableBinaryExtensions : List JsString :=
  [ascii "png", ascii "jpg", ascii "jpeg", ascii "gif", ascii "webp", ascii "svg", ascii "pdf"]

def configTextExtensions : List JsString := [ascii "css", ascii "json"]

/-- A segment that is empty or starts with a dot. -/
def isHidden (segment : JsString) : Bool := segment = [] ∨ segment.head? = some dot

def syncContentKind (canonicalPath : JsString) : Option SyncContentKind :=
  let extension := pathExtension unicode canonicalPath
  if isSyncableConfigPath unicode canonicalPath then
    if syncableBinaryExtensions.contains extension then some .binary
    else if configTextExtensions.contains extension then some .markdown else none
  else
    let kind : Option SyncContentKind :=
      if extension = ascii "md" then some .markdown
      else if syncableBinaryExtensions.contains extension then some .binary else none
    let hidden := (segmentsOf canonicalPath).any isHidden
    if kind = none ∨ hidden ∨ reservedRoot unicode canonicalPath then none else kind

def normalizeWirePath (path : JsString) : JsString := unicode.normalizeNfc (normalizeSeparators path)

structure Eligible where
  canonicalPath : JsString
  collisionKey : JsString
  kind : SyncContentKind
  deriving DecidableEq

/-- `none` is the path that is not eligible. -/
def classifyVaultPath (path : JsString) : Option Eligible :=
  let canonicalPath := normalizeWirePath unicode path
  match syncContentKind unicode canonicalPath with
  | none => none
  | some kind => some ⟨canonicalPath, unicode.toLowerCase canonicalPath, kind⟩

end

/-- What is documented of the normal form: it is its own normal form, and the
separators and control characters take no part in any composition. -/
structure NormalForm (unicode : UnicodeMethods) : Prop where
  idempotent : ∀ text, unicode.normalizeNfc (unicode.normalizeNfc text) = unicode.normalizeNfc text
  slash_iff : ∀ text, slash ∈ unicode.normalizeNfc text ↔ slash ∈ text
  backslash_iff : ∀ text, backslash ∈ unicode.normalizeNfc text ↔ backslash ∈ text
  control_eq : ∀ text,
    containsControlCharacter (unicode.normalizeNfc text) = containsControlCharacter text

/-- What the scope keeps out. The hidden and reserved folders are closed but
for the files the appearance allowlist names, and none of these is a plugin's. -/
structure InScope (unicode : UnicodeMethods) (path : JsString) : Prop where
  no_traversal : ∀ segment ∈ segmentsOf path,
    segment ≠ [] ∧ segment ≠ ascii "." ∧ segment ≠ ascii ".."
  no_hidden : ∀ segment ∈ segmentsOf path, segment.head? = some dot →
    isSyncableConfigPath unicode path = true
  not_reserved : reservedRoot unicode path = false
  no_plugins : ∀ root second rest, segmentsOf path = root :: second :: rest →
    unicode.toLowerCase root = configFolder → root = configFolder ∧ second ≠ pluginsFolder

variable {unicode : UnicodeMethods} {path : JsString} {kind : SyncContentKind}

theorem backslash_not_mem_normalizeSeparators (path : JsString) :
    backslash ∉ normalizeSeparators path := by
  intro hmem
  obtain ⟨unit, _, hunit⟩ := mem_map.mp hmem
  split_ifs at hunit with hback
  · exact absurd hunit (by decide)
  · exact hback hunit

theorem backslash_not_mem_normalizeWirePath (laws : NormalForm unicode) (path : JsString) :
    backslash ∉ normalizeWirePath unicode path := by
  intro hmem
  apply backslash_not_mem_normalizeSeparators path
  exact (laws.backslash_iff _).mp hmem

theorem reservedRoot_of_syncable (h : isSyncableConfigPath unicode path = true) :
    reservedRoot unicode path = false := by
  unfold reservedRoot
  split
  · rfl
  · rw [if_pos h]
    split <;> rfl

theorem unblocked_of_syncable (hbackslash : backslash ∉ path)
    (h : isSyncableConfigPath unicode path = true) :
    ∀ segment ∈ segmentsOf path, segment ≠ [] ∧ segment ≠ ascii "." ∧ segment ≠ ascii ".." := by
  unfold isSyncableConfigPath at h
  rw [normalizeSeparators_eq hbackslash] at h
  dsimp only at h
  split at h
  · cases h
  · split at h
    · cases h
    · rename_i hblocked
      intro segment hsegment
      have hclear : ¬ (segment.length = 0 ∨ segment = ascii "." ∨ segment = ascii ".." ∨
          segment = secretStoreSegment) := by
        intro hbad
        apply hblocked
        exact any_eq_true.mpr ⟨segment, hsegment, decide_eq_true hbad⟩
      refine ⟨fun hnil => hclear (Or.inl (by rw [hnil]; rfl)),
        fun hdot => hclear (Or.inr (Or.inl hdot)),
        fun hdots => hclear (Or.inr (Or.inr (Or.inl hdots)))⟩

/-- What a kind says of a path outside the allowlist. -/
theorem visible_of_kind (h : syncContentKind unicode path = some kind)
    (hconfig : ¬ isSyncableConfigPath unicode path = true) :
    (∀ segment ∈ segmentsOf path, segment ≠ [] ∧ segment.head? ≠ some dot) ∧
      reservedRoot unicode path = false := by
  unfold syncContentKind at h
  dsimp only at h
  rw [if_neg hconfig, Option.ite_none_left_eq_some] at h
  obtain ⟨_, hhidden, hreserved⟩ := not_or.mp h.1 |>.imp id not_or.mp
  refine ⟨?_, Bool.not_eq_true _ ▸ hreserved⟩
  intro segment hsegment
  have hclear : ¬ (segment = [] ∨ segment.head? = some dot) := by
    intro hbad
    apply hhidden
    exact any_eq_true.mpr ⟨segment, hsegment, decide_eq_true hbad⟩
  exact ⟨fun hnil => hclear (Or.inl hnil), fun hdot => hclear (Or.inr hdot)⟩

theorem inScope_of_kind (hbackslash : backslash ∉ path)
    (h : syncContentKind unicode path = some kind) : InScope unicode path := by
  by_cases hconfig : isSyncableConfigPath unicode path = true
  · refine ⟨unblocked_of_syncable hbackslash hconfig, fun _ _ _ => hconfig,
      reservedRoot_of_syncable hconfig, ?_⟩
    intro root second rest hsplit _
    obtain ⟨⟨second', rest', hsplit', hsecond⟩, _⟩ := segments_of_syncable hbackslash hconfig
    rw [hsplit] at hsplit'
    injection hsplit' with hroot htail
    injection htail with hnext _
    refine ⟨hroot, ?_⟩
    rw [hnext]
    rintro rfl
    exact absurd hsecond (by decide)
  · obtain ⟨hvisible, hreserved⟩ := visible_of_kind h hconfig
    have hplain : ∀ segment ∈ segmentsOf path,
        segment ≠ [] ∧ segment ≠ ascii "." ∧ segment ≠ ascii ".." := by
      intro segment hsegment
      obtain ⟨hne, hdot⟩ := hvisible segment hsegment
      refine ⟨hne, ?_, ?_⟩
      · rintro rfl
        exact hdot (by decide)
      · rintro rfl
        exact hdot (by decide)
    refine ⟨hplain, fun segment hsegment hdot => absurd hdot (hvisible segment hsegment).2,
      hreserved, ?_⟩
    intro root second rest hsplit hlower
    -- outside the allowlist the root itself is refused, in any case
    have hmem : unicode.toLowerCase root ∈ reservedRoots unicode := by
      rw [hlower]
      exact mem_cons_self
    unfold reservedRoot at hreserved
    rw [hsplit] at hreserved
    dsimp only at hreserved
    rw [if_neg (not_not.mpr hmem), if_neg hconfig] at hreserved
    cases hreserved

/-- A path without a segment to refuse passes the checks of the wire, when it
is its own normal form and its characters are plain. -/
theorem canonicalizeVaultPath_of_inScope (S : InScope unicode path)
    (hnormal : unicode.normalizeNfc path = path) (hbackslash : backslash ∉ path)
    (hcontrol : containsControlCharacter path = false) (hdrive : windowsDrivePath path = false) :
    canonicalizeVaultPath unicode path = .ok path :=
  canonicalizeVaultPath_fixed S.no_traversal S.not_reserved hnormal hbackslash hcontrol hdrive

/-- What the producer would send, the wire accepts as it is. -/
theorem classifyVaultPath_accepted (laws : NormalForm unicode) (path : JsString)
    (classified : Eligible) (h : classifyVaultPath unicode path = some classified) :
    syncContentKind unicode classified.canonicalPath = some classified.kind ∧
      InScope unicode classified.canonicalPath ∧
      (containsControlCharacter classified.canonicalPath = false →
        windowsDrivePath classified.canonicalPath = false →
        canonicalizeVaultPath unicode classified.canonicalPath = .ok classified.canonicalPath) := by
  have hshape : classified.canonicalPath = normalizeWirePath unicode path ∧
      syncContentKind unicode classified.canonicalPath = some classified.kind := by
    unfold classifyVaultPath at h
    dsimp only at h
    split at h
    · cases h
    · rename_i kind hkind
      cases h
      exact ⟨rfl, hkind⟩
  obtain ⟨hcanonical, hkind⟩ := hshape
  have hbackslash : backslash ∉ classified.canonicalPath := by
    rw [hcanonical]
    exact backslash_not_mem_normalizeWirePath laws path
  have hnormal : unicode.normalizeNfc classified.canonicalPath = classified.canonicalPath := by
    rw [hcanonical]
    exact laws.idempotent _
  have hscope := inScope_of_kind hbackslash hkind
  exact ⟨hkind, hscope, canonicalizeVaultPath_of_inScope hscope hnormal hbackslash⟩

theorem plainMethods_normalForm : NormalForm plainMethods :=
  ⟨fun _ => rfl, fun _ => Iff.rfl, fun _ => Iff.rfl, fun _ => rfl⟩

/-- A note under a backslash is sent under a slash. -/
theorem backslash_note_accepted :
    classifyVaultPath plainMethods (ascii "Notes\\Plan.MD") =
      some ⟨ascii "Notes/Plan.MD", ascii "notes/plan.md", .markdown⟩ ∧
    canonicalizeVaultPath plainMethods (ascii "Notes/Plan.MD") = .ok (ascii "Notes/Plan.MD") := by
  have hclassified : classifyVaultPath plainMethods (ascii "Notes\\Plan.MD") =
      some ⟨ascii "Notes/Plan.MD", ascii "notes/plan.md", .markdown⟩ := by decide +kernel
  refine ⟨hclassified, ?_⟩
  exact (classifyVaultPath_accepted plainMethods_normalForm (ascii "Notes\\Plan.MD") _
    hclassified).2.2 (by decide +kernel) (by decide +kernel)

end Havemind.PathScope
