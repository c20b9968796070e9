import Havemind.ConflictMarks
import Havemind.PayloadRoundTrip
import Havemind.VaultFilePort

/-!
A conflict copy finds its note again: the name the apply side builds is read back to its
author, its time and, where nothing was cut or counted, its note.
-/
namespace Havemind.ConflictPairing

open JsText JsonText VaultPath PathScope ConflictNames ConflictMarks List Option
open VaultPayload (SyncContentKind)

section
variable {unicode : UnicodeMethods} {path author base extension : JsString} {kind : SyncContentKind}

theorem parse_of_exec (unicode : UnicodeMethods) {found : SuffixMatch} (hdot : dot ∉ extension)
    (hexec : execNewSuffix base = some found) (hfront : found.front ≠ []) :
    ∃ parsed, parseConflictCopyName unicode (base ++ dot :: extension) = some parsed ∧
      parsed.kind = .new ∧ parsed.extension = extension ∧
      parsed.noteBasename = some found.front ∧ parsed.author = some found.author ∧
      parsed.timestamp = some found.timestamp := by
  have hbase : base ≠ [] := by
    rintro rfl
    cases hexec
  have hlength : found.front.length ≠ 0 := fun h => hfront (length_eq_zero_iff.mp h)
  unfold parseConflictCopyName
  rw [splitExtension_append hbase hdot]
  dsimp only
  rw [hexec]
  dsimp only
  rw [if_neg hlength]
  exact ⟨_, rfl, rfl, rfl, rfl, rfl, rfl⟩

theorem exec_of_parse {parsed : ParsedConflictName} (hbase : base ≠ []) (hdot : dot ∉ extension)
    (h : parseConflictCopyName unicode (base ++ dot :: extension) = some parsed)
    (hkind : parsed.kind = .new) :
    ∃ found, execNewSuffix base = some found ∧ parsed.extension = extension ∧
      parsed.noteBasename = some found.front ∧ parsed.author = some found.author ∧
      parsed.timestamp = some found.timestamp := by
  unfold parseConflictCopyName at h
  rw [splitExtension_append hbase hdot] at h
  dsimp only at h
  cases hexec : execNewSuffix base with
  | none =>
    rw [hexec] at h
    dsimp only at h
    split at h
    · rw [← some.inj h] at hkind
      cases hkind
    · cases h
  | some found =>
    rw [hexec] at h
    dsimp only at h
    split at h
    · cases h
    · rw [← some.inj h]
      exact ⟨found, rfl, rfl, rfl, rfl, rfl⟩

/-- A name that is read back to what it was built from, and pairs with its note. -/
structure FindsNote (unicode : UnicodeMethods) (path author : JsString) (now : LocalTime)
    (k r : ℕ) (name : JsString) : Prop where
  parses : ∃ parsed, parseConflictCopyName unicode name = some parsed ∧ parsed.kind = .new ∧
    parsed.extension = pathExtension unicode path ∧ parsed.author = some author ∧
    parsed.timestamp = some (formatConflictTimestamp now) ∧
    (k = 0 → r = 0 → (noteBasename path).length ≤ maxConflictBasenameLength →
      parsed.noteBasename = some (noteBasename path))
  pairs : k = 0 → r = 0 → (noteBasename path).length ≤ maxConflictBasenameLength →
    ∀ (port : ConflictVaultPort) (copyPath : JsString),
      ⟨copyPath, name⟩ ∈ port.listConflictFiles →
      (port.listNoteFiles.filter fun note => note.name = leafOf path) = [⟨path, leafOf path⟩] →
      ∃ copy ∈ listConflictCopies unicode port, copy.copyPath = copyPath ∧
        copy.copyName = name ∧ copy.targetPath = some path

/-- The condition: the stamp's year has four digits, no marker of the title swallows the
suffix, a redelivery finds no second marker, and the extension is in lower case where the
copy has to pair. -/
structure ReadsBack (unicode : UnicodeMethods) (path author : JsString) (now : LocalTime)
    (k r : ℕ) : Prop where
  year : 1000 ≤ now.year ∧ now.year ≤ 9999
  unmarked : Unmarked (copyTitle path k ++ counterText r)
  single : r ≠ 0 → SingleMark author
  lower_case : k = 0 → r = 0 → (noteBasename path).length ≤ maxConflictBasenameLength →
    leafOf path = noteBasename path ++ dot :: pathExtension unicode path

/-- A kind says what the extension of a note or attachment is. -/
theorem extension_of_kind (hkind : syncContentKind unicode path = some kind)
    (hconfig : isSyncableConfigPath unicode path = false) :
    conflictExtension unicode path kind = pathExtension unicode path ∧
      pathExtension unicode path ∈ ascii "md" :: syncableBinaryExtensions := by
  unfold syncContentKind at hkind
  rw [hconfig, if_neg Bool.false_ne_true, Option.ite_none_left_eq_some] at hkind
  obtain ⟨-, hkind⟩ := hkind
  by_cases hmd : pathExtension unicode path = ascii "md"
  · rw [if_pos hmd] at hkind
    rw [← some.inj hkind, hmd]
    exact ⟨rfl, mem_cons_self⟩
  · rw [if_neg hmd, Option.ite_none_right_eq_some] at hkind
    obtain ⟨hlisted, hbinary⟩ := hkind
    have hmem := contains_iff_mem.mp hlisted
    have hne : pathExtension unicode path ≠ [] := by
      intro hnil
      rw [hnil] at hmem
      exact absurd hmem (by decide)
    rw [← some.inj hbinary, conflictExtension, if_neg hne]
    exact ⟨rfl, mem_cons_of_mem _ hmem⟩

theorem plain_extension (h : extension ∈ ascii "md" :: syncableBinaryExtensions) :
    extension ≠ [] ∧ dot ∉ extension ∧ slash ∉ extension ∧ (40 : CodeUnit) ∉ extension := by
  have hall : ∀ extension ∈ ascii "md" :: syncableBinaryExtensions, extension ≠ [] ∧
      dot ∉ extension ∧ slash ∉ extension ∧ (40 : CodeUnit) ∉ extension := by
    decide +kernel
  exact hall extension h

theorem leafOf_placedUnder (folder : JsString) {leaf : JsString} (h : leafOf path = leaf) :
    leafOf (placedUnder folder path) = leaf := by
  obtain ⟨-, -, -, hslash⟩ := exists_folder path
  rw [h] at hslash
  unfold placedUnder
  rw [h]
  by_cases hroot : folder = []
  · rw [if_pos hroot]
    exact leafOf_append (.inl rfl) hslash
  · rw [if_neg hroot]
    exact leafOf_append (.inr ⟨folder, rfl⟩) hslash

/-- The name of a copy as it is first built. -/
theorem leafOf_candidate {now : LocalTime} {k : ℕ} {folder : JsString}
    (hkind : syncContentKind unicode path = some kind)
    (hconfig : isSyncableConfigPath unicode path = false) (hslash : slash ∉ author) :
    leafOf (conflictCandidate unicode folder path kind author now k) =
      copyTitle path k ++ conflictSuffix author (formatConflictTimestamp now) ++
        dot :: pathExtension unicode path := by
  obtain ⟨hextension, hlisted⟩ := extension_of_kind hkind hconfig
  obtain ⟨hne, -, hplain, -⟩ := plain_extension hlisted
  obtain ⟨raw, hleaf, -⟩ := extension_split hne
  obtain ⟨-, -, -, hclear⟩ := exists_folder path
  have hname : slash ∉ noteBasename path := by
    intro hmem
    apply hclear
    rw [hleaf]
    exact mem_append_left _ hmem
  have hstamp : slash ∉ formatConflictTimestamp now :=
    notMem_timestamp (by decide) (by decide) (by decide) now
  have hsplit : conflictCandidate unicode folder path kind author now k =
      (folder ++ [slash]) ++ (copyTitle path k ++
        conflictSuffix author (formatConflictTimestamp now) ++
          dot :: pathExtension unicode path) := by
    rw [conflictCandidate, hextension]
    rfl
  rw [hsplit]
  apply leafOf_append (.inr ⟨folder, rfl⟩)
  simp only [copyTitle, conflictSuffix, mem_append, mem_cons, not_or]
  refine ⟨⟨⟨fun hmem => hname (mem_of_mem_take hmem), slash_counterText k⟩,
    by decide, hslash, ⟨by decide, hstamp⟩, by decide⟩, by decide, hplain⟩

end

variable {unicode : UnicodeMethods} {folder path title author extension : JsString}
variable {kind : SyncContentKind} {now : LocalTime} {k r : ℕ}

/-- The expression gives author and stamp of a name exactly where the condition holds of it. -/
theorem exec_copy_iff {base front : JsString} (hauthor : author ≠ [])
    (hline : author.any isLineTerminator = false)
    (hbase : base = title ++ conflictSuffix author (formatConflictTimestamp now)) :
    execNewSuffix base = some ⟨front, author, formatConflictTimestamp now⟩ ↔
      front = title ∧ (1000 ≤ now.year ∧ now.year ≤ 9999) ∧ Unmarked title := by
  rw [← execNewSuffix_copy_iff hauthor hline, ← hbase]
  constructor
  · intro hexec
    have htext := (matches_of_exec hexec).text_eq
    rw [hbase] at htext
    have hfront := append_cancel_right htext
    exact ⟨hfront.symm, hfront ▸ hexec⟩
  · rintro ⟨rfl, hexec⟩
    exact hexec

/-- The base of the `r`th redelivery's name, and when it is read back. -/
theorem exec_attempt_iff (hauthor : author ≠ []) (hline : author.any isLineTerminator = false)
    (hparen : (40 : CodeUnit) ∉ extension) (r : ℕ)
    (hleaf : leafOf path = title ++ conflictSuffix author (formatConflictTimestamp now) ++
      dot :: extension) :
    ∃ base, leafOf (attemptPath path r) = base ++ dot :: extension ∧ title.length ≤ base.length ∧
      ∀ front, execNewSuffix base = some ⟨front, author, formatConflictTimestamp now⟩ ↔
        front = title ++ counterText r ∧ (1000 ≤ now.year ∧ now.year ≤ 9999) ∧
          Unmarked (title ++ counterText r) ∧ (r ≠ 0 → SingleMark author) := by
  cases r with
  | zero =>
    refine ⟨title ++ conflictSuffix author (formatConflictTimestamp now), hleaf, ?_,
      fun front => ?_⟩
    · rw [length_append]
      omega
    · rw [exec_copy_iff hauthor hline rfl, counterText, append_nil]
      simp
  | succ r =>
    have hstamp : (40 : CodeUnit) ∉ formatConflictTimestamp now :=
      notMem_timestamp (by decide) (by decide) (by decide) now
    have hrest : (40 : CodeUnit) ∉
        formatConflictTimestamp now ++ (ascii ")" ++ dot :: extension) := by
      simp only [mem_append, mem_cons, not_or]
      exact ⟨hstamp, by decide, by decide, hparen⟩
    have hmarked : leafOf path = title ++ (conflictMarker ++ (author ++ blank ::
        (formatConflictTimestamp now ++ (ascii ")" ++ dot :: extension)))) := by
      rw [hleaf, conflictSuffix]
      simp only [append_assoc]
      rfl
    rcases numbered_leaf r hrest hmarked with
      ⟨hsingle, hnumbered⟩ | ⟨hdouble, inner, tail, hname, hnumbered⟩
    · refine ⟨(title ++ counterText (r + 1)) ++
        conflictSuffix author (formatConflictTimestamp now), ?_, ?_, fun front => ?_⟩
      · rw [attemptPath, hnumbered, conflictSuffix]
        simp only [append_assoc]
        rfl
      · simp only [length_append]
        omega
      · rw [exec_copy_iff hauthor hline rfl]
        simp [hsingle]
    · refine ⟨title ++ (markerHead ++ (inner ++ (counterText (r + 1) ++ (conflictMarker ++
        (tail ++ (formatConflictTimestamp now ++ ascii ")")))))), ?_, ?_, fun front => ?_⟩
      · rw [attemptPath, hnumbered]
        simp only [append_assoc]
      · rw [length_append]
        omega
      · constructor
        · intro hexec
          exact (counter_in_author r hname (matches_of_exec hexec).text_eq).elim
        · intro h
          exact absurd (h.2.2.2 (Nat.succ_ne_zero r)) hdouble

/-- What the list makes of a copy that is read back. -/
theorem conflictCopy_of_parse (notes : List ConflictVaultFile) (file : ConflictVaultFile)
    {parsed : ParsedConflictName} {basename : JsString}
    (hparse : parseConflictCopyName unicode file.name = some parsed) (hnew : parsed.kind = .new)
    (hbasename : parsed.noteBasename = some basename) :
    ∃ copy, conflictCopy unicode notes file = some copy ∧ copy.copyPath = file.path ∧
      copy.copyName = file.name ∧
      (∀ note, (notes.filter fun note => note.name = basename ++ dot :: parsed.extension) = [note] →
        copy.targetPath = some note.path) ∧
      ((notes.filter fun note => note.name = basename ++ dot :: parsed.extension) = [] →
        copy.targetPath = none) := by
  have htarget : parsed.noteBasename.getD [] ++ ascii "." ++ parsed.extension =
      basename ++ dot :: parsed.extension := by
    rw [hbasename, append_assoc]
    rfl
  unfold conflictCopy
  rw [hparse, map_some]
  refine ⟨_, rfl, ?_⟩
  rw [hnew]
  dsimp only
  rw [htarget]
  refine ⟨rfl, rfl, fun note hunique => ?_, fun hnone => ?_⟩
  · rw [hunique]
    rfl
  · rw [hnone]
    rfl

theorem mem_listConflictCopies {port : ConflictVaultPort} {copy : ConflictCopy} :
    copy ∈ listConflictCopies unicode port ↔
      ∃ file ∈ port.listConflictFiles,
        conflictCopy unicode port.listNoteFiles file = some copy := by
  rw [listConflictCopies, mem_insertionSort, mem_filterMap]

/-- A copy is read back to what it was built from, and pairs with its note where it has to,
exactly under the condition: for every note or attachment, author, time and both counters. -/
theorem copy_finds_note_iff (hkind : syncContentKind unicode path = some kind)
    (hconfig : isSyncableConfigPath unicode path = false) (hauthor : author ≠ [])
    (hslash : slash ∉ author) (hline : author.any isLineTerminator = false)
    (folder : JsString) (now : LocalTime) (k r : ℕ) :
    FindsNote unicode path author now k r (copyName unicode folder path kind author now k r) ↔
      ReadsBack unicode path author now k r := by
  obtain ⟨-, hlisted⟩ := extension_of_kind hkind hconfig
  obtain ⟨hne, hdot, -, hparen⟩ := plain_extension hlisted
  obtain ⟨raw, hwritten, hbasename, -⟩ := extension_split hne
  have hplaced : leafOf (placedUnder folder
      (conflictCandidate unicode conflictFolder path kind author now k)) =
      copyTitle path k ++ conflictSuffix author (formatConflictTimestamp now) ++
        dot :: pathExtension unicode path :=
    leafOf_placedUnder folder (leafOf_candidate hkind hconfig hslash)
  obtain ⟨base, hname, hlong, hread⟩ :=
    exec_attempt_iff hauthor hline hparen r hplaced
  have htitle : copyTitle path k ≠ [] := by
    intro hnil
    have htake := (append_eq_nil_iff.mp hnil).1
    rw [take_eq_nil_iff] at htake
    exact htake.elim (by decide) hbasename
  have hbase : base ≠ [] := by
    rintro rfl
    exact htitle (length_eq_zero_iff.mp (Nat.le_zero.mp hlong))
  have hcopy : copyName unicode folder path kind author now k r =
      base ++ dot :: pathExtension unicode path := hname
  rw [hcopy]
  -- without counters the name holds the whole basename where it fits the limit
  have hwhole : k = 0 → (noteBasename path).length ≤ maxConflictBasenameLength →
      copyTitle path k = noteBasename path := by
    rintro rfl hfits
    rw [copyTitle, counterText, append_nil, take_of_length_le hfits]
  constructor
  · rintro ⟨⟨parsed, hparse, hnew, hextension, hby, hat, hnote⟩, hpairs⟩
    obtain ⟨found, hexec, -, -, hfoundAuthor, hfoundStamp⟩ := exec_of_parse hbase hdot hparse hnew
    rw [hby] at hfoundAuthor
    rw [hat] at hfoundStamp
    have hsame : execNewSuffix base =
        some ⟨found.front, author, formatConflictTimestamp now⟩ := by
      rw [hexec, some.inj hfoundAuthor, some.inj hfoundStamp]
    obtain ⟨-, hyear, hunmarked, hsingle⟩ := (hread found.front).mp hsame
    refine ⟨hyear, hunmarked, hsingle, fun hk hr hfits => ?_⟩
    by_contra hcase
    obtain ⟨copy, hmem, hcopyPath, hcopyName, htarget⟩ := hpairs hk hr hfits
      { listConflictFiles := [⟨[], base ++ dot :: pathExtension unicode path⟩]
        listNoteFiles := [⟨path, leafOf path⟩]
        localeLe := fun _ _ => true } [] mem_cons_self (by simp)
    obtain ⟨file, hfile, hmade⟩ := mem_listConflictCopies.mp hmem
    obtain ⟨copy', hmade', -, -, -, hmissed⟩ :=
      conflictCopy_of_parse [⟨path, leafOf path⟩] file
        (by rw [mem_singleton.mp hfile]; exact hparse) hnew (hnote hk hr hfits)
    rw [hmade] at hmade'
    rw [some.inj hmade', hmissed] at htarget
    · cases htarget
    · rw [filter_cons_of_neg (by simpa [hextension] using hcase), filter_nil]
  · rintro ⟨hyear, hunmarked, hsingle, hlower⟩
    have hexec := (hread _).mpr ⟨rfl, hyear, hunmarked, hsingle⟩
    have hfront : copyTitle path k ++ counterText r ≠ [] :=
      fun hnil => htitle (append_eq_nil_iff.mp hnil).1
    obtain ⟨parsed, hparse, hnew, hextension, hnote, hby, hat⟩ :=
      parse_of_exec unicode hdot hexec hfront
    have hbasename' : k = 0 → r = 0 → (noteBasename path).length ≤ maxConflictBasenameLength →
        parsed.noteBasename = some (noteBasename path) := by
      rintro hk rfl hfits
      rw [hnote, hwhole hk hfits, counterText, append_nil]
    refine ⟨⟨parsed, hparse, hnew, hextension, hby, hat, hbasename'⟩, ?_⟩
    intro hk hr hfits port copyPath hmem hunique
    obtain ⟨copy, hmade, hpath, hcopyName, hpaired, -⟩ :=
      conflictCopy_of_parse port.listNoteFiles
        ⟨copyPath, base ++ dot :: pathExtension unicode path⟩ hparse hnew
        (hbasename' hk hr hfits)
    refine ⟨copy, mem_listConflictCopies.mpr ⟨_, hmem, hmade⟩, hpath, hcopyName, ?_⟩
    apply hpaired ⟨path, leafOf path⟩
    rw [hextension, ← hlower hk hr hfits]
    exact hunique

/-- A minute of February 2024. -/
def sampleTime : LocalTime := ⟨2024, 1, 3, 14, 5⟩

theorem unmarked_of_short (h : title.length < 10) : Unmarked title := by
  intro front back hmark
  have hlength := congrArg List.length hmark
  have hmarker : conflictMarker.length = 11 := rfl
  simp only [length_append, length_singleton, hmarker] at hlength
  omega

theorem copy_finds_note_a : FindsNote plainMethods (ascii "notes/a.md") (ascii "Bob") sampleTime
    0 0 (copyName plainMethods (ascii "Havemind Conflicts") (ascii "notes/a.md") .markdown
      (ascii "Bob") sampleTime 0 0) := by
  have hyear : 1000 ≤ sampleTime.year ∧ sampleTime.year ≤ 9999 := by decide
  have hshort : (copyTitle (ascii "notes/a.md") 0 ++ counterText 0).length < 10 := by decide
  apply (copy_finds_note_iff (by decide +kernel) (by decide +kernel) (by decide) (by decide)
    (by decide) _ _ _ _).mpr
  exact ⟨hyear, unmarked_of_short hshort, fun h => absurd rfl h,
    fun _ _ _ => by decide +kernel⟩

/-- A copy that was moved among the notes: the copy of it names the first note. -/
def movedCopy : JsString := ascii "A (conflict Bob 2024-01-01 1200).md"

theorem copy_of_moved_copy_misses :
    syncContentKind plainMethods movedCopy = some .markdown ∧
    isSyncableConfigPath plainMethods movedCopy = false ∧
    (parseConflictCopyName plainMethods (copyName plainMethods conflictFolder movedCopy
      .markdown (ascii "Eve") sampleTime 0 0)).map
        (fun parsed => (parsed.noteBasename, parsed.author)) =
      some (some (ascii "A"), some (ascii "Bob 2024-01-01 1200) (conflict Eve")) ∧
    ¬ FindsNote plainMethods movedCopy (ascii "Eve") sampleTime 0 0
      (copyName plainMethods conflictFolder movedCopy .markdown (ascii "Eve")
        sampleTime 0 0) := by
  have hread : (parseConflictCopyName plainMethods (copyName plainMethods conflictFolder
      movedCopy .markdown (ascii "Eve") sampleTime 0 0)).map
        (fun parsed => (parsed.noteBasename, parsed.author)) =
      some (some (ascii "A"), some (ascii "Bob 2024-01-01 1200) (conflict Eve")) := by
    decide +kernel
  refine ⟨by decide +kernel, by decide +kernel, hread, fun hfinds => ?_⟩
  obtain ⟨parsed, hparse, -, -, hauthor, -⟩ := hfinds.parses
  rw [hparse, map_some, hauthor] at hread
  have hnames : some (ascii "Eve") = some (ascii "Bob 2024-01-01 1200) (conflict Eve") :=
    congrArg Prod.snd (some.inj hread)
  exact absurd hnames (by decide)

end Havemind.ConflictPairing
