import Havemind.JsNumber
import Havemind.PathScope
import Mathlib.Data.List.Sort
import Mathlib.Data.Nat.Digits.Lemmas

/-!
The names of conflict copies: how the apply side builds one from its note's path, the
author and the time, how a redelivery numbers it, and how the list of copies reads it
back.
-/
namespace Havemind.ConflictNames

open JsText JsonText JsNumber VaultPath List
open VaultPayload (SyncContentKind)

section
variable (unicode : UnicodeMethods)

def maxConflictBasenameLength : ℕ := 60

/-- The fields of a date in local time. -/
structure LocalTime where
  year : ℤ
  month : Fin 12
  day : Fin 31
  hours : Fin 24
  minutes : Fin 60

/-- `String(n)` of an integer. -/
def integerText (n : ℤ) : JsString :=
  if n = 0 then ascii "0" else (if n < 0 then ascii "-" else []) ++ decimalText n.natAbs

/-- `String(value).padStart(2, '0')`. -/
def pad (value : ℕ) : JsString :=
  let text := integerText value
  zeros (2 - text.length) ++ text

def formatConflictTimestamp (date : LocalTime) : JsString :=
  integerText date.year ++ ascii "-" ++ pad (date.month + 1) ++ ascii "-" ++ pad (date.day + 1) ++
    (ascii " " ++ pad date.hours ++ pad date.minutes)

def leafOf (path : JsString) : JsString := path.drop (lastIndexOf path slash + 1).toNat

def noteBasename (path : JsString) : JsString :=
  let leaf := leafOf path
  let dotIndex := lastIndexOf leaf dot
  if dotIndex ≤ 0 then leaf else leaf.take dotIndex.toNat

def conflictMarker : JsString := ascii " (conflict "

def conflictSuffix (author stamp : JsString) : JsString :=
  conflictMarker ++ (author ++ (ascii " " ++ stamp ++ ascii ")"))

def conflictExtension (path : JsString) : SyncContentKind → JsString
  | .markdown => ascii "md"
  | .binary => if pathExtension unicode path = [] then ascii "bin" else pathExtension unicode path

/-- The counter of a name that is taken; the first name has none. -/
def counterText : ℕ → JsString
  | 0 => []
  | k + 1 => ascii " " ++ integerText (k + 2 : ℕ)

/-- The name of a copy in front of its suffix, when `k` names were taken. -/
def copyTitle (path : JsString) (k : ℕ) : JsString :=
  (noteBasename path).take maxConflictBasenameLength ++ counterText k

def conflictCandidate (conflictFolder path : JsString) (kind : SyncContentKind)
    (author : JsString) (now : LocalTime) (k : ℕ) : JsString :=
  conflictFolder ++ ascii "/" ++ (copyTitle path k ++
    conflictSuffix author (formatConflictTimestamp now) ++
      (ascii "." ++ conflictExtension unicode path kind))

/-- `lastIndexOf` of a text, from the end to the front. -/
def lastOccurrence (word : JsString) : JsString → Option ℕ
  | [] => if word = [] then some 0 else none
  | unit :: rest =>
    match lastOccurrence word rest with
    | some index => some (index + 1)
    | none => if word.isPrefixOf (unit :: rest) then some 0 else none

/-- The name of the `n`th attempt to place a copy. -/
def numberedConflictPath (path : JsString) (n : ℕ) : JsString :=
  let folder := path.take (lastIndexOf path slash + 1).toNat
  let leaf := leafOf path
  let dotIndex := lastIndexOf leaf dot
  let cut :=
    match lastOccurrence conflictMarker leaf with
    | some index => index
    | none => if 0 < dotIndex then dotIndex.toNat else leaf.length
  folder ++ (leaf.take cut ++ (ascii " " ++ integerText n) ++ leaf.drop cut)

/-- Where the `r`th redelivery of a copy is placed: attempt `r + 1` of the loop. -/
def attemptPath (path : JsString) : ℕ → JsString
  | 0 => path
  | r + 1 => numberedConflictPath path (r + 2)

/-- The end of `resolveConflictTarget`: the folder may be another one or the root, the
name stays. -/
def placedUnder (resolvedFolder path : JsString) : JsString :=
  if resolvedFolder = [] then leafOf path else resolvedFolder ++ ascii "/" ++ leafOf path

/-- The name of a copy when `k` names were taken and it is the `r`th redelivery. -/
def copyName (resolvedFolder path : JsString) (kind : SyncContentKind) (author : JsString)
    (now : LocalTime) (k r : ℕ) : JsString :=
  leafOf (attemptPath (placedUnder resolvedFolder
    (conflictCandidate unicode conflictFolder path kind author now k)) r)

end

section
variable (unicode : UnicodeMethods)

def isLineTerminator (unit : CodeUnit) : Bool :=
  unit = 10 ∨ unit = 13 ∨ unit = 0x2028 ∨ unit = 0x2029

def isHexDigit (unit : CodeUnit) : Bool := (hexValue unit).isSome

/-- One test for each unit of the text. -/
def fitsPattern : List (CodeUnit → Bool) → JsString → Bool
  | [], [] => true
  | test :: tests, unit :: rest => test unit && fitsPattern tests rest
  | _, _ => false

def exactly (text : JsString) : List (CodeUnit → Bool) := text.map fun unit other => other = unit

def digitRun (count : ℕ) : List (CodeUnit → Bool) := List.replicate count isDigit

def hexRun (count : ℕ) : List (CodeUnit → Bool) := List.replicate count isHexDigit

/-- `\d{4}-\d{2}-\d{2} \d{4}`. -/
def stampPattern : List (CodeUnit → Bool) :=
  digitRun 4 ++ exactly (ascii "-") ++ digitRun 2 ++ exactly (ascii "-") ++ digitRun 2 ++
    exactly (ascii " ") ++ digitRun 4

def uuidPattern : List (CodeUnit → Bool) :=
  hexRun 8 ++ exactly (ascii "-") ++ hexRun 4 ++ exactly (ascii "-") ++ hexRun 4 ++
    exactly (ascii "-") ++ hexRun 4 ++ exactly (ascii "-") ++ hexRun 12

def legacyUuid (base : JsString) : Bool :=
  fitsPattern (uuidPattern ++ exactly (ascii "-") ++ uuidPattern) base

structure SuffixMatch where
  front : JsString
  author : JsString
  timestamp : JsString
  deriving DecidableEq

/-- `(.+) (\d{4}-\d{2}-\d{2} \d{4})\)$`: the stamp and what is around it have a fixed length,
so the author is what is left. -/
def matchAuthor (rest : JsString) : Option (JsString × JsString) :=
  let author := rest.take (rest.length - 17)
  let ending := rest.drop (rest.length - 17)
  if author ≠ [] ∧ (author.any isLineTerminator = false) ∧
      fitsPattern (exactly (ascii " ") ++ stampPattern ++ exactly (ascii ")")) ending then
    some (author, (ending.drop 1).take 15)
  else none

/-- `NEW_SUFFIX_RE.exec`: the first place where the expression matches. -/
def execNewSuffix : JsString → Option SuffixMatch
  | [] => none
  | unit :: rest =>
    match
      if conflictMarker.isPrefixOf (unit :: rest) then
        matchAuthor ((unit :: rest).drop conflictMarker.length)
      else none with
    | some (author, timestamp) => some ⟨[], author, timestamp⟩
    | none => (execNewSuffix rest).map fun found => { found with front := unit :: found.front }

def splitExtension (name : JsString) : JsString × JsString :=
  let dotIndex := lastIndexOf name dot
  if dotIndex ≤ 0 then (name, []) else (name.take dotIndex.toNat, name.drop (dotIndex + 1).toNat)

inductive CopyKind
  | new
  | legacy
  deriving DecidableEq

structure ParsedConflictName where
  kind : CopyKind
  extension : JsString
  isBinary : Bool
  noteBasename : Option JsString
  author : Option JsString
  timestamp : Option JsString
  deriving DecidableEq

def parseConflictCopyName (name : JsString) : Option ParsedConflictName :=
  let base := (splitExtension name).1
  let extension := (splitExtension name).2
  let isBinary : Bool := unicode.toLowerCase extension ≠ ascii "md"
  match execNewSuffix base with
  | some found =>
    if found.front.length = 0 then none
    else
      some
        { kind := .new
          extension
          isBinary
          noteBasename := some found.front
          author := some found.author
          timestamp := some found.timestamp }
  | none =>
    if legacyUuid base then
      some
        { kind := .legacy
          extension
          isBinary
          noteBasename := none
          author := none
          timestamp := none }
    else none

end

section
variable (unicode : UnicodeMethods)

structure ConflictVaultFile where
  path : JsString
  name : JsString
  deriving DecidableEq

/-- What the list of copies asks of the vault and of the language's collation. -/
structure ConflictVaultPort where
  listConflictFiles : List ConflictVaultFile
  listNoteFiles : List ConflictVaultFile
  localeLe : JsString → JsString → Bool

structure ConflictCopy where
  copyPath : JsString
  copyName : JsString
  kind : CopyKind
  noteName : Option JsString
  author : Option JsString
  timestamp : Option JsString
  isBinary : Bool
  targetPath : Option JsString
  targetKnown : Bool
  manualHint : Option String
  deriving DecidableEq

def manualHint : String := "Target unknown, open files manually."

def conflictCopy (notes : List ConflictVaultFile) (file : ConflictVaultFile) :
    Option ConflictCopy :=
  (parseConflictCopyName unicode file.name).map fun parsed =>
    match parsed.kind with
    | .legacy =>
      { copyPath := file.path
        copyName := file.name
        kind := .legacy
        noteName := none
        author := none
        timestamp := none
        isBinary := parsed.isBinary
        targetPath := none
        targetKnown := false
        manualHint := some manualHint }
    | .new =>
      let targetLeaf := parsed.noteBasename.getD [] ++ ascii "." ++ parsed.extension
      let unique :=
        match notes.filter fun note => note.name = targetLeaf with
        | [note] => some note
        | _ => none
      { copyPath := file.path
        copyName := file.name
        kind := .new
        noteName := parsed.noteBasename
        author := parsed.author
        timestamp := parsed.timestamp
        isBinary := parsed.isBinary
        targetPath := unique.map (·.path)
        targetKnown := unique.isSome
        manualHint := if unique.isSome then none else some manualHint }

def ByName (port : ConflictVaultPort) (a b : ConflictCopy) : Prop :=
  port.localeLe a.copyName b.copyName = true

instance (port : ConflictVaultPort) : DecidableRel (ByName port) := fun a b =>
  inferInstanceAs (Decidable (port.localeLe a.copyName b.copyName = true))

def listConflictCopies (port : ConflictVaultPort) : List ConflictCopy :=
  (port.listConflictFiles.filterMap (conflictCopy unicode port.listNoteFiles)).insertionSort
    (ByName port)

end

section
variable {tests more : List (CodeUnit → Bool)} {text rest : JsString}

theorem length_of_fits (h : fitsPattern tests text = true) : text.length = tests.length := by
  induction tests generalizing text with
  | nil =>
    cases text with
    | nil => rfl
    | cons unit rest => cases h
  | cons test tests ih =>
    cases text with
    | nil => cases h
    | cons unit rest =>
      rw [fitsPattern, Bool.and_eq_true] at h
      rw [length_cons, length_cons, ih h.2]

theorem fits_append (hlength : text.length = tests.length) :
    fitsPattern (tests ++ more) (text ++ rest) =
      (fitsPattern tests text && fitsPattern more rest) := by
  induction tests generalizing text with
  | nil =>
    rw [length_eq_zero_iff.mp hlength]
    rfl
  | cons test tests ih =>
    cases text with
    | nil => cases hlength
    | cons unit tail =>
      have htail : tail.length = tests.length := Nat.succ.inj hlength
      rw [cons_append, cons_append, fitsPattern, fitsPattern, ih htail, Bool.and_assoc]

theorem fits_exactly (text other : JsString) :
    fitsPattern (exactly text) other = true ↔ other = text := by
  induction text generalizing other with
  | nil =>
    cases other with
    | nil => exact ⟨fun _ => rfl, fun _ => rfl⟩
    | cons unit rest => exact ⟨fun h => absurd h Bool.false_ne_true, fun h => absurd h (by simp)⟩
  | cons unit rest ih =>
    cases other with
    | nil => exact ⟨fun h => absurd h Bool.false_ne_true, fun h => absurd h (by simp)⟩
    | cons first later =>
      rw [exactly, map_cons, ← exactly, fitsPattern, Bool.and_eq_true, ih, decide_eq_true_eq,
        List.cons.injEq]

/-- What the expression says of a text: where the marker stands, the author and the stamp. -/
structure Matches (text front author timestamp : JsString) : Prop where
  text_eq : text = front ++ conflictSuffix author timestamp
  author_ne : author ≠ []
  one_line : author.any isLineTerminator = false
  stamp : fitsPattern stampPattern timestamp = true

theorem stampPattern_length : stampPattern.length = 15 := rfl

theorem fits_ending (timestamp : JsString) (hlength : timestamp.length = 15) :
    fitsPattern (exactly (ascii " ") ++ stampPattern ++ exactly (ascii ")"))
      (ascii " " ++ timestamp ++ ascii ")") = fitsPattern stampPattern timestamp := by
  have hblank : fitsPattern (exactly (ascii " ")) (ascii " ") = true :=
    (fits_exactly _ _).mpr rfl
  have hclose : fitsPattern (exactly (ascii ")")) (ascii ")") = true :=
    (fits_exactly _ _).mpr rfl
  have hfront : (ascii " " ++ timestamp).length = (exactly (ascii " ") ++ stampPattern).length := by
    rw [length_append, length_append, hlength, stampPattern_length]
    rfl
  rw [fits_append hfront, fits_append rfl, hblank, hclose, Bool.true_and, Bool.and_true]

theorem matchAuthor_eq_some {author timestamp : JsString} :
    matchAuthor rest = some (author, timestamp) ↔
      rest = author ++ (ascii " " ++ timestamp ++ ascii ")") ∧ author ≠ [] ∧
        author.any isLineTerminator = false ∧ fitsPattern stampPattern timestamp = true := by
  unfold matchAuthor
  dsimp only
  constructor
  · intro h
    split at h
    · rename_i hmatch
      obtain ⟨hne, hline, hfits⟩ := hmatch
      obtain ⟨hauthor, htimestamp⟩ := Prod.mk.inj (Option.some.inj h)
      have hsplit := take_append_drop (rest.length - 17) rest
      generalize rest.drop (rest.length - 17) = ending at hfits htimestamp hsplit
      have hseventeen : ending.length = 17 := length_of_fits hfits
      have hone : ending.take 1 ++ ending.drop 1 = ending := take_append_drop 1 ending
      have hmiddle := take_append_drop 15 (ending.drop 1)
      have hfirst : (ending.take 1 ++ (ending.drop 1).take 15).length =
          (exactly (ascii " ") ++ stampPattern).length := by
        rw [length_append, length_take, length_take, length_drop, hseventeen]
        rfl
      have hblank : (ending.take 1).length = (exactly (ascii " ")).length := by
        rw [length_take, hseventeen]
        rfl
      rw [← hone, ← hmiddle, ← append_assoc, fits_append hfirst, fits_append hblank,
        Bool.and_eq_true, Bool.and_eq_true, fits_exactly, fits_exactly] at hfits
      obtain ⟨⟨hspace, hstamp⟩, hclose⟩ := hfits
      rw [htimestamp] at hstamp hmiddle
      rw [hauthor] at hne hline
      refine ⟨?_, hne, hline, hstamp⟩
      rw [← hsplit, hauthor, ← hone, hspace, ← hmiddle, hclose, append_assoc]
    · cases h
  · rintro ⟨rfl, hne, hline, hfits⟩
    have hlength := length_of_fits hfits
    rw [stampPattern_length] at hlength
    have hending : (ascii " " ++ timestamp ++ ascii ")").length = 17 := by
      rw [length_append, length_append, hlength]
      rfl
    have htake : (author ++ (ascii " " ++ timestamp ++ ascii ")")).length - 17 = author.length := by
      rw [length_append, hending, Nat.add_sub_cancel]
    rw [htake, take_left, drop_left, fits_ending timestamp hlength,
      if_pos ⟨hne, hline, hfits⟩]
    have hcut : ((ascii " " ++ timestamp ++ ascii ")").drop 1).take 15 = timestamp := by
      have hone : (ascii " " ++ timestamp ++ ascii ")").drop 1 = timestamp ++ ascii ")" := rfl
      rw [hone, ← hlength, take_left]
    rw [hcut]

end

section
variable {text front author timestamp : JsString} {unit : CodeUnit} {rest : JsString}

theorem matches_start : Matches text [] author timestamp ↔
    (if conflictMarker.isPrefixOf text then matchAuthor (text.drop conflictMarker.length)
      else none) = some (author, timestamp) := by
  constructor
  · rintro ⟨rfl, hne, hline, hstamp⟩
    have hstart : conflictMarker.isPrefixOf ([] ++ conflictSuffix author timestamp) = true :=
      isPrefixOf_iff_prefix.mpr (prefix_append _ _)
    rw [if_pos hstart, matchAuthor_eq_some, nil_append, conflictSuffix, drop_left]
    exact ⟨rfl, hne, hline, hstamp⟩
  · intro h
    split at h
    · rename_i hstart
      obtain ⟨later, rfl⟩ := isPrefixOf_iff_prefix.mp hstart
      rw [drop_left, matchAuthor_eq_some] at h
      obtain ⟨hrest, hne, hline, hstamp⟩ := h
      exact ⟨by rw [nil_append, conflictSuffix, hrest], hne, hline, hstamp⟩
    · cases h

theorem Matches.tail {first : CodeUnit}
    (h : Matches (unit :: rest) (first :: front) author timestamp) :
    unit = first ∧ Matches rest front author timestamp := by
  obtain ⟨htext, hne, hline, hstamp⟩ := h
  rw [cons_append] at htext
  obtain ⟨hunit, hrest⟩ := List.cons.inj htext
  exact ⟨hunit, hrest, hne, hline, hstamp⟩

theorem Matches.cons (h : Matches rest front author timestamp) (unit : CodeUnit) :
    Matches (unit :: rest) (unit :: front) author timestamp :=
  ⟨by rw [h.text_eq, cons_append], h.author_ne, h.one_line, h.stamp⟩

theorem not_matches_nil : ¬ Matches [] front author timestamp := by
  rintro ⟨htext, hne, -, -⟩
  have hlength := congrArg List.length htext
  rw [conflictSuffix, length_append, length_append, length_append] at hlength
  have hauthor := length_pos_iff.mpr hne
  rw [length_nil] at hlength
  omega

/-- The search finds nothing where nothing matches, else the match that starts first. -/
theorem execNewSuffix_spec (text : JsString) :
    (execNewSuffix text = none ∧ ∀ front author timestamp, ¬ Matches text front author timestamp) ∨
    ∃ found, execNewSuffix text = some found ∧
      Matches text found.front found.author found.timestamp ∧
      ∀ front author timestamp, Matches text front author timestamp →
        found.front.length ≤ front.length := by
  induction text with
  | nil =>
    left
    exact ⟨rfl, fun _ _ _ => not_matches_nil⟩
  | cons unit rest ih =>
    rw [execNewSuffix]
    cases hhere : (if conflictMarker.isPrefixOf (unit :: rest) then
        matchAuthor ((unit :: rest).drop conflictMarker.length) else none) with
    | some found =>
      right
      refine ⟨⟨[], found.1, found.2⟩, rfl, matches_start.mpr hhere, fun _ _ _ _ => ?_⟩
      exact Nat.zero_le _
    | none =>
      have hlater : ∀ {front author timestamp}, Matches (unit :: rest) front author timestamp →
          ∃ tail, front = unit :: tail ∧ Matches rest tail author timestamp := by
        intro front author timestamp h
        cases front with
        | nil =>
          have hstart := matches_start.mp h
          rw [hhere] at hstart
          exact absurd hstart.symm (Option.some_ne_none _)
        | cons first tail =>
          obtain ⟨rfl, htail⟩ := h.tail
          exact ⟨tail, rfl, htail⟩
      rcases ih with ⟨hnone, hno⟩ | ⟨found, hfound, hmatches, hfirst⟩
      · left
        refine ⟨by rw [hnone]; rfl, fun front author timestamp h => ?_⟩
        obtain ⟨tail, -, htail⟩ := hlater h
        exact hno tail author timestamp htail
      · right
        refine ⟨{ found with front := unit :: found.front }, by rw [hfound]; rfl,
          hmatches.cons unit, fun front author timestamp h => ?_⟩
        obtain ⟨tail, rfl, htail⟩ := hlater h
        exact Nat.succ_le_succ (hfirst tail author timestamp htail)

theorem Matches.timestamp_length (h : Matches text front author timestamp) :
    timestamp.length = 15 := length_of_fits h.stamp

theorem Matches.length (h : Matches text front author timestamp) :
    text.length = front.length + author.length + 28 := by
  have hmarker : conflictMarker.length = 11 := rfl
  have hblank : (ascii " ").length = 1 := rfl
  have hclose : (ascii ")").length = 1 := rfl
  rw [h.text_eq, conflictSuffix, length_append, length_append, length_append,
    length_append, length_append, h.timestamp_length, hmarker, hblank, hclose]
  omega

/-- Two matches of one text that start alike are one. -/
theorem Matches.unique {front' author' timestamp' : JsString}
    (h : Matches text front author timestamp) (h' : Matches text front' author' timestamp')
    (hlength : front.length = front'.length) :
    front = front' ∧ author = author' ∧ timestamp = timestamp' := by
  have hsame := h.text_eq.symm.trans h'.text_eq
  obtain ⟨hfront, hsuffix⟩ := append_inj hsame hlength
  have hauthors : author.length = author'.length := by
    have hlength₁ := h.length
    have hlength₂ := h'.length
    omega
  obtain ⟨hauthor, hending⟩ := append_inj (append_cancel_left hsuffix) hauthors
  rw [append_assoc, append_assoc] at hending
  exact ⟨hfront, hauthor, (append_inj (append_cancel_left hending)
    (h.timestamp_length.trans h'.timestamp_length.symm)).1⟩

/-- The search gives this match exactly where no other one starts earlier. -/
theorem execNewSuffix_eq_iff (h : Matches text front author timestamp) :
    execNewSuffix text = some ⟨front, author, timestamp⟩ ↔
      ∀ front' author' timestamp', Matches text front' author' timestamp' →
        front.length ≤ front'.length := by
  rcases execNewSuffix_spec text with ⟨-, hno⟩ | ⟨found, hfound, hmatches, hfirst⟩
  · exact absurd h (hno front author timestamp)
  · rw [hfound]
    constructor
    · intro hsame
      rw [Option.some.inj hsame] at hfirst
      exact hfirst
    · intro hleast
      have hlength : found.front.length = front.length :=
        Nat.le_antisymm (hfirst _ _ _ h) (hleast _ _ _ hmatches)
      obtain ⟨hfront, hauthor, htimestamp⟩ := hmatches.unique h hlength
      rw [← hfront, ← hauthor, ← htimestamp]

end

theorem units_integerText (n : ℤ) :
    ∀ unit ∈ integerText n, isDigit unit = true ∨ unit = 45 := by
  intro unit hmem
  unfold integerText at hmem
  split_ifs at hmem with hzero hnegative
  · exact .inl (allDigits_zeros 1 unit hmem)
  · rcases mem_append.mp hmem with hsign | hdigit
    · exact .inr (mem_singleton.mp hsign)
    · exact .inl (allDigits_decimalText _ unit hdigit)
  · exact .inl (allDigits_decimalText _ unit hmem)

theorem units_pad (value : ℕ) : ∀ unit ∈ pad value, isDigit unit = true ∨ unit = 45 := by
  intro unit hmem
  rcases mem_append.mp hmem with hzero | htext
  · exact .inl (allDigits_zeros _ unit hzero)
  · exact units_integerText _ unit htext

theorem units_timestamp (now : LocalTime) :
    ∀ unit ∈ formatConflictTimestamp now, isDigit unit = true ∨ unit = 45 ∨ unit = 32 := by
  intro unit hmem
  have hnumber : isDigit unit = true ∨ unit = 45 → isDigit unit = true ∨ unit = 45 ∨ unit = 32 :=
    fun h => h.imp_right .inl
  simp only [formatConflictTimestamp, mem_append] at hmem
  rcases hmem with ((((hyear | hdash) | hmonth) | hdash) | hday) | (hblank | hhours) | hminutes
  · exact hnumber (units_integerText _ unit hyear)
  · exact .inr (.inl (mem_singleton.mp hdash))
  · exact hnumber (units_pad _ unit hmonth)
  · exact .inr (.inl (mem_singleton.mp hdash))
  · exact hnumber (units_pad _ unit hday)
  · exact .inr (.inr (mem_singleton.mp hblank))
  · exact hnumber (units_pad _ unit hhours)
  · exact hnumber (units_pad _ unit hminutes)

/-- A unit that is no digit, no minus and no blank is in no stamp. -/
theorem notMem_timestamp {unit : CodeUnit} (hdigit : isDigit unit = false) (hminus : unit ≠ 45)
    (hblank : unit ≠ 32) (now : LocalTime) : unit ∉ formatConflictTimestamp now := by
  intro hmem
  rcases units_timestamp now unit hmem with h | h | h
  · rw [hdigit] at h
    cases h
  · exact hminus h
  · exact hblank h

theorem notMem_integerText {unit : CodeUnit} (hdigit : isDigit unit = false) (hminus : unit ≠ 45)
    (n : ℤ) : unit ∉ integerText n := by
  intro hmem
  rcases units_integerText n unit hmem with h | h
  · rw [hdigit] at h
    cases h
  · exact hminus h

theorem fits_pad : ∀ value < 60, fitsPattern (digitRun 2) (pad value) = true := by
  decide +kernel

theorem fits_digitRun {count : ℕ} {text : JsString} : fitsPattern (digitRun count) text = true ↔
    text.length = count ∧ AllDigits text := by
  induction count generalizing text with
  | zero =>
    cases text with
    | nil => exact ⟨fun _ => ⟨rfl, allDigits_nil⟩, fun _ => rfl⟩
    | cons unit rest =>
      exact ⟨fun h => absurd h Bool.false_ne_true, fun h => absurd h.1 (Nat.succ_ne_zero _)⟩
  | succ count ih =>
    cases text with
    | nil =>
      exact ⟨fun h => absurd h Bool.false_ne_true, fun h => absurd h.1.symm (Nat.succ_ne_zero _)⟩
    | cons unit rest =>
      rw [digitRun, replicate_succ, ← digitRun, fitsPattern, Bool.and_eq_true, ih,
        length_cons]
      constructor
      · rintro ⟨hunit, hlength, hrest⟩
        exact ⟨by rw [hlength], forall_mem_cons.mpr ⟨hunit, hrest⟩⟩
      · rintro ⟨hlength, hall⟩
        obtain ⟨hunit, hrest⟩ := forall_mem_cons.mp hall
        exact ⟨hunit, Nat.succ.inj hlength, hrest⟩

/-- Four digits are those of a year from 1000 to 9999. -/
theorem fits_year (year : ℤ) : fitsPattern (digitRun 4) (integerText year) = true ↔
    1000 ≤ year ∧ year ≤ 9999 := by
  rw [fits_digitRun]
  unfold integerText
  have hlength : ∀ k, (decimalText year.natAbs).length ≤ k ↔ year.natAbs < 10 ^ k := by
    intro k
    rw [decimalText, length_map, length_reverse, Nat.digits_length_le_iff (by norm_num)]
  split_ifs with hzero hnegative
  · constructor
    · intro h
      exact absurd h.1 (by decide)
    · intro h
      omega
  · constructor
    · rintro ⟨-, hall⟩
      exact absurd (hall 45 (mem_append_left _ mem_cons_self)) (by decide)
    · intro h
      omega
  · rw [nil_append]
    have hthree := hlength 3
    have hfour := hlength 4
    constructor
    · rintro ⟨hcount, -⟩
      omega
    · intro h
      exact ⟨by omega, allDigits_decimalText _⟩

/-- The part of a stamp behind the year. -/
def afterYear (now : LocalTime) : JsString :=
  ascii "-" ++ pad (now.month + 1) ++ ascii "-" ++ pad (now.day + 1) ++
    (ascii " " ++ pad now.hours ++ pad now.minutes)

theorem timestamp_eq (now : LocalTime) :
    formatConflictTimestamp now = integerText now.year ++ afterYear now := by
  simp only [formatConflictTimestamp, afterYear, append_assoc]

theorem afterYear_length (now : LocalTime) : (afterYear now).length = 11 := by
  have hmonth := (fits_digitRun.mp (fits_pad (now.month + 1) (by omega))).1
  have hday := (fits_digitRun.mp (fits_pad (now.day + 1) (by omega))).1
  have hhours := (fits_digitRun.mp (fits_pad now.hours (by omega))).1
  have hminutes := (fits_digitRun.mp (fits_pad now.minutes (by omega))).1
  have hdash : (ascii "-").length = 1 := rfl
  have hblank : (ascii " ").length = 1 := rfl
  simp only [afterYear, length_append, hmonth, hday, hhours, hminutes, hdash, hblank]

end Havemind.ConflictNames
