import Havemind.ConflictNames

/-!
Where the marker of a conflict copy stands. The expression takes the first marker with
nothing but one line behind it, a redelivery counts at the last one, so the marker in a
note's or an author's name decides what is read.
-/
namespace Havemind.ConflictMarks

open JsText JsonText JsNumber VaultPath ConflictNames List

section
variable {text front rest : JsString} {unit : CodeUnit} {folder leaf : JsString}

theorem lastIndexOf_append (front : JsString) (h : unit ∉ rest) :
    lastIndexOf (front ++ unit :: rest) unit = front.length := by
  have hbehind : rest.reverse.findIdx? (· = unit) = none := by
    rw [List.findIdx?_eq_none_iff]
    intro other hmem
    simp only [decide_eq_false_iff_not]
    rintro rfl
    exact h (mem_reverse.mp hmem)
  have hindex : (front ++ unit :: rest).reverse.findIdx? (· = unit) = some rest.length := by
    rw [reverse_append, reverse_cons, append_assoc, List.findIdx?_append, hbehind]
    simp [List.findIdx?_cons]
  unfold lastIndexOf
  rw [hindex]
  simp only [length_append, length_cons]
  omega

theorem lastIndexOf_of_notMem (h : unit ∉ text) : lastIndexOf text unit = -1 := by
  have hindex : text.reverse.findIdx? (· = unit) = none := by
    rw [List.findIdx?_eq_none_iff]
    intro other hmem
    simp only [decide_eq_false_iff_not]
    rintro rfl
    exact h (mem_reverse.mp hmem)
  unfold lastIndexOf
  rw [hindex]

theorem exists_last (h : unit ∈ text) :
    ∃ front rest, text = front ++ unit :: rest ∧ unit ∉ rest := by
  obtain ⟨later, earlier, hsplit, hno⟩ := eq_append_cons_of_mem (mem_reverse.mpr h)
  refine ⟨earlier.reverse, later.reverse, ?_, fun hmem => hno (mem_reverse.mp hmem)⟩
  rw [← reverse_reverse text, hsplit, reverse_append, reverse_cons,
    append_assoc, singleton_append]

/-- A text that stands in front of a leaf: nothing, or a folder with its separator. -/
def IsFolder (folder : JsString) : Prop := folder = [] ∨ ∃ parent, folder = parent ++ [slash]

theorem lastIndexOf_folder (hfolder : IsFolder folder) (h : slash ∉ leaf) :
    lastIndexOf (folder ++ leaf) slash + 1 = folder.length := by
  rcases hfolder with rfl | ⟨parent, rfl⟩
  · rw [nil_append, lastIndexOf_of_notMem h]
    rfl
  · rw [append_assoc, singleton_append, lastIndexOf_append parent h, length_append]
    rfl

theorem leafOf_append (hfolder : IsFolder folder) (h : slash ∉ leaf) :
    leafOf (folder ++ leaf) = leaf := by
  rw [leafOf, lastIndexOf_folder hfolder h, Int.toNat_natCast, drop_left]

/-- Every path is a folder and its leaf. -/
theorem exists_folder (path : JsString) :
    ∃ folder, IsFolder folder ∧ path = folder ++ leafOf path ∧ slash ∉ leafOf path := by
  by_cases hslash : slash ∈ path
  · obtain ⟨parent, leaf, hpath, hleaf⟩ := exists_last hslash
    have hfolder : IsFolder (parent ++ [slash]) := .inr ⟨parent, rfl⟩
    have hsplit : path = (parent ++ [slash]) ++ leaf := by
      rw [hpath, append_assoc, singleton_append]
    have hsame : leafOf path = leaf := by
      rw [hsplit, leafOf_append hfolder hleaf]
    rw [hsame]
    exact ⟨parent ++ [slash], hfolder, hsplit, hleaf⟩
  · have hsame : leafOf path = path := leafOf_append (.inl rfl) hslash
    rw [hsame]
    exact ⟨[], .inl rfl, rfl, hslash⟩

theorem splitExtension_append {base extension : JsString} (hbase : base ≠ [])
    (hdot : dot ∉ extension) :
    splitExtension (base ++ dot :: extension) = (base, extension) := by
  have hpos := length_pos_iff.mpr hbase
  have hdrop : (base ++ dot :: extension).drop (base.length + 1) = extension := by
    rw [← drop_drop, drop_left]
    rfl
  have hindex : ((base.length : ℤ) + 1).toNat = base.length + 1 := by omega
  unfold splitExtension
  dsimp only
  rw [lastIndexOf_append base hdot, if_neg (by omega), Int.toNat_natCast, take_left, hindex,
    hdrop]

/-- The leaf of a path with an extension is its base, a dot and the extension as written. -/
theorem extension_split {unicode : UnicodeMethods} {path : JsString}
    (h : pathExtension unicode path ≠ []) :
    ∃ raw, leafOf path = noteBasename path ++ dot :: raw ∧ noteBasename path ≠ [] ∧ dot ∉ raw ∧
      pathExtension unicode path = unicode.toLowerCase raw := by
  obtain ⟨folder, hfolder, hpath, hleaf⟩ := exists_folder path
  have hslash := lastIndexOf_folder hfolder hleaf
  rw [← hpath] at hslash
  unfold pathExtension at h ⊢
  dsimp only at h ⊢
  rw [hslash] at h ⊢
  by_cases hdot : dot ∈ leafOf path
  · obtain ⟨base, raw, hsplit, hraw⟩ := exists_last hdot
    have hwhole : path = (folder ++ base) ++ dot :: raw := by
      rw [append_assoc, ← hsplit, ← hpath]
    have hindex : lastIndexOf path dot = (folder.length + base.length : ℕ) := by
      rw [hwhole, lastIndexOf_append _ hraw, length_append]
    have hbase : base ≠ [] := by
      rintro rfl
      rw [hindex, if_pos (by simp)] at h
      exact h rfl
    have hpos := length_pos_iff.mpr hbase
    have hname : noteBasename path = base := by
      unfold noteBasename
      dsimp only
      rw [hsplit, lastIndexOf_append base hraw, if_neg (by omega), Int.toNat_natCast,
        take_left]
    have hdrop : path.drop (folder.length + base.length + 1) = raw := by
      have hlength : folder.length + base.length = (folder ++ base).length :=
        length_append.symm
      rw [hlength, ← drop_drop, hwhole, drop_left]
      rfl
    have htoNat : ((folder.length + base.length : ℕ) + 1 : ℤ).toNat =
        folder.length + base.length + 1 := by
      omega
    rw [hname]
    refine ⟨raw, hsplit, hbase, hraw, ?_⟩
    rw [hindex, if_neg (by omega), htoNat, hdrop]
  · exfalso
    apply h
    have hnone : lastIndexOf path dot ≤ folder.length := by
      by_cases hmem : dot ∈ path
      · obtain ⟨front, rest, hsplit, hrest⟩ := exists_last hmem
        rw [hsplit, lastIndexOf_append front hrest]
        by_contra hlate
        apply hdot
        have hleaf' : leafOf path = path.drop folder.length := by
          nth_rewrite 2 [hpath]
          rw [drop_left]
        rw [hleaf', hsplit, drop_append_of_le_length (by omega)]
        exact mem_append_right _ mem_cons_self
      · rw [lastIndexOf_of_notMem hmem]
        omega
    rw [if_pos hnone]

end

section
variable {text title author stamp front back rest : JsString}

def blank : CodeUnit := 32

theorem matches_of_exec {found : SuffixMatch} (h : execNewSuffix text = some found) :
    Matches text found.front found.author found.timestamp := by
  rcases execNewSuffix_spec text with ⟨hnone, -⟩ | ⟨other, hother, hmatch, -⟩
  · rw [hnone] at h
    cases h
  · rw [hother] at h
    exact Option.some.inj h ▸ hmatch

theorem conflictMarker_eq : conflictMarker = blank :: (ascii "(conflict" ++ [blank]) := rfl

theorem marker_unit {k : ℕ} (hpos : 0 < k) (hlast : k < 10) :
    conflictMarker[k]? ≠ some blank := by
  have hall : ∀ k < 10, 0 < k → conflictMarker[k]? ≠ some blank := by decide
  exact hall k hlast hpos

/-- A marker that starts before a blank ends at that blank or before it: only its first and
its last unit are blanks. -/
theorem marker_before_blank {whole : JsString}
    (h : front ++ (conflictMarker ++ back) = whole ++ blank :: rest)
    (hlt : front.length < whole.length) :
    ∃ inner, whole ++ [blank] = front ++ (conflictMarker ++ inner) ∧ back = inner ++ rest := by
  have hmarker : conflictMarker.length = 11 := rfl
  have hlong : front.length + 10 ≤ whole.length := by
    by_contra hshort
    have hunit := congrArg (fun units => units[whole.length]?) h
    have hleft : (front ++ (conflictMarker ++ back))[whole.length]? =
        conflictMarker[whole.length - front.length]? := by
      rw [List.getElem?_append_right (by omega), List.getElem?_append_left (by omega)]
    have hright : (whole ++ blank :: rest)[whole.length]? = some blank := by
      rw [List.getElem?_append_right (Nat.le_refl _), Nat.sub_self]
      rfl
    simp only [hleft, hright] at hunit
    exact marker_unit (by omega) (by omega) hunit
  have hcut : (front ++ conflictMarker) ++ back = (whole ++ [blank]) ++ rest := by
    rw [append_assoc, h, append_assoc, singleton_append]
  rcases append_eq_append_iff.mp hcut with ⟨inner, hwhole, hback⟩ | ⟨inner, hfront, hrest⟩
  · exact ⟨inner, by rw [hwhole, append_assoc], hback⟩
  · have hlength := congrArg List.length hfront
    simp only [length_append, length_singleton, hmarker] at hlength
    have hinner : inner = [] := length_eq_zero_iff.mp (by omega)
    rw [hinner, append_nil] at hfront
    rw [hinner, nil_append] at hrest
    exact ⟨[], by rw [append_nil, hfront], hrest.symm⟩

/-- Every marker in a title is followed by a line end, so no author starts behind it. -/
def Unmarked (title : JsString) : Prop :=
  ∀ front back, title ++ [blank] = front ++ (conflictMarker ++ back) →
    back.any isLineTerminator = true

/-- No marker starts in the author's name. -/
def SingleMark (author : JsString) : Prop := ¬ conflictMarker <:+: blank :: (author ++ [blank])

theorem conflictSuffix_eq (author stamp : JsString) : conflictSuffix author stamp =
    blank :: (ascii "(conflict" ++ (blank :: (author ++ blank :: (stamp ++ ascii ")")))) := by
  simp only [conflictSuffix, conflictMarker_eq, append_assoc, cons_append,
    nil_append]
  rfl

theorem fits_both {tests more : List (CodeUnit → Bool)} (h : fitsPattern tests text = true)
    (hmore : fitsPattern more rest = true) : fitsPattern (tests ++ more) (text ++ rest) = true := by
  rw [fits_append (length_of_fits h), h, hmore, Bool.true_and]

/-- The tests behind the year. -/
def afterYearPattern : List (CodeUnit → Bool) :=
  exactly (ascii "-") ++ digitRun 2 ++ exactly (ascii "-") ++ digitRun 2 ++
    (exactly (ascii " ") ++ digitRun 2 ++ digitRun 2)

theorem stampPattern_eq : stampPattern = digitRun 4 ++ afterYearPattern := rfl

theorem fits_afterYear (now : LocalTime) : fitsPattern afterYearPattern (afterYear now) = true := by
  have hdash : fitsPattern (exactly (ascii "-")) (ascii "-") = true := (fits_exactly _ _).mpr rfl
  have hblank : fitsPattern (exactly (ascii " ")) (ascii " ") = true := (fits_exactly _ _).mpr rfl
  have hmonth := fits_pad (now.month + 1) (by omega)
  have hday := fits_pad (now.day + 1) (by omega)
  have hhours := fits_pad now.hours (by omega)
  have hminutes := fits_pad now.minutes (by omega)
  apply fits_both
  · exact fits_both (fits_both (fits_both hdash hmonth) hdash) hday
  · exact fits_both (fits_both hblank hhours) hminutes

/-- A stamp is read exactly where its year has four digits. -/
theorem fits_timestamp (now : LocalTime) :
    fitsPattern stampPattern (formatConflictTimestamp now) = true ↔
      1000 ≤ now.year ∧ now.year ≤ 9999 := by
  rw [← fits_year, timestamp_eq, stampPattern_eq]
  constructor
  · intro h
    have hlength := length_of_fits h
    rw [← stampPattern_eq, stampPattern_length, length_append, afterYear_length] at hlength
    have hyear : (integerText now.year).length = (digitRun 4).length := by
      rw [digitRun, length_replicate]
      omega
    rw [fits_append hyear, Bool.and_eq_true] at h
    exact h.1
  · intro h
    exact fits_both h (fits_afterYear now)

/-- The expression reads the author back exactly where the stamp is one and no marker of the
title swallows the suffix. -/
theorem execNewSuffix_copy_iff {now : LocalTime} (hauthor : author ≠ [])
    (hline : author.any isLineTerminator = false) :
    execNewSuffix (title ++ conflictSuffix author (formatConflictTimestamp now)) =
        some ⟨title, author, formatConflictTimestamp now⟩ ↔
      (1000 ≤ now.year ∧ now.year ≤ 9999) ∧ Unmarked title := by
  have hmatches : 1000 ≤ now.year ∧ now.year ≤ 9999 →
      Matches (title ++ conflictSuffix author (formatConflictTimestamp now)) title author
        (formatConflictTimestamp now) := by
    intro hyear
    exact ⟨rfl, hauthor, hline, (fits_timestamp now).mpr hyear⟩
  have hafter : ∀ {front back : JsString}, title ++ [blank] = front ++ (conflictMarker ++ back) →
      title ++ conflictSuffix author (formatConflictTimestamp now) =
        front ++ conflictSuffix (back ++ (ascii "(conflict" ++ blank :: author))
          (formatConflictTimestamp now) := by
    intro front back hmark
    rw [conflictSuffix_eq, ← singleton_append, ← append_assoc, hmark]
    simp only [conflictSuffix, append_assoc, cons_append]
    rfl
  constructor
  · intro hexec
    have hmatch := matches_of_exec hexec
    refine ⟨(fits_timestamp now).mp hmatch.stamp, fun front back hmark => ?_⟩
    by_contra hsame
    have hearlier : Matches (title ++ conflictSuffix author (formatConflictTimestamp now)) front
        (back ++ (ascii "(conflict" ++ blank :: author)) (formatConflictTimestamp now) := by
      refine ⟨hafter hmark, by simp, ?_, hmatch.stamp⟩
      rw [any_append, any_append, any_cons, hline, Bool.eq_false_iff.mpr hsame]
      rfl
    have hlater := (execNewSuffix_eq_iff hmatch).mp hexec _ _ _ hearlier
    dsimp only at hlater
    have hlength := congrArg List.length hmark
    have hmarker : conflictMarker.length = 11 := rfl
    simp only [length_append, length_singleton, hmarker] at hlength
    omega
  · rintro ⟨hyear, hclear⟩
    rw [execNewSuffix_eq_iff (hmatches hyear)]
    intro front' author' timestamp' hmatch
    by_contra hshort
    have htext := hmatch.text_eq
    rw [conflictSuffix_eq, conflictSuffix] at htext
    obtain ⟨inner, hmark, hback⟩ := marker_before_blank htext.symm (by omega)
    have hsame : author' ++ (ascii " " ++ timestamp' ++ ascii ")") =
        (inner ++ (ascii "(conflict" ++ blank :: author)) ++
          (ascii " " ++ formatConflictTimestamp now ++ ascii ")") := by
      rw [hback]
      simp only [append_assoc, cons_append]
      rfl
    have hending : (ascii " " ++ timestamp' ++ ascii ")").length =
        (ascii " " ++ formatConflictTimestamp now ++ ascii ")").length := by
      rw [length_append, length_append, hmatch.timestamp_length, length_append,
        length_append, (hmatches hyear).timestamp_length]
    have hnames := (append_inj' hsame hending).1
    have hall := hmatch.one_line
    rw [hnames, any_append, hclear front' inner hmark] at hall
    cases hall

end

section
variable {text word title author front back rest : JsString}

theorem append_prefix_cons {unit first : CodeUnit} :
    (first :: front) ++ word <+: unit :: text ↔ first = unit ∧ front ++ word <+: text := by
  rw [cons_append, cons_prefix_cons]

/-- The search from the back finds nothing where the word does not occur, else the
occurrence that starts last. -/
theorem lastOccurrence_spec (hword : word ≠ []) (text : JsString) :
    (lastOccurrence word text = none ∧ ∀ front, ¬ front ++ word <+: text) ∨
    ∃ front, lastOccurrence word text = some front.length ∧ front ++ word <+: text ∧
      ∀ other, other ++ word <+: text → other.length ≤ front.length := by
  induction text with
  | nil =>
    left
    refine ⟨by rw [lastOccurrence, if_neg hword], fun front hfront => ?_⟩
    exact hword (append_eq_nil_iff.mp (prefix_nil.mp hfront)).2
  | cons unit text ih =>
    rw [lastOccurrence]
    rcases ih with ⟨hnone, hno⟩ | ⟨front, hfound, hoccurs, hlast⟩
    · rw [hnone]
      dsimp only
      have hhere : ∀ front, front ++ word <+: unit :: text → front = [] := by
        intro front hfront
        cases front with
        | nil => rfl
        | cons first front => exact absurd (append_prefix_cons.mp hfront).2 (hno front)
      by_cases hstart : word <+: unit :: text
      · right
        refine ⟨[], ?_, hstart, fun other hother => ?_⟩
        · rw [if_pos ( isPrefixOf_iff_prefix.mpr hstart)]
          rfl
        · rw [hhere other hother]
      · left
        refine ⟨?_, fun front hfront => ?_⟩
        · rw [if_neg fun h => hstart ( isPrefixOf_iff_prefix.mp h)]
        · rw [hhere front hfront] at hfront
          exact hstart hfront
    · right
      refine ⟨unit :: front, ?_, append_prefix_cons.mpr ⟨rfl, hoccurs⟩, fun other hother => ?_⟩
      · rw [hfound]
        rfl
      · cases other with
        | nil => exact Nat.zero_le _
        | cons first other => exact Nat.succ_le_succ (hlast other (append_prefix_cons.mp hother).2)

/-- The marker without its last blank. -/
def markerHead : JsString := blank :: ascii "(conflict"

/-- A marker that does not start before the suffix is the suffix's own, or starts in the
author's name. -/
theorem marker_in_suffix (hparen : (40 : CodeUnit) ∉ rest)
    (h : front ++ (conflictMarker ++ back) =
      title ++ (conflictMarker ++ (author ++ blank :: rest)))
    (hlate : title.length ≤ front.length) :
    front = title ∨ ∃ inner tail, front = title ++ (markerHead ++ inner) ∧
      blank :: (author ++ [blank]) = inner ++ (conflictMarker ++ tail) ∧ back = tail ++ rest := by
  have hhead : markerHead.length = 10 := rfl
  have hmarker : conflictMarker.length = 11 := rfl
  have hstart : title <+: front ++ (conflictMarker ++ back) := by
    rw [h]
    exact prefix_append title _
  obtain ⟨extra, rfl⟩ :=
    prefix_of_prefix_length_le hstart (prefix_append front _) hlate
  rw [append_assoc] at h
  have hrest := append_cancel_left h
  by_cases hextra : extra = []
  · left
    rw [hextra, append_nil]
  right
  have hpos := length_pos_iff.mpr hextra
  have hsecond : [] ++ (conflictMarker ++ (author ++ blank :: rest)) =
      extra ++ blank :: (ascii "(conflict" ++ [blank] ++ back) := by
    rw [nil_append, ← hrest]
    rfl
  obtain ⟨gap, hgap, -⟩ := marker_before_blank hsecond hpos
  have hlong := congrArg List.length hgap
  simp only [length_append, length_singleton, length_nil, hmarker] at hlong
  have hbehind : extra ++ (conflictMarker ++ back) =
      markerHead ++ ((blank :: author) ++ blank :: rest) := by
    rw [hrest]
    rfl
  have hfirst : markerHead <+: extra ++ (conflictMarker ++ back) := by
    rw [hbehind]
    exact prefix_append markerHead _
  obtain ⟨inner, rfl⟩ :=
    prefix_of_prefix_length_le hfirst (prefix_append extra _) (by omega)
  rw [append_assoc] at hbehind
  have hwhole := append_cancel_left hbehind
  have hinside : inner.length < (blank :: author).length := by
    by_contra houtside
    have hname : blank :: author <+: inner ++ (conflictMarker ++ back) := by
      rw [hwhole]
      exact prefix_append (blank :: author) _
    obtain ⟨more, hmore⟩ := prefix_of_prefix_length_le hname (prefix_append inner _)
      (Nat.le_of_not_lt houtside)
    rw [← hmore, append_assoc] at hwhole
    have hmem : (40 : CodeUnit) ∈ blank :: rest := by
      rw [← append_cancel_left hwhole]
      exact mem_append_right _ (mem_append_left _ (by decide))
    rcases mem_cons.mp hmem with hblank | hlater
    · exact absurd hblank (by decide)
    · exact hparen hlater
  obtain ⟨tail, htail, hback⟩ := marker_before_blank hwhole hinside
  exact ⟨inner, tail, rfl, htail, hback⟩

/-- Where a text is its own end behind a few more units, it is made of these units. -/
theorem units_of_shift {start ending : JsString} (hending : ending ≠ []) (text : JsString)
    (h : text ++ ending = start ++ text) : ∀ unit ∈ text, unit ∈ ending := by
  have hsuffix : text <:+ text ++ ending := by
    rw [h]
    exact suffix_append start text
  rcases suffix_or_suffix_of_suffix hsuffix (suffix_append text ending) with
    hshort | ⟨front, hfront⟩
  · exact fun unit hmem => hshort.subset hmem
  · have hlength := length_pos_iff.mpr hending
    have hfewer : front ++ ending = start ++ front := by
      rw [← hfront, ← append_assoc] at h
      exact append_cancel_right h
    have hsize : front.length < text.length := by
      rw [← hfront, length_append]
      omega
    have hunits := units_of_shift hending front hfewer
    intro unit hmem
    rw [← hfront] at hmem
    rcases mem_append.mp hmem with hunit | hunit
    · exact hunits unit hunit
    · exact hunit
termination_by text.length

end

variable {path title author front later rest : JsString}

/-- A counter is a blank and a decimal. -/
theorem notMem_counterText {unit : CodeUnit} (hblank : unit ≠ blank) (hdigit : isDigit unit = false)
    (hminus : unit ≠ 45) (k : ℕ) : unit ∉ counterText k := by
  cases k with
  | zero => exact not_mem_nil
  | succ k =>
    intro hmem
    rcases mem_append.mp hmem with hat | hnumber
    · exact hblank (mem_singleton.mp hat)
    · exact notMem_integerText hdigit hminus _ hnumber

theorem paren_counterText (k : ℕ) : (40 : CodeUnit) ∉ counterText k :=
  notMem_counterText (by decide) (by decide) (by decide) k

theorem slash_counterText (k : ℕ) : slash ∉ counterText k :=
  notMem_counterText (by decide) (by decide) (by decide) k

/-- The counter stands where the marker was found, in the leaf only. -/
theorem leafOf_numbered {k : ℕ}
    (hmark : lastOccurrence conflictMarker (leafOf path) = some front.length)
    (hleaf : leafOf path = front ++ later) :
    leafOf (numberedConflictPath path (k + 2)) = front ++ (counterText (k + 1) ++ later) := by
  obtain ⟨folder, hfolder, hpath, hslash⟩ := exists_folder path
  have hindex := lastIndexOf_folder hfolder hslash
  rw [← hpath] at hindex
  have htake : path.take folder.length = folder := by
    nth_rewrite 1 [hpath]
    rw [take_left]
  have hnumbered : numberedConflictPath path (k + 2) =
      folder ++ (front ++ (counterText (k + 1) ++ later)) := by
    unfold numberedConflictPath
    dsimp only
    rw [hindex, Int.toNat_natCast, htake, hmark, hleaf]
    dsimp only
    rw [take_left, drop_left, append_assoc]
    rfl
  rw [hnumbered, leafOf_append hfolder]
  rw [hleaf] at hslash
  simp only [mem_append, not_or] at hslash ⊢
  exact ⟨hslash.1, slash_counterText _, hslash.2⟩

/-- The counter of a redelivery stands before the suffix, or, where the author's name holds
a marker too, before the last of these. -/
theorem numbered_leaf (k : ℕ) (hparen : (40 : CodeUnit) ∉ rest)
    (hleaf : leafOf path = title ++ (conflictMarker ++ (author ++ blank :: rest))) :
    (SingleMark author ∧ leafOf (numberedConflictPath path (k + 2)) =
      title ++ (counterText (k + 1) ++ (conflictMarker ++ (author ++ blank :: rest)))) ∨
    (¬ SingleMark author ∧ ∃ inner tail,
      blank :: (author ++ [blank]) = inner ++ (conflictMarker ++ tail) ∧
      leafOf (numberedConflictPath path (k + 2)) =
        title ++ (markerHead ++ (inner ++ (counterText (k + 1) ++
          (conflictMarker ++ (tail ++ rest)))))) := by
  have hword : conflictMarker ≠ [] := by decide
  have hown : title ++ conflictMarker <+: leafOf path := by
    rw [hleaf, ← append_assoc]
    exact prefix_append _ _
  rcases lastOccurrence_spec hword (leafOf path) with
    ⟨-, hno⟩ | ⟨front, hfound, ⟨back, hback⟩, hlast⟩
  · exact absurd hown (hno title)
  rw [append_assoc] at hback
  have hsplit := leafOf_numbered (k := k) hfound hback.symm
  rcases marker_in_suffix hparen (hback.trans hleaf) (hlast title hown) with
    rfl | ⟨inner, tail, rfl, hname, rfl⟩
  · left
    rw [hleaf] at hback
    have hrest := append_cancel_left hback
    refine ⟨?_, by rw [hsplit, hrest]⟩
    rintro ⟨inner, tail, hname⟩
    have hlater : (front ++ (markerHead ++ inner)) ++ conflictMarker <+: leafOf path := by
      have hcopy : leafOf path = (front ++ (markerHead ++ inner)) ++ conflictMarker ++
          (tail ++ rest) := by
        have hunits : markerHead ++ ((inner ++ conflictMarker ++ tail) ++ rest) =
            conflictMarker ++ (author ++ blank :: rest) := by
          rw [hname]
          simp only [cons_append, append_assoc]
          rfl
        rw [hleaf, ← hunits]
        simp only [append_assoc]
      rw [hcopy]
      exact prefix_append _ _
    have hlength := hlast _ hlater
    have hhead : markerHead.length = 10 := rfl
    simp only [length_append] at hlength
    omega
  · right
    refine ⟨fun hsingle => hsingle ⟨inner, tail, ?_⟩, inner, tail, hname, ?_⟩
    · rw [hname, append_assoc]
    · rw [hsplit]
      simp only [append_assoc]

/-- A counter inside the author's name is never read back as that name. -/
theorem counter_in_author {inner tail stamp : JsString} (k : ℕ)
    (hname : blank :: (author ++ [blank]) = inner ++ (conflictMarker ++ tail))
    (h : title ++ (markerHead ++ (inner ++ (counterText (k + 1) ++
        (conflictMarker ++ (tail ++ (stamp ++ ascii ")")))))) =
      front ++ conflictSuffix author stamp) : False := by
  have hsuffix : conflictSuffix author stamp =
      markerHead ++ (inner ++ (conflictMarker ++ (tail ++ (stamp ++ ascii ")")))) := by
    have hunits : markerHead ++ ((blank :: (author ++ [blank])) ++ (stamp ++ ascii ")")) =
        conflictSuffix author stamp := by
      rw [conflictSuffix_eq]
      simp only [cons_append, append_assoc, nil_append]
      rfl
    rw [← hunits, hname]
    simp only [append_assoc]
  rw [hsuffix] at h
  have hcancel : (title ++ (markerHead ++ inner ++ counterText (k + 1))) ++
      (conflictMarker ++ (tail ++ (stamp ++ ascii ")"))) =
      (front ++ (markerHead ++ inner)) ++ (conflictMarker ++ (tail ++ (stamp ++ ascii ")"))) := by
    simpa only [append_assoc] using h
  have hshift := append_cancel_right hcancel
  have hlength := congrArg List.length hshift
  simp only [length_append] at hlength
  have hfirst : title <+: front ++ (markerHead ++ inner) := by
    rw [← hshift]
    exact prefix_append _ _
  obtain ⟨start, rfl⟩ :=
    prefix_of_prefix_length_le hfirst (prefix_append front _) (by omega)
  rw [append_assoc title start] at hshift
  have hparen : (40 : CodeUnit) ∈ markerHead ++ inner := mem_append_left _ (by decide)
  have hcounter : counterText (k + 1) ≠ [] := cons_ne_nil _ _
  exact paren_counterText (k + 1)
    (units_of_shift hcounter _ (append_cancel_left hshift) _ hparen)

end Havemind.ConflictMarks
