import Havemind.TrailingLines
import Havemind.VaultPayload
import Mathlib.Data.List.DropRight

/-!
Canonical notes under the merge. A text is its own canonical form when it has
no byte order mark in front, no carriage return and exactly one final newline.
The merge keeps the first two whatever the edits are; the third fails exactly
where one side deletes the end of the note and the other deletes the lines
right before the one line that is left, down to a blank one.
-/
namespace Havemind.CanonicalMerge

open JsText VaultPayload LineDiff Diff3 Diff3Cuts DisjointRegion Diff3Soundness List Option
  MergeTail TrailingLines

section
variable {text : JsString}

theorem carriageReturn_notMem_unixNewlines (text : JsString) :
    carriageReturn ∉ unixNewlines text := by
  induction text using unixNewlines.induct with
  | case1 => simp [unixNewlines]
  | case2 unit =>
    rw [unixNewlines, mem_singleton]
    split
    · decide
    · rename_i hunit
      exact fun h => hunit h.symm
  | case3 rest ih =>
    rw [unixNewlines, if_pos rfl, if_pos rfl, mem_cons, not_or]
    exact ⟨by decide, ih⟩
  | case4 next rest hnext ih =>
    rw [unixNewlines, if_pos rfl, if_neg hnext, mem_cons, not_or]
    exact ⟨by decide, ih⟩
  | case5 unit next rest hunit ih =>
    rw [unixNewlines, if_neg hunit, mem_cons, not_or]
    exact ⟨fun h => hunit h.symm, ih⟩

theorem unixNewlines_of_notMem (h : carriageReturn ∉ text) : unixNewlines text = text := by
  induction text using unixNewlines.induct with
  | case1 => rw [unixNewlines]
  | case2 unit =>
    have hunit : unit ≠ carriageReturn := fun heq => h (by simp [heq])
    rw [unixNewlines, if_neg hunit]
  | case3 rest ih => exact absurd (mem_cons_self ..) h
  | case4 next rest hnext ih => exact absurd (mem_cons_self ..) h
  | case5 unit next rest hunit ih =>
    rw [unixNewlines, if_neg hunit, ih fun hmem => h (mem_cons_of_mem _ hmem)]

theorem dropTrailingNewlines_eq (text : JsString) :
    dropTrailingNewlines text = text.rdropWhile fun unit => unit = lineFeed := rfl

theorem getLast?_dropTrailingNewlines (text : JsString) :
    (dropTrailingNewlines text).getLast? ≠ some lineFeed := by
  intro hlast
  have hne : dropTrailingNewlines text ≠ [] := by
    intro hnil
    rw [hnil] at hlast
    cases hlast
  rw [List.getLast?_eq_some_getLast hne] at hlast
  have hkept := rdropWhile_last_not (fun unit => decide (unit = lineFeed)) text hne
  exact hkept (decide_eq_true (some.inj hlast))

theorem dropTrailingNewlines_of_getLast? (h : text.getLast? ≠ some lineFeed) :
    dropTrailingNewlines text = text := by
  rw [dropTrailingNewlines_eq, rdropWhile_eq_self_iff]
  intro hne hlast
  exact h ((List.getLast?_eq_some_getLast hne).trans (congrArg some (by simpa using hlast)))

/-- A note with at least one line and one final newline. -/
def EndsWithOneNewline (text : JsString) : Prop :=
  ∃ body, body ≠ [] ∧ body.getLast? ≠ some lineFeed ∧ text = body ++ [lineFeed]

theorem canonicalizeMarkdown_eq_self_iff (text : JsString) : canonicalizeMarkdown text = text ↔
    text.head? ≠ some byteOrderMark ∧ carriageReturn ∉ text ∧
      (text = [] ∨ EndsWithOneNewline text) := by
  constructor
  · intro hfix
    have hbody := getLast?_dropTrailingNewlines (unixNewlines (dropByteOrderMark text))
    have hlead : dropTrailingNewlines (unixNewlines (dropByteOrderMark text)) <+:
        unixNewlines (dropByteOrderMark text) := rdropWhile_prefix _ _
    have hreturn := carriageReturn_notMem_unixNewlines (dropByteOrderMark text)
    unfold canonicalizeMarkdown at hfix
    dsimp only at hfix
    generalize hD : dropTrailingNewlines (unixNewlines (dropByteOrderMark text)) = body at *
    split at hfix
    · subst hfix
      simp
    · rename_i hlength
      have hne : body ≠ [] := by simpa using hlength
      have hnone : carriageReturn ∉ text := by
        rw [← hfix, mem_append, not_or]
        exact ⟨fun h => hreturn (hlead.subset h), by decide⟩
      refine ⟨?_, hnone, Or.inr ⟨body, hne, hbody, hfix.symm⟩⟩
      intro hhead
      obtain ⟨rest, rfl⟩ : ∃ rest, text = byteOrderMark :: rest := by
        cases text with
        | nil => simp at hhead
        | cons unit rest => exact ⟨rest, by simpa using hhead⟩
      have hrest : carriageReturn ∉ rest := fun h => hnone (mem_cons_of_mem _ h)
      rw [dropByteOrderMark, if_pos rfl, unixNewlines_of_notMem hrest] at hlead
      have hsame : body = rest := by
        apply hlead.eq_of_length
        have hlen := congrArg List.length hfix
        simpa using hlen
      subst hsame
      have hlast := congrArg List.getLast? hfix
      rw [List.getLast?_concat, List.getLast?_cons_of_ne_nil hne] at hlast
      exact hbody hlast.symm
  · rintro ⟨hhead, hreturn, hshape⟩
    have hmark : dropByteOrderMark text = text := by
      cases text with
      | nil => rfl
      | cons unit rest =>
        rw [dropByteOrderMark, if_neg]
        simpa using hhead
    unfold canonicalizeMarkdown
    rw [hmark, unixNewlines_of_notMem hreturn]
    rcases hshape with rfl | ⟨body, hne, hbody, rfl⟩
    · rfl
    · have hdrop : dropTrailingNewlines (body ++ [lineFeed]) = body := by
        rw [dropTrailingNewlines_eq, rdropWhile_concat_pos _ _ _ (by simp),
          ← dropTrailingNewlines_eq, dropTrailingNewlines_of_getLast? hbody]
      dsimp only
      rw [hdrop, if_neg (by simpa using hne)]

theorem joinLines_concat {lines : List JsString} (hne : lines ≠ []) (line : JsString) :
    joinLines (lines ++ [line]) = joinLines lines ++ lineFeed :: line := by
  induction lines with
  | nil => exact absurd rfl hne
  | cons first rest ih =>
    cases rest with
    | nil => simp [joinLines]
    | cons second rest =>
      have hih := ih (by simp)
      unfold joinLines at hih ⊢
      rw [cons_append, cons_append, intercalate_cons_cons,
        intercalate_cons_cons, ← cons_append, hih]
      simp

theorem getLast?_splitLines_iff (text : JsString) :
    (splitLines text).getLast? = some [] ↔ text = [] ∨ text.getLast? = some lineFeed := by
  constructor
  · intro hlast
    obtain ⟨init, hinit⟩ := List.getLast?_eq_some_iff.mp hlast
    have hjoin := joinLines_splitLines text
    rw [hinit] at hjoin
    cases init with
    | nil =>
      left
      rw [← hjoin]
      simp [joinLines]
    | cons first rest =>
      right
      rw [← hjoin, joinLines_concat (by simp)]
      simp
  · rintro (rfl | hlast)
    · rfl
    · obtain ⟨body, rfl⟩ := List.getLast?_eq_some_iff.mp hlast
      unfold splitLines
      rw [splitOn_append_cons_self, splitOn_nil]
      simp

theorem endsOnce_splitLines_iff (text : JsString) :
    EndsOnce [] (splitLines text) ↔ text = [] ∨ EndsWithOneNewline text := by
  constructor
  · intro hends
    rcases (getLast?_splitLines_iff text).mp hends.1 with hnil | hlast
    · exact Or.inl hnil
    · obtain ⟨body, rfl⟩ := List.getLast?_eq_some_iff.mp hlast
      have hsplit : splitLines (body ++ [lineFeed]) = splitLines body ++ [[]] := by
        unfold splitLines
        rw [splitOn_append_cons_self, splitOn_nil]
      rw [hsplit, endsOnce_concat, Ne, getLast?_splitLines_iff, not_or] at hends
      exact Or.inr ⟨body, hends.1, hends.2, rfl⟩
  · rintro (rfl | ⟨body, hne, hbody, rfl⟩)
    · exact ⟨rfl, by decide⟩
    · have hsplit : splitLines (body ++ [lineFeed]) = splitLines body ++ [[]] := by
        unfold splitLines
        rw [splitOn_append_cons_self, splitOn_nil]
      rw [hsplit, endsOnce_concat, Ne, getLast?_splitLines_iff, not_or]
      exact ⟨hne, hbody⟩

end

section
variable {α : Type*} {o a b : List α} {localHunks remoteHunks : List Hunk} {e : ℕ}
  {lines : List α}

theorem head?_of_take {v pre : List α} {k : ℕ} (h : pre = v.take k) (hne : pre ≠ []) :
    pre.head? = v.head? := by
  subst h
  cases v with
  | nil => simp at hne
  | cons x xs =>
    cases k with
    | zero => simp at hne
    | succ k => rfl

/-- A region at the start of the ancestor starts with the side's first line. -/
theorem segmentFor_head {v : List α} {hunks : List Hunk} (A : Aligned o v hunks)
    (he : e ≤ o.length) (hw : Within hunks 0 e) (hne : segmentFor hunks v 0 e ≠ []) :
    (segmentFor hunks v 0 e).head? = v.head? := by
  obtain ⟨p, hp, _, hsplit⟩ := take_cut_eq A (Nat.zero_le e) he hw
  rw [variantStart_of_le hunks 0 fun h _ => Nat.zero_le _] at hp
  obtain rfl : p = 0 := by omega
  rw [take_zero, nil_append] at hsplit
  exact head?_of_take hsplit.symm hne

theorem disjointWalk_head (A : Aligned o a localHunks) (B : Aligned o b remoteHunks) {fuel : ℕ}
    (hfL : Free localHunks 0) (hfR : Free remoteHunks 0) (he : 0 < e)
    (hrun : disjointWalk localHunks remoteHunks a b e (fuel + 1) 0 = .ok (some lines)) :
    lines.head? = a.head? ∨ lines.head? = b.head? := by
  have howned : ∀ {v rest : List α} {hunks : List Hunk} {h : Hunk}, Aligned o v hunks →
      Free hunks 0 → hunkCovering hunks 0 = some h → ¬ h.abLength = 0 →
      ((if h.oStart ≥ 0 then (v.drop h.abStart).take h.abLength else []) ++ rest).head? =
        v.head? := by
    intro v rest hunks h V hfree hcover hpos
    have hemits := owned_emits V hfree hcover hpos
    have hmem : h ∈ hunks := mem_of_find?_eq_some hcover
    have hcov : 0 ≥ h.oStart ∧ 0 < h.oStart + h.oLength := by
      simpa using List.find?_some hcover
    have hstart : h.oStart = 0 := by omega
    have hcut := (V.hunk_cuts h hmem).1
    rw [hstart, variantStart_of_le hunks 0 fun h _ => Nat.zero_le _] at hcut
    have hzero : h.abStart = 0 := by omega
    rw [if_pos (Nat.zero_le _), hzero, drop_zero] at hemits ⊢
    rw [List.head?_append_of_ne_nil _ hemits, head?_of_take rfl hemits]
  obtain ⟨own, rest, hpos, -, ⟨hcover, -, -, rfl⟩ | ⟨hcover, -, -, rfl⟩⟩ :=
    disjointWalk_owned he hrun
  · exact Or.inl (howned A hfL hcover hpos)
  · exact Or.inr (howned B hfR hcover hpos)

/-- What a region at the start, taken from one side, puts in front of the merge. -/
theorem head_of_segment {v out : List α} {hunks : List Hunk} (A : Aligned o v hunks)
    (hv : v ≠ []) (he : e ≤ o.length) (hw : Within hunks 0 e)
    (hrest : e < o.length → out.head? = o[e]?) :
    (segmentFor hunks v 0 e ++ out).head? = v.head? := by
  by_cases hempty : segmentFor hunks v 0 e = []
  · obtain ⟨p, hp, _, hsplit⟩ := take_cut_eq A (Nat.zero_le e) he hw
    rw [variantStart_of_le hunks 0 fun h _ => Nat.zero_le _] at hp
    obtain rfl : p = 0 := by omega
    rw [hempty, append_nil, take_zero, take_eq_nil_iff] at hsplit
    have hcut : cutAt hunks e = 0 := hsplit.resolve_right hv
    have hlt : e < o.length := by
      rcases Nat.eq_or_lt_of_le he with rfl | hlt
      · rw [cutAt_eq A.end_length] at hcut
        exact absurd (length_eq_zero_iff.mp hcut) hv
      · exact hlt
    obtain ⟨y, hy, _, hline⟩ := A.copied e hlt fun h hh => by
      have := hw h hh
      omega
    rw [cutAt_eq hy] at hcut
    subst hcut
    rw [hempty, nil_append, hrest hlt, ← hline, List.head?_eq_getElem?]
  · rw [List.head?_append_of_ne_nil _ hempty, segmentFor_head A he hw hempty]

variable [DecidableEq α]

/-- A run that still has untouched lines before its next event starts with one. -/
theorem mergeRegions_head {adjacency fuel c : ℕ} {events : List SidedHunk} {m : List α}
    (hc : c < o.length) (hbehind : ∀ ev ∈ events, c < ev.oStart)
    (hrun : mergeRegions o localHunks remoteHunks a b adjacency fuel c events = .ok (some m)) :
    m.head? = o[c]? := by
  have hdrop : (o.drop c).head? = o[c]? := List.head?_drop
  cases fuel with
  | zero =>
    simp only [mergeRegions, Except.ok.injEq, some.injEq] at hrun
    exact hrun ▸ hdrop
  | succ fuel =>
    cases events with
    | nil =>
      simp only [mergeRegions, Except.ok.injEq, some.injEq] at hrun
      exact hrun ▸ hdrop
    | cons first rest =>
      have hfirst := hbehind first (mem_cons_self ..)
      rw [mergeRegions] at hrun
      dsimp only at hrun
      split at hrun
      · cases hrun
      · cases hrun
      · obtain ⟨m', _, rfl⟩ := eq_ok_some_of_map hrun
        rw [slice_succ o (List.getElem?_eq_getElem hc) hfirst, List.getElem?_eq_getElem hc]
        rfl

/-- The merge starts with the first line of one of the three texts. -/
theorem mergeLines_head (ha : a ≠ []) (hb : b ≠ []) {out : List α}
    (hrun : mergeLines defaultAdjacencyLines o a b = .ok (some out)) :
    out.head? = o.head? ∨ out.head? = a.head? ∨ out.head? = b.head? := by
  have A := diffHunks_aligned o a
  have B := diffHunks_aligned o b
  have hev := sidedEvents_eventsOf (diffHunks o a) (diffHunks o b)
  have hL := Resume.local_start (diffHunks o a) (diffHunks o b)
  have hR := Resume.remote_start (diffHunks o a) (diffHunks o b)
  unfold mergeLines at hrun
  dsimp only at hrun
  generalize sidedEvents (diffHunks o a) (diffHunks o b) = events at *
  cases events with
  | nil =>
    simp only [length_nil, mergeRegions, drop_zero, Except.ok.injEq,
      some.injEq] at hrun
    rw [← hrun]
    exact Or.inl rfl
  | cons first rest =>
    obtain ⟨e, lines, later, out', _, r, _, _, _, hlater, hrest, rfl⟩ :=
      mergeRegions_region A B hev hL hR hrun
    have hse := r.start_le_end
    rcases Nat.eq_zero_or_pos first.oStart with hzero | hpos
    · have hnext : e < o.length → out'.head? = o[e]? := fun hlt =>
        mergeRegions_head hlt hlater hrest
      have hwL := r.local_within
      have hwR := r.remote_within
      rw [hzero] at hwL hwR
      rw [hzero, slice_self, nil_append]
      cases r.choice with
      | localText hlines _ =>
        rw [hlines, hzero]
        exact Or.inr (Or.inl (head_of_segment A ha r.end_le hwL hnext))
      | remoteText hlines _ =>
        rw [hlines, hzero]
        exact Or.inr (Or.inr (head_of_segment B hb r.end_le hwR hnext))
      | disjoint hdisjoint =>
        obtain ⟨_, _, hnoL, hnoR, hend⟩ := mergeDisjointRegion_end A B hse r.end_le r.local_within
          r.remote_within hdisjoint
        have he : 0 < e := by
          by_contra hnot
          obtain ⟨h, hh, hstart, hle⟩ := r.first
          rcases hh with hlocal | hremote
          · have := hnoL h hlocal (by omega)
            omega
          · have := hnoR h hremote (by omega)
            omega
        have hne : lines ≠ [] := by
          rcases hend (by omega) with ⟨_, _, _, _, _, hne, _⟩ | ⟨_, _, _, _, _, hne, _⟩ <;> exact hne
        obtain ⟨-, -, -, -, hwalk⟩ := mergeDisjointRegion_some hdisjoint
        rw [hzero, show e - 0 = (e - 1) + 1 by omega] at hwalk
        rw [List.head?_append_of_ne_nil _ hne]
        exact Or.inr (disjointWalk_head A B (hwL.free_start (Nat.zero_le _))
          (hwR.free_start (Nat.zero_le _)) he hwalk)
    · rw [append_assoc]
      have hlen : 0 < o.length := by
        have := r.end_le
        omega
      rw [slice_succ o (List.getElem?_eq_getElem hlen) hpos]
      left
      rw [List.head?_eq_getElem? (l := o), List.getElem?_eq_getElem hlen]
      rfl

end

section
variable {unit : CodeUnit} {lines : List JsString}

theorem mem_joinLines (hunit : unit ≠ lineFeed) (h : unit ∈ joinLines lines) :
    ∃ line ∈ lines, unit ∈ line := by
  induction lines with
  | nil => simp [joinLines] at h
  | cons first rest ih =>
    cases rest with
    | nil => exact ⟨first, mem_cons_self .., by simpa [joinLines] using h⟩
    | cons second rest =>
      unfold joinLines at h ih
      rw [intercalate_cons_cons, mem_append, mem_append, mem_singleton] at h
      rcases h with (hfirst | hfeed) | hrest
      · exact ⟨first, mem_cons_self .., hfirst⟩
      · exact absurd hfeed hunit
      · obtain ⟨line, hline, hmem⟩ := ih hrest
        exact ⟨line, mem_cons_of_mem _ hline, hmem⟩

theorem mem_of_mem_splitLines {text line : JsString} (h : line ∈ splitLines text) :
    ∀ unit ∈ line, unit ∈ text := by
  intro unit hunit
  have hjoin : ∀ {lines : List JsString}, line ∈ lines → unit ∈ joinLines lines := by
    intro lines hline
    induction lines with
    | nil => cases hline
    | cons first rest ih =>
      cases rest with
      | nil =>
        obtain rfl : line = first := by simpa using hline
        simpa [joinLines] using hunit
      | cons second rest =>
        unfold joinLines at ih ⊢
        rw [intercalate_cons_cons, mem_append, mem_append]
        rcases mem_cons.mp hline with rfl | hrest
        · exact Or.inl (Or.inl hunit)
        · exact Or.inr (ih hrest)
  have hmem := hjoin h
  rwa [joinLines_splitLines] at hmem

/-- The first unit of a text that does not start with a newline is the first
unit of its first line. -/
theorem head?_joinLines (hunit : unit ≠ lineFeed) :
    (joinLines lines).head? = some unit ↔ ∃ line, lines.head? = some line ∧
      line.head? = some unit := by
  cases lines with
  | nil => simp [joinLines]
  | cons first rest =>
    cases rest with
    | nil => simp [joinLines]
    | cons second rest =>
      unfold joinLines
      rw [intercalate_cons_cons]
      cases first with
      | nil => simpa using fun h => hunit h.symm
      | cons x xs => simp

end
variable {ancestor localText remoteText text : JsString}

/-- `deleting` removes the end of the note and `keeping` the lines right before
the one line that `deleting` leaves last, down to a blank line. -/
def CollapsesEnd (ancestor deleting keeping : JsString) : Prop :=
  Collapse (splitLines ancestor) (diffHunks (splitLines ancestor) (splitLines deleting))
    (diffHunks (splitLines ancestor) (splitLines keeping)) []

/-- The merge of texts without a carriage return has none. -/
theorem mergeText_carriageReturn (hlocal : carriageReturn ∉ localText)
    (hremote : carriageReturn ∉ remoteText)
    (h : mergeText ancestor localText remoteText = .ok (.merged text)) : carriageReturn ∉ text := by
  intro hmem
  rw [← joinLines_splitLines text] at hmem
  obtain ⟨line, hline, hunit⟩ := mem_joinLines (by decide) hmem
  rcases (mergeText_sound ancestor localText remoteText text h).2 line hline with hin | hin
  · exact hlocal (mem_of_mem_splitLines hin _ hunit)
  · exact hremote (mem_of_mem_splitLines hin _ hunit)

/-- The merge of texts without a leading byte order mark has none. -/
theorem mergeText_byteOrderMark (hancestor : ancestor.head? ≠ some byteOrderMark)
    (hlocal : localText.head? ≠ some byteOrderMark)
    (hremote : remoteText.head? ≠ some byteOrderMark)
    (h : mergeText ancestor localText remoteText = .ok (.merged text)) :
    text.head? ≠ some byteOrderMark := by
  have hsplit : ∀ t : JsString, t.head? = some byteOrderMark ↔
      ∃ line, (splitLines t).head? = some line ∧ line.head? = some byteOrderMark := by
    intro t
    rw [← head?_joinLines (by decide), joinLines_splitLines]
  have hhead := mergeLines_head (splitLines_ne_nil _) (splitLines_ne_nil _)
    (lines_of_merged (Nat.le_refl _) h).1
  intro hmark
  obtain ⟨line, hline, hunit⟩ := (hsplit text).mp hmark
  rw [hline] at hhead
  rcases hhead with hsame | hsame | hsame
  · exact hancestor ((hsplit ancestor).mpr ⟨line, hsame.symm, hunit⟩)
  · exact hlocal ((hsplit localText).mpr ⟨line, hsame.symm, hunit⟩)
  · exact hremote ((hsplit remoteText).mpr ⟨line, hsame.symm, hunit⟩)

/-- The merge of canonical notes is canonical unless both sides delete around
one line at the end of the note and leave it behind a blank line. -/
theorem mergeText_canonical_iff (ancestor localText remoteText text : JsString)
    (hancestor : canonicalizeMarkdown ancestor = ancestor)
    (hlocal : canonicalizeMarkdown localText = localText)
    (hremote : canonicalizeMarkdown remoteText = remoteText)
    (h : mergeText ancestor localText remoteText = .ok (.merged text)) :
    canonicalizeMarkdown text = text ↔
      ¬ (CollapsesEnd ancestor localText remoteText ∨
        CollapsesEnd ancestor remoteText localText) := by
  obtain ⟨hmarkO, _, hendO⟩ := (canonicalizeMarkdown_eq_self_iff ancestor).mp hancestor
  obtain ⟨hmarkA, hreturnA, hendA⟩ := (canonicalizeMarkdown_eq_self_iff localText).mp hlocal
  obtain ⟨hmarkB, hreturnB, hendB⟩ := (canonicalizeMarkdown_eq_self_iff remoteText).mp hremote
  rw [← endsOnce_splitLines_iff] at hendO hendA hendB
  have hends : EndsOnce [] (splitLines text) ↔ ¬ (CollapsesEnd ancestor localText remoteText ∨
      CollapsesEnd ancestor remoteText localText) :=
    mergeLines_endsOnce hendO hendA hendB (lines_of_merged (Nat.le_refl _) h).1
  rw [canonicalizeMarkdown_eq_self_iff, ← endsOnce_splitLines_iff, hends]
  refine ⟨fun hall => hall.2.2, fun hkept => ⟨?_, ?_, hkept⟩⟩
  · exact mergeText_byteOrderMark hmarkO hmarkA hmarkB h
  · exact mergeText_carriageReturn hreturnA hreturnB h

/-- A note `x`, `p`, `q` with blank lines between: one side deletes the end
from the second blank line's successor on, the other deletes `p`. -/
theorem mergeText_canonical_iff_collapsed :
    (canonicalizeMarkdown [120, 10, 10] = [120, 10, 10] ↔
      ¬ (CollapsesEnd [120, 10, 10, 112, 10, 10, 113, 10] [120, 10, 10, 112, 10]
          [120, 10, 10, 10, 113, 10] ∨
        CollapsesEnd [120, 10, 10, 112, 10, 10, 113, 10] [120, 10, 10, 10, 113, 10]
          [120, 10, 10, 112, 10])) :=
  mergeText_canonical_iff [120, 10, 10, 112, 10, 10, 113, 10] [120, 10, 10, 112, 10]
    [120, 10, 10, 10, 113, 10] [120, 10, 10] (by decide) (by decide) (by decide) (by decide)

theorem mergeText_canonical_fails :
    ∃ ancestor localText remoteText text : JsString,
      canonicalizeMarkdown ancestor = ancestor ∧ canonicalizeMarkdown localText = localText ∧
      canonicalizeMarkdown remoteText = remoteText ∧
      mergeText ancestor localText remoteText = .ok (.merged text) ∧
      canonicalizeMarkdown text ≠ text :=
  ⟨[120, 10, 10, 112, 10, 10, 113, 10], [120, 10, 10, 112, 10], [120, 10, 10, 10, 113, 10],
    [120, 10, 10], by decide, by decide, by decide, by decide, by decide⟩

end Havemind.CanonicalMerge
