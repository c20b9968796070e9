import Havemind.MergeTail

/-!
Whether the merge of three notes that end in one blank line ends in one. The
loop carries, for both sides, when the last merged line equals the line behind
the cursor; the region that reaches the end of the ancestor decides.
-/
namespace Havemind.TrailingLines

open JsText LineDiff LcsTrace Diff3 Diff3Cuts DisjointRegion Diff3Soundness MergeSymmetry MergeTail
  List

variable {α : Type*} {o a b : List α} {localHunks remoteHunks : List Hunk}

/-- One side deletes the end of the ancestor, the other deletes the lines right
before the one line that stays, down to a line equal to `z`. -/
def Collapse (o : List α) (deleting keeping : List Hunk) (z : α) : Prop :=
  ∃ h ∈ deleting, ∃ k ∈ keeping, h.oStart + h.oLength = o.length ∧ h.abLength = 0 ∧
    k.abLength = 0 ∧ k.oStart + k.oLength + 1 = h.oStart ∧
    (o.take k.oStart).getLast? = some z

/-- What the loop knows of one region behind the cursor `c`. -/
structure RegionRun (o a b : List α) (localHunks remoteHunks : List Hunk) (c s e : ℕ)
    (lines : List α) : Prop where
  start_le_end : s ≤ e
  end_le : e ≤ o.length
  local_within : Within localHunks s e
  remote_within : Within remoteHunks s e
  local_before : ∀ k ∈ localHunks, k.oStart + k.oLength < s → k.oStart + k.oLength ≤ c
  remote_before : ∀ k ∈ remoteHunks, k.oStart + k.oLength < s → k.oStart + k.oLength ≤ c
  first : ∃ h, (h ∈ localHunks ∨ h ∈ remoteHunks) ∧ h.oStart = s ∧ h.oStart + h.oLength ≤ e
  covered : ∀ p, s ≤ p → p < e →
    ∃ h, (h ∈ localHunks ∨ h ∈ remoteHunks) ∧ h.oStart ≤ p ∧ p < h.oStart + h.oLength
  choice : Choice o a b localHunks remoteHunks s e lines

theorem RegionRun.swap {c s e : ℕ} {lines : List α}
    (r : RegionRun o a b localHunks remoteHunks c s e lines) :
    RegionRun o b a remoteHunks localHunks c s e lines := by
  obtain ⟨first, hfirst, hstart⟩ := r.first
  refine ⟨r.start_le_end, r.end_le, r.remote_within, r.local_within, r.remote_before,
    r.local_before, ⟨first, hfirst.symm, hstart⟩, ?_, r.choice.swap⟩
  intro p hsp hpe
  obtain ⟨h, hh, hcover⟩ := r.covered p hsp hpe
  exact ⟨h, hh.symm, hcover⟩

/-- What the loop knows of the merged lines before the cursor `c`. -/
structure Merged (o a b : List α) (localHunks remoteHunks : List Hunk) (z : α) (c : ℕ)
    (pre : List α) : Prop where
  local_last : o[c]? = some z → (a.take (cutAt localHunks c)).getLast? ≠ some z →
    (pre.getLast? = some z ↔ Erases o remoteHunks z c)
  remote_last : o[c]? = some z → (b.take (cutAt remoteHunks c)).getLast? ≠ some z →
    (pre.getLast? = some z ↔ Erases o localHunks z c)

theorem Merged.swap {z : α} {c : ℕ} {pre : List α}
    (m : Merged o a b localHunks remoteHunks z c pre) :
    Merged o b a remoteHunks localHunks z c pre :=
  ⟨m.remote_last, m.local_last⟩

theorem merged_nil (z : α) : Merged o a b localHunks remoteHunks z 0 [] := by
  have hnone : ∀ hunks : List Hunk, ¬ Erases o hunks z 0 := by
    rintro hunks ⟨k, _, _, hend, hz⟩
    have hzero : k.oStart = 0 := by omega
    rw [hzero] at hz
    exact absurd hz (by simp)
  exact ⟨fun _ _ => ⟨fun h => by simp at h, fun h => absurd h (hnone _)⟩,
    fun _ _ => ⟨fun h => by simp at h, fun h => absurd h (hnone _)⟩⟩

section
variable {z : α} {c s : ℕ} {lines pre : List α}

variable (A : Aligned o a localHunks)
include A

variable (B : Aligned o b remoteHunks)
include B

/-- The last region starts with the deletion that reaches the ancestor's end:
the line before it belongs to no hunk. -/
theorem RegionRun.start_of_collapse
    (r : RegionRun o a b localHunks remoteHunks c s o.length lines) {h k : Hunk}
    (hh : h ∈ localHunks) (hk : k ∈ remoteHunks) (hend : h.oStart + h.oLength = o.length)
    (hnext : k.oStart + k.oLength + 1 = h.oStart) : h.oStart = s := by
  have hse := r.start_le_end
  have hin := r.local_within h hh
  by_contra hne
  obtain ⟨h', hh', hle, hgt⟩ := r.covered (h.oStart - 1) (by omega) (by omega)
  rcases hh' with hlocal | hremote
  · rcases hunk_order A hlocal hh with hlt | rfl | hlt <;> omega
  · rcases hunk_order B hremote hk with hlt | rfl | hlt <;> omega

omit B in
theorem segmentFor_of_deletion {h : Hunk} (hh : h ∈ localHunks)
    (hend : h.oStart + h.oLength = o.length) (hzero : h.abLength = 0) :
    segmentFor localHunks a h.oStart o.length = [] := by
  have hsegment := segmentFor_hunk A hh
  rw [hend, hzero, take_zero] at hsegment
  exact hsegment

/-- No side collapses the end while the taken segment still has lines. -/
theorem RegionRun.not_collapse (hgR : ∀ h ∈ remoteHunks, GreedyHunk o b h)
    (r : RegionRun o a b localHunks remoteHunks c s o.length lines)
    (hother : segmentFor remoteHunks b s o.length = slice o s o.length ∨
      segmentFor remoteHunks b s o.length = segmentFor localHunks a s o.length)
    (hne : segmentFor localHunks a s o.length ≠ []) :
    ¬ (Collapse o localHunks remoteHunks z ∨ Collapse o remoteHunks localHunks z) := by
  rintro (⟨h, hh, k, hk, hend, hzero, _, hnext, _⟩ | ⟨h, hh, k, hk, hend, hzero, _, hnext, _⟩)
  · have hstart := r.start_of_collapse A B hh hk hend hnext
    subst hstart
    exact hne (segmentFor_of_deletion A hh hend hzero)
  · have hstart := r.swap.start_of_collapse B A hh hk hend hnext
    subst hstart
    have hempty := segmentFor_of_deletion B hh hend hzero
    rcases hother with hsame | hsame
    · have hpos := (hgR h hh).nonempty
      have hslice := congrArg List.length (hsame.symm.trans hempty)
      rw [slice_natCast, take_length, length_drop, length_nil] at hslice
      omega
    · exact hne (hsame.symm.trans hempty)

/-- An empty last segment is a deletion of the ancestor's end. -/
theorem RegionRun.exists_deletion (hgL : ∀ h ∈ localHunks, GreedyHunk o a h)
    (hgR : ∀ h ∈ remoteHunks, GreedyHunk o b h)
    (r : RegionRun o a b localHunks remoteHunks c s o.length lines)
    (hother : segmentFor remoteHunks b s o.length = slice o s o.length ∨
      segmentFor remoteHunks b s o.length = segmentFor localHunks a s o.length)
    (hempty : segmentFor localHunks a s o.length = []) :
    ∃ h ∈ localHunks, h.oStart = s ∧ h.oStart + h.oLength = o.length ∧ h.abLength = 0 := by
  rcases Nat.eq_or_lt_of_le r.start_le_end with rfl | hlt
  · -- a region without ancestor lines has an insertion
    have hempty' : segmentFor remoteHunks b o.length o.length = [] := by
      rcases hother with hsame | hsame
      · rw [hsame, slice_self]
      · rw [hsame, hempty]
    obtain ⟨h, hh, hstart, hend⟩ := r.first
    have hfull : h.oStart + h.oLength = o.length := by omega
    rcases hh with hlocal | hremote
    · have hpos := (hgL h hlocal).nonempty
      have hne := segmentFor_hunk_ne_nil A hlocal (by omega)
      rw [hfull, hstart] at hne
      exact absurd hempty hne
    · have hpos := (hgR h hremote).nonempty
      have hne := segmentFor_hunk_ne_nil B hremote (by omega)
      rw [hfull, hstart] at hne
      exact absurd hempty' hne
  · exact MergeTail.exists_deletion A hlt (Nat.le_refl _) r.local_within hempty

omit B in
/-- The line before a collapsing deletion is the last one of the side that
deletes, and the line before that one is not blank. -/
theorem RegionRun.before_deletion (ha : EndsOnce z a) {e : ℕ}
    (r : RegionRun o a b localHunks remoteHunks c s e lines) (hs : 0 < s)
    (hwhole : (variantStart localHunks s).toNat = a.length) :
    o[s - 1]? = some z ∧ (a.take (cutAt localHunks (s - 1))).getLast? ≠ some z := by
  have hse := r.start_le_end
  have he := r.end_le
  obtain ⟨y, hy, hstart, hline⟩ := A.copied (s - 1) (by omega) fun h hh => by
    have := r.local_within h hh
    omega
  have ho : o[s - 1]? = some o[s - 1] := List.getElem?_eq_getElem (by omega)
  have hylt := (List.getElem?_eq_some_iff.mp (hline.trans ho)).1
  rw [show s - 1 + 1 = s by omega] at hstart
  have hlength : a.length = y + 1 := by omega
  have hsplit : a = a.take y ++ [o[s - 1]] := by
    conv_lhs => rw [← take_append_drop y a, drop_eq_getElem_cons hylt,
      drop_eq_nil_of_le (by omega)]
    have hget := List.getElem?_eq_getElem hylt
    rw [hline, ho] at hget
    rw [Option.some.inj hget]
  have hz : o[s - 1] = z := by
    have hlast := ha.1
    rw [hsplit] at hlast
    simpa using hlast
  rw [hz] at ho hsplit
  rw [hsplit, endsOnce_concat] at ha
  rw [cutAt_eq hy]
  exact ⟨ho, ha⟩

/-- The last region when the local segment is taken. -/
theorem RegionRun.endsOnce_local (hgL : ∀ h ∈ localHunks, GreedyHunk o a h)
    (hgR : ∀ h ∈ remoteHunks, GreedyHunk o b h) (ha : EndsOnce z a)
    (r : RegionRun o a b localHunks remoteHunks c s o.length lines)
    (m : Merged o a b localHunks remoteHunks z c pre) (hcs : c < s ∨ s = 0 ∧ pre = [])
    (hlines : lines = segmentFor localHunks a s o.length)
    (hother : segmentFor remoteHunks b s o.length = slice o s o.length ∨
      segmentFor remoteHunks b s o.length = segmentFor localHunks a s o.length) :
    EndsOnce z (pre ++ slice o c s ++ lines) ↔
      ¬ (Collapse o localHunks remoteHunks z ∨ Collapse o remoteHunks localHunks z) := by
  have hse := r.start_le_end
  have hQ := getLast?_append_slice hcs hse
  obtain ⟨p, hp, hbefore, hsplit⟩ := take_cut_eq A hse (Nat.le_refl _) r.local_within
  rw [cutAt_eq A.end_length, take_length] at hsplit
  by_cases hempty : segmentFor localHunks a s o.length = []
  · obtain ⟨h, hh, hstart, hend, hzero⟩ := r.exists_deletion A B hgL hgR hother hempty
    rw [hempty, append_nil] at hsplit
    have hlast : (o.take s).getLast? = some z := by rw [← hbefore, ← hsplit, ha.1]
    have hs : 0 < s := by
      by_contra hs
      obtain rfl : s = 0 := by omega
      exact absurd hlast (by simp)
    have hc : c < s := by omega
    have hwhole : (variantStart localHunks s).toNat = a.length := by
      have hlength := congrArg List.length hsplit
      have hbound := (A.bounds s hse (r.local_within.free_start hse)).2
      have hfree := A.bounds o.length (Nat.le_refl _) (r.local_within.free_end hse)
      have hle := variantStart_le_variantEnd A hse (Nat.le_refl _) r.local_within
      rw [length_take] at hlength
      rw [hp, A.end_length] at hle
      rw [hp]
      omega
    obtain ⟨hz, hne⟩ := r.before_deletion A ha hs hwhole
    have hkeep : slice o c s = slice o c (s - 1 : ℕ) ++ [z] := by
      rw [← slice_append_slice o (show c ≤ s - 1 by omega) (show s - 1 ≤ s by omega),
        slice_succ o hz (by omega), show s - 1 + 1 = s by omega, slice_self]
    rw [hlines, hempty, append_nil, hkeep, ← append_assoc, endsOnce_concat]
    rcases Nat.lt_or_ge c (s - 1) with hmore | hone
    · have hcut := getLast?_take_cut A (c := s - 1) (by omega) fun k hk => by
        have := r.local_within k hk
        omega
      have hsame : (a.take (cutAt localHunks (s - 1))).getLast? = (o.take (s - 1)).getLast? := by
        rcases hcut with ⟨k, hk, hkend, _⟩ | hkept
        · have := r.local_before k hk (by omega)
          omega
        · exact hkept
      rw [getLast?_append_slice (Or.inl hmore) (by omega), ← hsame]
      refine iff_of_true hne ?_
      rintro (⟨h', hh', k, hk, hend', _, _, hnext, _⟩ | ⟨h', hh', k, hk, hend', _, _, hnext, _⟩)
      · have hstart' := r.start_of_collapse A B hh' hk hend' hnext
        have := r.remote_before k hk (by omega)
        omega
      · have hstart' := r.swap.start_of_collapse B A hh' hk hend' hnext
        have := r.local_before k hk (by omega)
        omega
    · obtain rfl : c = s - 1 := by omega
      rw [slice_self, append_nil, Ne, m.local_last hz hne, not_iff_not]
      constructor
      · rintro ⟨k, hk, hkzero, hkend, hkz⟩
        exact Or.inl ⟨h, hh, k, hk, hend, hzero, hkzero, by omega, hkz⟩
      · rintro (⟨h', hh', k, hk, hend', _, hkzero, hnext, hkz⟩ |
          ⟨h', hh', k, hk, hend', _, hkzero, hnext, hkz⟩)
        · have hstart' := r.start_of_collapse A B hh' hk hend' hnext
          exact ⟨k, hk, hkzero, by omega, hkz⟩
        · have hstart' := r.swap.start_of_collapse B A hh' hk hend' hnext
          have herases : Erases o localHunks z (s - 1) := ⟨k, hk, hkzero, by omega, hkz⟩
          exact absurd (herases.getLast? A) hne
  · rw [hlines, endsOnce_append hempty, hQ, ← hbefore, ← endsOnce_append hempty, ← hsplit]
    exact iff_of_true ha (r.not_collapse A B hgR hother hempty)

omit A in
omit B in
/-- A region both sides rebuilt never reaches the end: both texts end with the
same line, which the diff matches. -/
theorem OwnedEnd.not_last {v : List α} {hunks : List Hunk}
    (hg : ∀ h ∈ hunks, GreedyHunk o v h) (ho : EndsOnce z o) (hv : EndsOnce z v) :
    ¬ OwnedEnd v hunks o.length lines := by
  rintro ⟨h, hh, hend, hpos, hpos', _⟩
  obtain ⟨hlength, hdisjoint⟩ := (hg h hh).last (by omega)
  exact hdisjoint z (ho.mem_drop (by omega)) (hv.mem_drop (by omega))

theorem RegionRun.endsOnce (hgL : ∀ h ∈ localHunks, GreedyHunk o a h)
    (hgR : ∀ h ∈ remoteHunks, GreedyHunk o b h) (ho : EndsOnce z o) (ha : EndsOnce z a)
    (hb : EndsOnce z b) (r : RegionRun o a b localHunks remoteHunks c s o.length lines)
    (m : Merged o a b localHunks remoteHunks z c pre) (hcs : c < s ∨ s = 0 ∧ pre = []) :
    EndsOnce z (pre ++ slice o c s ++ lines) ↔
      ¬ (Collapse o localHunks remoteHunks z ∨ Collapse o remoteHunks localHunks z) := by
  have hse := r.start_le_end
  cases r.choice with
  | localText hlines hother => exact r.endsOnce_local A B hgL hgR ha m hcs hlines hother
  | remoteText hlines hother =>
    rw [r.swap.endsOnce_local B A hgR hgL hb m.swap hcs hlines hother, or_comm]
  | disjoint hrun =>
    obtain ⟨_, _, hnoL, hnoR, hend⟩ :=
      mergeDisjointRegion_end A B hse (Nat.le_refl _) r.local_within r.remote_within hrun
    rcases Nat.eq_or_lt_of_le hse with rfl | hlt
    · obtain ⟨h, hh, hstart, hle⟩ := r.first
      rcases hh with hlocal | hremote
      · have := hnoL h hlocal (by omega)
        omega
      · have := hnoR h hremote (by omega)
        omega
    · rcases hend hlt with hown | hown
      · exact absurd hown (OwnedEnd.not_last hgL ho ha)
      · exact absurd hown (OwnedEnd.not_last hgR ho hb)

end

theorem hunk_before {hunks : List Hunk} {side : Side} {first : SidedHunk}
    {grouped later : List SidedHunk} {c i e : ℕ} {sides : List Side}
    (R : RegionOf first grouped later e sides)
    (hr : Resume hunks side (first :: (grouped ++ later)) c i) :
    ∀ k ∈ hunks, k.oStart + k.oLength < first.oStart → k.oStart + k.oLength ≤ c := by
  intro k hk hlt
  have hse := R.start_le_end
  rcases hr.hunk_cases R hk with hdone | hin | hlater <;> omega

theorem RegionRun.merged (A : Aligned o a localHunks) (B : Aligned o b remoteHunks)
    (hgL : ∀ h ∈ localHunks, GreedyHunk o a h) (hgR : ∀ h ∈ remoteHunks, GreedyHunk o b h)
    {c s e : ℕ} {lines pre : List α} (r : RegionRun o a b localHunks remoteHunks c s e lines)
    (hcs : c < s ∨ s = 0 ∧ pre = []) (he : e < o.length) (z : α) :
    Merged o a b localHunks remoteHunks z e (pre ++ slice o c s ++ lines) := by
  have hse := r.start_le_end
  have hQ := getLast?_append_slice hcs (Nat.le_trans hse r.end_le)
  refine ⟨fun hz hne => ?_, fun hz hne => ?_⟩
  · exact region_last A B hgR hse he r.local_within r.remote_within r.choice hQ hz hne
  · exact region_last B A hgL hse he r.remote_within r.local_within r.choice.swap hQ hz hne

/-- Behind the last event the merge ends like the ancestor. -/
theorem endsOnce_tail (B : Aligned o b remoteHunks) {z : α} {c : ℕ}
    (ho : EndsOnce z o) (ha : EndsOnce z a) (hb : EndsOnce z b) (hc : c < o.length)
    (hL : a.drop (cutAt localHunks c) = o.drop c) (hR : b.drop (cutAt remoteHunks c) = o.drop c)
    {pre : List α} (m : Merged o a b localHunks remoteHunks z c pre) :
    EndsOnce z (pre ++ o.drop c) := by
  have hne : o.drop c ≠ [] := by simpa [drop_eq_nil_iff] using hc
  have hsplit : ∀ {v : List α} {i : ℕ}, v.drop i = o.drop c → v.take i ++ o.drop c = v := by
    intro v i h
    rw [← h, take_append_drop]
  rw [← hsplit rfl] at ho
  rw [← hsplit hL] at ha
  rw [← hsplit hR] at hb
  rw [endsOnce_append hne] at ho ha hb ⊢
  refine ⟨ho.1, ?_⟩
  cases hrest : (o.drop c).dropLast.getLast? with
  | some line => simpa [hrest] using ho.2
  | none =>
    rw [hrest, Option.none_or] at ha hb
    rw [Option.none_or]
    have hz : o[c]? = some z := by
      have hnil := List.getLast?_eq_none_iff.mp hrest
      have hlast := ho.1
      rw [drop_eq_getElem_cons hc] at hnil hlast
      cases htail : o.drop (c + 1) with
      | nil =>
        rw [htail] at hlast
        rw [List.getElem?_eq_getElem hc]
        simpa using hlast
      | cons x xs =>
        rw [htail] at hnil
        simp at hnil
    rw [Ne, m.local_last hz ha.2]
    intro herases
    exact hb.2 (herases.getLast? B)

theorem hunk_done {hunks : List Hunk} {side : Side} {c i : ℕ} (hr : Resume hunks side [] c i) :
    ∀ k ∈ hunks, k.oStart + k.oLength ≤ c := by
  intro k hk
  cases hr with
  | fresh hall => exact absurd (hall k hk) (by simp)
  | cut _ _ hall => simpa using hall k hk

theorem cutAt_done {hunks : List Hunk} {side : Side} {c i : ℕ} (hr : Resume hunks side [] c i) :
    cutAt hunks c = i := by
  cases hr with
  | fresh hall =>
    have hnone : hunks = [] := eq_nil_iff_forall_not_mem.mpr fun k hk => by
      simpa using hall k hk
    rw [hnone]
    exact cutAt_eq (variantEnd_nil 0)
  | cut hcut _ _ => exact cutAt_eq hcut

variable [DecidableEq α]

/-- One step of the outer loop, with what the next step needs. -/
theorem mergeRegions_region (A : Aligned o a localHunks) (B : Aligned o b remoteHunks)
    {fuel c i j : ℕ} {first : SidedHunk} {rest : List SidedHunk} {out : List α}
    (hev : EventsOf localHunks remoteHunks (first :: rest))
    (hL : Resume localHunks .localSide (first :: rest) c i)
    (hR : Resume remoteHunks .remoteSide (first :: rest) c j)
    (hrun : mergeRegions o localHunks remoteHunks a b defaultAdjacencyLines (fuel + 1) c
      (first :: rest) = .ok (some out)) :
    ∃ e lines later out', later.length ≤ rest.length ∧
      RegionRun o a b localHunks remoteHunks c first.oStart e lines ∧
      EventsOf localHunks remoteHunks later ∧
      Resume localHunks .localSide later e (cutAt localHunks e) ∧
      Resume remoteHunks .remoteSide later e (cutAt remoteHunks e) ∧
      (∀ ev ∈ later, e < ev.oStart) ∧
      mergeRegions o localHunks remoteHunks a b defaultAdjacencyLines fuel e later =
        .ok (some out') ∧ out = slice o c first.oStart ++ lines ++ out' := by
  rw [mergeRegions] at hrun
  rcases hgroup : groupRegion defaultAdjacencyLines (first.oStart + first.oLength) [first.side] rest
    with ⟨e, sides, later⟩
  rw [hgroup] at hrun
  dsimp only at hrun
  have hcovered := groupRegion_covered rest hgroup
  have he := hev.end_le A B hgroup
  obtain ⟨grouped, rfl, R⟩ := regionOf_groupRegion (Nat.le_refl 1) hev.ordered hgroup
  have hse := R.start_le_end
  have hwL := hL.within R
  have hwR := hR.within R
  obtain ⟨_, q, _, hq, _, _⟩ := A.exists_cut he (hwL.free_end hse)
  obtain ⟨_, q', _, hq', _, _⟩ := B.exists_cut he (hwR.free_end hse)
  split at hrun
  · cases hrun
  · cases hrun
  · rename_i lines hlines
    obtain ⟨out', hnext, rfl⟩ := eq_ok_some_of_map hrun
    have hchoice := regionLines_choice (fun h => A.segmentFor_untouched hse he (hL.untouched R h))
      (fun h => B.segmentFor_untouched hse he (hR.untouched R h)) hlines
    refine ⟨e, lines, later, out', by simp, ⟨hse, he, hwL, hwR, hunk_before R hL,
      hunk_before R hR, ?_, ?_, hchoice⟩, hev.later, ?_, ?_, R.later_out, hnext, rfl⟩
    · exact ⟨first.toHunk, hev.hunk_mem (mem_cons_self ..), rfl,
        (R.grouped_in first (mem_cons_self ..)).1⟩
    · intro p hsp hpe
      rcases Nat.lt_or_ge p (first.oStart + first.oLength) with hin | hout
      · exact ⟨first.toHunk, hev.hunk_mem (mem_cons_self ..), hsp, hin⟩
      · obtain ⟨ev, hmem, hcover⟩ := hcovered p hout hpe
        exact ⟨ev.toHunk, hev.hunk_mem (mem_cons_of_mem _ hmem), hcover⟩
    · rw [cutAt_eq hq]
      exact hL.next R hq
    · rw [cutAt_eq hq']
      exact hR.next R hq'

theorem mergeRegions_endsOnce (A : Aligned o a localHunks) (B : Aligned o b remoteHunks)
    (hgL : ∀ h ∈ localHunks, GreedyHunk o a h) (hgR : ∀ h ∈ remoteHunks, GreedyHunk o b h) {z : α}
    (ho : EndsOnce z o) (ha : EndsOnce z a) (hb : EndsOnce z b) {fuel c i j : ℕ}
    {events : List SidedHunk} {pre out : List α} (hc : c < o.length) (hfuel : events.length ≤ fuel)
    (hev : EventsOf localHunks remoteHunks events)
    (hstart : c = 0 ∧ pre = [] ∨ ∀ ev ∈ events, c < ev.oStart)
    (hL : Resume localHunks .localSide events c i) (hR : Resume remoteHunks .remoteSide events c j)
    (m : Merged o a b localHunks remoteHunks z c pre)
    (hrun : mergeRegions o localHunks remoteHunks a b defaultAdjacencyLines fuel c events =
      .ok (some out)) :
    EndsOnce z (pre ++ out) ↔
      ¬ (Collapse o localHunks remoteHunks z ∨ Collapse o remoteHunks localHunks z) := by
  have hdone : ∀ {c i j : ℕ} {pre : List α}, c < o.length →
      Resume localHunks .localSide [] c i → Resume remoteHunks .remoteSide [] c j →
      Merged o a b localHunks remoteHunks z c pre → (EndsOnce z (pre ++ o.drop c) ↔
        ¬ (Collapse o localHunks remoteHunks z ∨ Collapse o remoteHunks localHunks z)) := by
    intro c i j pre hc hL hR m
    have hbehind := hunk_done hL
    have hbehind' := hunk_done hR
    refine iff_of_true (endsOnce_tail B ho ha hb hc ?_ ?_ m) ?_
    · rw [cutAt_done hL, hL.tail A (Nat.le_of_lt hc)]
    · rw [cutAt_done hR, hR.tail B (Nat.le_of_lt hc)]
    · rintro (⟨h, hh, _, _, hend, _⟩ | ⟨h, hh, _, _, hend, _⟩)
      · have := hbehind h hh
        omega
      · have := hbehind' h hh
        omega
  induction fuel generalizing c i j events pre out with
  | zero =>
    obtain rfl : events = [] := length_eq_zero_iff.mp (Nat.le_zero.mp hfuel)
    simp only [mergeRegions, Except.ok.injEq, Option.some.injEq] at hrun
    rw [← hrun]
    exact hdone hc hL hR m
  | succ fuel ih =>
    cases events with
    | nil =>
      simp only [mergeRegions, Except.ok.injEq, Option.some.injEq] at hrun
      rw [← hrun]
      exact hdone hc hL hR m
    | cons first rest =>
      obtain ⟨e, lines, later, out', hlength, r, hev', hL', hR', hout, hrun', rfl⟩ :=
        mergeRegions_region A B hev hL hR hrun
      rw [length_cons] at hfuel
      have hcs : c < first.oStart ∨ first.oStart = 0 ∧ pre = [] := by
        rcases hstart with ⟨rfl, hpre⟩ | hbehind
        · rcases Nat.eq_zero_or_pos first.oStart with hzero | hpos
          · exact Or.inr ⟨hzero, hpre⟩
          · exact Or.inl hpos
        · exact Or.inl (hbehind first (mem_cons_self ..))
      rw [← append_assoc, ← append_assoc]
      rcases Nat.lt_or_ge e o.length with hlt | hge
      · exact ih hlt (by omega) hev' (Or.inr hout) hL' hR' (r.merged A B hgL hgR hcs hlt z) hrun'
      · obtain rfl : e = o.length := Nat.le_antisymm r.end_le hge
        have hnil : later = [] := eq_nil_iff_forall_not_mem.mpr fun ev hmem => by
          have := hout ev hmem
          have := hev'.inside A B ev hmem
          omega
        have hrest : out' = [] := by
          subst hnil
          cases fuel <;> simpa [mergeRegions] using hrun'.symm
        rw [hrest, append_nil]
        exact r.endsOnce A B hgL hgR ho ha hb m hcs

theorem mergeLines_endsOnce {z : α} (ho : EndsOnce z o) (ha : EndsOnce z a) (hb : EndsOnce z b)
    {out : List α} (hrun : mergeLines defaultAdjacencyLines o a b = .ok (some out)) :
    EndsOnce z out ↔
      ¬ (Collapse o (diffHunks o a) (diffHunks o b) z ∨
        Collapse o (diffHunks o b) (diffHunks o a) z) := by
  have hends : EndsOnce z ([] ++ out) ↔ _ := mergeRegions_endsOnce
    (diffHunks_aligned o a) (diffHunks_aligned o b)
    (fun _ hh => diffHunks_greedy o a hh) (fun _ hh => diffHunks_greedy o b hh) ho ha hb
    (length_pos_iff.mpr ho.ne_nil) (Nat.le_refl _) (sidedEvents_eventsOf _ _)
    (Or.inl ⟨rfl, rfl⟩)
    (Resume.local_start _ _) (Resume.remote_start _ _) (merged_nil z) hrun
  exact hends

end Havemind.TrailingLines
