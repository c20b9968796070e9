import Havemind.Diff3Cuts
import Havemind.MergeBlocks

/-!
A region both sides touched on disjoint ancestor lines. The walk over it emits
one owned hunk after the other, and each hunk is one joint block: the owner's
replacement beside the untouched lines of the other side.
-/
namespace Havemind.DisjointRegion

open JsText LineDiff Diff3 Diff3Cuts MergeBlocks List

variable {α : Type*} {o a b : List α} {localHunks remoteHunks : List Hunk}
  {hunks ownHunks : List Hunk} {s e line : ℕ} {own out : List α} {h : Hunk} {opposite : List α}
  {oppositeHunks : List Hunk}

/-- Neither side inserts between two lines of the span, its ends included. -/
def NoInsertion (hunks : List Hunk) (s e : ℕ) : Prop :=
  ∀ h ∈ hunks, h.oLength = 0 → h.oStart < s ∨ e < h.oStart

theorem NoInsertion.cuts_eq {p : ℕ} (h : NoInsertion hunks s e) (hsp : s ≤ p) (hpe : p ≤ e) :
    variantStart hunks p = variantEnd hunks p := by
  apply variantStart_eq_variantEnd
  intro k hk hle
  have := h k hk
  omega

/-- Balanced hunks of one side inside the region `[s, e)`. -/
def BalancedIn (hunks : List Hunk) (s e : ℕ) : Prop :=
  ∀ h ∈ hunks, h.oStart < e → s < h.oStart + h.oLength →
    0 < h.oLength ∧ h.oLength = h.abLength ∧ s ≤ h.oStart ∧ h.oStart + h.oLength ≤ e

theorem balancedIn_of_balanced (h : balanced hunks s e = true) : BalancedIn hunks s e := by
  intro k hk hlt hgt
  have hall := all_eq_true.mp h k (mem_filter.mpr ⟨hk, by simp; omega⟩)
  simpa using hall

theorem noInsertion_of_length (h : ¬ (insertionsIn hunks s e).length > 0) :
    NoInsertion hunks s e := by
  intro k hk hzero
  by_contra hin
  apply h
  apply length_pos_of_mem (a := k)
  exact mem_filter.mpr ⟨hk, by simp; omega⟩

/-- One step of the walk over a hunk that only its owner has: the owner's
replacement beside the untouched lines of the other side. -/
theorem owned_step (A : Aligned o own ownHunks) (B : Aligned o opposite oppositeHunks)
    (he : e ≤ o.length) (hbal : BalancedIn ownHunks s e) (hins : NoInsertion ownHunks s e)
    (hins' : NoInsertion oppositeHunks s e) (hs : s ≤ line) (hline : line < e)
    (hfree : Free ownHunks line) (hcover : hunkCovering ownHunks line = some h)
    (hopp : ¬ regionHasOppositeChange oppositeHunks h.oStart (h.oStart + h.oLength) = true) :
    ∃ q, h.oStart + h.oLength = q ∧ h.oStart = line ∧ line < q ∧ q ≤ e ∧
      Free ownHunks q ∧ Free oppositeHunks q ∧
      slice own (cutAt ownHunks line) (cutAt ownHunks q) = (own.drop h.abStart).take h.abLength ∧
      slice opposite (cutAt oppositeHunks line) (cutAt oppositeHunks q) = slice o line q := by
  have hmem : h ∈ ownHunks := mem_of_find?_eq_some hcover
  have hcov : line ≥ h.oStart ∧ line < h.oStart + h.oLength := by
    simpa using List.find?_some hcover
  have hstart : h.oStart = line := by
    have := hfree h hmem
    omega
  obtain ⟨hpos, hlen, _, hend⟩ := hbal h hmem (by omega) (by omega)
  have hout : ∀ k ∈ oppositeHunks,
      k.oStart + k.oLength ≤ line ∨ h.oStart + h.oLength ≤ k.oStart := by
    intro k hk
    by_contra hin
    apply hopp
    exact any_eq_true.mpr ⟨k, hk, by simp; omega⟩
  obtain ⟨hcs, hce⟩ := A.hunk_cuts h hmem
  have hown : cutAt ownHunks line = h.abStart := by
    apply cutAt_eq
    rw [← hins.cuts_eq hs (by omega), ← hstart, hcs]
  have hown' : cutAt ownHunks (h.oStart + h.oLength) = h.abStart + h.abLength :=
    cutAt_eq (by rw [hce]; push_cast; rfl)
  obtain ⟨y, hy, hy', hslice⟩ := B.gap hcov.2 (by omega) hout
  have hopp' : cutAt oppositeHunks (h.oStart + h.oLength) = y + (h.oStart + h.oLength - line) :=
    cutAt_eq (by rw [← hins'.cuts_eq (by omega) hend, hy'])
  refine ⟨_, rfl, hstart, hcov.2, hend, free_of_separated A.separated hmem, ?_, ?_, ?_⟩
  · intro k hk
    have := hout k hk
    omega
  · rw [hown, hown', slice_natCast, drop_take]
    congr 1
    omega
  · rw [hopp', cutAt_eq hy, hslice]

theorem eq_ok_some_of_map {x : Except JsError (Option (List α))} {f : List α → List α}
    (h : x.map (Option.map f) = .ok (some out)) : ∃ y, x = .ok (some y) ∧ out = f y := by
  cases x with
  | error e => cases h
  | ok value =>
    cases value with
    | none => cases h
    | some y => exact ⟨y, rfl, by cases h; rfl⟩

/-- The block of one owned hunk stands before the blocks of the rest of the walk. -/
theorem owned_sound (A : Aligned o own ownHunks) (B : Aligned o opposite oppositeHunks)
    (he : e ≤ o.length) (hbal : BalancedIn ownHunks s e) (hins : NoInsertion ownHunks s e)
    (hins' : NoInsertion oppositeHunks s e) (hs : s ≤ line) (hline : line < e)
    (hfree : Free ownHunks line) (hfree' : Free oppositeHunks line) (hfe : Free ownHunks e)
    (hfe' : Free oppositeHunks e) (hcover : hunkCovering ownHunks line = some h)
    (hopp : ¬ regionHasOppositeChange oppositeHunks h.oStart (h.oStart + h.oLength) = true)
    (hrest : ∀ q, h.oStart + h.oLength = q → line < q → q ≤ e → Free ownHunks q →
      Free oppositeHunks q → JointPartition (slice o q e)
        (slice own (cutAt ownHunks q) (cutAt ownHunks e))
        (slice opposite (cutAt oppositeHunks q) (cutAt oppositeHunks e)) out) :
    JointPartition (slice o line e) (slice own (cutAt ownHunks line) (cutAt ownHunks e))
      (slice opposite (cutAt oppositeHunks line) (cutAt oppositeHunks e))
      ((if h.oStart ≥ line then (own.drop h.abStart).take h.abLength else []) ++ out) := by
  obtain ⟨q, hq, hstart, hlq, hqe, hfq, hfq', hown, hslice⟩ :=
    owned_step A B he hbal hins hins' hs hline hfree hcover hopp
  have hle : line ≤ q := Nat.le_of_lt hlq
  rw [if_pos (by omega), ← slice_append_slice o hle hqe,
    ← slice_append_slice own (A.cutAt_mono hle (by omega) hfree hfq)
      (A.cutAt_mono hqe he hfq hfe),
    ← slice_append_slice opposite (B.cutAt_mono hle (by omega) hfree' hfq')
      (B.cutAt_mono hqe he hfq' hfe'), hown, hslice]
  exact (JointPartition.takeLeft _ _).append (hrest q hq hlq hqe hfq hfq')

theorem owned_emits (A : Aligned o own ownHunks) (hfree : Free ownHunks line)
    (hcover : hunkCovering ownHunks line = some h) (hpos : ¬ h.abLength = 0) :
    (if h.oStart ≥ line then (own.drop h.abStart).take h.abLength else []) ≠ [] := by
  have hmem : h ∈ ownHunks := mem_of_find?_eq_some hcover
  have hcov : line ≥ h.oStart ∧ line < h.oStart + h.oLength := by
    simpa using List.find?_some hcover
  have hstart : h.oStart ≥ line := by
    have := hfree h hmem
    omega
  have hbound := (A.bounds _ (A.inside h hmem) (free_of_separated A.separated hmem)).2.2
  rw [(A.hunk_cuts h hmem).2] at hbound
  rw [if_pos hstart]
  apply ne_nil_of_length_pos
  simp only [length_take, length_drop]
  omega

theorem disjointWalk_done {fuel : ℕ} (hle : e ≤ line) :
    disjointWalk localHunks remoteHunks a b e fuel line = .ok (some []) := by
  cases fuel with
  | zero => rfl
  | succ fuel => rw [disjointWalk, if_neg (Nat.not_lt.mpr hle)]

/-- A turn of the walk emits a hunk of one side, on lines the other side leaves alone. -/
theorem disjointWalk_owned {fuel : ℕ} (hline : line < e)
    (hrun : disjointWalk localHunks remoteHunks a b e (fuel + 1) line = .ok (some out)) :
    ∃ h rest, ¬ h.abLength = 0 ∧
      disjointWalk localHunks remoteHunks a b e fuel (h.oStart + h.oLength) = .ok (some rest) ∧
      ((hunkCovering localHunks line = some h ∧ hunkCovering remoteHunks line = none ∧
          ¬ regionHasOppositeChange remoteHunks h.oStart (h.oStart + h.oLength) = true ∧
          (if h.oStart ≥ line then (a.drop h.abStart).take h.abLength else []) ++ rest = out) ∨
        (hunkCovering remoteHunks line = some h ∧ hunkCovering localHunks line = none ∧
          ¬ regionHasOppositeChange localHunks h.oStart (h.oStart + h.oLength) = true ∧
          (if h.oStart ≥ line then (b.drop h.abStart).take h.abLength else []) ++ rest = out)) := by
  rw [disjointWalk, if_pos hline] at hrun
  dsimp only at hrun
  split at hrun
  · cases hrun
  · cases hrun
  · rename_i own hcover hnone
    split at hrun
    · cases hrun
    · rename_i hopp
      split at hrun
      · cases hrun
      · rename_i hzero
        obtain ⟨rest, hnext, hout⟩ := eq_ok_some_of_map hrun
        exact ⟨own, rest, hzero, hnext, .inl ⟨hcover, hnone, hopp, hout.symm⟩⟩
  · rename_i own hnone hcover
    split at hrun
    · cases hrun
    · rename_i hopp
      split at hrun
      · cases hrun
      · rename_i hzero
        obtain ⟨rest, hnext, hout⟩ := eq_ok_some_of_map hrun
        exact ⟨own, rest, hzero, hnext, .inr ⟨hcover, hnone, hopp, hout.symm⟩⟩

/-- A rebuilt region is balanced, has no insertion, and is what the walk emits. -/
theorem mergeDisjointRegion_some {lines : List α}
    (hrun : mergeDisjointRegion localHunks remoteHunks a b s e = .ok (some lines)) :
    BalancedIn localHunks s e ∧ BalancedIn remoteHunks s e ∧ NoInsertion localHunks s e ∧
      NoInsertion remoteHunks s e ∧
      disjointWalk localHunks remoteHunks a b e (e - s) s = .ok (some lines) := by
  unfold mergeDisjointRegion at hrun
  split_ifs at hrun with hbal hins
  · cases hrun
  · cases hrun
  · simp only [Bool.or_eq_true, Bool.not_eq_true', not_or, Bool.not_eq_false] at hbal
    obtain ⟨hinsL, hinsR⟩ := not_or.mp hins
    exact ⟨balancedIn_of_balanced hbal.1, balancedIn_of_balanced hbal.2,
      noInsertion_of_length hinsL, noInsertion_of_length hinsR, hrun⟩

theorem disjointWalk_sound (A : Aligned o a localHunks) (B : Aligned o b remoteHunks)
    (he : e ≤ o.length) (hbalL : BalancedIn localHunks s e) (hbalR : BalancedIn remoteHunks s e)
    (hinsL : NoInsertion localHunks s e) (hinsR : NoInsertion remoteHunks s e)
    (hfLe : Free localHunks e) (hfRe : Free remoteHunks e) (fuel line : ℕ) (out : List α)
    (hs : s ≤ line) (hle : line ≤ e) (hfuel : e ≤ line + fuel) (hfL : Free localHunks line)
    (hfR : Free remoteHunks line)
    (hrun : disjointWalk localHunks remoteHunks a b e fuel line = .ok (some out)) :
    JointPartition (slice o line e) (slice a (cutAt localHunks line) (cutAt localHunks e))
      (slice b (cutAt remoteHunks line) (cutAt remoteHunks e)) out := by
  induction fuel generalizing line out with
  | zero =>
    obtain rfl : line = e := by omega
    rw [disjointWalk_done le_rfl] at hrun
    cases hrun
    simpa only [slice_self] using JointPartition.nil
  | succ fuel ih =>
    rcases Nat.lt_or_ge line e with hlt | hge
    · obtain ⟨own, rest, -, hnext, ⟨hcover, -, hopp, rfl⟩ | ⟨hcover, -, hopp, rfl⟩⟩ :=
        disjointWalk_owned hlt hrun
      · refine owned_sound A B he hbalL hinsL hinsR hs hlt hfL hfR hfLe hfRe hcover hopp ?_
        intro q hq hlq hqe hfq hfq'
        subst hq
        exact ih _ _ (by omega) hqe (by omega) hfq hfq' hnext
      · refine (owned_sound B A he hbalR hinsR hinsL hs hlt hfR hfL hfRe hfLe hcover hopp ?_).swap
        intro q hq hlq hqe hfq hfq'
        subst hq
        exact (ih _ _ (by omega) hqe (by omega) hfq' hfq hnext).swap
    · obtain rfl : line = e := by omega
      rw [disjointWalk_done le_rfl] at hrun
      cases hrun
      simpa only [slice_self] using JointPartition.nil

/-- The walk emits at least one line: it starts at an owned hunk, whose
replacement is not empty. -/
theorem disjointWalk_ne_nil (A : Aligned o a localHunks) (B : Aligned o b remoteHunks) {fuel : ℕ}
    (hfL : Free localHunks line) (hfR : Free remoteHunks line) (hline : line < e)
    (hrun : disjointWalk localHunks remoteHunks a b e (fuel + 1) line = .ok (some out)) :
    out ≠ [] := by
  obtain ⟨own, rest, hpos, -, ⟨hcover, -, -, rfl⟩ | ⟨hcover, -, -, rfl⟩⟩ :=
    disjointWalk_owned hline hrun
  · simp [owned_emits A hfL hcover hpos]
  · simp [owned_emits B hfR hcover hpos]

end Havemind.DisjointRegion
