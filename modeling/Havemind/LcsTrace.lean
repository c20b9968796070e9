import Havemind.LineDiff
import Mathlib.Data.List.Infix

/-!
Which of the longest common subsequences the backtrace takes. The table holds
the lengths for all pairs of suffixes, and the walk skips ancestor lines before
it skips variant lines: once it skips a variant line, no ancestor line is
skipped before the next match. A hunk's replacement therefore never contains
the line matched behind it, and the last hunk replaces nothing by itself.
-/
namespace Havemind.LcsTrace

open LineDiff List

variable {α : Type*} [DecidableEq α]

def lcsLength : List α → List α → ℕ
  | [], _ => 0
  | _ :: _, [] => 0
  | line :: x, other :: y =>
      if line = other then lcsLength x y + 1
      else max (lcsLength x (other :: y)) (lcsLength (line :: x) y)
termination_by x y => x.length + y.length

theorem lcsLength_nil_right (x : List α) : lcsLength x [] = 0 := by
  cases x <;> rw [lcsLength]

/-- One more variant line never shortens, one more ancestor line adds at most
one. Each bound needs the other at shorter lists. -/
theorem lcsLength_bounds (x : List α) :
    (∀ y (other : α), lcsLength x y ≤ lcsLength x (other :: y)) ∧
      ∀ y (line : α), lcsLength (line :: x) y ≤ lcsLength x y + 1 := by
  induction x with
  | nil =>
    refine ⟨fun y other => by rw [lcsLength, lcsLength], fun y line => ?_⟩
    induction y with
    | nil => rw [lcsLength, lcsLength]; omega
    | cons other y ih =>
      have hempty : ∀ z : List α, lcsLength [] z = 0 := fun z => by rw [lcsLength]
      rw [hempty] at ih
      rw [hempty, lcsLength, hempty, hempty]
      split <;> omega
  | cons head x ihx =>
    obtain ⟨hgrow, hstep⟩ := ihx
    have hgrow' : ∀ y (other : α), lcsLength (head :: x) y ≤ lcsLength (head :: x) (other :: y) := by
      intro y other
      rw [lcsLength]
      split
      · exact hstep y head
      · exact Nat.le_max_right _ _
    refine ⟨hgrow', fun y line => ?_⟩
    induction y with
    | nil => rw [lcsLength_nil_right, lcsLength_nil_right]; omega
    | cons other y ih =>
      have hmore := hgrow' y other
      rw [lcsLength]
      split <;> omega

theorem lcsLength_pos {x y : List α} {line : α} (hx : line ∈ x) (hy : line ∈ y) :
    0 < lcsLength x y := by
  induction x, y using lcsLength.induct with
  | case1 y => cases hx
  | case2 head x => cases hy
  | case3 x y other ih =>
    rw [lcsLength, if_pos rfl]
    omega
  | case4 head x other y hne ihx ihy =>
    rw [lcsLength, if_neg hne]
    rcases mem_cons.mp hx with rfl | hx'
    · have hy' : line ∈ y := (mem_cons.mp hy).resolve_left hne
      have := ihy hx hy'
      omega
    · have := ihx hx' hy
      omega

section

theorem lcsRow_eq (line : α) (x y : List α) :
    lcsRow line y (y.tails.map (lcsLength x)) = y.tails.map (lcsLength (line :: x)) := by
  induction y with
  | nil => simp [lcsRow, lcsLength]
  | cons other y ih =>
    have hhead : ∀ z : List α, (y.tails.map (lcsLength z)).headD 0 = lcsLength z y := by
      intro z
      cases y <;> simp
    rw [tails_cons, map_cons, lcsRow, tail_cons, ih, map_cons, hhead, hhead,
      headD_cons, lcsLength]

theorem lcsTable_eq (x y : List α) :
    lcsTable x y = x.tails.map fun x' => y.tails.map (lcsLength x') := by
  induction x with
  | nil =>
    have hzero : y.tails.map (lcsLength []) = List.replicate (y.length + 1) 0 := by
      apply eq_replicate_iff.mpr
      refine ⟨by simp, ?_⟩
      intro n hn
      obtain ⟨z, _, rfl⟩ := mem_map.mp hn
      rw [lcsLength]
    rw [lcsTable, ← hzero]
    rfl
  | cons line x ih =>
    have hhead : (x.tails.map fun x' => y.tails.map (lcsLength x')).headD [] =
        y.tails.map (lcsLength x) := by
      cases x <;> simp
    rw [lcsTable, ih, hhead, lcsRow_eq, tails_cons, map_cons]

omit [DecidableEq α] in
theorem getD_map_tails {β : Type*} (f : List α → β) (x : List α) {i : ℕ} (d : β)
    (hi : i ≤ x.length) : (x.tails.map f).getD i d = f (x.drop i) := by
  have hlt : i < x.tails.length := by
    rw [length_tails]
    omega
  rw [getD_eq_getElem?_getD, List.getElem?_map, List.getElem?_eq_getElem hlt,
    getElem_tails, Option.map_some, Option.getD_some]

theorem tableAt_lcsTable (x y : List α) {i j : ℕ} (hi : i ≤ x.length) (hj : j ≤ y.length) :
    tableAt (lcsTable x y) i j = lcsLength (x.drop i) (y.drop j) := by
  rw [tableAt, lcsTable_eq, getD_map_tails _ x _ hi, getD_map_tails _ y _ hj]

end

section
variable (x y : List α)

def lengthAt (i j : ℕ) : ℕ := lcsLength (x.drop i) (y.drop j)

variable {x y} {i j : ℕ} {line other : α}

theorem lengthAt_of_ne (hx : x[i]? = some line) (hy : y[j]? = some other) (hne : line ≠ other) :
    lengthAt x y i j = max (lengthAt x y (i + 1) j) (lengthAt x y i (j + 1)) := by
  obtain ⟨hi, hxi⟩ := List.getElem?_eq_some_iff.mp hx
  obtain ⟨hj, hyj⟩ := List.getElem?_eq_some_iff.mp hy
  unfold lengthAt
  rw [drop_eq_getElem_cons hi, drop_eq_getElem_cons hj, hxi, hyj, lcsLength, if_neg hne]

theorem lengthAt_le_of_skip (hy : y[j]? = some other) :
    lengthAt x y i (j + 1) ≤ lengthAt x y i j := by
  obtain ⟨hj, _⟩ := List.getElem?_eq_some_iff.mp hy
  unfold lengthAt
  rw [drop_eq_getElem_cons hj]
  exact (lcsLength_bounds (x.drop i)).1 _ _

theorem lengthAt_of_end (h : x.length ≤ i ∨ y.length ≤ j) : lengthAt x y i j = 0 := by
  unfold lengthAt
  rcases h with hi | hj
  · rw [drop_eq_nil_of_le hi, lcsLength]
  · rw [drop_eq_nil_of_le hj, lcsLength_nil_right]

/-- Where the walk stands behind the cursors `ci` and `cj` of the last match:
the ancestor lines it skipped are not the next variant line, the variant lines
it skipped are not the next ancestor line, and from the first skipped variant
line on the table forbids to skip an ancestor line. -/
structure Walked (x y : List α) (ci cj i j : ℕ) : Prop where
  ancestor_le : ci ≤ i
  variant_le : cj ≤ j
  ancestor_end : i ≤ x.length
  variant_end : j ≤ y.length
  length_eq : lengthAt x y ci cj = lengthAt x y i j
  skipped_ancestor : ∀ k, ci ≤ k → k < i → x[k]? ≠ y[cj]?
  skipped_variant : ∀ k, cj ≤ k → k < j → y[k]? ≠ x[i]?
  locked : cj < j → ∀ line other, x[i]? = some line → y[j]? = some other → line ≠ other →
    lengthAt x y (i + 1) j < lengthAt x y i (j + 1)

variable {ci cj : ℕ}

theorem Walked.refl (hi : i ≤ x.length) (hj : j ≤ y.length) : Walked x y i j i j :=
  ⟨Nat.le_refl _, Nat.le_refl _, hi, hj, rfl, fun k _ _ => by omega, fun k _ _ => by omega,
    fun h => by omega⟩

theorem Walked.skip_ancestor (w : Walked x y ci cj i j) (hx : x[i]? = some line)
    (hy : y[j]? = some other) (hne : line ≠ other)
    (hge : lengthAt x y (i + 1) j ≥ lengthAt x y i (j + 1)) : Walked x y ci cj (i + 1) j := by
  have hfirst : j = cj := by
    by_contra hj
    have hle := w.variant_le
    have := w.locked (by omega) line other hx hy hne
    omega
  have hlength := lengthAt_of_ne hx hy hne
  have heq := w.length_eq
  refine ⟨by have := w.ancestor_le; omega, w.variant_le, (List.getElem?_eq_some_iff.mp hx).1,
    w.variant_end, by omega, ?_, fun k _ _ => by omega, fun h => by omega⟩
  intro k hk hlt
  rcases Nat.lt_succ_iff_lt_or_eq.mp hlt with hbefore | rfl
  · exact w.skipped_ancestor k hk hbefore
  · rw [hx, ← hfirst, hy]
    simpa using hne

theorem Walked.skip_variant (w : Walked x y ci cj i j) (hx : x[i]? = some line)
    (hy : y[j]? = some other) (hne : line ≠ other)
    (hlt : lengthAt x y (i + 1) j < lengthAt x y i (j + 1)) : Walked x y ci cj i (j + 1) := by
  have hlength := lengthAt_of_ne hx hy hne
  have heq := w.length_eq
  refine ⟨w.ancestor_le, by have := w.variant_le; omega, w.ancestor_end,
    (List.getElem?_eq_some_iff.mp hy).1, by omega, w.skipped_ancestor, ?_, ?_⟩
  · intro k hk hle
    rcases Nat.lt_succ_iff_lt_or_eq.mp hle with hbefore | rfl
    · exact w.skipped_variant k hk hbefore
    · rw [hx, hy]
      simpa using fun h => hne h.symm
  · intro _ line' other' hx' hy' hne'
    have hnext := lengthAt_of_ne hx' hy' hne'
    have hmono : lengthAt x y (i + 1) (j + 1) ≤ lengthAt x y (i + 1) j := lengthAt_le_of_skip hy
    omega

/-- What the boundaries of the diff satisfy beside `BoundariesFrom`: the lines
skipped before a match are not the matched line on either side, and the lines
skipped behind the last match share no line. -/
inductive Greedy (o v : List α) : ℕ → ℕ → List Match → Prop
  | last {i j : ℕ} : i ≤ o.length → j ≤ v.length → (∀ line ∈ o.drop i, line ∉ v.drop j) →
      Greedy o v i j [⟨o.length, v.length⟩]
  | step {i j : ℕ} {m : Match} {rest : List Match} {line : α} : i ≤ m.x → j ≤ m.y →
      o[m.x]? = some line → v[m.y]? = some line →
      (∀ k, i ≤ k → k < m.x → o[k]? ≠ v[j]?) → (∀ k, j ≤ k → k < m.y → v[k]? ≠ o[m.x]?) →
      Greedy o v (m.x + 1) (m.y + 1) rest → Greedy o v i j (m :: rest)

theorem Walked.last (w : Walked x y ci cj i j) (hend : x.length ≤ i ∨ y.length ≤ j) :
    Greedy x y ci cj [⟨x.length, y.length⟩] := by
  have hci := w.ancestor_le
  have hcj := w.variant_le
  have hi := w.ancestor_end
  have hj := w.variant_end
  refine .last (by omega) (by omega) ?_
  intro line hx hy
  have hzero := w.length_eq.trans (lengthAt_of_end hend)
  have hpos : 0 < lengthAt x y ci cj := lcsLength_pos hx hy
  omega

theorem backtrace_greedy (fuel : ℕ) (hfuel : x.length + y.length ≤ i + j + fuel)
    (w : Walked x y ci cj i j) :
    Greedy x y ci cj (backtrace x y (lcsTable x y) fuel i j ++ [⟨x.length, y.length⟩]) := by
  induction fuel generalizing ci cj i j with
  | zero =>
    have hi := w.ancestor_end
    have hj := w.variant_end
    exact w.last (by omega)
  | succ fuel ih =>
    unfold backtrace
    split
    · rename_i line other hx hy
      have hi := (List.getElem?_eq_some_iff.mp hx).1
      have hj := (List.getElem?_eq_some_iff.mp hy).1
      split
      · rename_i heq
        subst heq
        have hskipped : ∀ k, cj ≤ k → k < j → y[k]? ≠ x[i]? := w.skipped_variant
        exact .step w.ancestor_le w.variant_le hx hy w.skipped_ancestor hskipped
          (ih (by omega) (.refl hi hj))
      · rename_i hne
        rw [tableAt_lcsTable x y hi (Nat.le_of_lt hj), tableAt_lcsTable x y (Nat.le_of_lt hi) hj]
        split
        · rename_i hge
          exact ih (by omega) (w.skip_ancestor hx hy hne hge)
        · rename_i hlt
          exact ih (by omega) (w.skip_variant hx hy hne (Nat.lt_of_not_le hlt))
    · rename_i hnone
      refine w.last ?_
      by_contra hboth
      have hx : x[i]? = some x[i] := List.getElem?_eq_getElem (by omega)
      have hy : y[j]? = some y[j] := List.getElem?_eq_getElem (by omega)
      exact hnone _ _ hx hy

end

/-- What the trace says of one hunk. -/
structure GreedyHunk (o v : List α) (h : Hunk) : Prop where
  nonempty : 0 < h.oLength ∨ 0 < h.abLength
  matched : h.oStart + h.oLength < o.length →
    o[h.oStart + h.oLength]? = v[h.abStart + h.abLength]?
  replacement_ne : h.oStart + h.oLength < o.length → ∀ k, h.abStart ≤ k →
    k < h.abStart + h.abLength → v[k]? ≠ o[h.oStart + h.oLength]?
  deleted_ne : h.oStart + h.oLength < o.length → ∀ k, h.oStart ≤ k → k < h.oStart + h.oLength →
    o[k]? ≠ v[h.abStart]?
  last : o.length ≤ h.oStart + h.oLength → h.abStart + h.abLength = v.length ∧
    ∀ line ∈ o.drop h.oStart, line ∉ v.drop h.abStart

theorem Greedy.hunk {o v : List α} {i j : ℕ} {bs : List Match} (hg : Greedy o v i j bs)
    {h : Hunk} (hh : h ∈ hunksFrom i j bs) : GreedyHunk o v h := by
  induction hg with
  | @last i j hi hj hdisjoint =>
    rw [hunksFrom] at hh
    split at hh
    · rename_i hsome
      obtain rfl : h = ⟨i, o.length - i, j, v.length - j⟩ := by simpa [hunksFrom] using hh
      have hend : ¬ i + (o.length - i) < o.length := by omega
      refine ⟨hsome, fun hlt => absurd hlt hend, fun hlt => absurd hlt hend,
        fun hlt => absurd hlt hend, fun _ => ⟨?_, hdisjoint⟩⟩
      simp only
      omega
    · simp [hunksFrom] at hh
  | @step i j m rest line hx hy ho hv hdeleted hreplaced _ ih =>
    rw [hunksFrom] at hh
    split at hh
    · rename_i hsome
      rcases mem_cons.mp hh with rfl | hrest
      · have hox : i + (m.x - i) = m.x := by omega
        have hvy : j + (m.y - j) = m.y := by omega
        have hlt := (List.getElem?_eq_some_iff.mp ho).1
        refine ⟨hsome, ?_, ?_, ?_, ?_⟩ <;> simp only [hox, hvy]
        · exact fun _ => ho.trans hv.symm
        · exact fun _ => hreplaced
        · exact fun _ => hdeleted
        · intro hge
          omega
      · exact ih hrest
    · exact ih hh

theorem diffHunks_greedy (o v : List α) {h : Hunk} (hh : h ∈ diffHunks o v) : GreedyHunk o v h :=
  (backtrace_greedy _ (by omega) (.refl (Nat.zero_le _) (Nat.zero_le _))).hunk hh

end Havemind.LcsTrace
