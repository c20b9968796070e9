import Havemind.JsText
import Havemind.LcsCuts

/-!
The diff the conflict window shows between a note and its conflict copy. The first and
last lines both texts share are matched without a table; between them the diff is the
backtrace of the table of longest common subsequences, kept row after row in one array.
-/
namespace Havemind.ConflictDiff

open JsText LcsTrace LcsCuts List

inductive DiffLineType
  | context
  | added
  | removed
  deriving DecidableEq

structure DiffLine where
  type : DiffLineType
  text : JsString
  deriving DecidableEq

def carriageReturn : CodeUnit := 13

/-- `text.replace(/\r\n/g, '\n')`. -/
def replaceCrlf : JsString → JsString
  | first :: second :: rest =>
      if first = carriageReturn ∧ second = lineFeed then lineFeed :: replaceCrlf rest
      else first :: replaceCrlf (second :: rest)
  | short => short

def toLines (text : JsString) : List JsString := splitLines (replaceCrlf text)

def maxDiffCells : ℕ := 4000000

/-- How many lines both lists start with. -/
def sharedLines : List JsString → List JsString → ℕ
  | line :: x, other :: y => if line = other then sharedLines x y + 1 else 0
  | _, _ => 0

section
variable (a b : List JsString)

/-- `lcs[idx] ?? 0`. -/
def cellAt (lcs : List ℕ) (idx : ℕ) : ℕ := lcs.getD idx 0

def width : ℕ := b.length + 1

def cellOf (lcs : List ℕ) (i j : ℕ) : ℕ :=
  if a[i]? = b[j]? then cellAt lcs ((i + 1) * width b + (j + 1)) + 1
  else max (cellAt lcs ((i + 1) * width b + j)) (cellAt lcs (i * width b + (j + 1)))

/-- The inner loop, from the last column down. -/
def fillRow (i : ℕ) : ℕ → List ℕ → List ℕ
  | 0, lcs => lcs
  | j + 1, lcs => fillRow i j (lcs.set (i * width b + j) (cellOf a b lcs i j))

/-- The outer loop, from the last row down. -/
def fillRows : ℕ → List ℕ → List ℕ
  | 0, lcs => lcs
  | i + 1, lcs => fillRows i (fillRow a b i b.length lcs)

def lcsCells : List ℕ :=
  fillRows a b a.length (List.replicate ((a.length + 1) * width b) 0)

/-- The backtrace; `fuel` bounds its steps, each of which advances `i` or `j`. -/
def walk (lcs : List ℕ) : ℕ → ℕ → ℕ → List DiffLine
  | fuel + 1, i, j =>
      match a[i]?, b[j]? with
      | some ai, some bj =>
          if ai = bj then ⟨.context, ai⟩ :: walk lcs fuel (i + 1) (j + 1)
          else if cellAt lcs ((i + 1) * width b + j) ≥ cellAt lcs (i * width b + (j + 1)) then
            ⟨.removed, ai⟩ :: walk lcs fuel (i + 1) j
          else ⟨.added, bj⟩ :: walk lcs fuel i (j + 1)
      | _, _ => (a.drop i).map (⟨.removed, ·⟩) ++ (b.drop j).map (⟨.added, ·⟩)
  | 0, i, j => (a.drop i).map (⟨.removed, ·⟩) ++ (b.drop j).map (⟨.added, ·⟩)

/-- The diff of two lists of lines when nothing is cut off them. -/
def lineDiff : List DiffLine := walk a b (lcsCells a b) (a.length + b.length) 0 0

end

def computeLineDiff (mine theirs : JsString) : Option (List DiffLine) :=
  let allA := toLines mine
  let allB := toLines theirs
  let prefixLength := sharedLines allA allB
  let suffixLength := sharedLines (allA.drop prefixLength).reverse (allB.drop prefixLength).reverse
  let a := (allA.take (allA.length - suffixLength)).drop prefixLength
  let b := (allB.take (allB.length - suffixLength)).drop prefixLength
  if (a.length + 1) * width b > maxDiffCells then none
  else some ((allA.take prefixLength).map (⟨.context, ·⟩) ++ lineDiff a b ++
    (allA.drop (allA.length - suffixLength)).map (⟨.context, ·⟩))

/-- The texts of the lines of two types, in the diff's order. -/
def textsOf (type other : DiffLineType) (diff : List DiffLine) : List JsString :=
  (diff.filter fun line => line.type = type ∨ line.type = other).map (·.text)

/-- A diff from the lines `x` to the lines `y`. -/
structure IsDiff (x y : List JsString) (diff : List DiffLine) : Prop where
  mine : textsOf .context .removed diff = x
  theirs : textsOf .context .added diff = y

def contextCount (diff : List DiffLine) : ℕ := diff.countP fun line => line.type = .context

section
variable {x y x' y' : List JsString} {diff other : List DiffLine} {line : JsString}

theorem IsDiff.append (h : IsDiff x y diff) (h' : IsDiff x' y' other) :
    IsDiff (x ++ x') (y ++ y') (diff ++ other) := by
  constructor
  · rw [← h.mine, ← h'.mine, textsOf, filter_append, map_append]
    rfl
  · rw [← h.theirs, ← h'.theirs, textsOf, filter_append, map_append]
    rfl

theorem IsDiff.context (h : IsDiff x y diff) :
    IsDiff (line :: x) (line :: y) (⟨.context, line⟩ :: diff) := by
  constructor
  · rw [← h.mine]
    rfl
  · rw [← h.theirs]
    rfl

theorem IsDiff.removed (h : IsDiff x y diff) : IsDiff (line :: x) y (⟨.removed, line⟩ :: diff) := by
  constructor
  · rw [← h.mine]
    rfl
  · rw [← h.theirs]
    rfl

theorem IsDiff.added (h : IsDiff x y diff) : IsDiff x (line :: y) (⟨.added, line⟩ :: diff) := by
  constructor
  · rw [← h.mine]
    rfl
  · rw [← h.theirs]
    rfl

theorem isDiff_nil : IsDiff [] [] [] := ⟨rfl, rfl⟩

theorem isDiff_context (z : List JsString) : IsDiff z z (z.map (⟨.context, ·⟩)) := by
  induction z with
  | nil => exact isDiff_nil
  | cons line z ih => exact ih.context

/-- What the backtrace leaves once one side is used up. -/
theorem isDiff_rest (x y : List JsString) :
    IsDiff x y (x.map (⟨.removed, ·⟩) ++ y.map (⟨.added, ·⟩)) := by
  have hremoved : IsDiff x [] (x.map (⟨.removed, ·⟩)) := by
    induction x with
    | nil => exact isDiff_nil
    | cons line x ih => exact ih.removed
  have hadded : IsDiff [] y (y.map (⟨.added, ·⟩)) := by
    induction y with
    | nil => exact isDiff_nil
    | cons line y ih => exact ih.added
  have hboth := hremoved.append hadded
  rwa [append_nil, nil_append] at hboth

/-- The context lines of any diff are common to both sides. -/
theorem exists_common_of_isDiff (h : IsDiff x y diff) :
    ∃ z : List JsString, z.Sublist x ∧ z.Sublist y ∧ z.length = contextCount diff := by
  refine ⟨(diff.filter fun line => line.type = .context).map (·.text), ?_, ?_, ?_⟩
  · rw [← h.mine]
    exact (monotone_filter_right diff fun line hline => by simp_all).map _
  · rw [← h.theirs]
    exact (monotone_filter_right diff fun line hline => by simp_all).map _
  · rw [length_map, contextCount, countP_eq_length_filter]

/-- More context lines make a diff shorter. -/
theorem IsDiff.length_add (h : IsDiff x y diff) :
    diff.length + contextCount diff = x.length + y.length := by
  rw [← h.mine, ← h.theirs]
  clear h
  induction diff with
  | nil => rfl
  | cons line diff ih =>
    obtain ⟨type, text⟩ := line
    cases type <;> simp [textsOf, contextCount] at ih ⊢ <;> omega

theorem IsDiff.contextCount_le (h : IsDiff x y diff) : contextCount diff ≤ lcsLength x y := by
  obtain ⟨z, hx, hy, hlength⟩ := exists_common_of_isDiff h
  rw [← hlength]
  exact length_le_lcsLength hx hy

theorem contextCount_append (diff other : List DiffLine) :
    contextCount (diff ++ other) = contextCount diff + contextCount other :=
  countP_append

theorem contextCount_rest (x y : List JsString) :
    contextCount (x.map (⟨.removed, ·⟩) ++ y.map (⟨.added, ·⟩)) = 0 := by
  unfold contextCount
  rw [countP_append, countP_map, countP_map, Nat.add_eq_zero_iff]
  exact ⟨countP_eq_zero.mpr fun _ _ => nofun, countP_eq_zero.mpr fun _ _ => nofun⟩

theorem contextCount_context (z : List JsString) :
    contextCount (z.map (⟨.context, ·⟩)) = z.length := by
  induction z with
  | nil => rfl
  | cons line z ih => simp [contextCount]

end

section
variable {a b : List JsString} {lcs : List ℕ} {i j : ℕ}

theorem index_inj {w p q : ℕ} (hq : q < w) (hj : j < w) (h : p * w + q = i * w + j) :
    p = i ∧ q = j := by
  rcases Nat.lt_trichotomy p i with hlt | rfl | hgt
  · have hrow : (p + 1) * w ≤ i * w := Nat.mul_le_mul_right w hlt
    rw [Nat.succ_mul] at hrow
    omega
  · exact ⟨rfl, by omega⟩
  · have hrow : (i + 1) * w ≤ p * w := Nat.mul_le_mul_right w hgt
    rw [Nat.succ_mul] at hrow
    omega

/-- The cells from `(i, j)` on in the order they are filled, and the zeros at both ends,
hold the lengths for their suffixes. -/
structure Filled (a b : List JsString) (lcs : List ℕ) (i j : ℕ) : Prop where
  length_eq : lcs.length = (a.length + 1) * width b
  cell_eq : ∀ p q, p ≤ a.length → q ≤ b.length →
    i < p ∨ i = p ∧ j ≤ q ∨ p = a.length ∨ q = b.length →
    cellAt lcs (p * width b + q) = lengthAt a b p q

theorem filled_zeros (a b : List JsString) :
    Filled a b (List.replicate ((a.length + 1) * width b) 0) a.length 0 := by
  refine ⟨length_replicate, fun p q hp hq hback => ?_⟩
  rw [lengthAt_of_end (by omega), cellAt, getD_eq_getElem?_getD, List.getElem?_replicate]
  split <;> rfl

theorem Filled.cellOf_eq (h : Filled a b lcs i (j + 1)) (hi : i < a.length) (hj : j < b.length) :
    cellOf a b lcs i j = lengthAt a b i j := by
  have hai : a[i]? = some a[i] := List.getElem?_eq_getElem hi
  have hbj : b[j]? = some b[j] := List.getElem?_eq_getElem hj
  unfold cellOf
  split
  · next heq =>
    rw [h.cell_eq (i + 1) (j + 1) hi hj (by omega)]
    exact (lengthAt_of_eq hai (heq.symm.trans hai)).symm
  · next hne =>
    have hlines : a[i] ≠ b[j] := by
      intro heq
      exact hne (by rw [hai, hbj, heq])
    rw [h.cell_eq (i + 1) j hi (by omega) (by omega), h.cell_eq i (j + 1) (by omega) hj (by omega)]
    exact (lengthAt_of_ne hai hbj hlines).symm

theorem Filled.set (h : Filled a b lcs i (j + 1)) (hi : i < a.length) (hj : j < b.length) :
    Filled a b (lcs.set (i * width b + j) (cellOf a b lcs i j)) i j := by
  refine ⟨by rw [length_set, h.length_eq], fun p q hp hq hback => ?_⟩
  have hinside : i * width b + j < lcs.length := by
    have hrow : (i + 1) * width b ≤ (a.length + 1) * width b :=
      Nat.mul_le_mul_right (width b) (by omega)
    rw [Nat.succ_mul] at hrow
    rw [h.length_eq]
    have hwidth : width b = b.length + 1 := rfl
    omega
  unfold cellAt
  rw [getD_eq_getElem?_getD, List.getElem?_set]
  split
  · next hsame =>
    obtain ⟨rfl, rfl⟩ := index_inj (Nat.lt_succ_of_lt hj) (Nat.lt_succ_of_le hq) hsame
    rw [Option.getD_some, h.cellOf_eq hi hj]
  · next hother =>
    rw [← getD_eq_getElem?_getD]
    refine h.cell_eq p q hp hq ?_
    by_contra hnew
    obtain ⟨rfl, rfl⟩ : i = p ∧ j = q := by omega
    exact hother rfl

theorem Filled.fillRow (h : Filled a b lcs i j) (hi : i < a.length) (hj : j ≤ b.length) :
    Filled a b (fillRow a b i j lcs) i 0 := by
  induction j generalizing lcs with
  | zero => exact h
  | succ j ih => exact ih (h.set hi hj) (by omega)

theorem Filled.fillRows (h : Filled a b lcs i 0) (hi : i ≤ a.length) :
    Filled a b (fillRows a b i lcs) 0 0 := by
  induction i generalizing lcs with
  | zero => exact h
  | succ i ih =>
    refine ih (Filled.fillRow ?_ hi le_rfl) (by omega)
    exact ⟨h.length_eq, fun p q hp hq hback => h.cell_eq p q hp hq (by omega)⟩

theorem cellAt_lcsCells (hi : i ≤ a.length) (hj : j ≤ b.length) :
    cellAt (lcsCells a b) (i * width b + j) = lengthAt a b i j :=
  ((filled_zeros a b).fillRows le_rfl).cell_eq i j hi hj (by omega)

end

section
variable {a b : List JsString} {i j : ℕ}

/-- From any place on the backtrace leaves a diff of the two rests with as many context
lines as the table promises. -/
theorem walk_spec (fuel : ℕ) (hfuel : a.length + b.length ≤ i + j + fuel) (hi : i ≤ a.length)
    (hj : j ≤ b.length) :
    IsDiff (a.drop i) (b.drop j) (walk a b (lcsCells a b) fuel i j) ∧
    contextCount (walk a b (lcsCells a b) fuel i j) = lengthAt a b i j := by
  induction fuel generalizing i j with
  | zero =>
    refine ⟨isDiff_rest _ _, ?_⟩
    rw [lengthAt_of_end (by omega)]
    exact contextCount_rest _ _
  | succ fuel ih =>
    unfold walk
    split
    · next ai bj hai hbj =>
      obtain ⟨hi', haget⟩ := List.getElem?_eq_some_iff.mp hai
      obtain ⟨hj', hbget⟩ := List.getElem?_eq_some_iff.mp hbj
      have hdropa : a.drop i = ai :: a.drop (i + 1) := by rw [drop_eq_getElem_cons hi', haget]
      have hdropb : b.drop j = bj :: b.drop (j + 1) := by rw [drop_eq_getElem_cons hj', hbget]
      split
      · next heq =>
        subst heq
        obtain ⟨hdiff, hcount⟩ := ih (by omega) hi' hj'
        rw [hdropa, hdropb, lengthAt_of_eq hai hbj, ← hcount]
        exact ⟨hdiff.context, countP_cons_of_pos rfl⟩
      · next hne =>
        rw [cellAt_lcsCells (i := i + 1) hi' hj, cellAt_lcsCells (j := j + 1) hi hj',
          lengthAt_of_ne hai hbj hne]
        split
        · next hge =>
          obtain ⟨hdiff, hcount⟩ := ih (by omega) hi' hj
          rw [hdropa, Nat.max_eq_left hge, ← hcount]
          exact ⟨hdiff.removed, countP_cons_of_neg nofun⟩
        · next hlt =>
          obtain ⟨hdiff, hcount⟩ := ih (by omega) hi hj'
          rw [hdropb, Nat.max_eq_right (by omega), ← hcount]
          exact ⟨hdiff.added, countP_cons_of_neg nofun⟩
    · next hend =>
      refine ⟨isDiff_rest _ _, ?_⟩
      rw [contextCount_rest, lengthAt_of_end]
      by_contra hin
      obtain ⟨hi', hj'⟩ := not_or.mp hin
      exact hend _ _ (List.getElem?_eq_getElem (Nat.lt_of_not_le hi'))
        (List.getElem?_eq_getElem (Nat.lt_of_not_le hj'))

theorem lineDiff_spec (a b : List JsString) :
    IsDiff a b (lineDiff a b) ∧ contextCount (lineDiff a b) = lcsLength a b :=
  walk_spec (a.length + b.length) (by omega) (Nat.zero_le _) (Nat.zero_le _)

end

section
variable {x y : List JsString} {q : ℕ}

theorem take_sharedLines (x y : List JsString) :
    x.take (sharedLines x y) = y.take (sharedLines x y) := by
  induction x, y using sharedLines.induct with
  | case1 line x y ih => rw [sharedLines, if_pos rfl, take_succ_cons, take_succ_cons, ih]
  | case2 line x other y hne => rw [sharedLines, if_neg hne, take_zero, take_zero]
  | case3 x y hend =>
    have hzero : sharedLines x y = 0 := by
      unfold sharedLines
      split
      · exact absurd rfl (hend _ _ _ _ rfl)
      · rfl
    rw [hzero, take_zero, take_zero]

theorem sharedLines_le (x y : List JsString) :
    sharedLines x y ≤ x.length ∧ sharedLines x y ≤ y.length := by
  induction x, y using sharedLines.induct with
  | case1 line x y ih =>
    rw [sharedLines, if_pos rfl, length_cons, length_cons]
    omega
  | case2 line x other y hne =>
    rw [sharedLines, if_neg hne]
    omega
  | case3 x y hend =>
    unfold sharedLines
    split
    · exact absurd rfl (hend _ _ _ _ rfl)
    · omega

/-- The lines both lists end with. -/
theorem drop_sharedLines (x y : List JsString) (hq : q = sharedLines x.reverse y.reverse) :
    x.drop (x.length - q) = y.drop (y.length - q) := by
  have htake := take_sharedLines x.reverse y.reverse
  rw [← hq, take_reverse, take_reverse] at htake
  exact reverse_injective htake

theorem cut_eq (x : List JsString) {p : ℕ} (hpq : p + q ≤ x.length) :
    x = x.take p ++ (x.take (x.length - q)).drop p ++ x.drop (x.length - q) := by
  have hfront : (x.take (x.length - q)).take p = x.take p := by
    rw [take_take, Nat.min_eq_left (by omega)]
  rw [← hfront, take_append_drop, take_append_drop]

/-- Both lists are the lines they start with, a middle, and the lines they end with. -/
theorem exists_cut (x y : List JsString) {p : ℕ} (hp : p = sharedLines x y)
    (hq : q = sharedLines (x.drop p).reverse (y.drop p).reverse) :
    x = x.take p ++ (x.take (x.length - q)).drop p ++ x.drop (x.length - q) ∧
    y = x.take p ++ (y.take (y.length - q)).drop p ++ x.drop (x.length - q) := by
  obtain ⟨hpx, hpy⟩ := sharedLines_le x y
  obtain ⟨hqx, hqy⟩ := sharedLines_le (x.drop p).reverse (y.drop p).reverse
  rw [← hp] at hpx hpy
  rw [← hq, length_reverse, length_drop] at hqx hqy
  have hfront : x.take p = y.take p := by
    rw [hp]
    exact take_sharedLines x y
  have hback : x.drop (x.length - q) = y.drop (y.length - q) := by
    have hdrop := drop_sharedLines (x.drop p) (y.drop p) hq
    rw [drop_drop, drop_drop, length_drop, length_drop] at hdrop
    rwa [show p + (x.length - p - q) = x.length - q by omega,
      show p + (y.length - p - q) = y.length - q by omega] at hdrop
  refine ⟨cut_eq x (by omega), ?_⟩
  rw [hfront, hback]
  exact cut_eq y (by omega)

/-- Lines shared at both ends are in a longest common subsequence. -/
theorem cutDiff_spec (z a b w : List JsString) :
    IsDiff (z ++ a ++ w) (z ++ b ++ w)
      (z.map (⟨.context, ·⟩) ++ lineDiff a b ++ w.map (⟨.context, ·⟩)) ∧
    contextCount (z.map (⟨.context, ·⟩) ++ lineDiff a b ++ w.map (⟨.context, ·⟩)) =
      lcsLength (z ++ a ++ w) (z ++ b ++ w) := by
  obtain ⟨hdiff, hcount⟩ := lineDiff_spec a b
  refine ⟨((isDiff_context z).append hdiff).append (isDiff_context w), ?_⟩
  rw [contextCount_append, contextCount_append, contextCount_context, contextCount_context, hcount,
    lcsLength_append_right, lcsLength_append_left]

end

/-- The diff gives back both texts line by line, with as many lines in common as any two
parts of them can have, and so no diff of the two is shorter, the one of the whole lists
included. -/
theorem computeLineDiff_exact {mine theirs : JsString} {diff : List DiffLine}
    (h : computeLineDiff mine theirs = some diff) :
    textsOf .context .removed diff = toLines mine ∧
    textsOf .context .added diff = toLines theirs ∧
    (∃ z : List JsString, z.Sublist (toLines mine) ∧ z.Sublist (toLines theirs) ∧
      z.length = contextCount diff) ∧
    (∀ z : List JsString, z.Sublist (toLines mine) → z.Sublist (toLines theirs) →
      z.length ≤ contextCount diff) ∧
    (∀ other, IsDiff (toLines mine) (toLines theirs) other → diff.length ≤ other.length) ∧
    diff.length ≤ (lineDiff (toLines mine) (toLines theirs)).length := by
  have hspec : IsDiff (toLines mine) (toLines theirs) diff ∧
      contextCount diff = lcsLength (toLines mine) (toLines theirs) := by
    unfold computeLineDiff at h
    dsimp only at h
    generalize hp : sharedLines (toLines mine) (toLines theirs) = p at h
    generalize hq : sharedLines ((toLines mine).drop p).reverse ((toLines theirs).drop p).reverse =
      q at h
    split at h
    · cases h
    · obtain ⟨hmine, htheirs⟩ := exists_cut (toLines mine) (toLines theirs) hp.symm hq.symm
      have hcut := cutDiff_spec ((toLines mine).take p)
        (((toLines mine).take ((toLines mine).length - q)).drop p)
        (((toLines theirs).take ((toLines theirs).length - q)).drop p)
        ((toLines mine).drop ((toLines mine).length - q))
      rwa [← hmine, ← htheirs, Option.some.inj h] at hcut
  obtain ⟨hdiff, hcount⟩ := hspec
  have hshort : ∀ other, IsDiff (toLines mine) (toLines theirs) other →
      diff.length ≤ other.length := by
    intro other hother
    have hadd := hdiff.length_add
    have hadd' := hother.length_add
    have hle := hother.contextCount_le
    omega
  refine ⟨hdiff.mine, hdiff.theirs, exists_common_of_isDiff hdiff, ?_, hshort,
    hshort _ (lineDiff_spec _ _).1⟩
  intro z hmine htheirs
  rw [hcount]
  exact length_le_lcsLength hmine htheirs

theorem computeLineDiff_exact_sample :
    computeLineDiff [97, 13, 10, 98] [97, 10, 99] =
      some [⟨.context, [97]⟩, ⟨.removed, [98]⟩, ⟨.added, [99]⟩] ∧
    textsOf .context .removed [⟨.context, [97]⟩, ⟨.removed, [98]⟩, ⟨.added, [99]⟩] =
      toLines [97, 13, 10, 98] := by
  have hdiff : computeLineDiff [97, 13, 10, 98] [97, 10, 99] =
      some [⟨.context, [97]⟩, ⟨.removed, [98]⟩, ⟨.added, [99]⟩] := by decide +kernel
  exact ⟨hdiff, (computeLineDiff_exact hdiff).1⟩

end Havemind.ConflictDiff
