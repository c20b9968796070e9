import Mathlib.Data.List.Basic

/-!
The line diff under the three-way merge: the table of longest common
subsequence lengths, its backtrace, and the change hunks between the matched
lines. A table entry depends only on the two suffixes below it, so a row is
computed from the row under it.
-/
namespace Havemind.LineDiff

variable {α : Type*}

structure Match where
  x : ℕ
  y : ℕ
  deriving DecidableEq

/-- A change region over the ancestor's indices and its replacement. -/
structure Hunk where
  oStart : ℕ
  oLength : ℕ
  abStart : ℕ
  abLength : ℕ
  deriving DecidableEq

section
variable [DecidableEq α]

def lcsRow (line : α) : List α → List ℕ → List ℕ
  | [], _ => [0]
  | other :: y, below =>
      let right := lcsRow line y below.tail
      (if line = other then below.tail.headD 0 + 1
        else max (below.headD 0) (right.headD 0)) :: right

def lcsTable : List α → List α → List (List ℕ)
  | [], y => [List.replicate (y.length + 1) 0]
  | line :: x, y =>
      let below := lcsTable x y
      lcsRow line y (below.headD []) :: below

def tableAt (table : List (List ℕ)) (i j : ℕ) : ℕ := (table.getD i []).getD j 0

/-- The walk over the finished table; `fuel` bounds its steps, each of which
advances `i` or `j`. -/
def backtrace (x y : List α) (table : List (List ℕ)) : ℕ → ℕ → ℕ → List Match
  | 0, _, _ => []
  | fuel + 1, i, j =>
      match x[i]?, y[j]? with
      | some line, some other =>
          if line = other then ⟨i, j⟩ :: backtrace x y table fuel (i + 1) (j + 1)
          else if tableAt table (i + 1) j ≥ tableAt table i (j + 1) then
            backtrace x y table fuel (i + 1) j
          else backtrace x y table fuel i (j + 1)
      | _, _ => []

def lcsMatches (x y : List α) : List Match :=
  backtrace x y (lcsTable x y) (x.length + y.length) 0 0

def hunksFrom (oCursor vCursor : ℕ) : List Match → List Hunk
  | [] => []
  | m :: rest =>
      let oLength := m.x - oCursor
      let abLength := m.y - vCursor
      if oLength > 0 ∨ abLength > 0 then
        ⟨oCursor, oLength, vCursor, abLength⟩ :: hunksFrom (m.x + 1) (m.y + 1) rest
      else hunksFrom (m.x + 1) (m.y + 1) rest

def diffHunks (ancestor variant : List α) : List Hunk :=
  hunksFrom 0 0 (lcsMatches ancestor variant ++ [⟨ancestor.length, variant.length⟩])

end

/-- What the boundaries of a diff satisfy from the cursors `i` and `j` on: the
matches advance in both lists, join equal lines and end at both ends. -/
inductive BoundariesFrom (o v : List α) : ℕ → ℕ → List Match → Prop
  | last {i j : ℕ} : i ≤ o.length → j ≤ v.length →
      BoundariesFrom o v i j [⟨o.length, v.length⟩]
  | step {i j : ℕ} {m : Match} {rest : List Match} {line : α} :
      i ≤ m.x → j ≤ m.y → o[m.x]? = some line → v[m.y]? = some line →
      BoundariesFrom o v (m.x + 1) (m.y + 1) rest →
      BoundariesFrom o v i j (m :: rest)

theorem BoundariesFrom.weaken {o v : List α} {i j i' j' : ℕ} {bs : List Match}
    (h : BoundariesFrom o v i j bs) (hi : i' ≤ i) (hj : j' ≤ j) :
    BoundariesFrom o v i' j' bs := by
  cases h with
  | last ho hv => exact .last (Nat.le_trans hi ho) (Nat.le_trans hj hv)
  | step hx hy ho hv tail => exact .step (Nat.le_trans hi hx) (Nat.le_trans hj hy) ho hv tail

theorem backtrace_boundaries [DecidableEq α] (x y : List α) (table : List (List ℕ)) (fuel i j : ℕ)
    (hi : i ≤ x.length) (hj : j ≤ y.length) :
    BoundariesFrom x y i j (backtrace x y table fuel i j ++ [⟨x.length, y.length⟩]) := by
  induction fuel generalizing i j with
  | zero => exact .last hi hj
  | succ fuel ih =>
    unfold backtrace
    split
    · rename_i line other hline hother
      have hi' := (List.getElem?_eq_some_iff.mp hline).1
      have hj' := (List.getElem?_eq_some_iff.mp hother).1
      split
      · rename_i heq
        subst heq
        exact .step (Nat.le_refl i) (Nat.le_refl j) hline hother (ih (i + 1) (j + 1) hi' hj')
      · split
        · exact (ih (i + 1) j hi' hj).weaken (by omega) (Nat.le_refl j)
        · exact (ih i (j + 1) hi hj').weaken (Nat.le_refl i) (by omega)
    · exact .last hi hj

end Havemind.LineDiff
