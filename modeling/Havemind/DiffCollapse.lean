import Havemind.ConflictDiff
import Mathlib.Algebra.Order.BigOperators.Group.List
import Mathlib.Algebra.Order.Ring.Nat
import Mathlib.Data.List.TakeWhile

/-!
The unchanged stretches of a line diff folded into gaps. The lines around each change are
marked first; the scan then shows the marked lines and folds what lies between them, unless
it is a single line.
-/
namespace Havemind.DiffCollapse

open ConflictDiff List

inductive DiffRow
  | line (line : DiffLine)
  | gap (count : ℕ)
  deriving DecidableEq

/-- The lines of context around a change when the caller names no number. -/
def contextLines : ℕ := 3

/-- Marks the lines from `k` on, `count` of them. -/
def keepFrom (k : ℕ) : ℕ → List Bool → List Bool
  | 0, keep => keep
  | count + 1, keep => keepFrom (k + 1) count (keep.set k true)

/-- Marks the lines at most `context` from the index. -/
def keepAround (length context index : ℕ) (keep : List Bool) : List Bool :=
  let first := index - context
  let last := min (length - 1) (index + context)
  keepFrom first (last + 1 - first) keep

/-- The marks after the lines from `index` on. -/
def keepLines (length context : ℕ) : ℕ → List DiffLine → List Bool → List Bool
  | _, [], keep => keep
  | index, line :: rest, keep =>
    keepLines length context (index + 1) rest
      (if line.type = .context then keep else keepAround length context index keep)

/-- Where the stretch of unmarked lines at the index ends. -/
def gapEnd (keep : List Bool) (index : ℕ) : ℕ :=
  index + ((keep.drop index).takeWhile fun kept => !kept).length

/-- The scan over the marked lines; `fuel` bounds its turns, each of which goes on in the diff. -/
def rowsFrom (diff : List DiffLine) (keep : List Bool) : ℕ → ℕ → List DiffRow
  | 0, _ => []
  | fuel + 1, index =>
    match diff[index]? with
    | none => []
    | some line =>
      if keep.getD index false then .line line :: rowsFrom diff keep fuel (index + 1)
      else
        let last := gapEnd keep index
        (if last - index > 1 then .gap (last - index) else .line line) ::
          rowsFrom diff keep fuel last

def collapseUnchanged (diff : List DiffLine) (context : Option ℕ) : List DiffRow :=
  let keep := keepLines diff.length (context.getD contextLines) 0 diff (diff.map fun _ => false)
  rowsFrom diff keep diff.length 0

/-- The rows with each gap replaced by the lines of the diff it stands for. -/
def expand : List DiffRow → List DiffLine → List DiffLine
  | [], _ => []
  | .line line :: rows, diff => line :: expand rows (diff.drop 1)
  | .gap count :: rows, diff => diff.take count ++ expand rows (diff.drop count)

/-- The lines of the diff that a row stands for. -/
def DiffRow.span : DiffRow → ℕ
  | .line _ => 1
  | .gap count => count

/-- The lines shown, with their places in the diff. -/
def shownFrom (index : ℕ) : List DiffRow → List (ℕ × DiffLine)
  | [] => []
  | .line line :: rows => (index, line) :: shownFrom (index + 1) rows
  | .gap count :: rows => shownFrom (index + count) rows

section
variable {keep : List Bool} {i k : ℕ}

theorem length_keepFrom (k count : ℕ) (keep : List Bool) :
    (keepFrom k count keep).length = keep.length := by
  induction count generalizing k keep with
  | zero => rfl
  | succ count ih =>
    unfold keepFrom
    rw [ih, length_set]

theorem getElem?_keepFrom (k count : ℕ) (keep : List Bool) (hi : i < keep.length) :
    (keepFrom k count keep)[i]? = some true ↔ keep[i]? = some true ∨ (k ≤ i ∧ i < k + count) := by
  induction count generalizing k keep with
  | zero =>
    unfold keepFrom
    refine ⟨.inl, fun h => h.resolve_right ?_⟩
    omega
  | succ count ih =>
    unfold keepFrom
    rw [ih (k + 1) (keep.set k true) (by rwa [length_set]), List.getElem?_set]
    by_cases hk : k = i
    · subst hk
      rw [if_pos rfl, if_pos hi]
      refine ⟨fun _ => .inr ⟨Nat.le_refl k, by omega⟩, fun _ => .inl rfl⟩
    · rw [if_neg hk]
      refine or_congr_right ⟨?_, ?_⟩
      · rintro ⟨hfirst, hlast⟩
        exact ⟨by omega, by omega⟩
      · rintro ⟨hfirst, hlast⟩
        exact ⟨by omega, by omega⟩

theorem getElem?_keepAround (context index : ℕ) (hi : i < keep.length) :
    (keepAround keep.length context index keep)[i]? = some true ↔
      keep[i]? = some true ∨ (i ≤ index + context ∧ index ≤ i + context) := by
  unfold keepAround
  rw [getElem?_keepFrom _ _ _ hi]
  refine or_congr_right ⟨?_, ?_⟩
  · rintro ⟨hfirst, hlast⟩
    omega
  · rintro ⟨hbelow, habove⟩
    omega

theorem length_keepAround (length context index : ℕ) (keep : List Bool) :
    (keepAround length context index keep).length = keep.length := length_keepFrom _ _ _

/-- A line near a change, that line included. -/
def Near (diff : List DiffLine) (context i : ℕ) : Prop :=
  ∃ j line, diff[j]? = some line ∧ line.type ≠ .context ∧ i ≤ j + context ∧ j ≤ i + context

theorem length_keepLines (length context : ℕ) (rest : List DiffLine) (index : ℕ) (keep : List Bool) :
    (keepLines length context index rest keep).length = keep.length := by
  induction rest generalizing index keep with
  | nil => rfl
  | cons line rest ih =>
    unfold keepLines
    rw [ih]
    split_ifs
    · rfl
    · exact length_keepAround _ _ _ _

/-- The marks are those there were and those around the changes that are left. -/
theorem getElem?_keepLines (context : ℕ) (rest : List DiffLine) (index : ℕ) {length : ℕ}
    (hlength : keep.length = length) (hi : i < keep.length) :
    (keepLines length context index rest keep)[i]? = some true ↔ keep[i]? = some true ∨
      ∃ j line, rest[j]? = some line ∧ line.type ≠ .context ∧
        i ≤ index + j + context ∧ index + j ≤ i + context := by
  induction rest generalizing index keep with
  | nil =>
    unfold keepLines
    refine ⟨.inl, fun h => h.resolve_right ?_⟩
    rintro ⟨j, line, hline, -⟩
    cases hline
  | cons line rest ih =>
    unfold keepLines
    have hsplit : (∃ j other, (line :: rest)[j]? = some other ∧ other.type ≠ .context ∧
          i ≤ index + j + context ∧ index + j ≤ i + context) ↔
        (line.type ≠ .context ∧ i ≤ index + context ∧ index ≤ i + context) ∨
          ∃ j other, rest[j]? = some other ∧ other.type ≠ .context ∧
            i ≤ index + 1 + j + context ∧ index + 1 + j ≤ i + context := by
      constructor
      · rintro ⟨j, other, hother, hchange, hbelow, habove⟩
        cases j with
        | zero =>
          rw [List.getElem?_cons_zero] at hother
          cases hother
          exact .inl ⟨hchange, hbelow, habove⟩
        | succ j =>
          rw [List.getElem?_cons_succ] at hother
          exact .inr ⟨j, other, hother, hchange, by omega, by omega⟩
      · rintro (⟨hchange, hbelow, habove⟩ | ⟨j, other, hother, hchange, hbelow, habove⟩)
        · exact ⟨0, line, rfl, hchange, hbelow, habove⟩
        · exact ⟨j + 1, other, hother, hchange, by omega, by omega⟩
    rw [hsplit]
    split_ifs with hcontext
    · rw [ih (index + 1) hlength hi]
      simp [hcontext]
    · subst hlength
      rw [ih (index + 1) (length_keepAround _ _ _ _) (by rwa [length_keepAround]),
        getElem?_keepAround context index hi, or_assoc]
      simp [hcontext]

end

section
variable {diff : List DiffLine} {keep : List Bool} {index i : ℕ} {rows : List DiffRow}

/-- The rows show the diff from the index on; a gap stands for two unmarked lines at least. -/
inductive Folds (diff : List DiffLine) (keep : List Bool) : ℕ → List DiffRow → Prop
  | done {index : ℕ} : diff.length ≤ index → Folds diff keep index []
  | line {index : ℕ} {line : DiffLine} {rows : List DiffRow} : diff[index]? = some line →
      Folds diff keep (index + 1) rows → Folds diff keep index (.line line :: rows)
  | gap {index count : ℕ} {rows : List DiffRow} : 1 < count →
      (∀ i, index ≤ i → i < index + count → keep[i]? = some false) →
      Folds diff keep (index + count) rows → Folds diff keep index (.gap count :: rows)

variable (h : Folds diff keep index rows) {line : DiffLine}
include h

theorem Folds.expand : expand rows (diff.drop index) =
    diff.drop index := by
  induction h with
  | done hend =>
    rw [drop_eq_nil_of_le hend]
    rfl
  | line hline _ ih =>
    obtain ⟨hlt, rfl⟩ := List.getElem?_eq_some_iff.mp hline
    unfold DiffCollapse.expand
    rw [drop_drop, ih, getElem_cons_drop]
  | gap _ _ _ ih =>
    unfold DiffCollapse.expand
    rw [drop_drop, ih, ← drop_drop, take_append_drop]

/-- The rows stand for as many lines as there are. -/
theorem Folds.span (hlength : keep.length = diff.length) (hindex : index ≤ diff.length) :
    index + (rows.map DiffRow.span).sum = diff.length := by
  induction h with
  | done hend => exact Nat.le_antisymm hindex hend
  | line hline _ ih =>
    have hlt := (List.getElem?_eq_some_iff.mp hline).1
    rw [map_cons, sum_cons, ← Nat.add_assoc]
    exact ih hlt
  | @gap index count rows hcount hunmarked _ ih =>
    have hlast := hunmarked (index + count - 1) (by omega) (by omega)
    have hlt := (List.getElem?_eq_some_iff.mp hlast).1
    rw [map_cons, sum_cons, ← Nat.add_assoc]
    exact ih (by omega)

/-- A marked line is shown at its place. -/
theorem Folds.mem_shown (hi : index ≤ i) (hline : diff[i]? = some line)
    (hkeep : keep[i]? = some true) : (i, line) ∈ shownFrom index rows := by
  induction h with
  | done hend =>
    have hlt := (List.getElem?_eq_some_iff.mp hline).1
    omega
  | @line index other rows hother _ ih =>
    unfold shownFrom
    rcases Nat.eq_or_lt_of_le hi with rfl | hlater
    · rw [hother] at hline
      cases hline
      exact mem_cons_self
    · exact mem_cons_of_mem _ (ih hlater)
  | @gap index count rows _ hunmarked _ ih =>
    unfold shownFrom
    refine ih ?_
    by_contra hinside
    rw [hunmarked i hi (by omega)] at hkeep
    cases hkeep

/-- What is shown is the diff's line at that place. -/
theorem Folds.shown (hmem : (i, line) ∈ shownFrom index rows) : diff[i]? = some line := by
  induction h with
  | done => exact absurd hmem not_mem_nil
  | line hother _ ih =>
    unfold shownFrom at hmem
    rcases mem_cons.mp hmem with hsame | hlater
    · cases hsame
      exact hother
    · exact ih hlater
  | gap _ _ _ ih => exact ih hmem

theorem Folds.gap_count {count : ℕ} (hmem : .gap count ∈ rows) : 1 < count := by
  induction h with
  | done => exact absurd hmem not_mem_nil
  | line _ _ ih =>
    rcases mem_cons.mp hmem with hsame | hlater
    · cases hsame
    · exact ih hlater
  | gap hcount _ _ ih =>
    rcases mem_cons.mp hmem with hsame | hlater
    · cases hsame
      exact hcount
    · exact ih hlater

omit h in
/-- The lines of a gap are unmarked. -/
theorem getElem?_of_lt_gapEnd (hindex : index ≤ i) (hi : i < gapEnd keep index) :
    keep[i]? = some false := by
  unfold gapEnd at hi
  have hrun : i - index < ((keep.drop index).takeWhile fun kept => !kept).length := by omega
  have hunmarked := mem_takeWhile_imp (getElem_mem hrun)
  have hget := List.getElem?_eq_getElem hrun
  rw [Bool.not_eq_true'] at hunmarked
  rw [hunmarked] at hget
  obtain ⟨rest, hrest⟩ := takeWhile_prefix (l := keep.drop index) fun kept => !kept
  have hplace : index + (i - index) = i := by omega
  rw [← hplace, ← List.getElem?_drop, ← hrest, List.getElem?_append_left hrun]
  exact hget

omit h in
/-- The scan goes past an unmarked line. -/
theorem lt_gapEnd (hkeep : keep[index]? = some false) : index < gapEnd keep index := by
  obtain ⟨hlt, hfalse⟩ := List.getElem?_eq_some_iff.mp hkeep
  unfold gapEnd
  rw [drop_eq_getElem_cons hlt, hfalse]
  simp

omit h in
theorem folds_rowsFrom (hlength : keep.length = diff.length) {fuel : ℕ}
    (hfuel : diff.length ≤ index + fuel) : Folds diff keep index (rowsFrom diff keep fuel index) := by
  induction fuel generalizing index with
  | zero => exact .done hfuel
  | succ fuel ih =>
    unfold rowsFrom
    cases hline : diff[index]? with
    | none => exact .done (List.getElem?_eq_none_iff.mp hline)
    | some line =>
      dsimp only
      have hlt := (List.getElem?_eq_some_iff.mp hline).1
      have hget : keep[index]? = some (keep.getD index false) := by
        rw [getD_eq_getElem?_getD, List.getElem?_eq_getElem (by omega), Option.getD_some]
      split_ifs with hkept hlong
      · exact .line hline (ih (by omega))
      · have hpast := lt_gapEnd (hget.trans (congrArg some (Bool.eq_false_iff.mpr hkept)))
        have hcount : index + (gapEnd keep index - index) = gapEnd keep index := by omega
        refine .gap hlong (fun i hfirst hlast => ?_) ?_
        · exact getElem?_of_lt_gapEnd hfirst (by omega)
        · rw [hcount]
          exact ih (by omega)
      · have hpast := lt_gapEnd (hget.trans (congrArg some (Bool.eq_false_iff.mpr hkept)))
        have hone : gapEnd keep index = index + 1 := by omega
        rw [hone]
        exact .line hline (ih (by omega))

end

variable (diff : List DiffLine) (context : Option ℕ)

theorem folds_collapseUnchanged :
    Folds diff (keepLines diff.length (context.getD contextLines) 0 diff (diff.map fun _ => false)) 0
      (collapseUnchanged diff context) := by
  refine folds_rowsFrom ?_ (by omega)
  rw [length_keepLines, length_map]

/-- The lines near a change are marked. -/
theorem marked_iff_near {i : ℕ} (hi : i < diff.length) :
    (keepLines diff.length (context.getD contextLines) 0 diff (diff.map fun _ => false))[i]? = some true ↔
      Near diff (context.getD contextLines) i := by
  have hlength : (diff.map fun _ => false).length = diff.length := length_map _
  have hstart : ¬ (diff.map fun _ => false)[i]? = some true := by
    rw [List.getElem?_map, List.getElem?_eq_getElem hi]
    exact fun h => Bool.false_ne_true (Option.some.inj h)
  rw [getElem?_keepLines _ diff 0 hlength (by omega), or_iff_right hstart]
  simp only [Nat.zero_add]
  rfl

/-- Nothing but unchanged lines away from every change is folded, and the gaps say how many. -/
theorem collapseUnchanged_faithful :
    expand (collapseUnchanged diff context) diff = diff ∧
      ((collapseUnchanged diff context).map DiffRow.span).sum = diff.length ∧
      (∀ i line, (i, line) ∈ shownFrom 0 (collapseUnchanged diff context) → diff[i]? = some line) ∧
      (∀ i line, diff[i]? = some line → line.type ≠ .context →
        (i, line) ∈ shownFrom 0 (collapseUnchanged diff context)) ∧
      (∀ i line, diff[i]? = some line →
        (∃ j change, diff[j]? = some change ∧ change.type ≠ .context ∧
          i ≤ j + context.getD contextLines ∧ j ≤ i + context.getD contextLines) →
        (i, line) ∈ shownFrom 0 (collapseUnchanged diff context)) ∧
      ∀ count, .gap count ∈ collapseUnchanged diff context → 1 < count := by
  have hfolds := folds_collapseUnchanged diff context
  have hnear : ∀ i line, diff[i]? = some line → Near diff (context.getD contextLines) i →
      (i, line) ∈ shownFrom 0 (collapseUnchanged diff context) := by
    intro i line hline hnear
    have hlt := (List.getElem?_eq_some_iff.mp hline).1
    exact hfolds.mem_shown (Nat.zero_le i) hline ((marked_iff_near diff context hlt).mpr hnear)
  have hspan := hfolds.span (by rw [length_keepLines, length_map]) (Nat.zero_le _)
  rw [Nat.zero_add] at hspan
  refine ⟨hfolds.expand, hspan, fun i line => hfolds.shown, ?_, hnear, fun count => hfolds.gap_count⟩
  intro i line hline hchange
  exact hnear i line hline ⟨i, line, hline, hchange, by omega, by omega⟩

end Havemind.DiffCollapse
