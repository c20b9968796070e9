import Mathlib.Algebra.BigOperators.Group.Finset.Basic
import Mathlib.Data.Finset.Dedup
import Mathlib.Logic.Relation

/-!
The nodes reachable from a start, by a stack of nodes to visit. A visited node
pushes its successors once, so the successors of all the nodes that have any
bound the number of turns.
-/
namespace Havemind.GraphSearch

open List

variable {V : Type*} [DecidableEq V] (next : V → List V)

/-- The loop of the search; `fuel` bounds its turns. -/
def visit : ℕ → List V → List V → List V
  | 0, _, visited => visited
  | _, [], visited => visited
  | fuel + 1, v :: stack, visited =>
      if v ∈ visited then visit fuel stack visited
      else visit fuel ((next v).reverse ++ stack) (v :: visited)

/-- What the loop ends with when nothing bounds its turns: there is a result
exactly when the loop comes to an end. -/
inductive Searched : List V → List V → List V → Prop
  | done {visited} : Searched [] visited visited
  | seen {v stack visited result} : v ∈ visited → Searched stack visited result →
      Searched (v :: stack) visited result
  | fresh {v stack visited result} : v ∉ visited →
      Searched ((next v).reverse ++ stack) (v :: visited) result →
      Searched (v :: stack) visited result

/-- The successors a search may still push when it has visited these nodes. -/
def budget (sources : Finset V) (visited : List V) : ℕ :=
  ∑ v ∈ sources.filter (· ∉ visited), (next v).length

def reachable (sources : Finset V) (start : V) : List V :=
  visit next (budget next sources [] + 1) [start] []

variable {next} {sources : Finset V} {start : V} {visited stack : List V}

theorem budget_insert {v : V} (hfree : v ∉ visited) (hsources : next v ≠ [] → v ∈ sources) :
    budget next sources (v :: visited) + (next v).length = budget next sources visited := by
  unfold budget
  by_cases hmem : v ∈ sources
  · have hsplit : sources.filter (· ∉ visited) =
        insert v (sources.filter (· ∉ v :: visited)) := by
      ext w
      by_cases hw : w = v
      · simp [hw, hmem, hfree]
      · simp [hw]
    rw [hsplit, Finset.sum_insert (by simp), Nat.add_comm]
  · have hnil : next v = [] := by
      by_contra hne
      exact hmem (hsources hne)
    have hsame : sources.filter (· ∉ v :: visited) = sources.filter (· ∉ visited) := by
      ext w
      by_cases hw : w = v
      · simp [hw, hmem]
      · simp [hw]
    rw [hsame, hnil]
    rfl

variable (hsources : ∀ v, next v ≠ [] → v ∈ sources)
include hsources

/-- With a turn for everything on the stack and everything that may still be pushed
the bounded loop ends where the unbounded one does. -/
theorem searched_visit {fuel : ℕ} (hfuel : stack.length + budget next sources visited ≤ fuel) :
    Searched next stack visited (visit next fuel stack visited) := by
  induction fuel generalizing stack visited with
  | zero =>
    have hnil : stack = [] := length_eq_zero_iff.mp (by omega)
    subst hnil
    exact .done
  | succ fuel ih =>
    cases stack with
    | nil => exact .done
    | cons v stack =>
      rw [length_cons] at hfuel
      by_cases hseen : v ∈ visited
      · have hvisit : visit next (fuel + 1) (v :: stack) visited = visit next fuel stack visited :=
          if_pos hseen
        rw [hvisit]
        exact .seen hseen (ih (by omega))
      · have hvisit : visit next (fuel + 1) (v :: stack) visited =
            visit next fuel ((next v).reverse ++ stack) (v :: visited) := if_neg hseen
        have hbudget : budget next sources (v :: visited) + (next v).length =
            budget next sources visited := budget_insert hseen (hsources v)
        rw [hvisit]
        refine .fresh hseen (ih ?_)
        rw [length_append, length_reverse]
        omega

theorem searched_reachable (start : V) :
    Searched next [start] [] (reachable next sources start) := by
  refine searched_visit hsources ?_
  rw [length_singleton, Nat.add_comm]

omit [DecidableEq V] in
omit hsources in
theorem Searched.nodup {result : List V} (h : Searched next stack visited result)
    (hvisited : visited.Nodup) : result.Nodup := by
  induction h with
  | done => exact hvisited
  | seen _ _ ih => exact ih hvisited
  | fresh hfree _ ih => exact ih (nodup_cons.mpr ⟨hfree, hvisited⟩)

/-- What the search visits is reachable, and contains everything on the stack
and everything a visited node leads to. -/
theorem visit_spec {fuel : ℕ} (hfuel : stack.length + budget next sources visited ≤ fuel)
    (hclosed : ∀ v ∈ visited, ∀ w ∈ next v, w ∈ visited ∨ w ∈ stack) :
    (∀ v ∈ visited, v ∈ visit next fuel stack visited) ∧
    (∀ v ∈ stack, v ∈ visit next fuel stack visited) ∧
    (∀ v ∈ visit next fuel stack visited, ∀ w ∈ next v, w ∈ visit next fuel stack visited) ∧
    ∀ v ∈ visit next fuel stack visited, v ∈ visited ∨
      ∃ u ∈ stack, Relation.ReflTransGen (fun a b => b ∈ next a) u v := by
  induction fuel generalizing stack visited with
  | zero =>
    have hnil : stack = [] := length_eq_zero_iff.mp (by omega)
    subst hnil
    refine ⟨fun v hv => hv, fun v hv => absurd hv not_mem_nil, ?_, fun v hv => .inl hv⟩
    intro v hv w hw
    exact (hclosed v hv w hw).resolve_right not_mem_nil
  | succ fuel ih =>
    cases stack with
    | nil =>
      refine ⟨fun v hv => hv, fun v hv => absurd hv not_mem_nil, ?_, fun v hv => .inl hv⟩
      intro v hv w hw
      exact (hclosed v hv w hw).resolve_right not_mem_nil
    | cons v stack =>
      by_cases hseen : v ∈ visited
      · have hvisit : visit next (fuel + 1) (v :: stack) visited = visit next fuel stack visited :=
          if_pos hseen
        rw [hvisit]
        have hclosed' : ∀ u ∈ visited, ∀ w ∈ next u, w ∈ visited ∨ w ∈ stack := by
          intro u hu w hw
          rcases hclosed u hu w hw with hold | hstack
          · exact .inl hold
          · rcases mem_cons.mp hstack with rfl | hrest
            · exact .inl hseen
            · exact .inr hrest
        obtain ⟨hkeep, hstack, hnext, hreach⟩ := ih
          (by simp only [length_cons] at hfuel; omega) hclosed'
        refine ⟨hkeep, ?_, hnext, ?_⟩
        · intro u hu
          rcases mem_cons.mp hu with rfl | hrest
          · exact hkeep u hseen
          · exact hstack u hrest
        · intro u hu
          rcases hreach u hu with hold | ⟨w, hw, hpath⟩
          · exact .inl hold
          · exact .inr ⟨w, mem_cons_of_mem _ hw, hpath⟩
      · have hvisit : visit next (fuel + 1) (v :: stack) visited =
            visit next fuel ((next v).reverse ++ stack) (v :: visited) := if_neg hseen
        rw [hvisit]
        have hbudget : budget next sources (v :: visited) + (next v).length =
            budget next sources visited := budget_insert hseen (hsources v)
        have hclosed' : ∀ u ∈ v :: visited, ∀ w ∈ next u,
            w ∈ v :: visited ∨ w ∈ (next v).reverse ++ stack := by
          intro u hu w hw
          rcases mem_cons.mp hu with rfl | hold
          · exact .inr (mem_append_left _ (mem_reverse.mpr hw))
          · rcases hclosed u hold w hw with hvisited | hstack
            · exact .inl (mem_cons_of_mem _ hvisited)
            · rcases mem_cons.mp hstack with rfl | hrest
              · exact .inl mem_cons_self
              · exact .inr (mem_append_right _ hrest)
        obtain ⟨hkeep, hstack, hnext, hreach⟩ := ih
          (by simp only [length_cons, length_append, length_reverse] at hfuel ⊢
              omega) hclosed'
        refine ⟨fun u hu => hkeep u (mem_cons_of_mem _ hu), ?_, hnext, ?_⟩
        · intro u hu
          rcases mem_cons.mp hu with rfl | hrest
          · exact hkeep u mem_cons_self
          · exact hstack u (mem_append_right _ hrest)
        · intro u hu
          rcases hreach u hu with hold | ⟨w, hw, hpath⟩
          · rcases mem_cons.mp hold with rfl | hvisited
            · exact .inr ⟨u, mem_cons_self, .refl⟩
            · exact .inl hvisited
          · rcases mem_append.mp hw with hpushed | hrest
            · exact .inr ⟨v, mem_cons_self, hpath.head (mem_reverse.mp hpushed)⟩
            · exact .inr ⟨w, mem_cons_of_mem _ hrest, hpath⟩

/-- The search finds exactly the nodes a path leads to. -/
theorem mem_reachable {v : V} :
    v ∈ reachable next sources start ↔ Relation.ReflTransGen (fun a b => b ∈ next a) start v := by
  have hfuel : [start].length + budget next sources [] ≤ budget next sources [] + 1 := by
    rw [length_singleton, Nat.add_comm]
  obtain ⟨_, hstack, hnext, hreach⟩ := visit_spec hsources hfuel
    fun v hv => absurd hv not_mem_nil
  constructor
  · intro hv
    rcases hreach v hv with hold | ⟨u, hu, hpath⟩
    · exact absurd hold not_mem_nil
    · rw [mem_singleton.mp hu] at hpath
      exact hpath
  · intro hpath
    induction hpath with
    | refl => exact hstack start (mem_singleton_self _)
    | tail _ hedge ih => exact hnext _ ih _ hedge

end Havemind.GraphSearch
