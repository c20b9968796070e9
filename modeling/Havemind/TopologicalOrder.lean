import Mathlib.Data.Set.Finite.List
import Mathlib.Order.WellFounded
import Mathlib.Data.List.Nodup
import Mathlib.Logic.Relation

/-!
Orders of a finite graph's nodes in which whatever leads to a node stands in front of
it. A graph with such an order of all its nodes has no cycle, and in a graph with none
every set of nodes has one that nothing in the set leads to.
-/
namespace Havemind.TopologicalOrder

open Relation List

variable {V : Type*} {edge : V → V → Prop} {order : List V} {v : V}

/-- No node leads back to itself. -/
def Acyclic (edge : V → V → Prop) : Prop := ∀ v, ¬ TransGen edge v v

def SourcesFirst (edge : V → V → Prop) (order : List V) : Prop :=
  ∀ before v after, order = before ++ v :: after → ∀ u, edge u v → u ∈ before

theorem sourcesFirst_nil : SourcesFirst edge [] := by
  intro before v after hsplit
  exact absurd hsplit.symm (append_ne_nil_of_right_ne_nil _ (cons_ne_nil _ _))

theorem SourcesFirst.snoc (h : SourcesFirst edge order) (hv : ∀ u, edge u v → u ∈ order) :
    SourcesFirst edge (order ++ [v]) := by
  intro before w after hsplit u hedge
  rcases eq_nil_or_concat after with rfl | ⟨rest, last, rfl⟩
  · obtain ⟨rfl, hlast⟩ := append_inj' hsplit rfl
    rw [← singleton_inj.mp hlast] at hedge
    exact hv u hedge
  · rw [concat_eq_append, ← cons_append, ← append_assoc] at hsplit
    obtain ⟨hbefore, -⟩ := append_inj' hsplit rfl
    exact h before w rest hbefore u hedge

theorem acyclic_of_sourcesFirst (h : SourcesFirst edge order) (hnodup : order.Nodup)
    (hends : ∀ u v, edge u v → v ∈ order) : Acyclic edge := by
  classical
  have hrises : ∀ {u v}, edge u v → order.idxOf u < order.idxOf v := by
    intro u v hedge
    obtain ⟨before, after, hsplit⟩ := append_of_mem (hends u v hedge)
    have hbefore : u ∈ before := h before v after hsplit u hedge
    have hv : v ∉ before := by
      rw [hsplit] at hnodup
      exact fun hmem => (nodup_append.mp hnodup).2.2 v hmem v mem_cons_self rfl
    have hu : (before ++ v :: after).idxOf u < before.length := by
      rw [idxOf_append_of_mem hbefore]
      exact idxOf_lt_length_of_mem hbefore
    rw [hsplit, idxOf_append_of_notMem hv]
    omega
  have hpath : ∀ {u v}, TransGen edge u v → order.idxOf u < order.idxOf v := by
    intro u v hpath
    induction hpath with
    | single hedge => exact hrises hedge
    | tail _ hedge ih => exact ih.trans (hrises hedge)
  intro v hcycle
  exact absurd (hpath hcycle) (lt_irrefl _)

/-- Of some nodes of a graph without a cycle one has no edge from the others. -/
theorem exists_source (hacyclic : Acyclic edge) {rest : List V} (hrest : rest ≠ []) :
    ∃ v ∈ rest, ∀ u ∈ rest, ¬ edge u v := by
  let before (a b : {v // v ∈ rest}) : Prop := TransGen edge a.1 b.1
  have : IsTrans _ before := ⟨fun _ _ _ hab hbc => TransGen.trans hab hbc⟩
  have : Std.Irrefl before := ⟨fun a => hacyclic a.1⟩
  have : Finite {v // v ∈ rest} := rest.finite_toSet
  have hfounded : WellFounded before := Finite.wellFounded_of_trans_of_irrefl before
  obtain ⟨first, later, rfl⟩ := exists_cons_of_ne_nil hrest
  obtain ⟨⟨v, hv⟩, -, hleast⟩ :=
    hfounded.has_min Set.univ ⟨⟨first, mem_cons_self⟩, Set.mem_univ _⟩
  exact ⟨v, hv, fun u hu hedge => hleast ⟨u, hu⟩ (Set.mem_univ _) (.single hedge)⟩

end Havemind.TopologicalOrder
