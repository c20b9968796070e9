import Mathlib.Data.Set.Insert
import Mathlib.Logic.Relation

/-!
Append-only graphs in which every new node names nodes that are already there
as its parents, with a set of heads that is maintained and not computed. A
graph grown this way has no cycle, and its heads are the nodes nobody names.
-/
namespace Havemind.ParentGraph

@[ext]
structure Dag (V : Type*) where
  nodes : Set V
  /-- `parent c p`: the node `c` names `p`. -/
  parent : V → V → Prop
  heads : Set V

variable {V : Type*}

namespace Dag

def empty : Dag V := ⟨∅, fun _ _ => False, ∅⟩

/-- The new node replaces its parents among the heads. -/
def add (g : Dag V) (v : V) (parents : Set V) : Dag V where
  nodes := insert v g.nodes
  parent c p := g.parent c p ∨ (c = v ∧ p ∈ parents)
  heads := insert v (g.heads \ parents)

end Dag

inductive Grown : Dag V → Prop
  | empty : Grown Dag.empty
  | add {g : Dag V} {v : V} {parents : Set V} :
      Grown g → v ∉ g.nodes → parents ⊆ g.nodes → Grown (g.add v parents)

namespace Grown

variable {g : Dag V}

theorem parent_mem (h : Grown g) {c p : V} (hp : g.parent c p) : c ∈ g.nodes ∧ p ∈ g.nodes := by
  induction h with
  | empty => cases hp
  | add _ _ hsub ih =>
    rcases hp with hold | ⟨rfl, hmem⟩
    · exact ⟨Or.inr (ih hold).1, Or.inr (ih hold).2⟩
    · exact ⟨Or.inl rfl, Or.inr (hsub hmem)⟩

/-- The heads are the nodes that no node names as a parent. -/
theorem mem_heads_iff (h : Grown g) (x : V) :
    x ∈ g.heads ↔ x ∈ g.nodes ∧ ∀ c, ¬ g.parent c x := by
  induction h with
  | empty => simp [Dag.empty]
  | @add g v parents hg hfree hsub ih =>
    simp only [Dag.add, Set.mem_insert_iff, Set.mem_sdiff]
    constructor
    · rintro (rfl | ⟨hhead, hnot⟩)
      · refine ⟨Or.inl rfl, ?_⟩
        rintro c (hold | ⟨_, hmem⟩)
        · exact hfree (hg.parent_mem hold).2
        · exact hfree (hsub hmem)
      · obtain ⟨hnode, hnone⟩ := ih.mp hhead
        refine ⟨Or.inr hnode, ?_⟩
        rintro c (hold | ⟨_, hmem⟩)
        · exact hnone c hold
        · exact hnot hmem
    · rintro ⟨rfl | hnode, hnone⟩
      · exact Or.inl rfl
      · refine Or.inr ⟨ih.mpr ⟨hnode, fun c hc => hnone c (Or.inl hc)⟩, ?_⟩
        exact fun hmem => hnone v (Or.inr ⟨rfl, hmem⟩)

end Grown

/-- Edges that decrease a rank close no cycle. -/
theorem acyclic_of_rank {parent : V → V → Prop} (rank : V → ℕ)
    (hrank : ∀ c p, parent c p → rank p < rank c) (x : V) : ¬ Relation.TransGen parent x x := by
  have hlt : ∀ {c p}, Relation.TransGen parent c p → rank p < rank c := by
    intro c p h
    induction h with
    | single hstep => exact hrank _ _ hstep
    | tail _ hstep ih => exact Nat.lt_trans (hrank _ _ hstep) ih
  exact fun h => Nat.lt_irrefl _ (hlt h)

end Havemind.ParentGraph
