import Mathlib.Data.List.Basic

/-!
Three-way partitions of lists over an arbitrary type. Four lists are cut into
the same number of consecutive blocks, and in each block the fourth list takes
the side that changed it, or the common text of both sides. This is the meaning
of a merge that neither invents nor drops an element; how the blocks are found
is left to the algorithm that uses it.
-/
namespace Havemind.MergeBlocks

open List

structure Block (α : Type*) where
  ancestor : List α
  left : List α
  right : List α
  merged : List α

variable {α : Type*}

/-- One side kept the block and the other side's text is taken, or both agree. -/
def Block.Resolved (k : Block α) : Prop :=
  (k.right = k.ancestor ∧ k.merged = k.left) ∨
  (k.left = k.ancestor ∧ k.merged = k.right) ∨
  (k.left = k.right ∧ k.left = k.merged)

def JointPartition (o a b m : List α) : Prop :=
  ∃ blocks : List (Block α), (∀ k ∈ blocks, k.Resolved) ∧
    o = blocks.flatMap Block.ancestor ∧ a = blocks.flatMap Block.left ∧
    b = blocks.flatMap Block.right ∧ m = blocks.flatMap Block.merged

namespace JointPartition

variable {o a b m o' a' b' m' : List α}

theorem nil : JointPartition ([] : List α) [] [] [] :=
  ⟨[], by simp, rfl, rfl, rfl, rfl⟩

theorem single (k : Block α) (hk : k.Resolved) :
    JointPartition k.ancestor k.left k.right k.merged :=
  ⟨[k], by simpa using hk, by simp, by simp, by simp, by simp⟩

theorem takeLeft (o a : List α) : JointPartition o a o a :=
  single ⟨o, a, o, a⟩ (Or.inl ⟨rfl, rfl⟩)

theorem takeRight (o b : List α) : JointPartition o o b b :=
  single ⟨o, o, b, b⟩ (Or.inr (Or.inl ⟨rfl, rfl⟩))

theorem takeBoth (o a : List α) : JointPartition o a a a :=
  single ⟨o, a, a, a⟩ (Or.inr (Or.inr ⟨rfl, rfl⟩))

theorem append (h : JointPartition o a b m) (h' : JointPartition o' a' b' m') :
    JointPartition (o ++ o') (a ++ a') (b ++ b') (m ++ m') := by
  obtain ⟨blocks, hres, rfl, rfl, rfl, rfl⟩ := h
  obtain ⟨blocks', hres', rfl, rfl, rfl, rfl⟩ := h'
  refine ⟨blocks ++ blocks', ?_, by simp, by simp, by simp, by simp⟩
  intro k hk
  rcases mem_append.mp hk with hk | hk
  · exact hres k hk
  · exact hres' k hk

/-- The two sides are interchangeable. -/
theorem swap (h : JointPartition o a b m) : JointPartition o b a m := by
  obtain ⟨blocks, hres, rfl, rfl, rfl, rfl⟩ := h
  refine ⟨blocks.map fun k => ⟨k.ancestor, k.right, k.left, k.merged⟩, ?_, ?_, ?_, ?_, ?_⟩
  · intro k hk
    obtain ⟨k', hk', rfl⟩ := mem_map.mp hk
    rcases hres k' hk' with hleft | hright | ⟨heq, hm⟩
    · exact Or.inr (Or.inl hleft)
    · exact Or.inl hright
    · exact Or.inr (Or.inr ⟨heq.symm, heq.symm.trans hm⟩)
  all_goals simp [flatMap_map]

/-- Nothing is invented: every merged element stands on one of the two sides. -/
theorem mem_of_mem_merged (h : JointPartition o a b m) {x : α} (hx : x ∈ m) :
    x ∈ a ∨ x ∈ b := by
  obtain ⟨blocks, hres, rfl, rfl, rfl, rfl⟩ := h
  obtain ⟨k, hk, hxk⟩ := mem_flatMap.mp hx
  rcases hres k hk with ⟨_, hm⟩ | ⟨_, hm⟩ | ⟨_, hm⟩
  · exact Or.inl (mem_flatMap.mpr ⟨k, hk, hm ▸ hxk⟩)
  · exact Or.inr (mem_flatMap.mpr ⟨k, hk, hm ▸ hxk⟩)
  · exact Or.inl (mem_flatMap.mpr ⟨k, hk, hm ▸ hxk⟩)

end JointPartition

end Havemind.MergeBlocks
