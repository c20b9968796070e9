import Havemind.RevisionHistory
import Havemind.TopologicalOrder

/-!
The base a three-way merge takes. `commonAncestor` strikes out the parents of the
common ancestors only, not everything behind them: in a graph without a cycle that
holds every common ancestor this leaves the nearest ones.
-/
namespace Havemind.MergeBase

open RevisionSchema SyncRunner RevisionHistory TopologicalOrder Relation List GraphSearch

section
variable (graph : List RemoteEvent)

/-- `parent` is one of the parents the revision's entry names. -/
def IsParent (revision parent : Id) : Prop := parent ∈ parentsIn graph revision

/-- A revision counts as an ancestor of itself. -/
def IsAncestor (revision ancestor : Id) : Prop := ReflTransGen (IsParent graph) revision ancestor

def IsCommon (left right id : Id) : Prop := IsAncestor graph left id ∧ IsAncestor graph right id

/-- No other common ancestor comes after it. -/
def IsNearest (left right base : Id) : Prop :=
  IsCommon graph left right base ∧
  ∀ other, IsCommon graph left right other → other ≠ base → ¬ TransGen (IsParent graph) other base

/-- What the source calls `common`. -/
def common (left right : Id) : List Id :=
  (ancestors graph right).filter fun id => id ∈ ancestors graph left ∧ (eventIn graph id).isSome

/-- What the source calls `nearest`. -/
def nearest (left right : Id) : List Id :=
  (common graph left right).filter fun id =>
    id ∉ (common graph left right).flatMap (parentsIn graph)

end

section
variable {graph : List RemoteEvent} {left right id : Id}

theorem searched_ancestors (graph : List RemoteEvent) (start : Id) :
    Searched (parentsIn graph) [start] [] (ancestors graph start) := by
  refine searched_reachable (fun v hv => ?_) start
  exact mem_revisionIds_of_parentsIn hv

theorem nodup_ancestors (graph : List RemoteEvent) (start : Id) :
    (ancestors graph start).Nodup :=
  (searched_ancestors graph start).nodup nodup_nil

/-- A path from a common ancestor enters its end from a common ancestor. -/
theorem IsCommon.last_parent {base : Id} (h : IsCommon graph left right id)
    (hpath : TransGen (IsParent graph) id base) :
    ∃ child, IsCommon graph left right child ∧ IsParent graph child base := by
  obtain ⟨child, hto, hparent⟩ := TransGen.tail'_iff.mp hpath
  exact ⟨child, ⟨h.1.trans hto, h.2.trans hto⟩, hparent⟩

theorem mem_common (hheld : ∀ id, IsCommon graph left right id → (eventIn graph id).isSome) :
    id ∈ common graph left right ↔ IsCommon graph left right id := by
  unfold common
  rw [mem_filter]
  constructor
  · rintro ⟨hright, hboth⟩
    obtain ⟨hleft, -⟩ := of_decide_eq_true hboth
    exact ⟨mem_ancestors.mp hleft, mem_ancestors.mp hright⟩
  · intro hcommon
    refine ⟨mem_ancestors.mpr hcommon.2, decide_eq_true ?_⟩
    exact ⟨mem_ancestors.mpr hcommon.1, hheld id hcommon⟩

theorem mem_nearest (hacyclic : Acyclic (IsParent graph))
    (hheld : ∀ id, IsCommon graph left right id → (eventIn graph id).isSome) :
    id ∈ nearest graph left right ↔ IsNearest graph left right id := by
  unfold nearest
  rw [mem_filter, mem_common hheld, decide_eq_true_iff, mem_flatMap]
  constructor
  · rintro ⟨hcommon, hkept⟩
    refine ⟨hcommon, fun other hother _ hpath => hkept ?_⟩
    obtain ⟨child, hchild, hparent⟩ := hother.last_parent hpath
    exact ⟨child, (mem_common hheld).mpr hchild, hparent⟩
  · rintro ⟨hcommon, hlast⟩
    refine ⟨hcommon, ?_⟩
    rintro ⟨child, hchild, hparent⟩
    have hne : child ≠ id := by
      rintro rfl
      exact hacyclic child (.single hparent)
    exact hlast child ((mem_common hheld).mp hchild) hne (.single hparent)

theorem nodup_nearest (graph : List RemoteEvent) (left right : Id) :
    (nearest graph left right).Nodup :=
  ((nodup_ancestors graph right).filter _).filter _

/-- The base is taken exactly when one revision is left. -/
theorem commonAncestor_eq (hheld : ∀ id ∈ nearest graph left right, (eventIn graph id).isSome)
    {base : Id} :
    (commonAncestor graph left right).map (fun event => event.revision.revisionId) = some base ↔
      nearest graph left right = [base] := by
  unfold nearest common at hheld ⊢
  unfold commonAncestor
  dsimp only
  split
  · next only hlist =>
    have hone := hheld only (by rw [hlist]; exact mem_singleton_self only)
    obtain ⟨event, hevent⟩ := Option.isSome_iff_exists.mp hone
    have hid : event.revision.revisionId = only := (eventIn_eq_some hevent).2
    rw [hlist, hevent, Option.map_some, hid, Option.some_inj, singleton_inj]
  · next hlist =>
    simp only [Option.map_none, reduceCtorEq, false_iff]
    exact hlist base

end

/-- The search for a revision's ancestors ends whatever the graph is, with every revision
a path over parents leads to and each only once. Without cycles, and with every common
ancestor at hand, the base is the common ancestor no other one comes after, if there is
one only. -/
theorem commonAncestor_isNearest (graph : List RemoteEvent) :
    (∀ start, Searched (parentsIn graph) [start] [] (ancestors graph start) ∧
      (ancestors graph start).Nodup ∧
      ∀ id, id ∈ ancestors graph start ↔ IsAncestor graph start id) ∧
    (Acyclic (IsParent graph) → ∀ left right,
      (∀ id, IsCommon graph left right id → (eventIn graph id).isSome) →
      ∀ base, (commonAncestor graph left right).map (fun event => event.revision.revisionId) =
          some base ↔
        IsNearest graph left right base ∧
        ∀ other, IsNearest graph left right other → other = base) := by
  refine ⟨fun start => ⟨searched_ancestors graph start, nodup_ancestors graph start,
    fun id => mem_ancestors⟩, ?_⟩
  intro hacyclic left right hheld base
  have hmem : ∀ {id}, id ∈ nearest graph left right ↔ IsNearest graph left right id :=
    mem_nearest hacyclic hheld
  rw [commonAncestor_eq fun id hid => hheld id (hmem.mp hid).1, ← perm_singleton,
    perm_ext_iff_of_nodup (nodup_nearest graph left right) (nodup_singleton base)]
  constructor
  · intro hall
    refine ⟨hmem.mp ((hall base).mpr (mem_singleton_self base)), fun other hother => ?_⟩
    exact mem_singleton.mp ((hall other).mp (hmem.mpr hother))
  · rintro ⟨hbase, honly⟩ id
    rw [mem_singleton]
    constructor
    · exact fun hid => honly id (hmem.mp hid)
    · rintro rfl
      exact hmem.mpr hbase

/-- Two branches that were merged once and split again. -/
def rejoined : List RemoteEvent :=
  [(1, []), (2, [1]), (3, [1]), (4, [2, 3]), (5, [4]), (6, [4])].map fun (id, parents) =>
    { serverSequence := id
      revision :=
        { revisionId := id
          fileId := 1
          contentHash := id
          parentRevisionIds := some parents
          authorMembershipId := none
          acceptedAt := none } }

theorem acyclic_rejoined : Acyclic (IsParent rejoined) := by
  have hfalls : ∀ id ∈ [1, 2, 3, 4, 5, 6], ∀ parent ∈ parentsIn rejoined id, parent < id := by
    decide +kernel
  have hpath : ∀ {child parent}, TransGen (IsParent rejoined) child parent → parent < child := by
    have hparent : ∀ {child parent}, IsParent rejoined child parent → parent < child := by
      intro child parent hedge
      have hchild := mem_revisionIds_of_parentsIn (ne_nil_of_mem hedge)
      exact hfalls child (mem_toFinset.mp hchild) parent hedge
    intro child parent hpath
    induction hpath with
    | single hedge => exact hparent hedge
    | tail _ hedge ih => exact (hparent hedge).trans ih
  exact fun id hcycle => absurd (hpath hcycle) (lt_irrefl id)

theorem commonAncestor_isNearest_rejoined :
    (commonAncestor rejoined 5 6).map (fun event => event.revision.revisionId) = some 4 ∧
    IsNearest rejoined 5 6 4 := by
  have hbase : (commonAncestor rejoined 5 6).map (fun event => event.revision.revisionId) =
      some 4 := by decide +kernel
  have hheld : ∀ id, IsCommon rejoined 5 6 id → (eventIn rejoined id).isSome := by
    have hall : ∀ id ∈ ancestors rejoined 5, (eventIn rejoined id).isSome := by decide +kernel
    exact fun id hid => hall id (mem_ancestors.mpr hid.1)
  exact ⟨hbase,
    (((commonAncestor_isNearest rejoined).2 acyclic_rejoined 5 6 hheld 4).mp hbase).1⟩

end Havemind.MergeBase
