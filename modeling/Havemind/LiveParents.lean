import Havemind.OutboxRepository
import Mathlib.Data.List.Perm.Basic

/-!
The parents a new revision of a file may name. The walk back from a head is a queue of ids to
look up; rows of the quarantine may name each other as parents in a circle. Every id is looked
up once, so the walk ends, and it ends with the ids that no row leads on from.
-/
namespace Havemind.LiveParents

open RevisionSchema DurableState OutboxRepository List GraphSearch

variable {V : Type*} [DecidableEq V]

section
variable {lookup : V → Option (List V)} {sources : Finset V} {head id : V}
  {pending seen live : List V}

/-- The recorded parents of the first lead to the second. -/
def LeadsTo (lookup : V → Option (List V)) : V → V → Prop :=
  Relation.ReflTransGen fun id parent => ∃ parents, lookup id = some parents ∧ parent ∈ parents

/-- What the walk has done: the ids seen and those that wait are led to, and what a seen id
leads to is seen or waits. -/
structure Walking (lookup : V → Option (List V)) (head : V) (pending seen live : List V) : Prop where
  once : live.Nodup
  mem_live : ∀ id, id ∈ live ↔ id ∈ seen ∧ lookup id = none
  start : head ∈ seen ∨ head ∈ pending
  closed : ∀ id ∈ seen, ∀ parents, lookup id = some parents →
    ∀ parent ∈ parents, parent ∈ seen ∨ parent ∈ pending
  reached : ∀ id, id ∈ seen ∨ id ∈ pending → LeadsTo lookup head id

omit [DecidableEq V] in
theorem walking_start (lookup : V → Option (List V)) (head : V) :
    Walking lookup head [head] [] [] where
  once := nodup_nil
  mem_live id := by simp
  start := .inr (mem_singleton_self head)
  closed id hid := absurd hid not_mem_nil
  reached id hid := by
    rcases hid with hseen | hpending
    · exact absurd hseen not_mem_nil
    · rw [mem_singleton.mp hpending]
      exact .refl

omit [DecidableEq V] in
/-- An id that was seen before is left out. -/
theorem Walking.skip (h : Walking lookup head (id :: pending) seen live) (hseen : id ∈ seen) :
    Walking lookup head pending seen live where
  once := h.once
  mem_live := h.mem_live
  start := by
    rcases h.start with hhead | hhead
    · exact .inl hhead
    · rcases mem_cons.mp hhead with rfl | hrest
      · exact .inl hseen
      · exact .inr hrest
  closed other hother parents hparents parent hparent := by
    rcases h.closed other hother parents hparents parent hparent with hold | hwaits
    · exact .inl hold
    · rcases mem_cons.mp hwaits with rfl | hrest
      · exact .inl hseen
      · exact .inr hrest
  reached other hother := h.reached other (hother.imp_right (mem_cons_of_mem id))

omit [DecidableEq V] in
/-- An id that is looked up leads to its recorded parents, and is live when it has none. -/
theorem Walking.look (h : Walking lookup head (id :: pending) seen live) (hnew : id ∉ seen) :
    Walking lookup head (pending ++ parentsOf lookup id) (seen ++ [id])
      (live ++ if lookup id = none then [id] else []) where
  once := by
    split_ifs with hnone
    · refine nodup_append.mpr ⟨h.once, nodup_singleton id, ?_⟩
      intro other hother other' hother' heq
      rw [heq, mem_singleton.mp hother'] at hother
      exact hnew ((h.mem_live id).mp hother).1
    · rw [append_nil]
      exact h.once
  mem_live other := by
    rw [mem_append, mem_append, h.mem_live, mem_singleton]
    split_ifs with hnone
    · rw [mem_singleton]
      constructor
      · rintro (⟨hseen, hother⟩ | rfl)
        · exact ⟨.inl hseen, hother⟩
        · exact ⟨.inr rfl, hnone⟩
      · rintro ⟨hseen | rfl, hother⟩
        · exact .inl ⟨hseen, hother⟩
        · exact .inr rfl
    · constructor
      · rintro (⟨hseen, hother⟩ | hnil)
        · exact ⟨.inl hseen, hother⟩
        · exact absurd hnil not_mem_nil
      · rintro ⟨hseen | rfl, hother⟩
        · exact .inl ⟨hseen, hother⟩
        · exact absurd hother hnone
  start := by
    rcases h.start with hhead | hhead
    · exact .inl (mem_append_left _ hhead)
    · rcases mem_cons.mp hhead with rfl | hrest
      · exact .inl (mem_append_right _ (mem_singleton_self _))
      · exact .inr (mem_append_left _ hrest)
  closed other hother parents hparents parent hparent := by
    rcases mem_append.mp hother with hold | hself
    · rcases h.closed other hold parents hparents parent hparent with hseen | hwaits
      · exact .inl (mem_append_left _ hseen)
      · rcases mem_cons.mp hwaits with rfl | hrest
        · exact .inl (mem_append_right _ (mem_singleton_self _))
        · exact .inr (mem_append_left _ hrest)
    · rw [mem_singleton.mp hself] at hparents
      right
      refine mem_append_right _ ?_
      unfold parentsOf
      rw [hparents]
      exact hparent
  reached other hother := by
    have hid : LeadsTo lookup head id := h.reached id (.inr mem_cons_self)
    rcases hother with hseen | hwaits
    · rcases mem_append.mp hseen with hold | hself
      · exact h.reached other (.inl hold)
      · rw [mem_singleton.mp hself]
        exact hid
    · rcases mem_append.mp hwaits with hrest | hparent
      · exact h.reached other (.inr (mem_cons_of_mem id hrest))
      · unfold parentsOf at hparent
        cases hparents : lookup id with
        | none =>
          rw [hparents] at hparent
          exact absurd hparent not_mem_nil
        | some parents =>
          rw [hparents] at hparent
          exact hid.tail ⟨parents, hparents, hparent⟩

omit [DecidableEq V] in
/-- When nothing waits any more, everything the head leads to was seen. -/
theorem Walking.done (h : Walking lookup head [] seen live) :
    live.Nodup ∧ ∀ id, id ∈ live ↔ LeadsTo lookup head id ∧ lookup id = none := by
  have hall : ∀ id, LeadsTo lookup head id → id ∈ seen := by
    intro id hleads
    induction hleads with
    | refl => exact h.start.resolve_right not_mem_nil
    | tail _ hedge ih =>
      obtain ⟨parents, hparents, hparent⟩ := hedge
      exact (h.closed _ ih parents hparents _ hparent).resolve_right not_mem_nil
  refine ⟨h.once, fun id => ?_⟩
  rw [h.mem_live]
  exact and_congr_left fun _ => ⟨fun hseen => h.reached id (.inl hseen), hall id⟩

/-- Every turn takes an id off the queue; one that is looked up for the first time adds its
parents, which no later turn does. -/
theorem Walking.run (hsources : ∀ id, parentsOf lookup id ≠ [] → id ∈ sources) {fuel : ℕ}
    (h : Walking lookup head pending seen live)
    (hfuel : pending.length + budget (parentsOf lookup) sources seen ≤ fuel) :
    ∃ result, walkParents lookup fuel pending seen live = some result ∧ result.Nodup ∧
      ∀ id, id ∈ result ↔ LeadsTo lookup head id ∧ lookup id = none := by
  induction fuel generalizing pending seen live with
  | zero =>
    have hnil : pending = [] := length_eq_zero_iff.mp (by omega)
    subst hnil
    exact ⟨live, rfl, h.done⟩
  | succ fuel ih =>
    cases pending with
    | nil => exact ⟨live, rfl, h.done⟩
    | cons id pending =>
      rw [length_cons] at hfuel
      by_cases hseen : id ∈ seen
      · have hturn : walkParents lookup (fuel + 1) (id :: pending) seen live =
            walkParents lookup fuel pending seen live := if_pos hseen
        rw [hturn]
        exact ih (h.skip hseen) (by omega)
      · have hbudget := budget_insert hseen (hsources id)
        have hsame : budget (parentsOf lookup) sources (seen ++ [id]) =
            budget (parentsOf lookup) sources (id :: seen) := by
          unfold budget
          refine Finset.sum_congr (Finset.filter_congr fun other _ => ?_) fun _ _ => rfl
          rw [mem_append, mem_singleton, mem_cons, or_comm]
        have hlook := h.look hseen
        have hfuel' : (pending ++ parentsOf lookup id).length +
            budget (parentsOf lookup) sources (seen ++ [id]) ≤ fuel := by
          rw [length_append, hsame]
          omega
        have hturn : walkParents lookup (fuel + 1) (id :: pending) seen live =
            walkParents lookup fuel (pending ++ parentsOf lookup id) (seen ++ [id])
              (live ++ if lookup id = none then [id] else []) := by
          refine (if_neg hseen).trans ?_
          unfold parentsOf
          cases lookup id with
          | none => rw [Option.getD_none, append_nil, if_pos rfl]
          | some parents => rw [Option.getD_some, if_neg (Option.some_ne_none parents), append_nil]
        rw [hturn]
        exact ih hlook hfuel'

/-- A walk that ended needs no more turns. -/
theorem walkParents_more {fuel fuel' : ℕ} {result : List V}
    (h : walkParents lookup fuel pending seen live = some result) (hfuel : fuel ≤ fuel') :
    walkParents lookup fuel' pending seen live = some result := by
  induction fuel generalizing fuel' pending seen live with
  | zero =>
    cases pending with
    | nil => cases fuel' <;> exact h
    | cons id pending => cases h
  | succ fuel ih =>
    obtain ⟨more, rfl⟩ := Nat.exists_eq_add_of_lt (Nat.lt_of_lt_of_le (Nat.lt_succ_self fuel) hfuel)
    cases pending with
    | nil => exact h
    | cons id pending =>
      unfold walkParents at h ⊢
      split_ifs at h ⊢ with hseen
      · exact ih h (by omega)
      · cases hlookup : lookup id with
        | none =>
          rw [hlookup] at h
          exact ih h (by omega)
        | some parents =>
          rw [hlookup] at h
          exact ih h (by omega)

end

variable (state : PersistedSyncState)

/-- Only a row of the quarantine has recorded parents. -/
theorem quarantined_of_parents {id : Id} (h : parentsOf (quarantinedParents state) id ≠ []) :
    id ∈ (state.quarantine.map QuarantinedRevision.revisionId).toFinset := by
  unfold parentsOf quarantinedParents at h
  cases hrow : state.quarantine.find? fun row => row.revisionId = id with
  | none =>
    rw [hrow] at h
    exact absurd rfl h
  | some row =>
    have hid := List.find?_some hrow
    rw [decide_eq_true_eq] at hid
    rw [← hid]
    exact mem_toFinset.mpr (mem_map_of_mem (mem_of_find?_eq_some hrow))

theorem walkParents_quarantined (head : Id) {fuel : ℕ}
    (hfuel : 1 + budget (parentsOf (quarantinedParents state))
      (state.quarantine.map QuarantinedRevision.revisionId).toFinset [] ≤ fuel) :
    ∃ live, liveParentsIn (some (quarantinedParents state)) fuel (some head) = some live ∧
      live.Nodup ∧ ∀ id, id ∈ live ↔
        LeadsTo (quarantinedParents state) head id ∧ quarantinedParents state id = none :=
  (walking_start (quarantinedParents state) head).run (fun _ => quarantined_of_parents state) hfuel

/-- The turns the repository's walk has are enough. -/
theorem liveParents_walked (head : Id) : (liveParents state (some head)).Nodup ∧
    ∀ id, id ∈ liveParents state (some head) ↔
      LeadsTo (quarantinedParents state) head id ∧ quarantinedParents state id = none := by
  obtain ⟨live, hlive, hexact⟩ := walkParents_quarantined state head le_rfl
  unfold liveParents
  dsimp only
  rw [hlive]
  exact hexact

/-- The walk back from a head ends, whatever rows the quarantine has, with each of the
revisions it is to name once. -/
theorem liveParents_exact (head : Id) :
    ∃ live turns, (∀ fuel ≥ turns,
        liveParentsIn (some (quarantinedParents state)) fuel (some head) = some live) ∧
      live.Nodup ∧ ∀ id, id ∈ live ↔
        Relation.ReflTransGen (fun id parent => ∃ parents,
            quarantinedParents state id = some parents ∧ parent ∈ parents) head id ∧
          quarantinedParents state id = none := by
  obtain ⟨live, hlive, hexact⟩ := walkParents_quarantined state head (Nat.le_refl _)
  exact ⟨live, _, fun fuel hfuel => walkParents_more hlive hfuel, hexact⟩

end Havemind.LiveParents
