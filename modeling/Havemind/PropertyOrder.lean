import Mathlib.Data.List.Nodup
import Mathlib.Data.List.TakeWhile
import Mathlib.Order.Lattice

/-!
Objects whose properties are listed in an order of their keys: first by a rank, and those of
one rank in the order they were first defined. Defining a property keeps the order, leaves
an ordered object as it is when its own properties are defined again, and commutes with
keeping the properties of some keys.
-/
namespace Havemind.PropertyOrder

open List

variable {K R V : Type*} [LinearOrder R] (rank : K → R)

/-- Behind the last property of no higher rank. -/
def place (member : K × V) : List (K × V) → List (K × V)
  | [] => [member]
  | first :: rest =>
      if rank first.1 ≤ rank member.1 then first :: place member rest else member :: first :: rest

/-- A key that is there keeps its place. -/
def define [DecidableEq K] (members : List (K × V)) (key : K) (value : V) : List (K × V) :=
  if key ∈ members.map Prod.fst then
    members.map fun member => if member.1 = key then (key, value) else member
  else place rank (key, value) members

def defineAll [DecidableEq K] (members entries : List (K × V)) : List (K × V) :=
  entries.foldl (fun members entry => define rank members entry.1 entry.2) members

structure Ordered (members : List (K × V)) : Prop where
  ranks : members.Pairwise fun a b => rank a.1 ≤ rank b.1
  distinct : (members.map Prod.fst).Nodup

section
variable {rank} {members : List (K × V)} {member entry : K × V} {keep : K → Bool}

theorem place_perm : (place rank member members).Perm (member :: members) := by
  induction members with
  | nil => exact List.Perm.refl _
  | cons first rest ih =>
    unfold place
    split_ifs
    · exact (ih.cons first).trans (List.Perm.swap member first rest)
    · exact List.Perm.refl _

theorem pairwise_place (h : members.Pairwise fun a b => rank a.1 ≤ rank b.1) :
    (place rank member members).Pairwise fun a b => rank a.1 ≤ rank b.1 := by
  induction members with
  | nil => exact pairwise_singleton _ _
  | cons first rest ih =>
    obtain ⟨hfirst, hrest⟩ := pairwise_cons.mp h
    unfold place
    split_ifs with hle
    · apply pairwise_cons.mpr
      refine ⟨fun later hlater => ?_, ih hrest⟩
      rcases mem_cons.mp (place_perm.mem_iff.mp hlater) with rfl | hmem
      · exact hle
      · exact hfirst later hmem
    · apply pairwise_cons.mpr
      refine ⟨fun later hlater => ?_, h⟩
      have hlt : rank member.1 < rank first.1 := not_le.mp hle
      rcases mem_cons.mp hlater with rfl | hmem
      · exact hlt.le
      · exact hlt.le.trans (hfirst later hmem)

/-- A member of no lower rank than all others comes last. -/
theorem place_last (h : ∀ other ∈ members, rank other.1 ≤ rank member.1) :
    place rank member members = members ++ [member] := by
  induction members with
  | nil => rfl
  | cons first rest ih =>
    obtain ⟨hfirst, hrest⟩ := forall_mem_cons.mp h
    rw [place, if_pos hfirst, ih hrest]
    rfl

theorem place_first (h : ∀ other ∈ members, rank member.1 < rank other.1) :
    place rank member members = member :: members := by
  cases members with
  | nil => rfl
  | cons first rest =>
    have hfirst : ¬ rank first.1 ≤ rank member.1 := not_le.mpr (h first mem_cons_self)
    rw [place, if_neg hfirst]

theorem filter_place (h : members.Pairwise fun a b => rank a.1 ≤ rank b.1)
    (hkeep : keep member.1 = true) :
    (place rank member members).filter (fun entry => keep entry.1) =
      place rank member (members.filter fun entry => keep entry.1) := by
  induction members with
  | nil => simp [place, hkeep]
  | cons first rest ih =>
    obtain ⟨hfirst, hrest⟩ := pairwise_cons.mp h
    by_cases hle : rank first.1 ≤ rank member.1
    · rw [place, if_pos hle]
      by_cases hkept : keep first.1 = true
      · simp [hkept, ih hrest, place, hle]
      · simp [hkept, ih hrest]
    · have hlater : ∀ other ∈ (first :: rest).filter fun entry => keep entry.1,
          rank member.1 < rank other.1 := by
        intro other hother
        have hlt : rank member.1 < rank first.1 := not_le.mp hle
        rcases mem_cons.mp (mem_filter.mp hother).1 with rfl | hmem
        · exact hlt
        · exact hlt.trans_le (hfirst other hmem)
      rw [place, if_neg hle, place_first hlater, filter_cons_of_pos (by exact hkeep)]

theorem filter_place_of_not (hkeep : keep member.1 = false) :
    (place rank member members).filter (fun entry => keep entry.1) =
      members.filter fun entry => keep entry.1 := by
  induction members with
  | nil => simp [place, hkeep]
  | cons first rest ih =>
    unfold place
    split_ifs
    · simp only [filter_cons, ih]
    · rw [filter_cons_of_neg (by simp [hkeep])]

end

section
variable {rank} {members : List (K × V)}

theorem pairwise_keys : (members.Pairwise fun a b => rank a.1 ≤ rank b.1) ↔
    (members.map Prod.fst).Pairwise fun a b => rank a ≤ rank b := by
  rw [pairwise_map]

/-- Whether an object is in order is a matter of its keys. -/
theorem Ordered.congr {W : Type*} {others : List (K × W)} (h : Ordered rank members)
    (hkeys : others.map Prod.fst = members.map Prod.fst) : Ordered rank others := by
  constructor
  · rw [pairwise_keys, hkeys, ← pairwise_keys]
    exact h.ranks
  · rw [hkeys]
    exact h.distinct

theorem Ordered.sublist {others : List (K × V)} (h : Ordered rank members)
    (hsub : others.Sublist members) : Ordered rank others :=
  ⟨h.ranks.sublist hsub, h.distinct.sublist (hsub.map _)⟩

theorem ordered_nil : Ordered rank ([] : List (K × V)) := ⟨List.Pairwise.nil, nodup_nil⟩

end

variable [DecidableEq K] {rank} {members entries : List (K × V)} {key : K} {value : V}
  {keep : K → Bool} {member : K × V}

/-- What `define` changes where the key is there. -/
def replace (members : List (K × V)) (key : K) (value : V) : List (K × V) :=
  members.map fun member => if member.1 = key then (key, value) else member

theorem keys_replace (members : List (K × V)) (key : K) (value : V) :
    (replace members key value).map Prod.fst = members.map Prod.fst := by
  unfold replace
  rw [map_map]
  apply map_congr_left
  intro member _
  by_cases hkey : member.1 = key <;> simp [hkey]

theorem replace_of_notMem (h : key ∉ members.map Prod.fst) : replace members key value = members := by
  unfold replace
  conv_rhs => rw [← map_id members]
  apply map_congr_left
  intro member hmember
  have hkey : member.1 ≠ key := fun heq => h (heq ▸ mem_map_of_mem hmember)
  rw [if_neg hkey, id]

theorem define_of_mem (h : key ∈ members.map Prod.fst) :
    define rank members key value = replace members key value := if_pos h

theorem define_of_notMem (h : key ∉ members.map Prod.fst) :
    define rank members key value = place rank (key, value) members := if_neg h

theorem ordered_define (h : Ordered rank members) (key : K) (value : V) :
    Ordered rank (define rank members key value) := by
  by_cases hmem : key ∈ members.map Prod.fst
  · rw [define_of_mem hmem]
    exact h.congr (keys_replace members key value)
  · rw [define_of_notMem hmem]
    refine ⟨pairwise_place h.ranks, ?_⟩
    have hperm : ((place rank (key, value) members).map Prod.fst).Perm
        (key :: members.map Prod.fst) := place_perm.map _
    rw [hperm.nodup_iff]
    exact nodup_cons.mpr ⟨hmem, h.distinct⟩

theorem mem_define (h : member ∈ define rank members key value) :
    member ∈ members ∨ member = (key, value) := by
  by_cases hmem : key ∈ members.map Prod.fst
  · rw [define_of_mem hmem] at h
    obtain ⟨old, hold, rfl⟩ := mem_map.mp h
    split_ifs with hkey
    · exact .inr rfl
    · exact .inl hold
  · rw [define_of_notMem hmem] at h
    rcases mem_cons.mp (place_perm.mem_iff.mp h) with rfl | hmember
    · exact .inr rfl
    · exact .inl hmember

theorem ordered_defineAll (h : Ordered rank members) (entries : List (K × V)) :
    Ordered rank (defineAll rank members entries) := by
  induction entries generalizing members with
  | nil => exact h
  | cons entry rest ih => exact ih (ordered_define h entry.1 entry.2)

theorem mem_defineAll (h : member ∈ defineAll rank members entries) :
    member ∈ members ∨ member ∈ entries := by
  induction entries generalizing members with
  | nil => exact .inl h
  | cons entry rest ih =>
    rcases ih h with hdefined | hrest
    · rcases mem_define hdefined with hmem | rfl
      · exact .inl hmem
      · exact .inr mem_cons_self
    · exact .inr (mem_cons_of_mem _ hrest)

/-- Properties that are in order behind those of an object are appended to it. -/
theorem defineAll_ordered (h : Ordered rank (members ++ entries)) :
    defineAll rank members entries = members ++ entries := by
  induction entries generalizing members with
  | nil => exact (append_nil members).symm
  | cons entry rest ih =>
    have hsplit : members ++ entry :: rest = (members ++ [entry]) ++ rest := by simp
    have hnew : entry.1 ∉ members.map Prod.fst := by
      have hdistinct := h.distinct
      rw [map_append, map_cons, nodup_append] at hdistinct
      intro hmem
      exact hdistinct.2.2 _ hmem _ mem_cons_self rfl
    have hbefore : ∀ other ∈ members, rank other.1 ≤ rank entry.1 := by
      intro other hother
      exact (pairwise_append.mp h.ranks).2.2 other hother entry mem_cons_self
    have hstep : define rank members entry.1 entry.2 = members ++ [entry] := by
      rw [define_of_notMem hnew, place_last hbefore]
    unfold defineAll at ih ⊢
    rw [foldl_cons, hstep, ih (by rwa [← hsplit]), hsplit]

theorem filter_replace (keep : K → Bool) (members : List (K × V)) (key : K) (value : V) :
    (replace members key value).filter (fun entry => keep entry.1) =
      replace (members.filter fun entry => keep entry.1) key value := by
  unfold replace
  rw [filter_map]
  congr 1
  apply filter_congr
  intro member _
  by_cases hkey : member.1 = key <;> simp [hkey]

/-- To define a property of a kept key, and to keep some keys, may be done in either order. -/
theorem filter_define (h : Ordered rank members) (hkeep : keep key = true) :
    (define rank members key value).filter (fun entry => keep entry.1) =
      define rank (members.filter fun entry => keep entry.1) key value := by
  have hkeys : key ∈ (members.filter fun entry => keep entry.1).map Prod.fst ↔
      key ∈ members.map Prod.fst := by
    simp only [mem_map, mem_filter]
    constructor
    · rintro ⟨member, ⟨hmem, -⟩, hkey⟩
      exact ⟨member, hmem, hkey⟩
    · rintro ⟨member, hmem, rfl⟩
      exact ⟨member, ⟨hmem, hkeep⟩, rfl⟩
  by_cases hmem : key ∈ members.map Prod.fst
  · rw [define_of_mem hmem, define_of_mem (hkeys.mpr hmem), filter_replace]
  · rw [define_of_notMem hmem, define_of_notMem (fun hkept => hmem (hkeys.mp hkept)),
      filter_place h.ranks hkeep]

theorem filter_define_of_not (hkeep : keep key = false) :
    (define rank members key value).filter (fun entry => keep entry.1) =
      members.filter fun entry => keep entry.1 := by
  by_cases hmem : key ∈ members.map Prod.fst
  · rw [define_of_mem hmem, filter_replace, replace_of_notMem]
    intro hkept
    obtain ⟨member, hmember, hkey⟩ := mem_map.mp hkept
    have htrue : keep member.1 = true := (mem_filter.mp hmember).2
    rw [hkey, hkeep] at htrue
    exact Bool.false_ne_true htrue
  · rw [define_of_notMem hmem, filter_place_of_not hkeep]

theorem filter_defineAll (h : Ordered rank members)
    (hkeep : ∀ entry ∈ entries, keep entry.1 = true) :
    (defineAll rank members entries).filter (fun entry => keep entry.1) =
      defineAll rank (members.filter fun entry => keep entry.1) entries := by
  induction entries generalizing members with
  | nil => rfl
  | cons entry rest ih =>
    obtain ⟨hentry, hrest⟩ := forall_mem_cons.mp hkeep
    unfold defineAll at ih ⊢
    rw [foldl_cons, foldl_cons, ih (ordered_define h entry.1 entry.2) hrest,
      filter_define h hentry]

theorem filter_defineAll_of_not (hkeep : ∀ entry ∈ entries, keep entry.1 = false) :
    (defineAll rank members entries).filter (fun entry => keep entry.1) =
      members.filter fun entry => keep entry.1 := by
  induction entries generalizing members with
  | nil => rfl
  | cons entry rest ih =>
    obtain ⟨hentry, hrest⟩ := forall_mem_cons.mp hkeep
    unfold defineAll at ih ⊢
    rw [foldl_cons, ih hrest, filter_define_of_not hentry]

end Havemind.PropertyOrder
