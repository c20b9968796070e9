import Mathlib.Data.List.Basic
import Mathlib.Data.List.Nodup

/-!
Objects used as maps: own keys in the order they were first set, each once. The
operations are those of the language, an assignment, a deletion, a spread of one
object over another and a rebuild from some of the entries, each with what a
later read returns.
-/
namespace Havemind

open List Option

structure JsObject (K V : Type*) where
  entries : List (K × V)
  keys_nodup : (entries.map Prod.fst).Nodup

variable {K V W : Type*}

namespace JsObject

@[ext] theorem ext {a b : JsObject K V} (h : a.entries = b.entries) : a = b := by
  cases a
  cases b
  simpa using h

instance [DecidableEq K] [DecidableEq V] : DecidableEq (JsObject K V) := fun a b =>
  decidable_of_iff (a.entries = b.entries) ⟨ext, fun h => h ▸ rfl⟩

def empty : JsObject K V := ⟨[], nodup_nil⟩

instance : EmptyCollection (JsObject K V) := ⟨empty⟩

def keys (object : JsObject K V) : List K := object.entries.map Prod.fst

def values (object : JsObject K V) : List V := object.entries.map Prod.snd

/-- The object of the entries that pass, in their order. -/
def filterEntries (object : JsObject K V) (keep : K × V → Bool) : JsObject K V where
  entries := object.entries.filter keep
  keys_nodup := object.keys_nodup.sublist (filter_sublist.map _)

/-- Every value under its key, changed. -/
def mapValues (object : JsObject K V) (f : K → V → W) : JsObject K W where
  entries := object.entries.map fun entry => (entry.1, f entry.1 entry.2)
  keys_nodup := by
    rw [List.map_map]
    exact object.keys_nodup

section
variable [DecidableEq K]

def get (object : JsObject K V) (key : K) : Option V :=
  (object.entries.find? fun entry => entry.1 = key).map Prod.snd

/-- A key that is there keeps its place, a new one comes last. -/
def set (object : JsObject K V) (key : K) (value : V) : JsObject K V :=
  if h : key ∈ object.entries.map Prod.fst then
    { entries := object.entries.map fun entry => if entry.1 = key then (key, value) else entry
      keys_nodup := by
        have hsame : (object.entries.map fun entry =>
            if entry.1 = key then (key, value) else entry).map Prod.fst =
            object.entries.map Prod.fst := by
          rw [List.map_map]
          apply map_congr_left
          intro entry _
          by_cases hkey : entry.1 = key <;> simp [hkey]
        rw [hsame]
        exact object.keys_nodup }
  else
    { entries := object.entries ++ [(key, value)]
      keys_nodup := by
        rw [map_append]
        exact object.keys_nodup.append (nodup_singleton _) (by simpa using h) }

def erase (object : JsObject K V) (key : K) : JsObject K V :=
  object.filterEntries fun entry => entry.1 ≠ key

/-- The entries of `other` set over those of `object`, as a spread writes them. -/
def assign (object other : JsObject K V) : JsObject K V :=
  other.entries.foldl (fun object entry => object.set entry.1 entry.2) object

end

section
variable [DecidableEq K] {object other : JsObject K V} {key : K} {value : V}

theorem get_eq_some : object.get key = some value ↔ (key, value) ∈ object.entries := by
  unfold get
  constructor
  · intro h
    obtain ⟨entry, hfind, rfl⟩ := map_eq_some_iff.mp h
    have hkey : entry.1 = key := of_decide_eq_true (List.find?_some hfind :)
    rw [← hkey]
    exact mem_of_find?_eq_some hfind
  · intro hmem
    cases hfind : object.entries.find? fun entry => entry.1 = key with
    | none => exact absurd (decide_eq_true rfl) (List.find?_eq_none.mp hfind _ hmem)
    | some entry =>
      have hkey : entry.1 = key := of_decide_eq_true (List.find?_some hfind :)
      have hentry := mem_of_find?_eq_some hfind
      have hsame : entry = (key, value) :=
        inj_on_of_nodup_map object.keys_nodup hentry hmem hkey
      rw [hsame]
      rfl

theorem get_eq_none : object.get key = none ↔ key ∉ object.keys := by
  unfold get keys
  rw [map_eq_none_iff, List.find?_eq_none, List.mem_map]
  constructor
  · rintro h ⟨entry, hmem, hkey⟩
    exact h entry hmem (decide_eq_true hkey)
  · intro h entry hmem hkey
    exact h ⟨entry, hmem, of_decide_eq_true hkey⟩

theorem mem_values : value ∈ object.values ↔ ∃ key, object.get key = some value := by
  unfold values
  constructor
  · intro h
    obtain ⟨entry, hmem, rfl⟩ := List.mem_map.mp h
    exact ⟨entry.1, get_eq_some.mpr hmem⟩
  · rintro ⟨key, hget⟩
    exact List.mem_map.mpr ⟨(key, value), get_eq_some.mp hget, rfl⟩

theorem mem_set {entry : K × V} : entry ∈ (object.set key value).entries ↔
    entry = (key, value) ∨ (entry ∈ object.entries ∧ entry.1 ≠ key) := by
  unfold set
  split_ifs with hkey
  · simp only [List.mem_map]
    constructor
    · rintro ⟨old, hmem, rfl⟩
      by_cases h : old.1 = key
      · rw [if_pos h]
        exact .inl rfl
      · rw [if_neg h]
        exact .inr ⟨hmem, h⟩
    · rintro (rfl | ⟨hmem, hne⟩)
      · obtain ⟨old, hmem, rfl⟩ := List.mem_map.mp hkey
        exact ⟨old, hmem, if_pos rfl⟩
      · exact ⟨entry, hmem, if_neg hne⟩
  · rw [mem_append, mem_singleton]
    constructor
    · rintro (hmem | rfl)
      · exact .inr ⟨hmem, fun h => hkey (h ▸ mem_map_of_mem hmem)⟩
      · exact .inl rfl
    · rintro (rfl | ⟨hmem, -⟩)
      · exact .inr rfl
      · exact .inl hmem

theorem get_set (object : JsObject K V) (key other : K) (value : V) :
    (object.set key value).get other = if other = key then some value else object.get other := by
  apply Option.ext
  intro found
  rw [get_eq_some, mem_set, Prod.mk.injEq]
  split_ifs with h
  · simp [h, eq_comm]
  · simp [h, get_eq_some]

theorem get_filterEntries (object : JsObject K V) (keep : K × V → Bool) (key : K) :
    (object.filterEntries keep).get key = (object.get key).filter fun value => keep (key, value) := by
  apply Option.ext
  intro found
  rw [get_eq_some, filter_eq_some_iff, get_eq_some]
  exact mem_filter

theorem get_erase (object : JsObject K V) (key other : K) :
    (object.erase key).get other = if other = key then none else object.get other := by
  unfold erase
  rw [get_filterEntries]
  apply Option.ext
  intro found
  rw [filter_eq_some_iff]
  split_ifs with h <;> simp [h]

theorem erase_of_get_none (h : object.get key = none) : object.erase key = object := by
  apply ext
  refine filter_eq_self.mpr fun entry hmem => decide_eq_true ?_
  rintro rfl
  exact get_eq_none.mp h (mem_map_of_mem hmem)

theorem get_mapValues (object : JsObject K V) (f : K → V → W) (key : K) :
    (object.mapValues f).get key = (object.get key).map (f key) := by
  apply Option.ext
  intro found
  rw [get_eq_some, map_eq_some_iff]
  simp only [mapValues, List.mem_map, Prod.mk.injEq, get_eq_some]
  constructor
  · rintro ⟨entry, hmem, rfl, rfl⟩
    exact ⟨entry.2, hmem, rfl⟩
  · rintro ⟨value, hmem, rfl⟩
    exact ⟨(key, value), hmem, rfl, rfl⟩

theorem get_assign (object other : JsObject K V) (key : K) :
    (object.assign other).get key = (other.get key).or (object.get key) := by
  obtain ⟨entries, hnodup⟩ := other
  unfold assign
  induction entries generalizing object with
  | nil => rfl
  | cons entry rest ih =>
    have hrest : (rest.map Prod.fst).Nodup := (nodup_cons.mp hnodup).2
    have hfresh : entry.1 ∉ rest.map Prod.fst := (nodup_cons.mp hnodup).1
    rw [foldl_cons, ih (object.set entry.1 entry.2) hrest, get_set]
    by_cases h : entry.1 = key
    · have hnone : (⟨rest, hrest⟩ : JsObject K V).get key = none :=
        get_eq_none.mpr (h ▸ hfresh)
      rw [hnone, if_pos h.symm]
      simp [get, h]
    · rw [if_neg (Ne.symm h)]
      congr 1
      simp [get, h]

end

end JsObject

end Havemind
