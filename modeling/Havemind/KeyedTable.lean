import Mathlib.Data.List.Nodup
import Mathlib.Tactic.Common

/-!
Tables as lists of rows with a key. An update rewrites the rows that match; an
update that keeps the key, a deletion and an insertion under a free key leave
the keys distinct.
-/
namespace Havemind.KeyedTable

open List

variable {α β : Type} {rows : List α} {row : α}

/-- The rows after an update of those that match. -/
def updateWhere (hit : α → Bool) (update : α → α) (rows : List α) : List α :=
  rows.map fun row => if hit row then update row else row

def Keyed (key : α → β) (rows : List α) : Prop := (rows.map key).Nodup

theorem nodup_eraseDups {α : Type*} [BEq α] [LawfulBEq α] (l : List α) : l.eraseDups.Nodup := by
  match l with
  | [] => exact nodup_nil
  | a :: rest =>
    rw [eraseDups_cons]
    refine nodup_cons.mpr ⟨?_, nodup_eraseDups _⟩
    rw [mem_eraseDups, mem_filter]
    rintro ⟨-, hne⟩
    simp at hne
termination_by l.length
decreasing_by exact Nat.lt_succ_of_le (length_filter_le _ _)

section
variable {hit : α → Bool} {update : α → α} {P : α → Prop}

theorem mem_updateWhere : row ∈ updateWhere hit update rows ↔
    (row ∈ rows ∧ hit row = false) ∨ ∃ stored ∈ rows, hit stored = true ∧ update stored = row := by
  unfold updateWhere
  rw [mem_map]
  constructor
  · intro h
    obtain ⟨stored, hstored, heq⟩ := h
    cases hmatch : hit stored with
    | false =>
      rw [hmatch, if_neg (by simp)] at heq
      exact .inl ⟨heq ▸ hstored, heq ▸ hmatch⟩
    | true =>
      rw [hmatch, if_pos rfl] at heq
      exact .inr ⟨stored, hstored, hmatch, heq⟩
  · intro h
    rcases h with ⟨hrow, hmatch⟩ | ⟨stored, hstored, hmatch, heq⟩
    · exact ⟨row, hrow, by rw [hmatch, if_neg (by simp)]⟩
    · exact ⟨stored, hstored, by rw [hmatch, if_pos rfl, heq]⟩

/-- Every row of the updated table is a stored row, as it was or updated. -/
theorem of_mem_updateWhere (h : row ∈ updateWhere hit update rows) :
    ∃ stored ∈ rows, row = stored ∨ hit stored = true ∧ row = update stored := by
  rcases mem_updateWhere.mp h with ⟨hrow, _⟩ | ⟨stored, hstored, hhit, heq⟩
  · exact ⟨row, hrow, .inl rfl⟩
  · exact ⟨stored, hstored, .inr ⟨hhit, heq.symm⟩⟩

/-- Every stored row is in the updated table, as it was or updated. -/
theorem mem_updateWhere_of (h : row ∈ rows) :
    ∃ stored ∈ updateWhere hit update rows, stored = row ∨ stored = update row := by
  cases hmatch : hit row with
  | false => exact ⟨row, mem_updateWhere.mpr (.inl ⟨h, hmatch⟩), .inl rfl⟩
  | true => exact ⟨update row, mem_updateWhere.mpr (.inr ⟨row, h, hmatch, rfl⟩), .inr rfl⟩

/-- What an update keeps of every row it meets holds of every row afterwards. -/
theorem forall_updateWhere (h : ∀ row ∈ rows, P row) (hkeep : ∀ row, P row → P (update row)) :
    ∀ row ∈ updateWhere hit update rows, P row := by
  intro row hrow
  obtain ⟨stored, hstored, rfl | ⟨-, rfl⟩⟩ := of_mem_updateWhere hrow
  · exact h row hstored
  · exact hkeep stored (h stored hstored)

theorem forall_of_forall_updateWhere (h : ∀ row ∈ updateWhere hit update rows, P row)
    (hback : ∀ row, P (update row) → P row) : ∀ row ∈ rows, P row := by
  intro row hrow
  obtain ⟨stored, hstored, rfl | rfl⟩ := @mem_updateWhere_of α rows row hit update hrow
  · exact h stored hstored
  · exact hback row (h _ hstored)

theorem exists_updateWhere (h : ∃ row ∈ rows, P row) (hkeep : ∀ row, P row → P (update row)) :
    ∃ row ∈ updateWhere hit update rows, P row := by
  obtain ⟨row, hrow, hP⟩ := h
  obtain ⟨stored, hstored, rfl | rfl⟩ := @mem_updateWhere_of α rows row hit update hrow
  · exact ⟨stored, hstored, hP⟩
  · exact ⟨_, hstored, hkeep row hP⟩

theorem map_updateWhere {key : α → β} (h : ∀ row, key (update row) = key row) :
    (updateWhere hit update rows).map key = rows.map key := by
  unfold updateWhere
  rw [map_map]
  apply map_congr_left
  intro row _
  by_cases hhit : hit row = true
  · simp [hhit, h]
  · simp [hhit]

/-- An update out of the sight of a filter. -/
theorem filter_updateWhere {keep : α → Bool} (h : ∀ row, hit row = true → keep row = false)
    (hupdate : ∀ row, hit row = true → keep (update row) = false) :
    (updateWhere hit update rows).filter keep = rows.filter keep := by
  unfold updateWhere
  induction rows with
  | nil => rfl
  | cons row rest ih =>
    rw [map_cons]
    by_cases hhit : hit row = true
    · rw [if_pos hhit, filter_cons_of_neg (by simp [hupdate row hhit]),
        filter_cons_of_neg (by simp [h row hhit]), ih]
    · rw [if_neg hhit, filter_cons, filter_cons, ih]

end
variable {P : α → Prop}

/-- Tables that agree under a filter agree under a finer one. -/
theorem filter_eq_of_imp {rows' : List α} {keep finer : α → Bool}
    (himp : ∀ row, finer row = true → keep row = true) (h : rows.filter keep = rows'.filter keep) :
    rows.filter finer = rows'.filter finer := by
  have hfiner : ∀ table : List α, (table.filter keep).filter finer = table.filter finer := by
    intro table
    rw [filter_filter]
    refine filter_congr fun row _ => ?_
    by_cases hrow : finer row = true
    · simp [hrow, himp row hrow]
    · simp [hrow]
  rw [← hfiner rows, h, hfiner rows']

theorem forall_concat (h : ∀ stored ∈ rows, P stored) (hrow : P row) :
    ∀ stored ∈ rows ++ [row], P stored := by
  intro stored hstored
  rcases mem_append.mp hstored with hstored | hstored
  · exact h stored hstored
  · exact mem_singleton.mp hstored ▸ hrow

theorem exists_concat (h : ∃ stored ∈ rows, P stored) : ∃ stored ∈ rows ++ [row], P stored := by
  obtain ⟨stored, hstored, hP⟩ := h
  exact ⟨stored, mem_append_left _ hstored, hP⟩

namespace Keyed
variable {key : α → β}

variable (h : Keyed key rows)
include h

theorem eq {a b : α} (ha : a ∈ rows) (hb : b ∈ rows) (hkey : key a = key b) :
    a = b := inj_on_of_nodup_map h ha hb hkey

theorem updateWhere {hit : α → Bool} {update : α → α} (hkey : ∀ row, key (update row) = key row) :
    Keyed key (KeyedTable.updateWhere hit update rows) := by
  unfold Keyed
  rw [map_updateWhere hkey]
  exact h

theorem filter (keep : α → Bool) : Keyed key (rows.filter keep) :=
  List.Nodup.sublist (filter_sublist.map key) h

theorem concat (hfree : ∀ stored ∈ rows, key stored ≠ key row) : Keyed key (rows ++ [row]) := by
  unfold Keyed
  rw [map_append, map_singleton]
  refine nodup_append.mpr ⟨h, nodup_singleton _, ?_⟩
  intro a ha b hb
  obtain ⟨stored, hstored, rfl⟩ := mem_map.mp ha
  rw [mem_singleton.mp hb]
  exact hfree stored hstored

end Keyed
variable {key : α → β} {k : β}

/-- An update that hits one row only. -/
theorem mem_updateWhere_one {hit : α → Bool} {update : α → α} {target : α} (htarget : target ∈ rows)
    (hhit : ∀ stored ∈ rows, hit stored = true ↔ stored = target) :
    row ∈ updateWhere hit update rows ↔ (row ∈ rows ∧ row ≠ target) ∨ row = update target := by
  rw [mem_updateWhere]
  constructor
  · intro h
    rcases h with ⟨hrow, hmiss⟩ | ⟨stored, hstored, hmatch, heq⟩
    · exact .inl ⟨hrow, fun heq => by simp [(hhit row hrow).mpr heq] at hmiss⟩
    · exact .inr (heq ▸ congrArg update ((hhit stored hstored).mp hmatch))
  · intro h
    rcases h with ⟨hrow, hne⟩ | heq
    · exact .inl ⟨hrow, Bool.eq_false_iff.mpr fun hmatch => hne ((hhit row hrow).mp hmatch)⟩
    · exact .inr ⟨target, htarget, (hhit target htarget).mpr rfl, heq.symm⟩

/-- The first row under a key is a row under it. -/
theorem find?_key [DecidableEq β] (h : rows.find? (fun row => key row = k) = some row) :
    row ∈ rows ∧ key row = k :=
  ⟨mem_of_find?_eq_some h, by simpa using List.find?_some h⟩

/-- Looking up a key that one row has finds that row. -/
theorem Keyed.find? [DecidableEq β] (h : Keyed key rows) (hrow : row ∈ rows) (hkey : key row = k) :
    rows.find? (fun row => key row = k) = some row := by
  cases hfind : rows.find? fun row => decide (key row = k) with
  | none =>
    have hmiss := List.find?_eq_none.mp hfind row hrow
    exact absurd (decide_eq_true hkey) hmiss
  | some found =>
    obtain ⟨hfound, hfoundKey⟩ := find?_key hfind
    rw [h.eq hrow hfound (hkey.trans hfoundKey.symm)]

theorem Keyed.nodup (h : Keyed key rows) : rows.Nodup := List.Nodup.of_map key h

/-- A table without duplicates in which any two rows are one has at most one. -/
theorem length_le_one (hnodup : rows.Nodup) (h : ∀ a ∈ rows, ∀ b ∈ rows, a = b) :
    rows.length ≤ 1 := by
  match rows, hnodup with
  | [], _ => exact Nat.zero_le _
  | [_], _ => exact Nat.le_refl _
  | a :: b :: rest, hnodup =>
    have hb : b ∈ a :: b :: rest := mem_cons_of_mem _ mem_cons_self
    rw [h a mem_cons_self b hb] at hnodup
    exact absurd mem_cons_self (nodup_cons.mp hnodup).1

end Havemind.KeyedTable
