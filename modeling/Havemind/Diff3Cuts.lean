import Havemind.Diff3
import Mathlib.Tactic.Ring

/-!
Cut positions of a diff. A cut of the ancestor that is strictly inside no hunk
corresponds to the variant positions `variantStart` and `variantEnd`, which
differ only by an insertion at the cut. These positions are monotone, the lines
between two cuts with no hunk between them are copied, and a hunk's own cuts
are its replacement's ends.
-/
namespace Havemind.Diff3Cuts

open JsText LineDiff Diff3 List

def Free (hunks : List Hunk) (p : ℕ) : Prop :=
  ∀ h ∈ hunks, p ≤ h.oStart ∨ h.oStart + h.oLength ≤ p

@[simp] theorem variantStart_nil (p : ℕ) : variantStart [] p = p := by
  simp [variantStart]

@[simp] theorem variantEnd_nil (p : ℕ) : variantEnd [] p = p := by
  simp [variantEnd]

theorem variantStart_cons (h : Hunk) (hunks : List Hunk) (p : ℕ) :
    variantStart (h :: hunks) p = variantStart hunks p +
      if h.oStart + h.oLength ≤ p ∧ h.oStart < p then (h.abLength : ℤ) - h.oLength else 0 := by
  simp only [variantStart, map_cons, sum_cons]
  ring

theorem variantEnd_cons (h : Hunk) (hunks : List Hunk) (p : ℕ) :
    variantEnd (h :: hunks) p = variantEnd hunks p +
      if h.oStart + h.oLength ≤ p then (h.abLength : ℤ) - h.oLength else 0 := by
  simp only [variantEnd, map_cons, sum_cons]
  ring

theorem variantStart_of_le (hunks : List Hunk) (p : ℕ) (h : ∀ k ∈ hunks, p ≤ k.oStart) :
    variantStart hunks p = p := by
  induction hunks with
  | nil => simp
  | cons k rest ih =>
    have hk := h k (mem_cons_self ..)
    rw [variantStart_cons, ih fun q hq => h q (mem_cons_of_mem _ hq), if_neg (by omega)]
    simp

theorem variantEnd_of_lt (hunks : List Hunk) (p : ℕ) (h : ∀ k ∈ hunks, p < k.oStart + k.oLength) :
    variantEnd hunks p = p := by
  induction hunks with
  | nil => simp
  | cons k rest ih =>
    have hk := h k (mem_cons_self ..)
    rw [variantEnd_cons, ih fun q hq => h q (mem_cons_of_mem _ hq), if_neg (by omega)]
    simp

theorem hunksFrom_cons (i j : ℕ) (m : Match) (rest : List Match) :
    hunksFrom i j (m :: rest) = (if m.x - i > 0 ∨ m.y - j > 0 then
      [⟨i, m.x - i, j, m.y - j⟩] else []) ++ hunksFrom (m.x + 1) (m.y + 1) rest := by
  rw [hunksFrom]
  split <;> simp [*]

/-- `variantStart` seen from the cursors `i` and `j`. -/
def startFrom (i j : ℕ) (bs : List Match) (p : ℕ) : ℤ := variantStart (hunksFrom i j bs) p + j - i

def endFrom (i j : ℕ) (bs : List Match) (p : ℕ) : ℤ := variantEnd (hunksFrom i j bs) p + j - i

variable {α : Type*} {o v : List α}

theorem oStart_ge {i j : ℕ} {bs : List Match} (hb : BoundariesFrom o v i j bs) :
    ∀ h ∈ hunksFrom i j bs, i ≤ h.oStart := by
  induction hb with
  | last hi hj =>
    intro h hmem
    rw [hunksFrom_cons] at hmem
    split at hmem <;> simp [hunksFrom] at hmem
    simp [hmem]
  | @step i j m rest line hx hy ho hv tail ih =>
    intro h hmem
    rw [hunksFrom_cons] at hmem
    rcases mem_append.mp hmem with hhead | hrest
    · split at hhead <;> simp at hhead
      simp [hhead]
    · have := ih h hrest
      omega

theorem oEnd_le {i j : ℕ} {bs : List Match} (hb : BoundariesFrom o v i j bs) :
    ∀ h ∈ hunksFrom i j bs, h.oStart + h.oLength ≤ o.length := by
  induction hb with
  | last hi hj =>
    intro h hmem
    rw [hunksFrom_cons] at hmem
    split at hmem <;> simp [hunksFrom] at hmem
    simp only [hmem]
    omega
  | @step i j m rest line hx hy ho hv tail ih =>
    intro h hmem
    rw [hunksFrom_cons] at hmem
    rcases mem_append.mp hmem with hhead | hrest
    · have hlt := (List.getElem?_eq_some_iff.mp ho).1
      split at hhead <;> simp at hhead
      simp only [hhead]
      omega
    · exact ih h hrest


theorem free_of_free_cons {i j : ℕ} {m : Match} {rest : List Match} {p : ℕ}
    (h : Free (hunksFrom i j (m :: rest)) p) : Free (hunksFrom (m.x + 1) (m.y + 1) rest) p := by
  intro k hk
  apply h k
  rw [hunksFrom_cons]
  exact mem_append_right _ hk

theorem head_free {i j : ℕ} {m : Match} {rest : List Match} {p : ℕ} (hi : i ≤ m.x)
    (h : Free (hunksFrom i j (m :: rest)) p) : p ≤ i ∨ m.x ≤ p := by
  by_cases hempty : m.x - i > 0 ∨ m.y - j > 0
  · have hhead := h ⟨i, m.x - i, j, m.y - j⟩ (by
      rw [hunksFrom_cons, if_pos hempty]
      exact mem_append_left _ (mem_singleton_self _))
    simp only at hhead
    omega
  · omega

section
variable {i j : ℕ} {m : Match} {rest : List Match} {p : ℕ}

theorem startFrom_cons (hi : i ≤ m.x) (hj : j ≤ m.y) :
    startFrom i j (m :: rest) p = startFrom (m.x + 1) (m.y + 1) rest p +
      (if m.x ≤ p ∧ i < p then 0 else (m.x : ℤ) - i - (m.y - j)) := by
  unfold startFrom
  rw [hunksFrom_cons]
  split
  · rw [singleton_append, variantStart_cons]
    simp only [show i + (m.x - i) = m.x by omega]
    push_cast [Nat.cast_sub hi, Nat.cast_sub hj]
    split <;> omega
  · simp only [nil_append]
    push_cast
    split <;> omega

theorem endFrom_cons (hi : i ≤ m.x) (hj : j ≤ m.y) :
    endFrom i j (m :: rest) p = endFrom (m.x + 1) (m.y + 1) rest p +
      (if m.x ≤ p then 0 else (m.x : ℤ) - i - (m.y - j)) := by
  unfold endFrom
  rw [hunksFrom_cons]
  split
  · rw [singleton_append, variantEnd_cons]
    simp only [show i + (m.x - i) = m.x by omega]
    push_cast [Nat.cast_sub hi, Nat.cast_sub hj]
    split <;> omega
  · simp only [nil_append]
    push_cast
    split <;> omega

theorem startFrom_of_lt (hi : i ≤ m.x) (hj : j ≤ m.y) (hp : m.x < p) :
    startFrom i j (m :: rest) p = startFrom (m.x + 1) (m.y + 1) rest p := by
  rw [startFrom_cons hi hj, if_pos (by omega)]
  simp

theorem endFrom_of_lt (hi : i ≤ m.x) (hj : j ≤ m.y) (hp : m.x < p) :
    endFrom i j (m :: rest) p = endFrom (m.x + 1) (m.y + 1) rest p := by
  rw [endFrom_cons hi hj, if_pos (by omega)]
  simp

end

section
variable {i j : ℕ} {m : Match} {rest : List Match} {p : ℕ}

/-- Before the first match the start cut is the cursor or the match itself. -/
theorem startFrom_of_le (hi : i ≤ m.x) (hj : j ≤ m.y)
    (hrest : ∀ h ∈ hunksFrom (m.x + 1) (m.y + 1) rest, m.x + 1 ≤ h.oStart)
    (hip : i ≤ p) (hpm : p ≤ m.x) (hfree : p ≤ i ∨ m.x ≤ p) :
    startFrom i j (m :: rest) p = if i < p then (m.y : ℤ) else j := by
  rw [startFrom_cons hi hj]
  unfold startFrom
  rw [variantStart_of_le _ p fun k hk => by have := hrest k hk; omega]
  push_cast
  split <;> split <;> omega

theorem endFrom_of_le (hi : i ≤ m.x) (hj : j ≤ m.y)
    (hrest : ∀ h ∈ hunksFrom (m.x + 1) (m.y + 1) rest, m.x + 1 ≤ h.oStart)
    (hip : i ≤ p) (hpm : p ≤ m.x) (hfree : p ≤ i ∨ m.x ≤ p) :
    endFrom i j (m :: rest) p = if m.x ≤ p then (m.y : ℤ) else j := by
  rw [endFrom_cons hi hj]
  unfold endFrom
  rw [variantEnd_of_lt _ p fun k hk => by have := hrest k hk; omega]
  push_cast
  split <;> omega

end
variable {i j p : ℕ} {bs : List Match} {q : ℕ} {h : Hunk} {hunks : List Hunk}

/-- The cut positions stay between the variant's cursor and its end. -/
theorem cut_bounds (hb : BoundariesFrom o v i j bs) (hip : i ≤ p) (hp : p ≤ o.length)
    (hfree : Free (hunksFrom i j bs) p) :
    (j : ℤ) ≤ startFrom i j bs p ∧ startFrom i j bs p ≤ endFrom i j bs p ∧
      endFrom i j bs p ≤ v.length := by
  induction hb with
  | @last i j hi hj =>
    have hcut := head_free hi hfree
    rw [startFrom_of_le hi hj (by simp [hunksFrom]) hip hp hcut,
      endFrom_of_le hi hj (by simp [hunksFrom]) hip hp hcut]
    split <;> split <;> simp only at * <;> omega
  | @step i j m rest line hx hy ho hv tail ih =>
    have hm := (List.getElem?_eq_some_iff.mp hv).1
    by_cases hpm : p ≤ m.x
    · have hcut := head_free hx hfree
      rw [startFrom_of_le hx hy (oStart_ge tail) hip hpm hcut,
        endFrom_of_le hx hy (oStart_ge tail) hip hpm hcut]
      split <;> split <;> omega
    · have hbound := ih (by omega) (free_of_free_cons hfree)
      rw [startFrom_of_lt hx hy (by omega), endFrom_of_lt hx hy (by omega)]
      omega

/-- Cut positions are monotone. -/
theorem end_le_start (hb : BoundariesFrom o v i j bs) (hip : i ≤ p) (hpq : p < q)
    (hq : q ≤ o.length) (hp : Free (hunksFrom i j bs) p) (hq' : Free (hunksFrom i j bs) q) :
    endFrom i j bs p ≤ startFrom i j bs q := by
  induction hb with
  | @last i j hi hj =>
    have hcutp := head_free hi hp
    have hcutq := head_free hi hq'
    rw [startFrom_of_le hi hj (by simp [hunksFrom]) (by omega) hq hcutq,
      endFrom_of_le hi hj (by simp [hunksFrom]) hip (by simp only; omega) hcutp]
    split <;> split <;> simp only at * <;> omega
  | @step i j m rest line hx hy ho hv tail ih =>
    have hcutp := head_free hx hp
    have hcutq := head_free hx hq'
    by_cases hpm : p ≤ m.x
    · rw [endFrom_of_le hx hy (oStart_ge tail) hip hpm hcutp]
      by_cases hqm : q ≤ m.x
      · rw [startFrom_of_le hx hy (oStart_ge tail) (by omega) hqm hcutq]
        split <;> split <;> omega
      · have hbound := (cut_bounds tail (p := q) (by omega) hq (free_of_free_cons hq')).1
        rw [startFrom_of_lt hx hy (by omega)]
        split <;> omega
    · rw [endFrom_of_lt hx hy (by omega), startFrom_of_lt hx hy (by omega)]
      exact ih (by omega) (free_of_free_cons hp) (free_of_free_cons hq')

/-- A line covered by no hunk is copied, from the end cut before it to the
start cut behind it. -/
theorem copied (hb : BoundariesFrom o v i j bs) (hiq : i ≤ q) (hq : q < o.length)
    (hkept : ∀ h ∈ hunksFrom i j bs, h.oStart + h.oLength ≤ q ∨ q < h.oStart) :
    ∃ y : ℕ, endFrom i j bs q = y ∧ startFrom i j bs (q + 1) = y + 1 ∧ v[y]? = o[q]? := by
  have hfree : ∀ {m : Match} {rest : List Match} {i j : ℕ}, i ≤ m.x → i ≤ q →
      (∀ h ∈ hunksFrom i j (m :: rest), h.oStart + h.oLength ≤ q ∨ q < h.oStart) → m.x ≤ q := by
    intro m rest i j hi hiq hkept
    by_contra hlt
    have hhead := hkept ⟨i, m.x - i, j, m.y - j⟩ (by
      rw [hunksFrom_cons, if_pos (by omega)]
      exact mem_append_left _ (mem_singleton_self _))
    simp only at hhead
    omega
  induction hb with
  | last hi hj =>
    have hge := hfree hi hiq hkept
    simp only at hge
    omega
  | @step i j m rest line hx hy ho hv tail ih =>
    have hge := hfree hx hiq hkept
    by_cases hqm : q = m.x
    · subst hqm
      refine ⟨m.y, ?_, ?_, hv.trans ho.symm⟩
      · rw [endFrom_of_le hx hy (oStart_ge tail) hiq (Nat.le_refl _) (Or.inr (Nat.le_refl _)),
          if_pos (Nat.le_refl _)]
      · rw [startFrom_of_lt hx hy (Nat.lt_succ_self _)]
        unfold startFrom
        rw [variantStart_of_le _ _ (oStart_ge tail)]
        push_cast
        omega
    · rw [endFrom_of_lt hx hy (by omega), startFrom_of_lt hx hy (by omega)]
      apply ih (by omega)
      intro h hh
      apply hkept h
      rw [hunksFrom_cons]
      exact mem_append_right _ hh

/-- A hunk's own cuts are the ends of its replacement. -/
theorem hunk_cuts (hb : BoundariesFrom o v i j bs) (hh : h ∈ hunksFrom i j bs) :
    startFrom i j bs h.oStart = h.abStart ∧
      endFrom i j bs (h.oStart + h.oLength) = h.abStart + h.abLength := by
  have hhead : ∀ (m : Match) (rest : List Match) {i j : ℕ}, i ≤ m.x → j ≤ m.y →
      (∀ k ∈ hunksFrom (m.x + 1) (m.y + 1) rest, m.x + 1 ≤ k.oStart) →
      startFrom i j (m :: rest) i = j ∧ endFrom i j (m :: rest) (i + (m.x - i)) = m.y := by
    intro m rest i j hi hj hrest
    constructor
    · rw [startFrom_of_le hi hj hrest (Nat.le_refl _) hi (Or.inl (Nat.le_refl _)),
        if_neg (Nat.lt_irrefl _)]
    · rw [endFrom_of_le hi hj hrest (by omega) (by omega) (Or.inr (by omega)), if_pos (by omega)]
  induction hb with
  | @last i j hi hj =>
    rw [hunksFrom_cons] at hh
    obtain ⟨hs, he⟩ := hhead ⟨o.length, v.length⟩ [] hi hj (by simp [hunksFrom])
    split at hh <;> simp [hunksFrom] at hh
    subst hh
    refine ⟨hs, he.trans ?_⟩
    push_cast [Nat.cast_sub hj]
    omega
  | @step i j m rest line hx hy ho hv tail ih =>
    rw [hunksFrom_cons] at hh
    rcases mem_append.mp hh with hfirst | hrest
    · obtain ⟨hs, he⟩ := hhead m rest hx hy (oStart_ge tail)
      split at hfirst <;> simp at hfirst
      subst hfirst
      refine ⟨hs, he.trans ?_⟩
      push_cast [Nat.cast_sub hy]
      omega
    · have hge := oStart_ge tail h hrest
      rw [startFrom_of_lt hx hy (by omega), endFrom_of_lt hx hy (by omega)]
      exact ih hrest

/-- At least one matched line separates two hunks. -/
theorem hunks_separated (hb : BoundariesFrom o v i j bs) :
    (hunksFrom i j bs).Pairwise fun h k => h.oStart + h.oLength < k.oStart := by
  induction hb with
  | last hi hj =>
    rw [hunksFrom_cons]
    split <;> simp [hunksFrom]
  | @step i j m rest line hx hy ho hv tail ih =>
    rw [hunksFrom_cons]
    split
    · rw [singleton_append]
      refine List.Pairwise.cons ?_ ih
      intro k hk
      have := oStart_ge tail k hk
      simp only
      omega
    · simpa using ih

theorem endFrom_length (hb : BoundariesFrom o v i j bs) : endFrom i j bs o.length = v.length := by
  induction hb with
  | @last i j hi hj =>
    rw [endFrom_of_le hi hj (by simp [hunksFrom]) hi (Nat.le_refl _) (Or.inr (Nat.le_refl _)),
      if_pos (Nat.le_refl _)]
  | @step i j m rest line hx hy ho hv tail ih =>
    rw [endFrom_of_lt hx hy (List.getElem?_eq_some_iff.mp ho).1, ih]

/-- What the merge uses of a diff: hunks inside the ancestor, separated by
matched lines, and cut positions that are bounded, monotone and copy every
line outside the hunks. -/
structure Aligned (o v : List α) (hunks : List Hunk) : Prop where
  inside : ∀ h ∈ hunks, h.oStart + h.oLength ≤ o.length
  separated : hunks.Pairwise fun h k => h.oStart + h.oLength < k.oStart
  bounds : ∀ p ≤ o.length, Free hunks p → 0 ≤ variantStart hunks p ∧
    variantStart hunks p ≤ variantEnd hunks p ∧ variantEnd hunks p ≤ v.length
  monotone : ∀ p q, p < q → q ≤ o.length → Free hunks p → Free hunks q →
    variantEnd hunks p ≤ variantStart hunks q
  copied : ∀ q < o.length, (∀ h ∈ hunks, h.oStart + h.oLength ≤ q ∨ q < h.oStart) →
    ∃ y : ℕ, variantEnd hunks q = y ∧ variantStart hunks (q + 1) = y + 1 ∧ v[y]? = o[q]?
  hunk_cuts : ∀ h ∈ hunks, variantStart hunks h.oStart = h.abStart ∧
    variantEnd hunks (h.oStart + h.oLength) = h.abStart + h.abLength
  end_length : variantEnd hunks o.length = v.length

theorem diffHunks_aligned [DecidableEq α] (o v : List α) : Aligned o v (diffHunks o v) := by
  have hb : BoundariesFrom o v 0 0 (lcsMatches o v ++ [⟨o.length, v.length⟩]) :=
    backtrace_boundaries o v _ _ 0 0 (Nat.zero_le _) (Nat.zero_le _)
  have hstart : ∀ p, variantStart (diffHunks o v) p =
      startFrom 0 0 (lcsMatches o v ++ [⟨o.length, v.length⟩]) p := by
    intro p
    simp [startFrom, diffHunks]
  have hend : ∀ p, variantEnd (diffHunks o v) p =
      endFrom 0 0 (lcsMatches o v ++ [⟨o.length, v.length⟩]) p := by
    intro p
    simp [endFrom, diffHunks]
  refine ⟨oEnd_le hb, hunks_separated hb, ?_, ?_, ?_, ?_, ?_⟩
  · intro p hp hfree
    rw [hstart, hend]
    exact cut_bounds hb (Nat.zero_le _) hp hfree
  · intro p q hpq hq hfp hfq
    rw [hstart, hend]
    exact end_le_start hb (Nat.zero_le _) hpq hq hfp hfq
  · intro q hq hkept
    rw [hstart, hend]
    exact copied hb (Nat.zero_le _) hq hkept
  · intro h hh
    rw [hstart, hend]
    exact hunk_cuts hb hh
  · rw [hend]
    exact endFrom_length hb

/-- The two cut positions agree where no insertion sits. -/
theorem variantStart_eq_variantEnd (hunks : List Hunk) (p : ℕ)
    (h : ∀ k ∈ hunks, k.oStart + k.oLength ≤ p → k.oStart < p) :
    variantStart hunks p = variantEnd hunks p := by
  induction hunks with
  | nil => simp
  | cons k rest ih =>
    have hk := h k (mem_cons_self ..)
    rw [variantStart_cons, variantEnd_cons, ih fun q hq => h q (mem_cons_of_mem _ hq)]
    congr 1
    by_cases hle : k.oStart + k.oLength ≤ p
    · rw [if_pos ⟨hle, hk hle⟩, if_pos hle]
    · rw [if_neg (fun hc => hle hc.1), if_neg hle]

theorem free_of_separated (hsep : hunks.Pairwise fun h k => h.oStart + h.oLength < k.oStart)
    (hh : h ∈ hunks) : Free hunks (h.oStart + h.oLength) := by
  intro k hk
  rcases pairwise_iff_get.mp hsep with hget
  obtain ⟨i, rfl⟩ := get_of_mem hh
  obtain ⟨n, rfl⟩ := get_of_mem hk
  rcases Nat.lt_trichotomy i n with hlt | heq | hgt
  · have := hget i n hlt
    omega
  · have : i = n := Fin.ext heq
    subst this
    omega
  · have := hget n i hgt
    omega

/-- The variant position of an ancestor cut, an insertion at the cut included. -/
def cutAt (hunks : List Hunk) (p : ℕ) : ℕ := (variantEnd hunks p).toNat

theorem cutAt_eq {n : ℕ} (h : variantEnd hunks p = n) : cutAt hunks p = n := by
  rw [cutAt, h, Int.toNat_natCast]

namespace Aligned

variable {hunks : List Hunk} (A : Aligned o v hunks) {p s : ℕ}
include A

theorem exists_cut (hp : p ≤ o.length) (hfree : Free hunks p) :
    ∃ s e : ℕ, variantStart hunks p = s ∧ variantEnd hunks p = e ∧ s ≤ e ∧ e ≤ v.length := by
  obtain ⟨h0, hle, hlen⟩ := A.bounds p hp hfree
  exact ⟨(variantStart hunks p).toNat, (variantEnd hunks p).toNat, by omega, by omega,
    by omega, by omega⟩

/-- The ancestor's lines between two cuts with no hunk in between are copied. -/
theorem gap {c : ℕ} (hcs : c < s) (hs : s ≤ o.length)
    (hout : ∀ h ∈ hunks, h.oStart + h.oLength ≤ c ∨ s ≤ h.oStart) :
    ∃ y : ℕ, variantEnd hunks c = y ∧ variantStart hunks s = (y + (s - c) : ℕ) ∧
      slice v y (y + (s - c) : ℕ) = slice o c s := by
  induction hn : s - c generalizing c with
  | zero => omega
  | succ n ih =>
    obtain ⟨y, hend, hstart, hline⟩ := A.copied c (by omega) fun h hh => by
      have := hout h hh
      omega
    have hoc : o[c]? = some o[c] := List.getElem?_eq_getElem (by omega)
    have hvy : v[y]? = some o[c] := hline.trans hoc
    refine ⟨y, hend, ?_⟩
    rw [slice_succ v hvy (by omega), slice_succ o hoc hcs]
    by_cases hnext : c + 1 = s
    · have hn0 : n = 0 := by omega
      subst hnext hn0
      refine ⟨by rw [hstart]; push_cast; omega, ?_⟩
      rw [slice_self, slice_self]
    · have hout' : ∀ h ∈ hunks, h.oStart + h.oLength ≤ c + 1 ∨ s ≤ h.oStart := by
        intro h hh
        have := hout h hh
        omega
      obtain ⟨y', hend', hstart', hslice⟩ := ih (c := c + 1) (by omega) hout' (by omega)
      have hsame : variantStart hunks (c + 1) = variantEnd hunks (c + 1) := by
        apply variantStart_eq_variantEnd
        intro k hk
        have := hout k hk
        omega
      have hy : y' = y + 1 := by omega
      subst hy
      rw [show y + (n + 1) = y + 1 + n by omega, hstart', hslice]
      exact ⟨rfl, rfl⟩

/-- A span that no hunk touches has the ancestor's lines. -/
theorem segmentFor_untouched {e : ℕ} (hse : s ≤ e) (he : e ≤ o.length)
    (hout : ∀ h ∈ hunks, h.oStart + h.oLength < s ∨ e < h.oStart) :
    segmentFor hunks v s e = slice o s e := by
  have hsame : ∀ p, s ≤ p → p ≤ e → variantStart hunks p = variantEnd hunks p := by
    intro p hsp hpe
    apply variantStart_eq_variantEnd
    intro k hk
    have := hout k hk
    omega
  unfold segmentFor
  rcases Nat.eq_or_lt_of_le hse with heq | hlt
  · subst heq
    obtain ⟨y, _, hy, _⟩ := A.exists_cut he fun h hh => by
      have := hout h hh
      omega
    rw [← hsame s (Nat.le_refl _) (Nat.le_refl _), hy, slice_self, slice_self]
  · obtain ⟨y, hend, hstart, hslice⟩ := A.gap hlt he fun h hh => by
      have := hout h hh
      omega
    rw [hsame s (Nat.le_refl _) hse, ← hsame e hse (Nat.le_refl _), hend, hstart, hslice]

theorem cutAt_mono {q : ℕ} (hpq : p ≤ q) (hq : q ≤ o.length) (hfp : Free hunks p)
    (hfq : Free hunks q) : cutAt hunks p ≤ cutAt hunks q := by
  rcases Nat.eq_or_lt_of_le hpq with rfl | hlt
  · exact Nat.le_refl _
  · have hmono := A.monotone p q hlt hq hfp hfq
    have hbound := A.bounds q hq hfq
    unfold cutAt
    omega

end Aligned

end Havemind.Diff3Cuts
