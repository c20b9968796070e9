import Havemind.Diff3Cuts
import Havemind.LcsCuts

/-!
The diff as an alignment of two lists. Its matches are a longest common subsequence; its hunks
are what lies between two matches, so every line is matched or in a hunk, and putting the
variant's lines in the place of the ancestor's in every hunk gives the variant.
-/
namespace Havemind.DiffHunks

open LineDiff LcsCuts Diff3Cuts List

variable {α : Type*} {o v x y : List α} {i j : ℕ} {ms bs rest : List Match} {m : Match} {h : Hunk}

/-- The ancestor from `i` on with every hunk's range replaced by its lines of the variant. -/
def applyHunks (o v : List α) : ℕ → List Hunk → List α
  | i, [] => o.drop i
  | i, h :: rest =>
    (o.drop i).take (h.oStart - i) ++ (v.drop h.abStart).take h.abLength ++
      applyHunks o v (h.oStart + h.oLength) rest

/-- The matched line lies between the two hunks in both lists. -/
def Between (m : Match) (h k : Hunk) : Prop :=
  h.oStart + h.oLength ≤ m.x ∧ m.x < k.oStart ∧ h.abStart + h.abLength ≤ m.y ∧ m.y < k.abStart

/-- The matched line is before the hunk or after it. -/
def Outside (m : Match) (h : Hunk) : Prop :=
  (m.x < h.oStart ∧ m.y < h.abStart) ∨ (h.oStart + h.oLength ≤ m.x ∧ h.abStart + h.abLength ≤ m.y)

theorem pairs_increasing (h : Pairs x y i j ms) :
    ms.Pairwise fun m m' => m.x < m'.x ∧ m.y < m'.y := by
  induction h with
  | nil => exact List.Pairwise.nil
  | cons _ _ _ _ tail ih =>
    refine List.Pairwise.cons (fun m' hm' => ?_) ih
    obtain ⟨hx, hy⟩ := tail.ge m' hm'
    exact ⟨hx, hy⟩

theorem pairs_equal (h : Pairs x y i j ms) :
    ∀ m ∈ ms, ∃ line, x[m.x]? = some line ∧ y[m.y]? = some line := by
  induction h with
  | nil => exact fun m hm => absurd hm not_mem_nil
  | cons _ _ hx hy _ ih =>
    intro m hm
    rcases mem_cons.mp hm with rfl | hrest
    · exact ⟨_, hx, hy⟩
    · exact ih m hrest

theorem boundaries_ge (hb : BoundariesFrom o v i j bs) : ∀ m ∈ bs, i ≤ m.x ∧ j ≤ m.y := by
  induction hb with
  | last hi hj =>
    intro m hm
    rw [mem_singleton.mp hm]
    exact ⟨hi, hj⟩
  | step hx hy _ _ _ ih =>
    intro m hm
    rcases mem_cons.mp hm with rfl | hrest
    · exact ⟨hx, hy⟩
    · obtain ⟨hmx, hmy⟩ := ih m hrest
      exact ⟨by omega, by omega⟩

section

theorem mem_hunksFrom_cons : h ∈ hunksFrom i j (m :: rest) ↔
    (h = ⟨i, m.x - i, j, m.y - j⟩ ∧ (i < m.x ∨ j < m.y)) ∨ h ∈ hunksFrom (m.x + 1) (m.y + 1) rest := by
  rw [hunksFrom_cons, mem_append]
  refine or_congr_left ?_
  split_ifs with hchange
  · rw [mem_singleton]
    exact ⟨fun heq => ⟨heq, by omega⟩, fun heq => heq.1⟩
  · refine ⟨fun hmem => absurd hmem not_mem_nil, fun heq => ?_⟩
    omega

variable (hb : BoundariesFrom o v i j bs)
include hb

/-- The hunks start at the cursors or later. -/
theorem start_ge (hmem : h ∈ hunksFrom i j bs) : i ≤ h.oStart ∧ j ≤ h.abStart := by
  induction hb with
  | last =>
    rcases mem_hunksFrom_cons.mp hmem with ⟨rfl, -⟩ | hnil
    · exact ⟨Nat.le_refl _, Nat.le_refl _⟩
    · exact absurd hnil not_mem_nil
  | step hx hy _ _ _ ih =>
    rcases mem_hunksFrom_cons.mp hmem with ⟨rfl, -⟩ | hlater
    · exact ⟨Nat.le_refl _, Nat.le_refl _⟩
    · obtain ⟨hox, hvy⟩ := ih hlater
      exact ⟨by omega, by omega⟩

/-- The match behind a hunk comes before all the later ones. -/
theorem hunks_between :
    (hunksFrom i j bs).Pairwise fun h k => ∃ m ∈ bs, m.x < o.length ∧ Between m h k := by
  induction hb with
  | last =>
    rw [hunksFrom_cons]
    split_ifs
    · exact pairwise_singleton _ _
    · exact List.Pairwise.nil
  | @step i j m rest line hx hy ho _ tail ih =>
    have hlater : (hunksFrom (m.x + 1) (m.y + 1) rest).Pairwise fun h k =>
        ∃ m' ∈ m :: rest, m'.x < o.length ∧ Between m' h k := by
      refine ih.imp fun {h k} hbetween => ?_
      obtain ⟨m', hm', hm⟩ := hbetween
      exact ⟨m', mem_cons_of_mem m hm', hm⟩
    rw [hunksFrom_cons]
    split_ifs
    · rw [singleton_append]
      refine List.Pairwise.cons (fun k hk => ?_) hlater
      obtain ⟨hox, hvy⟩ := start_ge tail hk
      refine ⟨m, mem_cons_self, (List.getElem?_eq_some_iff.mp ho).1, ?_⟩
      unfold Between
      dsimp only
      omega
    · rw [nil_append]
      exact hlater

/-- No hunk has a matched line. -/
theorem hunks_outside (hmem : h ∈ hunksFrom i j bs) : ∀ m ∈ bs, Outside m h := by
  induction hb with
  | last hi hj =>
    intro m hm
    rw [mem_singleton.mp hm]
    rcases mem_hunksFrom_cons.mp hmem with ⟨rfl, -⟩ | hnil
    · right
      dsimp only
      omega
    · exact absurd hnil not_mem_nil
  | @step i j m rest line hx hy _ _ tail ih =>
    intro m' hm'
    rcases mem_hunksFrom_cons.mp hmem with ⟨rfl, -⟩ | hlater
    · right
      have hge : m.x ≤ m'.x ∧ m.y ≤ m'.y := by
        rcases mem_cons.mp hm' with rfl | hrest
        · exact ⟨Nat.le_refl _, Nat.le_refl _⟩
        · obtain ⟨hmx, hmy⟩ := boundaries_ge tail m' hrest
          exact ⟨by omega, by omega⟩
      dsimp only
      omega
    · rcases mem_cons.mp hm' with rfl | hrest
      · left
        obtain ⟨hox, hvy⟩ := start_ge tail hlater
        omega
      · exact ih hlater m' hrest

/-- A line of the ancestor that no match joins is in a hunk. -/
theorem covered_ancestor {p : ℕ} (hip : i ≤ p) (hp : p < o.length) (hfree : ∀ m ∈ bs, m.x ≠ p) :
    ∃ h ∈ hunksFrom i j bs, h.oStart ≤ p ∧ p < h.oStart + h.oLength := by
  induction hb with
  | @last i j hi hj =>
    refine ⟨_, mem_hunksFrom_cons.mpr (.inl ⟨rfl, .inl (by dsimp only; omega)⟩), hip, ?_⟩
    dsimp only
    omega
  | @step i j m rest line hx hy _ _ tail ih =>
    have hne := hfree m mem_cons_self
    rcases Nat.lt_or_gt_of_ne hne with hbefore | hafter
    · obtain ⟨h, hh, hin⟩ := ih hbefore fun m' hm' => hfree m' (mem_cons_of_mem m hm')
      exact ⟨h, mem_hunksFrom_cons.mpr (.inr hh), hin⟩
    · refine ⟨_, mem_hunksFrom_cons.mpr (.inl ⟨rfl, .inl (by omega)⟩), hip, ?_⟩
      dsimp only
      omega

/-- A line of the variant that no match joins is in a hunk. -/
theorem covered_variant {q : ℕ} (hjq : j ≤ q) (hq : q < v.length) (hfree : ∀ m ∈ bs, m.y ≠ q) :
    ∃ h ∈ hunksFrom i j bs, h.abStart ≤ q ∧ q < h.abStart + h.abLength := by
  induction hb with
  | @last i j hi hj =>
    refine ⟨_, mem_hunksFrom_cons.mpr (.inl ⟨rfl, .inr (by dsimp only; omega)⟩), hjq, ?_⟩
    dsimp only
    omega
  | @step i j m rest line hx hy _ _ tail ih =>
    have hne := hfree m mem_cons_self
    rcases Nat.lt_or_gt_of_ne hne with hbefore | hafter
    · obtain ⟨h, hh, hin⟩ := ih hbefore fun m' hm' => hfree m' (mem_cons_of_mem m hm')
      exact ⟨h, mem_hunksFrom_cons.mpr (.inr hh), hin⟩
    · refine ⟨_, mem_hunksFrom_cons.mpr (.inl ⟨rfl, .inr (by omega)⟩), hjq, ?_⟩
      dsimp only
      omega

end

/-- A line before all hunks is copied. -/
theorem applyHunks_copy {line : α} (hi : o[i]? = some line) {hunks : List Hunk}
    (hlater : ∀ h ∈ hunks, i + 1 ≤ h.oStart) :
    applyHunks o v i hunks = line :: applyHunks o v (i + 1) hunks := by
  obtain ⟨hlt, rfl⟩ := List.getElem?_eq_some_iff.mp hi
  cases hunks with
  | nil => exact drop_eq_getElem_cons hlt
  | cons h rest =>
    have hstart := hlater h mem_cons_self
    have hcount : h.oStart - i = h.oStart - (i + 1) + 1 := by omega
    unfold applyHunks
    rw [drop_eq_getElem_cons hlt, hcount, take_succ_cons, cons_append, cons_append]

/-- The lines up to a match are those of the hunk before it, if there is one. -/
theorem applyHunks_hunk (hx : i ≤ m.x) (hy : j ≤ m.y) {hunks : List Hunk}
    (hnext : applyHunks o v m.x hunks = v.drop m.y) :
    applyHunks o v i ((if m.x - i > 0 ∨ m.y - j > 0 then
      [⟨i, m.x - i, j, m.y - j⟩] else []) ++ hunks) = v.drop j := by
  split_ifs with hchange
  · have hend : i + (m.x - i) = m.x := by omega
    have hrest : v.drop m.y = (v.drop j).drop (m.y - j) := by
      rw [drop_drop]
      congr 1
      omega
    rw [singleton_append, applyHunks]
    dsimp only
    rw [hend, hnext, Nat.sub_self, take_zero, nil_append, hrest, take_append_drop]
  · have hsame : i = m.x ∧ j = m.y := by omega
    rw [nil_append, hsame.1, hsame.2]
    exact hnext

/-- From the boundaries on, the ancestor with its hunks replaced is the variant. -/
theorem applyHunks_boundaries (hb : BoundariesFrom o v i j bs) :
    applyHunks o v i (hunksFrom i j bs) = v.drop j := by
  induction hb with
  | last hi hj =>
    rw [hunksFrom_cons]
    refine applyHunks_hunk hi hj ?_
    rw [hunksFrom, applyHunks, drop_length, drop_length]
  | @step i j m rest line hx hy ho hv tail ih =>
    rw [hunksFrom_cons]
    refine applyHunks_hunk hx hy ?_
    obtain ⟨hlt, hline⟩ := List.getElem?_eq_some_iff.mp hv
    rw [applyHunks_copy ho fun h hh => (start_ge tail hh).1, ih, drop_eq_getElem_cons hlt, hline]

variable [DecidableEq α]

theorem diffHunks_boundaries (x y : List α) :
    BoundariesFrom x y 0 0 (lcsMatches x y ++ [⟨x.length, y.length⟩]) :=
  backtrace_boundaries x y _ _ 0 0 (Nat.zero_le _) (Nat.zero_le _)

/-- The matches are an alignment of the two lists, as long as one can be, and the hunks are
what it leaves out. -/
theorem diff_alignment (x y : List α) :
    ((lcsMatches x y).Pairwise fun m m' => m.x < m'.x ∧ m.y < m'.y) ∧
    (∀ m ∈ lcsMatches x y, ∃ line, x[m.x]? = some line ∧ y[m.y]? = some line) ∧
    (∀ z : List α, z.Sublist x → z.Sublist y → z.length ≤ (lcsMatches x y).length) ∧
    ((diffHunks x y).Pairwise fun h k => ∃ m ∈ lcsMatches x y, Between m h k) ∧
    (∀ h ∈ diffHunks x y, ∀ m ∈ lcsMatches x y, Outside m h) ∧
    (∀ p < x.length, (∀ m ∈ lcsMatches x y, m.x ≠ p) →
      ∃ h ∈ diffHunks x y, h.oStart ≤ p ∧ p < h.oStart + h.oLength) ∧
    (∀ q < y.length, (∀ m ∈ lcsMatches x y, m.y ≠ q) →
      ∃ h ∈ diffHunks x y, h.abStart ≤ q ∧ q < h.abStart + h.abLength) ∧
    applyHunks x y 0 (diffHunks x y) = y := by
  have htrace := lcsMatches_trace x y
  have hpairs := htrace.pairs
  have hb := diffHunks_boundaries x y
  refine ⟨pairs_increasing hpairs, pairs_equal hpairs, ?_, ?_, ?_, ?_, ?_, ?_⟩
  · intro z hx hy
    rw [htrace.length_eq]
    exact length_le_lcsLength hx hy
  · refine (hunks_between hb).imp fun {h k} hbetween => ?_
    obtain ⟨m, hm, hlt, hbetween⟩ := hbetween
    rcases mem_append.mp hm with hmatch | hlast
    · exact ⟨m, hmatch, hbetween⟩
    · rw [mem_singleton.mp hlast] at hlt
      exact absurd hlt (Nat.lt_irrefl _)
  · exact fun h hh m hm => hunks_outside hb hh m (mem_append_left _ hm)
  · intro p hp hfree
    refine covered_ancestor hb (Nat.zero_le p) hp fun m hm => ?_
    rcases mem_append.mp hm with hmatch | hlast
    · exact hfree m hmatch
    · rw [mem_singleton.mp hlast]
      exact Nat.ne_of_gt hp
  · intro q hq hfree
    refine covered_variant hb (Nat.zero_le q) hq fun m hm => ?_
    rcases mem_append.mp hm with hmatch | hlast
    · exact hfree m hmatch
    · rw [mem_singleton.mp hlast]
      exact Nat.ne_of_gt hq
  · exact applyHunks_boundaries hb

end Havemind.DiffHunks
