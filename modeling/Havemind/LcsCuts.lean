import Havemind.LcsTrace

/-!
What the backtrace takes inside a cut. The table's length is the greatest length of a
common sublist, so where a cut separates the matches, the walk is a longest one on both
sides of the cut, and which lines it matches before the cut depends only on the lines
between the walk and the cut.
-/
namespace Havemind.LcsCuts

open LineDiff LcsTrace List

variable {α : Type*} [DecidableEq α]

section
variable {x y x' y' z : List α}

theorem length_le_lcsLength (hx : z.Sublist x) (hy : z.Sublist y) : z.length ≤ lcsLength x y := by
  induction x, y using lcsLength.induct generalizing z with
  | case1 y =>
    rw [sublist_nil.mp hx]
    exact Nat.zero_le _
  | case2 head x =>
    rw [sublist_nil.mp hy]
    exact Nat.zero_le _
  | case3 x line y ih =>
    have htail := ih hx.tail hy.tail
    rw [lcsLength, if_pos rfl]
    rw [length_tail] at htail
    omega
  | case4 line x other y hne ihx ihy =>
    rw [lcsLength, if_neg hne]
    rcases sublist_cons_iff.mp hx with hskip | ⟨rest, rfl, hrest⟩
    · have := ihx hskip hy
      omega
    · rcases sublist_cons_iff.mp hy with hskip | ⟨rest', hsame, -⟩
      · have := ihy hx hskip
        omega
      · exact absurd (List.cons.inj hsame).1 hne

theorem exists_common (x y : List α) :
    ∃ z : List α, z.Sublist x ∧ z.Sublist y ∧ z.length = lcsLength x y := by
  induction x, y using lcsLength.induct with
  | case1 y => exact ⟨[], nil_sublist _, nil_sublist _, by rw [lcsLength]; rfl⟩
  | case2 head x => exact ⟨[], nil_sublist _, nil_sublist _, by rw [lcsLength]; rfl⟩
  | case3 x line y ih =>
    obtain ⟨z, hx, hy, hlength⟩ := ih
    refine ⟨line :: z, hx.cons_cons line, hy.cons_cons line, ?_⟩
    rw [lcsLength, if_pos rfl, length_cons, hlength]
  | case4 line x other y hne ihx ihy =>
    obtain ⟨z, hx, hy, hlength⟩ := ihx
    obtain ⟨z', hx', hy', hlength'⟩ := ihy
    rw [lcsLength, if_neg hne]
    rcases Nat.le_total (lcsLength (line :: x) y) (lcsLength x (other :: y)) with hle | hle
    · exact ⟨z, hx.cons line, hy, by rw [hlength, Nat.max_eq_left hle]⟩
    · exact ⟨z', hx', hy'.cons other, by rw [hlength', Nat.max_eq_right hle]⟩

/-- Common sublists of two pairs of lists concatenate. -/
theorem lcsLength_append_le (x y x' y' : List α) :
    lcsLength x y + lcsLength x' y' ≤ lcsLength (x ++ x') (y ++ y') := by
  obtain ⟨z, hx, hy, hlength⟩ := exists_common x y
  obtain ⟨z', hx', hy', hlength'⟩ := exists_common x' y'
  rw [← hlength, ← hlength', ← length_append]
  exact length_le_lcsLength (hx.append hx') (hy.append hy')

/-- The length is the one number that bounds the common sublists and is reached. -/
theorem lcsLength_eq {n : ℕ} (hreach : ∃ z : List α, z.Sublist x ∧ z.Sublist y ∧ z.length = n)
    (hbound : ∀ z : List α, z.Sublist x → z.Sublist y → z.length ≤ n) : lcsLength x y = n := by
  obtain ⟨z, hx, hy, hlength⟩ := hreach
  obtain ⟨w, hwx, hwy, hw⟩ := exists_common x y
  apply Nat.le_antisymm
  · rw [← hw]
    exact hbound w hwx hwy
  · rw [← hlength]
    exact length_le_lcsLength hx hy

theorem lcsLength_reverse (x y : List α) : lcsLength x.reverse y.reverse = lcsLength x y := by
  apply lcsLength_eq
  · obtain ⟨z, hx, hy, hlength⟩ := exists_common x y
    exact ⟨z.reverse, hx.reverse, hy.reverse, by rw [length_reverse, hlength]⟩
  · intro z hx hy
    rw [← length_reverse]
    have hx' := hx.reverse
    have hy' := hy.reverse
    rw [reverse_reverse] at hx' hy'
    exact length_le_lcsLength hx' hy'

theorem lcsLength_append_left (z x y : List α) :
    lcsLength (z ++ x) (z ++ y) = z.length + lcsLength x y := by
  induction z with
  | nil => rw [nil_append, nil_append, length_nil, Nat.zero_add]
  | cons line z ih =>
    rw [cons_append, cons_append, lcsLength, if_pos rfl, ih, length_cons]
    omega

theorem lcsLength_append_right (x y z : List α) :
    lcsLength (x ++ z) (y ++ z) = lcsLength x y + z.length := by
  rw [← lcsLength_reverse, reverse_append, reverse_append, lcsLength_append_left,
    lcsLength_reverse, length_reverse, Nat.add_comm]

end

section
variable {x y : List α} {i j p q e k : ℕ} {ms ms' : List Match}

/-- Matches from `(i, j)` on that advance in both lists and pair equal lines. -/
inductive Pairs (x y : List α) : ℕ → ℕ → List Match → Prop
  | nil (i j : ℕ) : Pairs x y i j []
  | cons {i j : ℕ} {m : Match} {ms : List Match} {line : α} : i ≤ m.x → j ≤ m.y →
      x[m.x]? = some line → y[m.y]? = some line → Pairs x y (m.x + 1) (m.y + 1) ms →
      Pairs x y i j (m :: ms)

omit [DecidableEq α] in
theorem Pairs.ge (h : Pairs x y i j ms) : ∀ m ∈ ms, i ≤ m.x ∧ j ≤ m.y := by
  induction h with
  | nil => exact fun m hm => absurd hm not_mem_nil
  | cons hi hj hx hy tail ih =>
    intro m hm
    rcases mem_cons.mp hm with rfl | hm
    · exact ⟨hi, hj⟩
    · have := ih m hm
      omega

omit [DecidableEq α] in
theorem Pairs.lt (h : Pairs x y i j ms) : ∀ m ∈ ms, m.x < x.length ∧ m.y < y.length := by
  induction h with
  | nil => exact fun m hm => absurd hm not_mem_nil
  | cons hi hj hx hy tail ih =>
    intro m hm
    rcases mem_cons.mp hm with rfl | hm
    · exact ⟨(List.getElem?_eq_some_iff.mp hx).1, (List.getElem?_eq_some_iff.mp hy).1⟩
    · exact ih m hm

omit [DecidableEq α] in
theorem Pairs.start (h : Pairs x y i j ms) (hge : ∀ m ∈ ms, p ≤ m.x ∧ q ≤ m.y) :
    Pairs x y p q ms := by
  cases h with
  | nil => exact .nil p q
  | cons hi hj hx hy tail =>
    obtain ⟨hp, hq⟩ := hge _ mem_cons_self
    exact .cons hp hq hx hy tail

omit [DecidableEq α] in
theorem Pairs.sublist (h : Pairs x y i j ms) (hsub : ms'.Sublist ms) : Pairs x y i j ms' := by
  induction h generalizing ms' with
  | nil i j =>
    rw [sublist_nil.mp hsub]
    exact .nil i j
  | cons hi hj hx hy tail ih =>
    rcases sublist_cons_iff.mp hsub with hskip | ⟨rest, rfl, hrest⟩
    · apply (ih hskip).start
      intro m hm
      have := (ih hskip).ge m hm
      omega
    · exact .cons hi hj hx hy (ih hrest)

omit [DecidableEq α] in
theorem drop_take_of_getElem? {line : α} (h : x[p]? = some line) (hp : p < e) :
    (x.take e).drop p = line :: (x.take e).drop (p + 1) := by
  obtain ⟨hlt, hget⟩ := List.getElem?_eq_some_iff.mp h
  have htake : p < (x.take e).length := by
    rw [length_take]
    omega
  rw [drop_eq_getElem_cons htake, getElem_take, hget]

omit [DecidableEq α] in
theorem drop_split (x : List α) (hp : p ≤ e) : x.drop p = (x.take e).drop p ++ x.drop e := by
  nth_rewrite 1 [← take_append_drop e x]
  rw [drop_append, length_take]
  rcases Nat.le_total e x.length with hle | hle
  · rw [Nat.min_eq_left hle, Nat.sub_eq_zero_of_le hp, drop_zero]
  · rw [drop_eq_nil_of_le hle, drop_nil]

/-- The lines matched before a cut are common to both parts before it. -/
theorem Pairs.length_le (h : Pairs x y i j ms) (hcut : ∀ m ∈ ms, m.x < e ∧ m.y < k) :
    ms.length ≤ lcsLength ((x.take e).drop i) ((y.take k).drop j) := by
  have hcommon : ∃ z : List α, z.length = ms.length ∧ z.Sublist ((x.take e).drop i) ∧
      z.Sublist ((y.take k).drop j) := by
    induction h with
    | nil => exact ⟨[], rfl, nil_sublist _, nil_sublist _⟩
    | @cons i j m ms line hi hj hx hy tail ih =>
      obtain ⟨z, hlength, hzx, hzy⟩ := ih fun m hm => hcut m (mem_cons_of_mem _ hm)
      obtain ⟨he, hk⟩ := hcut m mem_cons_self
      refine ⟨line :: z, by rw [length_cons, length_cons, hlength], ?_, ?_⟩
      · apply List.Sublist.trans _ (drop_sublist_drop_left _ hi)
        rw [drop_take_of_getElem? hx he]
        exact hzx.cons_cons line
      · apply List.Sublist.trans _ (drop_sublist_drop_left _ hj)
        rw [drop_take_of_getElem? hy hk]
        exact hzy.cons_cons line
  obtain ⟨z, hlength, hzx, hzy⟩ := hcommon
  rw [← hlength]
  exact length_le_lcsLength hzx hzy

end

variable {x y y' : List α} {i j j' e k k' : ℕ} {ms ms' : List Match} {line other : α}

/-- The steps of the backtrace from `(i, j)` and the matches they leave. -/
inductive Trace (x y : List α) : ℕ → ℕ → List Match → Prop
  | stop {i j : ℕ} : x.length ≤ i ∨ y.length ≤ j → Trace x y i j []
  | matched {i j : ℕ} {ms : List Match} {line : α} : x[i]? = some line → y[j]? = some line →
      Trace x y (i + 1) (j + 1) ms → Trace x y i j (⟨i, j⟩ :: ms)
  | skipAncestor {i j : ℕ} {ms : List Match} {line other : α} : x[i]? = some line →
      y[j]? = some other → line ≠ other → lengthAt x y i (j + 1) ≤ lengthAt x y (i + 1) j →
      Trace x y (i + 1) j ms → Trace x y i j ms
  | skipVariant {i j : ℕ} {ms : List Match} {line other : α} : x[i]? = some line →
      y[j]? = some other → line ≠ other → lengthAt x y (i + 1) j < lengthAt x y i (j + 1) →
      Trace x y i (j + 1) ms → Trace x y i j ms

theorem backtrace_trace (fuel : ℕ) (hfuel : x.length + y.length ≤ i + j + fuel)
    (hi : i ≤ x.length) (hj : j ≤ y.length) :
    Trace x y i j (backtrace x y (lcsTable x y) fuel i j) := by
  induction fuel generalizing i j with
  | zero => exact .stop (by omega)
  | succ fuel ih =>
    unfold backtrace
    split
    · rename_i line other hx hy
      have hi' := (List.getElem?_eq_some_iff.mp hx).1
      have hj' := (List.getElem?_eq_some_iff.mp hy).1
      split
      · rename_i heq
        subst heq
        exact .matched hx hy (ih (by omega) hi' hj')
      · rename_i hne
        rw [tableAt_lcsTable x y hi' hj, tableAt_lcsTable x y hi hj']
        split
        · rename_i hge
          exact .skipAncestor hx hy hne hge (ih (by omega) hi' hj)
        · rename_i hlt
          exact .skipVariant hx hy hne (Nat.lt_of_not_ge hlt) (ih (by omega) hi hj')
    · rename_i hend
      apply Trace.stop
      by_contra hin
      obtain ⟨hi', hj'⟩ := not_or.mp hin
      exact hend _ _ (List.getElem?_eq_getElem (Nat.lt_of_not_le hi'))
        (List.getElem?_eq_getElem (Nat.lt_of_not_le hj'))

theorem lcsMatches_trace (x y : List α) : Trace x y 0 0 (lcsMatches x y) :=
  backtrace_trace _ (by omega) (Nat.zero_le _) (Nat.zero_le _)

theorem lengthAt_of_eq (hx : x[i]? = some line) (hy : y[j]? = some line) :
    lengthAt x y i j = lengthAt x y (i + 1) (j + 1) + 1 := by
  obtain ⟨hi, hxi⟩ := List.getElem?_eq_some_iff.mp hx
  obtain ⟨hj, hyj⟩ := List.getElem?_eq_some_iff.mp hy
  unfold lengthAt
  rw [drop_eq_getElem_cons hi, drop_eq_getElem_cons hj, hxi, hyj, lcsLength, if_pos rfl]

variable (h : Trace x y i j ms)
include h

/-- The walk matches as many lines as the table promises. -/
theorem Trace.length_eq : ms.length = lengthAt x y i j := by
  induction h with
  | stop hend => rw [lengthAt_of_end hend, length_nil]
  | matched hx hy tail ih => rw [length_cons, ih, lengthAt_of_eq hx hy]
  | skipAncestor hx hy hne hge tail ih =>
    rw [ih, lengthAt_of_ne hx hy hne, Nat.max_eq_left hge]
  | skipVariant hx hy hne hlt tail ih =>
    rw [ih, lengthAt_of_ne hx hy hne, Nat.max_eq_right (Nat.le_of_lt hlt)]

theorem Trace.pairs : Pairs x y i j ms := by
  induction h with
  | stop => exact .nil _ _
  | matched hx hy tail ih => exact .cons (Nat.le_refl _) (Nat.le_refl _) hx hy ih
  | skipAncestor hx hy hne hge tail ih =>
    apply ih.start
    intro m hm
    have := ih.ge m hm
    omega
  | skipVariant hx hy hne hlt tail ih =>
    apply ih.start
    intro m hm
    have := ih.ge m hm
    omega

/-- The walk goes on behind each of its matches. -/
theorem Trace.resume {m : Match} (hm : m ∈ ms) :
    ∃ ms', Trace x y (m.x + 1) (m.y + 1) ms' ∧ ∀ other, other ∈ ms' ↔ other ∈ ms ∧ m.x < other.x := by
  induction h with
  | stop => cases hm
  | @matched i j ms line hx hy tail ih =>
    have hge := tail.pairs.ge
    rcases mem_cons.mp hm with rfl | hm
    · refine ⟨ms, tail, fun other => ⟨fun hmem => ⟨mem_cons_of_mem _ hmem, ?_⟩, ?_⟩⟩
      · have := hge other hmem
        dsimp only
        omega
      · rintro ⟨hmem, hlt⟩
        rcases mem_cons.mp hmem with rfl | hmem
        · exact absurd hlt (Nat.lt_irrefl _)
        · exact hmem
    · obtain ⟨ms', htrace, hmem'⟩ := ih hm
      have hbehind := hge m hm
      refine ⟨ms', htrace, fun other => ?_⟩
      rw [hmem', mem_cons]
      constructor
      · exact fun h => ⟨.inr h.1, h.2⟩
      · rintro ⟨rfl | hmem, hlt⟩
        · dsimp only at hlt
          omega
        · exact ⟨hmem, hlt⟩
  | skipAncestor hx hy hne hge tail ih => exact ih hm
  | skipVariant hx hy hne hlt tail ih => exact ih hm

/-- Every match lies before the cut in both lists, or behind it in both. -/
def Separates (e k : ℕ) (ms : List Match) : Prop :=
  ∀ m ∈ ms, (m.x < e ∧ m.y < k) ∨ (e ≤ m.x ∧ k ≤ m.y)

omit h in
theorem cut_le (hi : i ≤ e) (hj : j ≤ k) :
    lcsLength ((x.take e).drop i) ((y.take k).drop j) + lengthAt x y e k ≤ lengthAt x y i j := by
  unfold lengthAt
  rw [drop_split x hi, drop_split y hj]
  exact lcsLength_append_le _ _ _ _

/-- A walk whose matches a cut separates is longest on both sides of it. -/
theorem Trace.tight (hcut : Separates e k ms) (hi : i ≤ e) (hj : j ≤ k) :
    lengthAt x y i j = lcsLength ((x.take e).drop i) ((y.take k).drop j) + lengthAt x y e k := by
  have hbefore : (ms.filter fun m => m.x < e).length ≤
      lcsLength ((x.take e).drop i) ((y.take k).drop j) := by
    apply (h.pairs.sublist filter_sublist).length_le
    intro m hm
    obtain ⟨hmem, hlt⟩ := mem_filter.mp hm
    have hx := of_decide_eq_true hlt
    have := hcut m hmem
    omega
  have hbehind : (ms.filter fun m => !decide (m.x < e)).length ≤ lengthAt x y e k := by
    have hpairs : Pairs x y e k (ms.filter fun m => !decide (m.x < e)) := by
      apply (h.pairs.sublist filter_sublist).start
      intro m hm
      obtain ⟨hmem, hge⟩ := mem_filter.mp hm
      rw [Bool.not_eq_true', decide_eq_false_iff_not] at hge
      have := hcut m hmem
      omega
    have hlength := hpairs.length_le hpairs.lt
    rwa [take_length, take_length] at hlength
  have hsplit : ms.length = (ms.filter fun m => m.x < e).length +
      (ms.filter fun m => !decide (m.x < e)).length := by
    exact length_eq_length_filter_add fun m : Match => decide (m.x < e)
  have hwhole := cut_le (x := x) (y := y) hi hj
  have hlength := h.length_eq
  omega

/-- Where one walk skips an ancestor line, a walk over the same lines up to the cut loses
nothing by skipping it. -/
theorem Trace.skip_le (hnext : Trace x y (i + 1) j ms) (h' : Trace x y' i j' ms')
    (hcut : Separates e k ms) (hcut' : Separates e k' ms') (hi : i < e) (hj : j ≤ k)
    (hj' : j' ≤ k') (hsame : (y.take k).drop j = (y'.take k').drop j') :
    lengthAt x y' i j' ≤ lengthAt x y' (i + 1) j' := by
  have htight := h.tight hcut (Nat.le_of_lt hi) hj
  have htight' := hnext.tight hcut hi hj
  have hother := h'.tight hcut' (Nat.le_of_lt hi) hj'
  have hskip := cut_le (x := x) (y := y') (i := i + 1) (e := e) hi hj'
  have hlength := h.length_eq.symm.trans hnext.length_eq
  rw [hsame] at htight htight'
  omega

/-- A match before the cut says that the walk is before it, and that the next lines agree. -/
theorem inside {q n : ℕ} (hcut : Separates e k ms) (hk : k ≤ y.length) (hk' : k' ≤ y'.length)
    (hsame : (y.take k).drop j = (y'.take k').drop j') (hq : q < e) (hmem : ⟨q, j + n⟩ ∈ ms) :
    i < e ∧ j < k ∧ j' < k' ∧ y[j]? = y'[j']? ∧
      (y.take k).drop (j + 1) = (y'.take k').drop (j' + 1) := by
  have hlow := (h.pairs.ge _ hmem).1
  have hkn : j + n < k := by
    rcases hcut _ hmem with hbefore | hbehind
    · exact hbefore.2
    · dsimp only at hbehind
      omega
  dsimp only at hlow
  have hlength := congrArg List.length hsame
  rw [length_drop, length_drop, length_take, length_take] at hlength
  have hj' : j' < k' := by omega
  have hhead := congrArg (fun lines => lines[0]?) hsame
  have hrest := congrArg (fun lines => lines.drop 1) hsame
  simp only [List.getElem?_drop, Nat.add_zero, drop_drop] at hhead hrest
  rw [List.getElem?_take_of_lt (by omega), List.getElem?_take_of_lt hj'] at hhead
  exact ⟨by omega, by omega, hj', hhead, hrest⟩

/-- Two walks from one ancestor line over the same lines up to a cut match the same lines
before it: at each step both lose a longest match or neither does. -/
theorem Trace.agree (h' : Trace x y' i j' ms') (hcut : Separates e k ms)
    (hcut' : Separates e k' ms') (hk : k ≤ y.length) (hk' : k' ≤ y'.length)
    (hsame : (y.take k).drop j = (y'.take k').drop j') :
    ∀ q n, q < e → ⟨q, j + n⟩ ∈ ms → ⟨q, j' + n⟩ ∈ ms' := by
  induction h generalizing j' ms' with
  | stop hend => exact fun q n _ hmem => absurd hmem not_mem_nil
  | @matched i j ms line hx hy tail ih =>
    intro q n hq hmem
    obtain ⟨hi, hj, hj', hhead, hrest⟩ := inside (.matched hx hy tail) hcut hk hk' hsame hq hmem
    cases h' with
    | stop hend => exact absurd (List.getElem?_eq_some_iff.mp hx).1 (by omega)
    | @matched _ _ ms' _ hx' hy' tail' =>
      rcases mem_cons.mp hmem with hfirst | hmem
      · obtain ⟨rfl, hn⟩ := Match.mk.inj hfirst
        have hzero : n = 0 := by omega
        rw [hzero]
        exact mem_cons_self
      · have hbehind := (tail.pairs.ge _ hmem).2
        dsimp only at hbehind
        have hshift : j + n = j + 1 + (n - 1) := by omega
        have hshift' : j' + n = j' + 1 + (n - 1) := by omega
        rw [hshift] at hmem
        rw [hshift']
        apply mem_cons_of_mem
        exact ih tail' (fun m hm => hcut m (mem_cons_of_mem _ hm))
          (fun m hm => hcut' m (mem_cons_of_mem _ hm)) hrest q (n - 1) hq hmem
    | skipAncestor hx' hy' hne =>
      rw [← hhead, hy] at hy'
      rw [hx] at hx'
      exact absurd ((Option.some.inj hx').symm.trans (Option.some.inj hy')) hne
    | skipVariant hx' hy' hne =>
      rw [← hhead, hy] at hy'
      rw [hx] at hx'
      exact absurd ((Option.some.inj hx').symm.trans (Option.some.inj hy')) hne
  | @skipAncestor i j ms line other hx hy hne hge tail ih =>
    intro q n hq hmem
    have hwhole : Trace x y i j ms := .skipAncestor hx hy hne hge tail
    obtain ⟨hi, hj, hj', hhead, hrest⟩ := inside hwhole hcut hk hk' hsame hq hmem
    cases h' with
    | stop hend => exact absurd (List.getElem?_eq_some_iff.mp hx).1 (by omega)
    | matched hx' hy' tail' =>
      rw [← hhead, hy] at hy'
      rw [hx] at hx'
      exact absurd ((Option.some.inj hx').trans (Option.some.inj hy').symm) hne
    | skipAncestor hx' hy' hne' hge' tail' => exact ih tail' hcut hcut' hsame q n hq hmem
    | skipVariant hx' hy' hne' hlt' tail' =>
      have hskip := hwhole.skip_le tail (.skipVariant hx' hy' hne' hlt' tail') hcut hcut' hi
        (Nat.le_of_lt hj) (Nat.le_of_lt hj') hsame
      have hgrow := lengthAt_le_of_skip (i := i) hy' (x := x)
      omega
  | @skipVariant i j ms line other hx hy hne hlt tail ih =>
    intro q n hq hmem
    have hwhole : Trace x y i j ms := .skipVariant hx hy hne hlt tail
    obtain ⟨hi, hj, hj', hhead, hrest⟩ := inside hwhole hcut hk hk' hsame hq hmem
    cases h' with
    | stop hend => exact absurd (List.getElem?_eq_some_iff.mp hx).1 (by omega)
    | matched hx' hy' tail' =>
      rw [← hhead, hy] at hy'
      rw [hx] at hx'
      exact absurd ((Option.some.inj hx').trans (Option.some.inj hy').symm) hne
    | skipAncestor hx' hy' hne' hge' tail' =>
      have hskip := Trace.skip_le (.skipAncestor hx' hy' hne' hge' tail') tail' hwhole hcut' hcut hi
        (Nat.le_of_lt hj') (Nat.le_of_lt hj) hsame.symm
      have hgrow := lengthAt_le_of_skip (i := i) hy (x := x)
      omega
    | skipVariant hx' hy' hne' hlt' tail' =>
      have hbehind := (tail.pairs.ge _ hmem).2
      dsimp only at hbehind
      have hshift : j + n = j + 1 + (n - 1) := by omega
      have hshift' : j' + n = j' + 1 + (n - 1) := by omega
      rw [hshift] at hmem
      rw [hshift']
      exact ih tail' hcut hcut' hrest q (n - 1) hq hmem

end Havemind.LcsCuts
