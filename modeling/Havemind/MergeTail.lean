import Havemind.LcsTrace
import Havemind.MergeSymmetry

/-!
The last lines of a merge. A note ends in exactly one blank line, and the
question is whether the merge of such notes does. Only the last two regions
matter: the last line before a region's end comes from one of the sides, and
it equals the matched line behind the region only where the other side deleted
everything down to an equal line.
-/
namespace Havemind.MergeTail

open JsText LineDiff LcsTrace Diff3 Diff3Cuts DisjointRegion Diff3Soundness MergeSymmetry List

variable {α : Type*} {o a b v : List α} {localHunks remoteHunks hunks : List Hunk}

section
variable {xs pre : List α} {z : α} {k : ℕ}

theorem getLast?_take_succ (h : k < xs.length) : (xs.take (k + 1)).getLast? = xs[k]? := by
  rw [List.getLast?_eq_getElem?, length_take, Nat.min_eq_left h, Nat.succ_sub_one,
    List.getElem?_take_of_lt (Nat.lt_succ_self k)]

theorem getLast?_append_slice {c s : ℕ} (hcs : c < s ∨ s = 0 ∧ pre = []) (hs : s ≤ xs.length) :
    (pre ++ slice xs c s).getLast? = (xs.take s).getLast? := by
  rcases hcs with hlt | ⟨rfl, rfl⟩
  · have hsplit : xs.take s = xs.take c ++ slice xs c s := by
      rw [slice_natCast]
      conv_lhs => rw [← take_append_drop c (xs.take s), take_take,
        Nat.min_eq_left (Nat.le_of_lt hlt)]
    have hne : slice xs c s ≠ [] := by
      rw [slice_natCast]
      apply ne_nil_of_length_pos
      rw [length_drop, length_take]
      omega
    rw [hsplit, List.getLast?_append_of_ne_nil _ hne, List.getLast?_append_of_ne_nil _ hne]
  · rw [slice_natCast]
    simp

/-- The list ends in `z`, and the line before it is another one. -/
def EndsOnce (z : α) (xs : List α) : Prop :=
  xs.getLast? = some z ∧ xs.dropLast.getLast? ≠ some z

theorem endsOnce_append {rest : List α} (hne : rest ≠ []) :
    EndsOnce z (pre ++ rest) ↔
      rest.getLast? = some z ∧ (rest.dropLast.getLast?.or pre.getLast?) ≠ some z := by
  rw [EndsOnce, List.getLast?_append_of_ne_nil _ hne, dropLast_append_of_ne_nil hne,
    List.getLast?_append]

theorem endsOnce_concat : EndsOnce z (pre ++ [z]) ↔ pre.getLast? ≠ some z := by
  rw [endsOnce_append (by simp)]
  simp

theorem EndsOnce.ne_nil (h : EndsOnce z xs) : xs ≠ [] := by
  rintro rfl
  exact absurd h.1 (by simp)

theorem EndsOnce.mem_drop (h : EndsOnce z xs) (hk : k < xs.length) : z ∈ xs.drop k := by
  apply mem_of_getLast?
  rw [List.getLast?_drop, if_neg (by omega)]
  exact h.1

end

section
variable (A : Aligned o v hunks)
include A

theorem hunk_order {h k : Hunk} (hh : h ∈ hunks) (hk : k ∈ hunks) :
    h.oStart + h.oLength < k.oStart ∨ h = k ∨ k.oStart + k.oLength < h.oStart := by
  obtain ⟨i, rfl⟩ := get_of_mem hh
  obtain ⟨n, rfl⟩ := get_of_mem hk
  have hget := pairwise_iff_get.mp A.separated
  rcases Nat.lt_trichotomy i n with hlt | heq | hgt
  · exact Or.inl (hget i n hlt)
  · exact Or.inr (Or.inl (congrArg _ (Fin.ext heq)))
  · exact Or.inr (Or.inr (hget n i hgt))

/-- Behind a copied line the variant has the ancestor's last line. -/
theorem getLast?_take_start {s : ℕ} (hs : s ≤ o.length)
    (hout : ∀ h ∈ hunks, h.oStart + h.oLength < s ∨ s ≤ h.oStart) :
    (v.take (variantStart hunks s).toNat).getLast? = (o.take s).getLast? := by
  cases s with
  | zero =>
    rw [variantStart_of_le hunks 0 fun h _ => Nat.zero_le _]
    simp
  | succ p =>
    obtain ⟨y, _, hstart, hline⟩ := A.copied p hs fun h hh => by
      have := hout h hh
      omega
    have hp : o[p]? = some o[p] := List.getElem?_eq_getElem hs
    have hy : y < v.length := (List.getElem?_eq_some_iff.mp (hline.trans hp)).1
    rw [hstart, show ((y : ℤ) + 1).toNat = y + 1 by omega, getLast?_take_succ hy,
      getLast?_take_succ hs, hline]

/-- The variant's last line before a cut: the end of a replacement, the line
before a deletion, or the ancestor's own line. -/
theorem getLast?_take_cut {c : ℕ} (hc : c ≤ o.length) (hfree : Free hunks c) :
    (∃ k ∈ hunks, k.oStart + k.oLength = c ∧ cutAt hunks c = k.abStart + k.abLength ∧
      (k.abLength = 0 → (v.take (cutAt hunks c)).getLast? = (o.take k.oStart).getLast?)) ∨
    (v.take (cutAt hunks c)).getLast? = (o.take c).getLast? := by
  by_cases hends : ∃ k ∈ hunks, k.oStart + k.oLength = c
  · obtain ⟨k, hk, rfl⟩ := hends
    obtain ⟨hstart, hend⟩ := A.hunk_cuts k hk
    have hcut : cutAt hunks (k.oStart + k.oLength) = k.abStart + k.abLength :=
      cutAt_eq (by rw [hend]; push_cast; rfl)
    refine Or.inl ⟨k, hk, rfl, hcut, ?_⟩
    intro hzero
    have hlast := getLast?_take_start A (s := k.oStart) (by omega) fun h hh => by
      rcases hunk_order A hh hk with hlt | rfl | hgt <;> omega
    rw [hstart] at hlast
    rw [hcut, hzero, ← hlast]
    rfl
  · have hne : ∀ h ∈ hunks, h.oStart + h.oLength ≠ c := fun h hh heq => hends ⟨h, hh, heq⟩
    have hsame : variantStart hunks c = variantEnd hunks c := by
      apply variantStart_eq_variantEnd
      intro k hk hle
      have := hne k hk
      omega
    refine Or.inr ?_
    rw [cutAt, ← hsame]
    apply getLast?_take_start A hc
    intro h hh
    have := hfree h hh
    have := hne h hh
    omega

end

/-- A side deletes the lines right before `c`, down to a line equal to `z`. -/
def Erases (o : List α) (hunks : List Hunk) (z : α) (c : ℕ) : Prop :=
  ∃ k ∈ hunks, k.abLength = 0 ∧ k.oStart + k.oLength = c ∧ (o.take k.oStart).getLast? = some z

theorem Erases.getLast? (A : Aligned o v hunks) {z : α} {c : ℕ} (h : Erases o hunks z c) :
    (v.take (cutAt hunks c)).getLast? = some z := by
  obtain ⟨k, hk, hzero, rfl, hz⟩ := h
  have hin := A.inside k hk
  obtain ⟨hstart, hend⟩ := A.hunk_cuts k hk
  have hlast := getLast?_take_start A (s := k.oStart) (by omega) fun h hh => by
    rcases hunk_order A hh hk with hlt | rfl | hgt <;> omega
  have hcut : cutAt hunks (k.oStart + k.oLength) = k.abStart :=
    cutAt_eq (by rw [hend, hzero]; simp)
  rw [hstart, Int.toNat_natCast, hz] at hlast
  rw [hcut, hlast]

section
variable (A : Aligned o v hunks) {s e : ℕ} {h : Hunk}
include A

/-- The variant up to a region's end is its text before the region and its
segment of the region. -/
theorem take_cut_eq (hse : s ≤ e) (he : e ≤ o.length) (hw : Within hunks s e) :
    ∃ p : ℕ, variantStart hunks s = p ∧ (v.take p).getLast? = (o.take s).getLast? ∧
      v.take (cutAt hunks e) = v.take p ++ segmentFor hunks v s e := by
  obtain ⟨p, _, hp, _, _, _⟩ := A.exists_cut (Nat.le_trans hse he) (hw.free_start hse)
  obtain ⟨_, q, _, hq, _, hlen⟩ := A.exists_cut he (hw.free_end hse)
  have hpq := variantStart_le_variantEnd A hse he hw
  have hlast := getLast?_take_start A (s := s) (by omega) fun h hh => by
    have := hw h hh
    omega
  rw [hp, Int.toNat_natCast] at hlast
  refine ⟨p, hp, hlast, ?_⟩
  have hlead : ∀ r : ℕ, slice v (0 : ℕ) r = v.take r := fun r => by
    rw [slice_natCast, drop_zero]
  have hsplit := slice_append_slice v (Nat.zero_le p) (show p ≤ q by omega)
  rw [hlead, hlead] at hsplit
  rw [segmentFor, hp, cutAt_eq hq, hq, hsplit]

theorem getLast?_take_segment (hse : s ≤ e) (he : e ≤ o.length) (hw : Within hunks s e) :
    (v.take (cutAt hunks e)).getLast? =
      (segmentFor hunks v s e).getLast?.or (o.take s).getLast? := by
  obtain ⟨p, _, hlast, hsplit⟩ := take_cut_eq A hse he hw
  rw [hsplit, List.getLast?_append, hlast]

theorem segmentFor_hunk (hh : h ∈ hunks) :
    segmentFor hunks v h.oStart (h.oStart + h.oLength) = (v.drop h.abStart).take h.abLength := by
  obtain ⟨hstart, hend⟩ := A.hunk_cuts h hh
  rw [segmentFor, hstart, hend]
  have hslice := slice_natCast v h.abStart (h.abStart + h.abLength)
  push_cast at hslice
  rw [hslice, drop_take]
  congr 1
  omega

theorem segmentFor_hunk_ne_nil (hh : h ∈ hunks) (hpos : 0 < h.abLength) :
    segmentFor hunks v h.oStart (h.oStart + h.oLength) ≠ [] := by
  have hbound := (A.bounds _ (A.inside h hh) (free_of_separated A.separated hh)).2.2
  rw [(A.hunk_cuts h hh).2] at hbound
  rw [segmentFor_hunk A hh]
  apply ne_nil_of_length_pos
  rw [length_take, length_drop]
  omega

/-- An empty segment of a nonempty region is one deletion of the whole region. -/
theorem exists_deletion (hlt : s < e) (he : e ≤ o.length) (hw : Within hunks s e)
    (hempty : segmentFor hunks v s e = []) :
    ∃ k ∈ hunks, k.oStart = s ∧ k.oStart + k.oLength = e ∧ k.abLength = 0 := by
  have hse := Nat.le_of_lt hlt
  have hfs := hw.free_start hse
  have hfe := hw.free_end hse
  obtain ⟨p, _, hp, _, _, _⟩ := A.exists_cut (Nat.le_trans hse he) hfs
  obtain ⟨_, q, _, hq, _, hlen⟩ := A.exists_cut he hfe
  have hpq : q ≤ p := by
    rw [segmentFor, hp, hq, slice_natCast, drop_eq_nil_iff, length_take] at hempty
    omega
  -- a line of the region that no hunk covers would be copied into the segment
  have hcovered : ∀ line, s ≤ line → line < e →
      ∃ k ∈ hunks, k.oStart ≤ line ∧ line < k.oStart + k.oLength := by
    intro line hsl hle
    by_contra hnone
    have hkept : ∀ h ∈ hunks, h.oStart + h.oLength ≤ line ∨ line < h.oStart := by
      intro h hh
      by_contra hin
      exact hnone ⟨h, hh, by omega⟩
    obtain ⟨y, hy, hy', _⟩ := A.copied line (by omega) hkept
    have hfree : Free hunks line := fun h hh => by have := hkept h hh; omega
    have hfree' : Free hunks (line + 1) := fun h hh => by have := hkept h hh; omega
    have hleft : variantStart hunks s ≤ variantEnd hunks line := by
      rcases Nat.eq_or_lt_of_le hsl with rfl | hslt
      · exact (A.bounds s (by omega) hfs).2.1
      · have hmono := A.monotone s line hslt (by omega) hfs hfree
        have hs := (A.bounds s (by omega) hfs).2.1
        have hl := (A.bounds line (by omega) hfree).2.1
        omega
    have hright : variantStart hunks (line + 1) ≤ variantEnd hunks e := by
      rcases Nat.eq_or_lt_of_le (Nat.succ_le_of_lt hle) with heq | hlt'
      · rw [← heq]
        exact (A.bounds (line + 1) (by omega) hfree').2.1
      · have hmono := A.monotone (line + 1) e hlt' he hfree' hfe
        have hl := (A.bounds (line + 1) (by omega) hfree').2.1
        have hend := (A.bounds e he hfe).2.1
        omega
    omega
  obtain ⟨k, hk, hks, hsk⟩ := hcovered s (Nat.le_refl s) hlt
  have hin := hw k hk
  have hstart : k.oStart = s := by omega
  have hend : k.oStart + k.oLength = e := by
    by_contra hne
    obtain ⟨k', hk', hle, hgt⟩ := hcovered (k.oStart + k.oLength) (by omega) (by omega)
    rcases hunk_order A hk hk' with hlt' | rfl | hgt' <;> omega
  refine ⟨k, hk, hstart, hend, ?_⟩
  by_contra hpos
  subst hstart hend
  exact segmentFor_hunk_ne_nil A hk (Nat.pos_of_ne_zero hpos) hempty

end

variable {s e : ℕ} {lines : List α} {pre : List α}

/-- Where the lines of a region come from: a side whose opposite changed
nothing or the same, or the walk over disjoint changes. -/
inductive Choice (o a b : List α) (localHunks remoteHunks : List Hunk) (s e : ℕ)
    (lines : List α) : Prop
  | localText : lines = segmentFor localHunks a s e →
      (segmentFor remoteHunks b s e = slice o s e ∨
        segmentFor remoteHunks b s e = segmentFor localHunks a s e) →
      Choice o a b localHunks remoteHunks s e lines
  | remoteText : lines = segmentFor remoteHunks b s e →
      (segmentFor localHunks a s e = slice o s e ∨
        segmentFor localHunks a s e = segmentFor remoteHunks b s e) →
      Choice o a b localHunks remoteHunks s e lines
  | disjoint : mergeDisjointRegion localHunks remoteHunks a b s e = .ok (some lines) →
      Choice o a b localHunks remoteHunks s e lines

theorem Choice.swap (h : Choice o a b localHunks remoteHunks s e lines) :
    Choice o b a remoteHunks localHunks s e lines := by
  cases h with
  | localText hlines hother => exact .remoteText hlines hother
  | remoteText hlines hother => exact .localText hlines hother
  | disjoint hrun => exact .disjoint (by rw [mergeDisjointRegion_swap, hrun])

theorem regionLines_choice [DecidableEq α] {sides : List Side}
    (hlocal : .localSide ∉ sides → segmentFor localHunks a s e = slice o s e)
    (hremote : .remoteSide ∉ sides → segmentFor remoteHunks b s e = slice o s e)
    (hrun : regionLines o localHunks remoteHunks a b s e sides = .ok (some lines)) :
    Choice o a b localHunks remoteHunks s e lines := by
  unfold regionLines at hrun
  dsimp only at hrun
  split at hrun
  · rename_i hsame
    cases hrun
    exact .localText rfl (Or.inl (hsame.elim hremote id))
  · split at hrun
    · rename_i hsame
      cases hrun
      exact .remoteText rfl (Or.inl (hsame.elim hlocal id))
    · split at hrun
      · rename_i hsame
        cases hrun
        exact .localText rfl (Or.inr hsame.symm)
      · exact .disjoint hrun

/-- The lines end with the replacement of a hunk that ends the region. -/
def OwnedEnd (v : List α) (hunks : List Hunk) (e : ℕ) (lines : List α) : Prop :=
  ∃ h ∈ hunks, h.oStart + h.oLength = e ∧ 0 < h.oLength ∧ 0 < h.abLength ∧ lines ≠ [] ∧
    lines.getLast? = (v.take (cutAt hunks e)).getLast?

theorem OwnedEnd.prepend {v : List α} {hunks : List Hunk} (h : OwnedEnd v hunks e lines) :
    OwnedEnd v hunks e (pre ++ lines) := by
  obtain ⟨k, hk, hend, hpos, hpos', hne, hlast⟩ := h
  refine ⟨k, hk, hend, hpos, hpos', by simp [hne], ?_⟩
  rw [List.getLast?_append_of_ne_nil _ hne, hlast]

/-- One step of the walk: the last owned hunk ends the lines, and any other
one stands before the lines of the rest. -/
theorem owned_end {own opposite out : List α} {ownHunks oppositeHunks : List Hunk} {line : ℕ}
    {h : Hunk} (A : Aligned o own ownHunks) (B : Aligned o opposite oppositeHunks)
    (he : e ≤ o.length) (hbal : BalancedIn ownHunks s e) (hins : NoInsertion ownHunks s e)
    (hins' : NoInsertion oppositeHunks s e) (hs : s ≤ line) (hline : line < e)
    (hfree : Free ownHunks line) (hcover : hunkCovering ownHunks line = some h)
    (hopp : ¬ regionHasOppositeChange oppositeHunks h.oStart (h.oStart + h.oLength) = true)
    (hpos : ¬ h.abLength = 0) (hdone : h.oStart + h.oLength = e → out = [])
    (hrest : ∀ q, h.oStart + h.oLength = q → line < q → q < e → Free ownHunks q →
      Free oppositeHunks q → OwnedEnd own ownHunks e out ∨ OwnedEnd opposite oppositeHunks e out) :
    OwnedEnd own ownHunks e
        ((if h.oStart ≥ line then (own.drop h.abStart).take h.abLength else []) ++ out) ∨
      OwnedEnd opposite oppositeHunks e
        ((if h.oStart ≥ line then (own.drop h.abStart).take h.abLength else []) ++ out) := by
  have hmem : h ∈ ownHunks := mem_of_find?_eq_some hcover
  obtain ⟨q, hq, hstart, hlq, hqe, hfq, hfq', _, _⟩ :=
    owned_step A B he hbal hins hins' hs hline hfree hcover hopp
  rcases Nat.eq_or_lt_of_le hqe with rfl | hlt
  · subst hq
    have hemits := owned_emits A hfree hcover hpos
    have hsegment := segmentFor_hunk A hmem
    have hlast := getLast?_take_segment A (s := h.oStart) (by omega) he fun k hk => by
      rcases hunk_order A hk hmem with hbefore | rfl | hafter <;> omega
    refine Or.inl ⟨h, hmem, rfl, by omega, Nat.pos_of_ne_zero hpos, by simp [hemits], ?_⟩
    rw [if_pos (by omega)] at hemits ⊢
    rw [hdone rfl, append_nil, hlast, hsegment,
      List.getLast?_eq_some_getLast hemits, Option.some_or]
  · rcases hrest q hq hlq hlt hfq hfq' with hown | hother
    · exact Or.inl hown.prepend
    · exact Or.inr hother.prepend

theorem disjointWalk_end (A : Aligned o a localHunks) (B : Aligned o b remoteHunks)
    (he : e ≤ o.length) (hbalL : BalancedIn localHunks s e) (hbalR : BalancedIn remoteHunks s e)
    (hinsL : NoInsertion localHunks s e) (hinsR : NoInsertion remoteHunks s e) (fuel line : ℕ)
    (out : List α) (hs : s ≤ line) (hlt : line < e) (hfuel : e ≤ line + fuel)
    (hfL : Free localHunks line) (hfR : Free remoteHunks line)
    (hrun : disjointWalk localHunks remoteHunks a b e fuel line = .ok (some out)) :
    OwnedEnd a localHunks e out ∨ OwnedEnd b remoteHunks e out := by
  have hdone : ∀ {fuel : ℕ} {rest : List α},
      disjointWalk localHunks remoteHunks a b e fuel e = .ok (some rest) → rest = [] := by
    intro fuel rest hrest
    rw [disjointWalk_done le_rfl] at hrest
    simpa using hrest.symm
  induction fuel generalizing line out with
  | zero => omega
  | succ fuel ih =>
    obtain ⟨own, rest, hpos, hnext, ⟨hcover, -, hopp, rfl⟩ | ⟨hcover, -, hopp, rfl⟩⟩ :=
      disjointWalk_owned hlt hrun
    · refine owned_end A B he hbalL hinsL hinsR hs hlt hfL hcover hopp hpos ?_ ?_
      · intro hend
        exact hdone (hend ▸ hnext)
      · intro q hq hlq hqe hfq hfq'
        subst hq
        exact ih _ _ (by omega) hqe (by omega) hfq hfq' hnext
    · refine (owned_end B A he hbalR hinsR hinsL hs hlt hfR hcover hopp hpos ?_ ?_).symm
      · intro hend
        exact hdone (hend ▸ hnext)
      · intro q hq hlq hqe hfq hfq'
        subst hq
        exact (ih _ _ (by omega) hqe (by omega) hfq' hfq hnext).symm

/-- A rebuilt region is balanced, has no insertion, and ends with the
replacement of one side's last hunk. -/
theorem mergeDisjointRegion_end (A : Aligned o a localHunks) (B : Aligned o b remoteHunks)
    (hse : s ≤ e) (he : e ≤ o.length) (hL : Within localHunks s e) (hR : Within remoteHunks s e)
    (hrun : mergeDisjointRegion localHunks remoteHunks a b s e = .ok (some lines)) :
    BalancedIn localHunks s e ∧ BalancedIn remoteHunks s e ∧ NoInsertion localHunks s e ∧
      NoInsertion remoteHunks s e ∧
      (s < e → OwnedEnd a localHunks e lines ∨ OwnedEnd b remoteHunks e lines) := by
  obtain ⟨hbalL, hbalR, hnoL, hnoR, hwalk⟩ := mergeDisjointRegion_some hrun
  refine ⟨hbalL, hbalR, hnoL, hnoR, fun hlt => ?_⟩
  exact disjointWalk_end A B he hbalL hbalR hnoL hnoR (e - s) s lines (Nat.le_refl s) hlt
    (by omega) (hL.free_start hse) (hR.free_start hse) hwalk

/-- A replacement that ends at a cut does not end with the line behind it. -/
theorem getLast?_take_replacement (A : Aligned o v hunks) (hg : ∀ h ∈ hunks, GreedyHunk o v h)
    {k : Hunk} (hk : k ∈ hunks) (hend : k.oStart + k.oLength < o.length) (hpos : 0 < k.abLength) :
    (v.take (cutAt hunks (k.oStart + k.oLength))).getLast? ≠ o[k.oStart + k.oLength]? := by
  have hcut : cutAt hunks (k.oStart + k.oLength) = k.abStart + k.abLength :=
    cutAt_eq (by rw [(A.hunk_cuts k hk).2]; push_cast; rfl)
  have hbound := (A.bounds _ (A.inside k hk) (free_of_separated A.separated hk)).2.2
  rw [(A.hunk_cuts k hk).2] at hbound
  have hne := (hg k hk).replacement_ne hend (k.abStart + k.abLength - 1) (by omega) (by omega)
  rw [hcut, show k.abStart + k.abLength = k.abStart + k.abLength - 1 + 1 by omega,
    getLast?_take_succ (by omega)]
  exact hne

/-- The last line merged before a region's end equals the matched line behind
it exactly where the other side erased down to an equal line, provided the
first side's own last line is another one. -/
theorem region_last (A : Aligned o a localHunks) (B : Aligned o b remoteHunks)
    (hg : ∀ h ∈ remoteHunks, GreedyHunk o b h) (hse : s ≤ e) (he : e < o.length)
    (hL : Within localHunks s e) (hR : Within remoteHunks s e)
    (hchoice : Choice o a b localHunks remoteHunks s e lines)
    (hpre : pre.getLast? = (o.take s).getLast?) {z : α} (hz : o[e]? = some z)
    (hne : (a.take (cutAt localHunks e)).getLast? ≠ some z) :
    (pre ++ lines).getLast? = some z ↔ Erases o remoteHunks z e := by
  have hle := Nat.le_of_lt he
  have hlast := getLast?_take_segment A hse hle hL
  have hlast' := getLast?_take_segment B hse hle hR
  have hancestor : (slice o s e).getLast?.or (o.take s).getLast? = (o.take e).getLast? := by
    have hsplit : o.take e = o.take s ++ slice o s e := by
      rw [slice_natCast]
      conv_lhs => rw [← take_append_drop s (o.take e), take_take, Nat.min_eq_left hse]
    rw [hsplit, List.getLast?_append]
  have hself : segmentFor remoteHunks b s e = segmentFor localHunks a s e →
      lines = segmentFor localHunks a s e →
      ((pre ++ lines).getLast? = some z ↔ Erases o remoteHunks z e) := by
    intro hsame hlines
    rw [hlines, List.getLast?_append, hpre, ← hlast]
    refine ⟨fun h => absurd h hne, fun h => ?_⟩
    have hremote := h.getLast? B
    rw [hlast', hsame, ← hlast] at hremote
    exact hremote
  cases hchoice with
  | localText hlines hother =>
    rcases hother with hsame | hsame
    · rw [hlines, List.getLast?_append, hpre, ← hlast]
      refine ⟨fun h => absurd h hne, fun h => ?_⟩
      -- the remote segment is the ancestor's, which ends with the deleted line
      have hremote := h.getLast? B
      rw [hlast', hsame, hancestor] at hremote
      obtain ⟨k, hk, hzero, hend, _⟩ := h
      have hpos := (hg k hk).nonempty
      have hdeleted := (hg k hk).deleted_ne (by omega) (e - 1) (by omega) (by omega)
      have hmatched := (hg k hk).matched (by omega)
      rw [hzero, Nat.add_zero, hend] at hmatched
      rw [show e = e - 1 + 1 by omega, getLast?_take_succ (by omega)] at hremote
      rw [hremote, ← hmatched, hz] at hdeleted
      exact absurd rfl hdeleted
    · exact hself hsame hlines
  | remoteText hlines hother =>
    rcases hother with hsame | hsame
    · rw [hlines, List.getLast?_append, hpre, ← hlast']
      refine ⟨fun h => ?_, fun h => h.getLast? B⟩
      rw [hlast, hsame, hancestor] at hne
      rcases getLast?_take_cut B hle (hR.free_end hse) with ⟨k, hk, hend, _, hdeleted⟩ | hkept
      · rcases Nat.eq_zero_or_pos k.abLength with hzero | hpos
        · exact ⟨k, hk, hzero, hend, (hdeleted hzero).symm.trans h⟩
        · have hreplaced := getLast?_take_replacement B hg hk (by omega) hpos
          rw [hend, h, hz] at hreplaced
          exact absurd rfl hreplaced
      · exact absurd (hkept.symm.trans h) hne
    · exact hself hsame.symm (hlines.trans hsame.symm)
  | disjoint hrun =>
    obtain ⟨hbalL, hbalR, hnoL, hnoR, hend⟩ := mergeDisjointRegion_end A B hse hle hL hR hrun
    have hkept : ¬ Erases o remoteHunks z e := by
      rintro ⟨k, hk, hzero, hkend, _⟩
      have hpos := (hg k hk).nonempty
      have hin := hR k hk
      have := hbalR k hk (by omega) (by omega)
      omega
    refine ⟨fun h => ?_, fun h => absurd h hkept⟩
    rcases Nat.eq_or_lt_of_le hse with rfl | hlt
    · have hlines : lines = [] := by
        obtain ⟨-, -, -, -, hwalk⟩ := mergeDisjointRegion_some hrun
        rw [disjointWalk_done le_rfl] at hwalk
        simpa using hwalk.symm
      obtain ⟨p, hp, hbefore, _⟩ := take_cut_eq A (Nat.le_refl s) hle hL
      have hcut : cutAt localHunks s = p :=
        cutAt_eq ((hnoL.cuts_eq (Nat.le_refl s) (Nat.le_refl s)).symm.trans hp)
      rw [hlines, append_nil, hpre, ← hbefore, ← hcut] at h
      exact absurd h hne
    · rcases hend hlt with ⟨k, hk, hkend, _, _, hnil, hown⟩ | ⟨k, hk, hkend, _, hpos, hnil, hown⟩
      · rw [List.getLast?_append_of_ne_nil _ hnil, hown] at h
        exact absurd h hne
      · rw [List.getLast?_append_of_ne_nil _ hnil, hown] at h
        have hreplaced := getLast?_take_replacement B hg hk (by omega) hpos
        rw [hkend, h, hz] at hreplaced
        exact absurd rfl hreplaced

end Havemind.MergeTail
