import Havemind.DisjointRegion

/-!
Soundness of the three-way merge. The outer loop keeps, for both sides, the
variant position that matches its ancestor cursor, so the untouched lines
between two regions and the regions themselves are consecutive blocks of all
four texts.
-/
namespace Havemind.Diff3Soundness

open JsText LineDiff Diff3 Diff3Cuts DisjointRegion MergeBlocks List

variable {α : Type*} {o a b : List α} {localHunks remoteHunks : List Hunk} {hunks : List Hunk}
  {s e : ℕ}

/-- Every hunk of a side ends before the region, lies in it, or starts behind it. -/
def Within (hunks : List Hunk) (s e : ℕ) : Prop :=
  ∀ h ∈ hunks, h.oStart + h.oLength < s ∨ (s ≤ h.oStart ∧ h.oStart + h.oLength ≤ e) ∨ e < h.oStart

def Untouched (hunks : List Hunk) (s e : ℕ) : Prop :=
  ∀ h ∈ hunks, h.oStart + h.oLength < s ∨ e < h.oStart

theorem Within.free_start (h : Within hunks s e) (hse : s ≤ e) : Free hunks s := by
  intro k hk
  have := h k hk
  omega

theorem Within.free_end (h : Within hunks s e) (hse : s ≤ e) : Free hunks e := by
  intro k hk
  have := h k hk
  omega

/-- Without insertions a region's segment runs between the cuts of its ends. -/
theorem segmentFor_eq_slice_cutAt {v : List α} (A : Aligned o v hunks) (hse : s ≤ e)
    (he : e ≤ o.length) (hw : Within hunks s e) (hins : NoInsertion hunks s e) :
    segmentFor hunks v s e = slice v (cutAt hunks s) (cutAt hunks e) := by
  obtain ⟨_, p, _, hp, _⟩ := A.exists_cut (Nat.le_trans hse he) (hw.free_start hse)
  obtain ⟨_, q, _, hq, _⟩ := A.exists_cut he (hw.free_end hse)
  rw [segmentFor, hins.cuts_eq (Nat.le_refl s) hse, cutAt_eq hp, cutAt_eq hq, hp, hq]

section
variable {s e : ℕ} {lines : List α}

theorem mergeDisjointRegion_sound (A : Aligned o a localHunks) (B : Aligned o b remoteHunks)
    (hse : s ≤ e) (he : e ≤ o.length) (hL : Within localHunks s e) (hR : Within remoteHunks s e)
    (hrun : mergeDisjointRegion localHunks remoteHunks a b s e = .ok (some lines)) :
    JointPartition (slice o s e) (segmentFor localHunks a s e) (segmentFor remoteHunks b s e)
      lines := by
  obtain ⟨hbalL, hbalR, hinsL, hinsR, hwalk⟩ := mergeDisjointRegion_some hrun
  rw [segmentFor_eq_slice_cutAt A hse he hL hinsL, segmentFor_eq_slice_cutAt B hse he hR hinsR]
  exact disjointWalk_sound A B he hbalL hbalR hinsL hinsR (hL.free_end hse) (hR.free_end hse)
    (e - s) s lines (Nat.le_refl s) hse (by omega) (hL.free_start hse) (hR.free_start hse) hwalk

theorem mergeDisjointRegion_ne_nil (A : Aligned o a localHunks) (B : Aligned o b remoteHunks)
    (hse : s < e) (hL : Within localHunks s e) (hR : Within remoteHunks s e)
    (hrun : mergeDisjointRegion localHunks remoteHunks a b s e = .ok (some lines)) :
    lines ≠ [] := by
  obtain ⟨-, -, -, -, hwalk⟩ := mergeDisjointRegion_some hrun
  rw [show e - s = (e - s - 1) + 1 by omega] at hwalk
  exact disjointWalk_ne_nil A B (hL.free_start (Nat.le_of_lt hse))
    (hR.free_start (Nat.le_of_lt hse)) hse hwalk

variable [DecidableEq α] {sides : List Side}

/-- A region is one joint block, or the blocks of the walk over it. -/
theorem regionLines_sound (A : Aligned o a localHunks) (B : Aligned o b remoteHunks)
    (hse : s ≤ e) (he : e ≤ o.length) (hL : Within localHunks s e) (hR : Within remoteHunks s e)
    (hlocal : .localSide ∉ sides → Untouched localHunks s e)
    (hremote : .remoteSide ∉ sides → Untouched remoteHunks s e)
    (hrun : regionLines o localHunks remoteHunks a b s e sides = .ok (some lines)) :
    JointPartition (slice o s e) (segmentFor localHunks a s e) (segmentFor remoteHunks b s e)
      lines := by
  unfold regionLines at hrun
  dsimp only at hrun
  split at hrun
  · rename_i hsame
    have hseg : segmentFor remoteHunks b s e = slice o s e := by
      rcases hsame with hside | heq
      · exact B.segmentFor_untouched hse he (hremote hside)
      · exact heq
    cases hrun
    rw [hseg]
    exact JointPartition.takeLeft _ _
  · split at hrun
    · rename_i hsame
      have hseg : segmentFor localHunks a s e = slice o s e := by
        rcases hsame with hside | heq
        · exact A.segmentFor_untouched hse he (hlocal hside)
        · exact heq
      cases hrun
      rw [hseg]
      exact JointPartition.takeRight _ _
    · split at hrun
      · rename_i heq
        cases hrun
        rw [← heq]
        exact JointPartition.takeBoth _ _
      · exact mergeDisjointRegion_sound A B hse he hL hR hrun

theorem regionLines_cases
    (hrun : regionLines o localHunks remoteHunks a b s e sides = .ok (some lines)) :
    lines = segmentFor localHunks a s e ∨ lines = segmentFor remoteHunks b s e ∨
      mergeDisjointRegion localHunks remoteHunks a b s e = .ok (some lines) := by
  unfold regionLines at hrun
  dsimp only at hrun
  split at hrun
  · cases hrun
    exact Or.inl rfl
  · split at hrun
    · cases hrun
      exact Or.inr (Or.inl rfl)
    · split at hrun
      · cases hrun
        exact Or.inl rfl
      · exact Or.inr (Or.inr hrun)

end
variable {e : ℕ} {sides : List Side} {sides' : List Side} {ev first : SidedHunk}
  {events grouped : List SidedHunk}

/-- What the inner loop of `mergeText` does to the ordered events. -/
theorem groupRegion_spec (adjacency : ℕ) (regionEnd : ℕ) (sides : List Side)
    (events : List SidedHunk) {later : List SidedHunk}
    (hgroup : groupRegion adjacency regionEnd sides events = (e, sides', later)) :
    ∃ grouped, events = grouped ++ later ∧ regionEnd ≤ e ∧
      (∀ ev ∈ grouped, ev.oStart + ev.oLength ≤ e ∧ ev.side ∈ sides') ∧ sides ⊆ sides' ∧
      (∀ bound, regionEnd ≤ bound → (∀ ev ∈ events, ev.oStart + ev.oLength ≤ bound) → e ≤ bound) ∧
      (∀ ev ∈ later.head?, e + adjacency ≤ ev.oStart) := by
  induction events generalizing regionEnd sides with
  | nil =>
    cases hgroup
    exact ⟨[], rfl, Nat.le_refl _, by simp, List.Subset.refl _, fun _ h _ => h, by simp⟩
  | cons next rest ih =>
    rw [groupRegion] at hgroup
    split at hgroup
    · rename_i hfar
      cases hgroup
      exact ⟨[], rfl, Nat.le_refl _, by simp, List.Subset.refl _, fun _ h _ => h, by simpa using hfar⟩
    · obtain ⟨grouped, rfl, hend, hin, hsides, hbound, hlater⟩ := ih _ _ hgroup
      refine ⟨next :: grouped, rfl, by omega, ?_, fun x hx => hsides (mem_cons_of_mem _ hx), ?_,
        hlater⟩
      · intro ev hev
        rcases mem_cons.mp hev with rfl | hev
        · exact ⟨by omega, hsides (mem_cons_self ..)⟩
        · exact hin ev hev
      · intro bound hle hall
        have hnext := hall next (mem_cons_self ..)
        exact hbound bound (by omega) fun ev hev => hall ev (mem_cons_of_mem _ hev)

/-- With the default adjacency every ancestor line of a region belongs to one
of its hunks. -/
theorem groupRegion_covered {regionEnd : ℕ} (events : List SidedHunk) {later : List SidedHunk}
    (hgroup : groupRegion defaultAdjacencyLines regionEnd sides events = (e, sides', later)) :
    ∀ p, regionEnd ≤ p → p < e → ∃ ev ∈ events, ev.oStart ≤ p ∧ p < ev.oStart + ev.oLength := by
  induction events generalizing regionEnd sides with
  | nil =>
    cases hgroup
    intro p hle hlt
    omega
  | cons next rest ih =>
    intro p hle hlt
    rw [groupRegion] at hgroup
    split at hgroup
    · cases hgroup
      omega
    · rename_i hnear
      unfold defaultAdjacencyLines at hnear
      rcases Nat.lt_or_ge p (next.oStart + next.oLength) with hin | hout
      · exact ⟨next, mem_cons_self .., by omega, hin⟩
      · obtain ⟨ev, hev, hcover⟩ := ih hgroup p (by omega) hlt
        exact ⟨ev, mem_cons_of_mem _ hev, hcover⟩

/-- Where one side stands when the loop is at ancestor line `c`: nothing was
consumed, or every hunk behind the cut is still an event. -/
inductive Resume (hunks : List Hunk) (side : Side) (events : List SidedHunk) : ℕ → ℕ → Prop
  | fresh : (∀ h ∈ hunks, ⟨h, side⟩ ∈ events) → Resume hunks side events 0 0
  | cut {c i : ℕ} : variantEnd hunks c = i → (∀ ev ∈ events, c < ev.oStart) →
      (∀ h ∈ hunks, h.oStart + h.oLength ≤ c ∨ ⟨h, side⟩ ∈ events) →
      Resume hunks side events c i

theorem mem_sidedEvents {localHunks remoteHunks : List Hunk} :
    ev ∈ sidedEvents localHunks remoteHunks ↔
      (∃ h ∈ localHunks, (⟨h, .localSide⟩ : SidedHunk) = ev) ∨
        ∃ h ∈ remoteHunks, (⟨h, .remoteSide⟩ : SidedHunk) = ev := by
  simp [sidedEvents, mem_insertionSort]

theorem Resume.local_start (localHunks remoteHunks : List Hunk) :
    Resume localHunks .localSide (sidedEvents localHunks remoteHunks) 0 0 :=
  .fresh fun h hh => mem_sidedEvents.mpr (.inl ⟨h, hh, rfl⟩)

theorem Resume.remote_start (localHunks remoteHunks : List Hunk) :
    Resume remoteHunks .remoteSide (sidedEvents localHunks remoteHunks) 0 0 :=
  .fresh fun h hh => mem_sidedEvents.mpr (.inr ⟨h, hh, rfl⟩)

/-- The events are ordered and belong to their sides' hunks. -/
structure EventsOf (localHunks remoteHunks : List Hunk) (events : List SidedHunk) : Prop where
  ordered : events.Pairwise fun l r => l.oStart ≤ r.oStart
  of_local : ∀ ev ∈ events, ev.side = .localSide → ev.toHunk ∈ localHunks
  of_remote : ∀ ev ∈ events, ev.side = .remoteSide → ev.toHunk ∈ remoteHunks

theorem EventsOf.hunk_mem (h : EventsOf localHunks remoteHunks events) (hev : ev ∈ events) :
    ev.toHunk ∈ localHunks ∨ ev.toHunk ∈ remoteHunks := by
  cases hside : ev.side with
  | localSide => exact Or.inl (h.of_local ev hev hside)
  | remoteSide => exact Or.inr (h.of_remote ev hev hside)

theorem EventsOf.inside (A : Aligned o a localHunks) (B : Aligned o b remoteHunks)
    (h : EventsOf localHunks remoteHunks events) :
    ∀ ev ∈ events, ev.oStart + ev.oLength ≤ o.length := by
  intro ev hev
  cases hside : ev.side with
  | localSide => exact A.inside _ (h.of_local ev hev hside)
  | remoteSide => exact B.inside _ (h.of_remote ev hev hside)

theorem before_total (l r : SidedHunk) : l.before r ∨ r.before l := by
  unfold SidedHunk.before
  cases l.side <;> cases r.side <;> simp <;> omega

theorem before_trans (l r t : SidedHunk) (hlr : l.before r) (hrt : r.before t) : l.before t := by
  unfold SidedHunk.before at *
  cases hl : l.side <;> cases hr : r.side <;> cases ht : t.side <;> simp_all <;> omega

theorem sidedEvents_eventsOf (localHunks remoteHunks : List Hunk) :
    EventsOf localHunks remoteHunks (sidedEvents localHunks remoteHunks) := by
  have : Std.Total SidedHunk.before := ⟨before_total⟩
  have : IsTrans SidedHunk SidedHunk.before := ⟨before_trans⟩
  refine ⟨(pairwise_insertionSort SidedHunk.before _).imp ?_, ?_, ?_⟩
  · intro l r hlr
    unfold SidedHunk.before at hlr
    omega
  · intro ev hev hside
    rcases mem_sidedEvents.mp hev with ⟨h, hh, rfl⟩ | ⟨h, hh, rfl⟩
    · exact hh
    · cases hside
  · intro ev hev hside
    rcases mem_sidedEvents.mp hev with ⟨h, hh, rfl⟩ | ⟨h, hh, rfl⟩
    · cases hside
    · exact hh

/-- One region of the outer loop: where it cuts the events. -/
structure RegionOf (first : SidedHunk) (grouped later : List SidedHunk) (e : ℕ)
    (sides : List Side) : Prop where
  ordered : (first :: (grouped ++ later)).Pairwise fun l r => l.oStart ≤ r.oStart
  grouped_in : ∀ ev ∈ first :: grouped, ev.oStart + ev.oLength ≤ e ∧ ev.side ∈ sides
  later_out : ∀ ev ∈ later, e < ev.oStart

theorem RegionOf.start_le_end {later : List SidedHunk} (R : RegionOf first grouped later e sides) :
    first.oStart ≤ e := by
  have := (R.grouped_in first (mem_cons_self ..)).1
  omega

theorem RegionOf.first_le {later : List SidedHunk} (R : RegionOf first grouped later e sides) :
    ∀ ev ∈ first :: (grouped ++ later), first.oStart ≤ ev.oStart := by
  intro ev hev
  rcases mem_cons.mp hev with rfl | hrest
  · exact Nat.le_refl _
  · exact rel_of_pairwise_cons R.ordered hrest

section
variable {v : List α} {hunks : List Hunk} {side : Side} {first : SidedHunk}
  {grouped later : List SidedHunk} {e c i : ℕ} {sides : List Side}

theorem Resume.hunk_cases (R : RegionOf first grouped later e sides)
    (hr : Resume hunks side (first :: (grouped ++ later)) c i) {h : Hunk} (hh : h ∈ hunks) :
    (h.oStart + h.oLength ≤ c ∧ c < first.oStart) ∨
      (side ∈ sides ∧ first.oStart ≤ h.oStart ∧ h.oStart + h.oLength ≤ e) ∨
      ((⟨h, side⟩ : SidedHunk) ∈ later ∧ e < h.oStart) := by
  have hevent : (⟨h, side⟩ : SidedHunk) ∈ first :: (grouped ++ later) →
      (side ∈ sides ∧ first.oStart ≤ h.oStart ∧ h.oStart + h.oLength ≤ e) ∨
        ((⟨h, side⟩ : SidedHunk) ∈ later ∧ e < h.oStart) := by
    intro hev
    have hstart : first.oStart ≤ h.oStart := R.first_le _ hev
    rw [← cons_append] at hev
    rcases mem_append.mp hev with hin | hout
    · obtain ⟨hend, hside⟩ := R.grouped_in _ hin
      exact Or.inl ⟨hside, hstart, hend⟩
    · exact Or.inr ⟨hout, R.later_out _ hout⟩
  cases hr with
  | fresh hall => exact Or.inr (hevent (hall h hh))
  | cut _ hbehind hall =>
    rcases hall h hh with hdone | hev
    · exact Or.inl ⟨hdone, hbehind first (mem_cons_self ..)⟩
    · exact Or.inr (hevent hev)

/-- Every hunk is done, or starts no earlier than the next event. -/
theorem Resume.pending {rest : List SidedHunk} (hr : Resume hunks side (first :: rest) c i)
    (hord : (first :: rest).Pairwise fun l r => l.oStart ≤ r.oStart) :
    ∀ h ∈ hunks, h.oStart + h.oLength ≤ c ∨ first.oStart ≤ h.oStart := by
  have hleast : ∀ ev ∈ first :: rest, first.oStart ≤ ev.oStart := by
    intro ev hev
    rcases mem_cons.mp hev with rfl | hev
    · exact Nat.le_refl _
    · exact rel_of_pairwise_cons hord hev
  intro h hh
  cases hr with
  | fresh hall => exact .inr (hleast _ (hall h hh))
  | cut _ _ hall => exact (hall h hh).imp_right fun hev => hleast _ hev

theorem Resume.done (hr : Resume hunks side [] c i) :
    ∀ h ∈ hunks, h.oStart + h.oLength ≤ c := by
  intro h hh
  cases hr with
  | fresh hall => exact absurd (hall h hh) not_mem_nil
  | cut _ _ hall => exact (hall h hh).resolve_right not_mem_nil

theorem Resume.within (R : RegionOf first grouped later e sides)
    (hr : Resume hunks side (first :: (grouped ++ later)) c i) : Within hunks first.oStart e := by
  intro h hh
  have := hr.hunk_cases R hh
  omega

theorem Resume.untouched (R : RegionOf first grouped later e sides)
    (hr : Resume hunks side (first :: (grouped ++ later)) c i) (hside : side ∉ sides) :
    Untouched hunks first.oStart e := by
  intro h hh
  rcases hr.hunk_cases R hh with hdone | ⟨hin, _⟩ | hlater
  · omega
  · exact absurd hin hside
  · omega

/-- The untouched lines before the region are copied. -/
theorem Resume.copied (A : Aligned o v hunks) (R : RegionOf first grouped later e sides)
    (hr : Resume hunks side (first :: (grouped ++ later)) c i) (he : e ≤ o.length) :
    c ≤ first.oStart ∧ ∃ p : ℕ, variantStart hunks first.oStart = p ∧ i ≤ p ∧
      slice v i p = slice o c first.oStart := by
  have hcases := fun h hh => hr.hunk_cases R (h := h) hh
  have hse := R.start_le_end
  have hout : ∀ h ∈ hunks, h.oStart + h.oLength ≤ c ∨ first.oStart ≤ h.oStart := by
    intro h hh
    have := hcases h hh
    omega
  cases hr with
  | fresh hall =>
    have hbehind : ∀ h ∈ hunks, first.oStart ≤ h.oStart := fun h hh => R.first_le _ (hall h hh)
    refine ⟨Nat.zero_le _, first.oStart, variantStart_of_le hunks _ hbehind, Nat.zero_le _, ?_⟩
    rcases Nat.eq_zero_or_pos first.oStart with hzero | hpos
    · rw [hzero, slice_self, slice_self]
    · obtain ⟨y, hy, _, hslice⟩ := A.gap hpos (by omega) hout
      rw [variantEnd_of_lt hunks 0 fun h hh => by have := hbehind h hh; omega] at hy
      have hy0 : y = 0 := by omega
      subst hy0
      simpa using hslice
  | cut hcut hbehind _ =>
    have hlt := hbehind first (mem_cons_self ..)
    obtain ⟨y, hy, hstart, hslice⟩ := A.gap hlt (by omega) hout
    have hyi : y = i := by omega
    subst hyi
    exact ⟨Nat.le_of_lt hlt, _, hstart, by omega, hslice⟩

theorem Resume.next (R : RegionOf first grouped later e sides)
    (hr : Resume hunks side (first :: (grouped ++ later)) c i) {q : ℕ}
    (hq : variantEnd hunks e = q) : Resume hunks side later e q := by
  refine .cut hq R.later_out ?_
  intro h hh
  have hse := R.start_le_end
  rcases hr.hunk_cases R hh with hdone | ⟨_, _, hend⟩ | ⟨hlater, _⟩
  · exact Or.inl (by omega)
  · exact Or.inl hend
  · exact Or.inr hlater

theorem variantStart_le_variantEnd (A : Aligned o v hunks) {s : ℕ} (hse : s ≤ e) (he : e ≤ o.length)
    (hw : Within hunks s e) : variantStart hunks s ≤ variantEnd hunks e := by
  have hs := (A.bounds s (by omega) (hw.free_start hse)).2.1
  rcases Nat.eq_or_lt_of_le hse with rfl | hlt
  · exact hs
  · have hmono := A.monotone s e hlt he (hw.free_start hse) (hw.free_end hse)
    have hend := (A.bounds e he (hw.free_end hse)).2.1
    omega

/-- Behind the last event the rest of the variant is the rest of the ancestor. -/
theorem Resume.tail (A : Aligned o v hunks) (hc : c ≤ o.length) (hr : Resume hunks side [] c i) :
    v.drop i = o.drop c := by
  have hdone := hr.done
  have hcut : variantEnd hunks c = i := by
    cases hr with
    | fresh hall =>
      have hnone : hunks = [] :=
        eq_nil_iff_forall_not_mem.mpr fun h hh => not_mem_nil (hall h hh)
      rw [hnone]
      simp
    | cut hcut _ _ => exact hcut
  rcases Nat.eq_or_lt_of_le hc with rfl | hlt
  · have hi : i = v.length := by
      have := A.end_length
      omega
    rw [hi, drop_length, drop_length]
  · obtain ⟨y, hy, hstart, hslice⟩ := A.gap hlt (Nat.le_refl _) fun h hh => Or.inl (hdone h hh)
    have hsame : variantStart hunks o.length = variantEnd hunks o.length := by
      apply variantStart_eq_variantEnd
      intro h hh _
      have := hdone h hh
      omega
    have hlen := A.end_length
    have hyi : y = i := by omega
    subst hyi
    rw [show y + (o.length - c) = v.length by omega] at hslice
    simpa only [slice_natCast, take_length] using hslice

end
variable {first : SidedHunk} {adjacency e : ℕ} {rest : List SidedHunk} {sides : List Side}

theorem regionOf_groupRegion (hadj : 1 ≤ adjacency) {later : List SidedHunk}
    (hord : (first :: rest).Pairwise fun l r => l.oStart ≤ r.oStart)
    (hgroup : groupRegion adjacency (first.oStart + first.oLength) [first.side] rest =
      (e, sides, later)) :
    ∃ grouped, rest = grouped ++ later ∧ RegionOf first grouped later e sides := by
  obtain ⟨grouped, rfl, hend, hin, hsides, _, hlater⟩ := groupRegion_spec _ _ _ _ hgroup
  refine ⟨grouped, rfl, hord, ?_, ?_⟩
  · intro ev hev
    rcases mem_cons.mp hev with rfl | hev
    · exact ⟨hend, hsides (mem_singleton_self _)⟩
    · exact hin ev hev
  · cases later with
    | nil => simp
    | cons next later =>
      have hnext := hlater next rfl
      have hrest := (pairwise_append.mp (pairwise_cons.mp hord).2).2.1
      intro ev hev
      rcases mem_cons.mp hev with rfl | hev
      · omega
      · have := rel_of_pairwise_cons hrest hev
        omega

theorem EventsOf.later {grouped later : List SidedHunk}
    (h : EventsOf localHunks remoteHunks (first :: (grouped ++ later))) :
    EventsOf localHunks remoteHunks later := by
  have hsub : List.Sublist later (first :: (grouped ++ later)) :=
    (sublist_append_right grouped later).cons first
  exact ⟨h.ordered.sublist hsub, fun ev hev => h.of_local ev (hsub.subset hev),
    fun ev hev => h.of_remote ev (hsub.subset hev)⟩

theorem EventsOf.end_le (A : Aligned o a localHunks) (B : Aligned o b remoteHunks)
    {later : List SidedHunk} (h : EventsOf localHunks remoteHunks (first :: rest))
    (hgroup : groupRegion adjacency (first.oStart + first.oLength) [first.side] rest =
      (e, sides, later)) : e ≤ o.length := by
  obtain ⟨_, _, _, _, _, hbound, _⟩ := groupRegion_spec _ _ _ _ hgroup
  have hin := h.inside A B
  exact hbound _ (hin first mem_cons_self) fun ev hev => hin ev (mem_cons_of_mem _ hev)

section
variable [DecidableEq α] {adjacency : ℕ} {fuel c : ℕ} {m : List α} {events : List SidedHunk}
  {i j : ℕ}

/-- One step of the outer loop: the copied lines, the region's lines, and the
run from the region's end. -/
structure RegionStep (o a b : List α) (localHunks remoteHunks : List Hunk)
    (adjacency fuel c i j s : ℕ) (m : List α) (e i' j' : ℕ) (later : List SidedHunk)
    (lines m' : List α) : Prop where
  start_le_end : s ≤ e
  end_le : e ≤ o.length
  events : EventsOf localHunks remoteHunks later
  local_resume : Resume localHunks .localSide later e i'
  remote_resume : Resume remoteHunks .remoteSide later e j'
  local_within : Within localHunks s e
  remote_within : Within remoteHunks s e
  region : ∃ sides, (.localSide ∉ sides → Untouched localHunks s e) ∧
    (.remoteSide ∉ sides → Untouched remoteHunks s e) ∧
    regionLines o localHunks remoteHunks a b s e sides = .ok (some lines)
  run : mergeRegions o localHunks remoteHunks a b adjacency fuel e later = .ok (some m')
  merged : m = slice o c s ++ lines ++ m'
  later_out : ∀ ev ∈ later, e < ev.oStart
  join : JointPartition (o.drop e) (a.drop i') (b.drop j') m' →
    JointPartition (o.drop c) (a.drop i) (b.drop j) m

theorem mergeRegions_step (hadj : 1 ≤ adjacency) (A : Aligned o a localHunks)
    (B : Aligned o b remoteHunks) {first : SidedHunk} {rest : List SidedHunk}
    (hev : EventsOf localHunks remoteHunks (first :: rest))
    (hL : Resume localHunks .localSide (first :: rest) c i)
    (hR : Resume remoteHunks .remoteSide (first :: rest) c j)
    (hrun : mergeRegions o localHunks remoteHunks a b adjacency (fuel + 1) c (first :: rest) =
      .ok (some m)) :
    ∃ e i' j' later lines m', later.length ≤ rest.length ∧
      RegionStep o a b localHunks remoteHunks adjacency fuel c i j first.oStart m e i' j' later
        lines m' := by
  rw [mergeRegions] at hrun
  rcases hgroup : groupRegion adjacency (first.oStart + first.oLength) [first.side] rest with
    ⟨e, sides, later⟩
  rw [hgroup] at hrun
  dsimp only at hrun
  have he := hev.end_le A B hgroup
  obtain ⟨grouped, rfl, R⟩ := regionOf_groupRegion hadj hev.ordered hgroup
  have hse := R.start_le_end
  have hwL := hL.within R
  have hwR := hR.within R
  obtain ⟨hcs, p, hp, hip, hgapL⟩ := hL.copied A R he
  obtain ⟨_, p', hp', hjp', hgapR⟩ := hR.copied B R he
  obtain ⟨_, q, _, hq, _, _⟩ := A.exists_cut he (hwL.free_end hse)
  obtain ⟨_, q', _, hq', _, _⟩ := B.exists_cut he (hwR.free_end hse)
  split at hrun
  · cases hrun
  · cases hrun
  · rename_i lines hlines
    obtain ⟨m', hnext, rfl⟩ := eq_ok_some_of_map hrun
    refine ⟨e, q, q', later, lines, m', by simp, hse, he, hev.later, hL.next R hq, hR.next R hq',
      hwL, hwR, ⟨sides, hL.untouched R, hR.untouched R, hlines⟩, hnext, rfl, R.later_out, ?_⟩
    intro hrest
    have hregion := regionLines_sound A B hse he hwL hwR (hL.untouched R) (hR.untouched R) hlines
    have hpq := variantStart_le_variantEnd A hse he hwL
    have hpq' := variantStart_le_variantEnd B hse he hwR
    rw [segmentFor, segmentFor, hp, hq, hp', hq'] at hregion
    rw [hp, hq] at hpq
    rw [hp', hq'] at hpq'
    rw [← slice_append_drop o hcs, ← slice_append_drop o hse,
      ← slice_append_drop a hip, ← slice_append_drop a (Int.ofNat_le.mp hpq),
      ← slice_append_drop b hjp', ← slice_append_drop b (Int.ofNat_le.mp hpq'), hgapL, hgapR,
      append_assoc (slice o c first.oStart)]
    exact (JointPartition.takeLeft _ _).append (hregion.append hrest)

theorem mergeRegions_sound (hadj : 1 ≤ adjacency) (A : Aligned o a localHunks)
    (B : Aligned o b remoteHunks) (hc : c ≤ o.length) (hfuel : events.length ≤ fuel)
    (hev : EventsOf localHunks remoteHunks events) (hL : Resume localHunks .localSide events c i)
    (hR : Resume remoteHunks .remoteSide events c j)
    (hrun : mergeRegions o localHunks remoteHunks a b adjacency fuel c events = .ok (some m)) :
    JointPartition (o.drop c) (a.drop i) (b.drop j) m := by
  induction fuel generalizing c i j events m with
  | zero =>
    have hnil : events = [] := length_eq_zero_iff.mp (Nat.le_zero.mp hfuel)
    subst hnil
    simp only [mergeRegions, Except.ok.injEq, Option.some.injEq] at hrun
    rw [hL.tail A hc, hR.tail B hc, hrun]
    exact JointPartition.takeLeft _ _
  | succ fuel ih =>
    cases events with
    | nil =>
      simp only [mergeRegions, Except.ok.injEq, Option.some.injEq] at hrun
      rw [hL.tail A hc, hR.tail B hc, hrun]
      exact JointPartition.takeLeft _ _
    | cons first rest =>
      obtain ⟨e, i', j', later, lines, m', hlen, S⟩ := mergeRegions_step hadj A B hev hL hR hrun
      rw [length_cons] at hfuel
      exact S.join (ih S.end_le (by omega) S.events S.local_resume S.remote_resume S.run)

/-- A run that still has untouched lines before its next event emits one. -/
theorem mergeRegions_keeps (hc : c < o.length) (hbehind : ∀ ev ∈ events, c < ev.oStart)
    (hrun : mergeRegions o localHunks remoteHunks a b adjacency fuel c events = .ok (some m)) :
    m ≠ [] := by
  have hdrop : o.drop c ≠ [] := by simpa [drop_eq_nil_iff] using hc
  cases fuel with
  | zero =>
    simp only [mergeRegions, Except.ok.injEq, Option.some.injEq] at hrun
    exact hrun ▸ hdrop
  | succ fuel =>
    cases events with
    | nil =>
      simp only [mergeRegions, Except.ok.injEq, Option.some.injEq] at hrun
      exact hrun ▸ hdrop
    | cons first rest =>
      have hfirst := hbehind first (mem_cons_self ..)
      rw [mergeRegions] at hrun
      dsimp only at hrun
      split at hrun
      · cases hrun
      · cases hrun
      · obtain ⟨m', _, rfl⟩ := eq_ok_some_of_map hrun
        rw [slice_succ o (List.getElem?_eq_getElem hc) hfirst]
        simp

/-- The merge of nonempty line lists is not empty. -/
theorem mergeRegions_ne_nil (hadj : 1 ≤ adjacency) (A : Aligned o a localHunks)
    (B : Aligned o b remoteHunks) (ho : o ≠ []) (ha : a ≠ []) (hb : b ≠ [])
    (hev : EventsOf localHunks remoteHunks events) (hL : Resume localHunks .localSide events 0 0)
    (hR : Resume remoteHunks .remoteSide events 0 0) (hfuel : events.length ≤ fuel)
    (hrun : mergeRegions o localHunks remoteHunks a b adjacency fuel 0 events = .ok (some m)) :
    m ≠ [] := by
  have hpos : 0 < o.length := length_pos_iff.mpr ho
  cases events with
  | nil => exact mergeRegions_keeps hpos (by simp) hrun
  | cons first rest =>
    rcases Nat.eq_zero_or_pos first.oStart with hzero | hfirst
    · cases fuel with
      | zero => simp at hfuel
      | succ fuel =>
        obtain ⟨e, i', j', later, lines, m', _, S⟩ := mergeRegions_step hadj A B hev hL hR hrun
        rw [S.merged]
        rcases Nat.lt_or_ge e o.length with hlt | hge
        · have := mergeRegions_keeps hlt S.later_out S.run
          simp [this]
        · have hend : e = o.length := Nat.le_antisymm S.end_le hge
          have hwhole : ∀ {v : List α} {hunks : List Hunk}, Aligned o v hunks →
              segmentFor hunks v first.oStart e = v := by
            intro v hunks V
            have hlen := slice_natCast v 0 v.length
            rw [segmentFor, hzero, hend, V.end_length,
              variantStart_of_le hunks 0 fun k _ => Nat.zero_le _, hlen]
            simp
          have hlines : lines ≠ [] := by
            obtain ⟨sides, -, -, hregion⟩ := S.region
            rcases regionLines_cases hregion with rfl | rfl | hdisjoint
            · rw [hwhole A]
              exact ha
            · rw [hwhole B]
              exact hb
            · exact mergeDisjointRegion_ne_nil A B (by omega) S.local_within S.remote_within
                hdisjoint
          simp [hlines]
    · refine mergeRegions_keeps hpos ?_ hrun
      intro ev hmem
      rcases mem_cons.mp hmem with rfl | hmem
      · exact hfirst
      · have := rel_of_pairwise_cons hev.ordered hmem
        omega

theorem mergeLines_sound (hadj : 1 ≤ adjacency) (ho : o ≠ []) (ha : a ≠ []) (hb : b ≠ [])
    (hrun : mergeLines adjacency o a b = .ok (some m)) : JointPartition o a b m ∧ m ≠ [] := by
  have A := diffHunks_aligned o a
  have B := diffHunks_aligned o b
  have hev := sidedEvents_eventsOf (diffHunks o a) (diffHunks o b)
  have hL := Resume.local_start (diffHunks o a) (diffHunks o b)
  have hR := Resume.remote_start (diffHunks o a) (diffHunks o b)
  have hfuel := Nat.le_refl (sidedEvents (diffHunks o a) (diffHunks o b)).length
  refine ⟨?_, mergeRegions_ne_nil hadj A B ho ha hb hev hL hR hfuel hrun⟩
  simpa using mergeRegions_sound hadj A B (Nat.zero_le _) hfuel hev hL hR hrun

end

/-- The lines of a merged text are those the merge of the lines returned. -/
theorem lines_of_merged {ancestor localText remoteText text : JsString} {options : Diff3Options}
    (hadj : 1 ≤ options.adjacencyLines.getD defaultAdjacencyLines)
    (h : mergeText ancestor localText remoteText options = .ok (.merged text)) :
    mergeLines (options.adjacencyLines.getD defaultAdjacencyLines) (splitLines ancestor)
        (splitLines localText) (splitLines remoteText) = .ok (some (splitLines text)) ∧
      JointPartition (splitLines ancestor) (splitLines localText) (splitLines remoteText)
        (splitLines text) := by
  unfold mergeText at h
  dsimp only at h
  split at h
  · cases h
  · cases hrun : mergeLines (options.adjacencyLines.getD defaultAdjacencyLines)
        (splitLines ancestor) (splitLines localText) (splitLines remoteText) with
    | error e => rw [hrun] at h; cases h
    | ok result =>
      rw [hrun] at h
      cases result with
      | none => cases h
      | some lines =>
        obtain ⟨hjoint, hne⟩ := mergeLines_sound hadj (splitLines_ne_nil ancestor)
          (splitLines_ne_nil localText) (splitLines_ne_nil remoteText) hrun
        have hline : ∀ line ∈ lines, lineFeed ∉ line := by
          intro line hmem
          rcases hjoint.mem_of_mem_merged hmem with hlocal | hremote
          · exact lineFeed_notMem_of_mem_splitLines localText line hlocal
          · exact lineFeed_notMem_of_mem_splitLines remoteText line hremote
        simp only [Except.map, Except.ok.injEq, Diff3MergeResult.merged.injEq] at h
        subst h
        rw [splitLines_joinLines hne hline]
        exact ⟨rfl, hjoint⟩

/-- A merged text is a joint partition of the three texts: each block is the
text of the only side that changed it, or the common text of both sides. -/
theorem mergeText_sound (ancestor localText remoteText text : JsString)
    (h : mergeText ancestor localText remoteText = .ok (.merged text)) :
    JointPartition (splitLines ancestor) (splitLines localText) (splitLines remoteText)
      (splitLines text) ∧
    ∀ line ∈ splitLines text, line ∈ splitLines localText ∨ line ∈ splitLines remoteText := by
  obtain ⟨-, hjoint⟩ := lines_of_merged (Nat.le_refl _) h
  exact ⟨hjoint, fun line hmem => hjoint.mem_of_mem_merged hmem⟩

/-- Both sides edit one of two neighbouring lines, and both edits are kept. -/
theorem mergeText_sound_neighbours :
    JointPartition (splitLines [97, 10, 98]) (splitLines [99, 10, 98]) (splitLines [97, 10, 100])
      (splitLines [99, 10, 100]) ∧
    ∀ line ∈ splitLines [99, 10, 100],
      line ∈ splitLines [99, 10, 98] ∨ line ∈ splitLines [97, 10, 100] :=
  mergeText_sound [97, 10, 98] [99, 10, 98] [97, 10, 100] [99, 10, 100] (by decide)

end Havemind.Diff3Soundness
