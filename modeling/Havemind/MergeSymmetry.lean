import Havemind.Diff3Soundness

/-!
Independent merges of two heads converge. The code treats the sides in
different positions: the local events come first at equal ancestor lines, and
every branch of a region looks at one side before the other. Swapping the
sides permutes events of one ancestor line only, a region's end is the least
line that closes its events, and each branch of a region has its mirror.
-/
namespace Havemind.MergeSymmetry

open JsText LineDiff Diff3 Diff3Cuts Diff3Soundness List

variable {α : Type*} {o a b : List α} {localHunks remoteHunks : List Hunk}

theorem disjointWalk_swap (a b : List α) (localHunks remoteHunks : List Hunk)
    (regionEnd fuel line : ℕ) :
    disjointWalk remoteHunks localHunks b a regionEnd fuel line =
      disjointWalk localHunks remoteHunks a b regionEnd fuel line := by
  induction fuel generalizing line with
  | zero => rw [disjointWalk, disjointWalk]
  | succ fuel ih =>
    rw [disjointWalk, disjointWalk]
    simp only [ih]
    cases hunkCovering localHunks line <;> cases hunkCovering remoteHunks line <;> simp only

theorem mergeDisjointRegion_swap (a b : List α) (localHunks remoteHunks : List Hunk) (s e : ℕ) :
    mergeDisjointRegion remoteHunks localHunks b a s e =
      mergeDisjointRegion localHunks remoteHunks a b s e := by
  unfold mergeDisjointRegion
  rw [Bool.or_comm, disjointWalk_swap]
  simp only [or_comm]

/-- The branches of a region are mirror images once an absent side has the
ancestor's lines. -/
theorem regionLines_swap [DecidableEq α] {s e : ℕ} {sides sides' : List Side}
    (hlocal : .localSide ∉ sides → segmentFor localHunks a s e = slice o s e)
    (hremote : .remoteSide ∉ sides → segmentFor remoteHunks b s e = slice o s e)
    (hlocal' : .remoteSide ∉ sides' → segmentFor localHunks a s e = slice o s e)
    (hremote' : .localSide ∉ sides' → segmentFor remoteHunks b s e = slice o s e) :
    regionLines o remoteHunks localHunks b a s e sides' =
      regionLines o localHunks remoteHunks a b s e sides := by
  have habsorb : ∀ {p q : Prop}, (p → q) → (p ∨ q ↔ q) := fun h => ⟨fun hpq => hpq.elim h id, Or.inr⟩
  unfold regionLines
  simp only [habsorb hlocal, habsorb hremote, habsorb hlocal', habsorb hremote',
    mergeDisjointRegion_swap]
  by_cases hL : segmentFor localHunks a s e = slice o s e
  · by_cases hR : segmentFor remoteHunks b s e = slice o s e
    · rw [if_pos hL, if_pos hR, hL, hR]
    · rw [if_pos hL, if_neg hR, if_pos hL]
  · by_cases hR : segmentFor remoteHunks b s e = slice o s e
    · rw [if_neg hL, if_pos hR, if_pos hR]
    · rw [if_neg hL, if_neg hR, if_neg hR, if_neg hL]
      by_cases hsame : segmentFor localHunks a s e = segmentFor remoteHunks b s e
      · rw [if_pos hsame.symm, if_pos hsame, hsame]
      · rw [if_neg fun h => hsame h.symm, if_neg hsame]

variable {events events' later : List SidedHunk} {adjacency e : ℕ} {sides : List Side}

def opposite : Side → Side
  | .localSide => .remoteSide
  | .remoteSide => .localSide

/-- The event of the same hunk when the two texts change places. -/
def mirrored (ev : SidedHunk) : SidedHunk := ⟨ev.toHunk, opposite ev.side⟩

theorem mirrored_mirrored (ev : SidedHunk) : mirrored (mirrored ev) = ev := by
  rcases ev with ⟨hunk, side⟩
  cases side <;> rfl

/-- Two ordered event lists that hold each other's mirrored events. -/
structure Mirrored (events events' : List SidedHunk) : Prop where
  ordered : events.Pairwise fun l r => l.oStart ≤ r.oStart
  ordered' : events'.Pairwise fun l r => l.oStart ≤ r.oStart
  perm : (events.map mirrored).Perm events'

theorem Mirrored.symm (h : Mirrored events events') : Mirrored events' events := by
  refine ⟨h.ordered', h.ordered, ?_⟩
  have hback := (h.perm.map mirrored).symm
  rw [map_map] at hback
  have hid : mirrored ∘ mirrored = id := funext mirrored_mirrored
  rwa [hid, map_id] at hback

theorem Mirrored.mem (h : Mirrored events events') {ev : SidedHunk} (hev : ev ∈ events) :
    mirrored ev ∈ events' :=
  h.perm.subset (mem_map_of_mem hev)

/-- A region of the ordered events: its end is the least line from the first
event on that closes the events before it, and nothing but its events decides
which sides it has. -/
structure Region (adjacency : ℕ) (events : List SidedHunk) (e : ℕ) (sides : List Side)
    (later : List SidedHunk) : Prop where
  starts : ∀ ev ∈ events.head?, ev.oStart < e + adjacency
  closed : ∀ ev ∈ events, ev.oStart < e + adjacency → ev.oStart + ev.oLength ≤ e
  least : ∀ bound, (∀ ev ∈ events.head?, ev.oStart + ev.oLength ≤ bound) →
    (∀ ev ∈ events, ev.oStart < bound + adjacency → ev.oStart + ev.oLength ≤ bound) → e ≤ bound
  sides_iff : ∀ side, side ∈ sides ↔ ∃ ev ∈ events, ev.oStart < e + adjacency ∧ ev.side = side
  later_eq : later = events.filter fun ev => e + adjacency ≤ ev.oStart

theorem groupRegion_region (events : List SidedHunk)
    (hord : events.Pairwise fun l r => l.oStart ≤ r.oStart) (regionEnd : ℕ) (seen : List Side)
    (hgroup : groupRegion adjacency regionEnd seen events = (e, sides, later)) :
    regionEnd ≤ e ∧
    (∀ ev ∈ events, ev.oStart < e + adjacency → ev.oStart + ev.oLength ≤ e) ∧
    (∀ bound, regionEnd ≤ bound → (∀ ev ∈ events, ev.oStart < bound + adjacency →
      ev.oStart + ev.oLength ≤ bound) → e ≤ bound) ∧
    (∀ side, side ∈ sides ↔
      side ∈ seen ∨ ∃ ev ∈ events, ev.oStart < e + adjacency ∧ ev.side = side) ∧
    later = events.filter fun ev => e + adjacency ≤ ev.oStart := by
  induction events generalizing regionEnd seen with
  | nil =>
    cases hgroup
    exact ⟨Nat.le_refl _, by simp, fun _ h _ => h, by simp, rfl⟩
  | cons next rest ih =>
    obtain ⟨hnext, hrest⟩ := pairwise_cons.mp hord
    rw [groupRegion] at hgroup
    split at hgroup
    · rename_i hfar
      cases hgroup
      have hall : ∀ ev ∈ next :: rest, e + adjacency ≤ ev.oStart := by
        intro ev hev
        rcases mem_cons.mp hev with rfl | hev
        · exact hfar
        · have := hnext ev hev
          omega
      refine ⟨Nat.le_refl _, ?_, fun _ h _ => h, ?_, ?_⟩
      · intro ev hev hlt
        have := hall ev hev
        omega
      · intro side
        refine ⟨Or.inl, ?_⟩
        rintro (hseen | ⟨ev, hev, hlt, _⟩)
        · exact hseen
        · have := hall ev hev
          omega
      · refine (filter_eq_self.mpr ?_).symm
        intro ev hev
        simpa using hall ev hev
    · rename_i hnear
      obtain ⟨hend, hclosed, hleast, hsides, hlater⟩ := ih hrest _ _ hgroup
      have hin : next.oStart < e + adjacency := by omega
      refine ⟨by omega, ?_, ?_, ?_, ?_⟩
      · intro ev hev hlt
        rcases mem_cons.mp hev with rfl | hev
        · omega
        · exact hclosed ev hev hlt
      · intro bound hbound hall
        have hfirst := hall next (mem_cons_self ..) (by omega)
        exact hleast bound (by omega) fun ev hev => hall ev (mem_cons_of_mem _ hev)
      · intro side
        rw [hsides side, mem_cons, exists_mem_cons_iff]
        constructor
        · rintro ((rfl | hseen) | hev)
          · exact Or.inr (Or.inl ⟨hin, rfl⟩)
          · exact Or.inl hseen
          · exact Or.inr (Or.inr hev)
        · rintro (hseen | ⟨_, rfl⟩ | hev)
          · exact Or.inl (Or.inr hseen)
          · exact Or.inl (Or.inl rfl)
          · exact Or.inr hev
      · rw [hlater, filter_cons_of_neg (by simpa using hin)]

theorem region_groupRegion (hadj : 1 ≤ adjacency) {first : SidedHunk} {rest : List SidedHunk}
    (hord : (first :: rest).Pairwise fun l r => l.oStart ≤ r.oStart)
    (hgroup : groupRegion adjacency (first.oStart + first.oLength) [first.side] rest =
      (e, sides, later)) : Region adjacency (first :: rest) e sides later := by
  obtain ⟨hend, hclosed, hleast, hsides, hlater⟩ :=
    groupRegion_region rest (pairwise_cons.mp hord).2 _ _ hgroup
  have hin : first.oStart < e + adjacency := by omega
  refine ⟨by simpa using hin, ?_, ?_, ?_, ?_⟩
  · intro ev hev hlt
    rcases mem_cons.mp hev with rfl | hev
    · exact hend
    · exact hclosed ev hev hlt
  · intro bound hfirst hall
    exact hleast bound (hfirst first rfl) fun ev hev => hall ev (mem_cons_of_mem _ hev)
  · intro side
    rw [hsides side, mem_singleton, exists_mem_cons_iff]
    constructor
    · rintro (rfl | hev)
      · exact Or.inl ⟨hin, rfl⟩
      · exact Or.inr hev
    · rintro (⟨_, rfl⟩ | hev)
      · exact Or.inl rfl
      · exact Or.inr hev
  · rw [hlater, filter_cons_of_neg (by simpa using hin)]

section
variable {adjacency e e' : ℕ} {events events' later later' : List SidedHunk}
  {sides sides' : List Side}

theorem Mirrored.head_start {first first' : SidedHunk} {rest rest' : List SidedHunk}
    (h : Mirrored (first :: rest) (first' :: rest')) : first.oStart = first'.oStart := by
  have hle : ∀ {l l' : SidedHunk} {t t' : List SidedHunk}, Mirrored (l :: t) (l' :: t') →
      l.oStart ≤ l'.oStart := by
    intro l l' t t' hm
    have hback := hm.symm.mem (mem_cons_self ..)
    rcases mem_cons.mp hback with heq | htail
    · exact Nat.le_of_eq (congrArg (fun ev : SidedHunk => ev.oStart) heq).symm
    · have hle := rel_of_pairwise_cons hm.ordered htail
      exact hle
  exact Nat.le_antisymm (hle h) (hle h.symm)

variable (h : Region adjacency events e sides later)
include h

theorem Region.end_le (h' : Region adjacency events' e' sides' later')
    (hm : Mirrored events events') : e ≤ e' := by
  apply h.least
  · intro ev hev
    cases events with
    | nil => cases hev
    | cons first rest =>
      cases events' with
      | nil => exact absurd hm.perm.length_eq (by simp)
      | cons first' rest' =>
        have hfirst : first = ev := by simpa using hev
        have hstart := h'.starts first' rfl
        have hsame := hm.head_start
        have hend := h'.closed _ (hm.mem (mem_cons_self ..)) (by simp only [mirrored]; omega)
        rw [← hfirst]
        exact hend
  · intro ev hev hlt
    have hend := h'.closed _ (hm.mem hev) hlt
    exact hend

theorem Region.end_eq (h' : Region adjacency events' e' sides' later')
    (hm : Mirrored events events') : e = e' :=
  Nat.le_antisymm (h.end_le h' hm) (h'.end_le h hm.symm)

theorem Region.mem_opposite (h' : Region adjacency events' e sides' later')
    (hm : Mirrored events events') {side : Side} (hside : side ∈ sides) :
    opposite side ∈ sides' := by
  obtain ⟨ev, hev, hlt, hsame⟩ := (h.sides_iff side).mp hside
  apply (h'.sides_iff _).mpr
  exact ⟨mirrored ev, hm.mem hev, hlt, congrArg opposite hsame⟩

theorem Region.mirrored_later (h' : Region adjacency events' e sides' later')
    (hm : Mirrored events events') : Mirrored later later' := by
  refine ⟨?_, ?_, ?_⟩
  · rw [h.later_eq]
    exact hm.ordered.filter _
  · rw [h'.later_eq]
    exact hm.ordered'.filter _
  · have hfilter := hm.perm.filter fun ev => e + adjacency ≤ ev.oStart
    rw [filter_map] at hfilter
    rw [h.later_eq, h'.later_eq]
    exact hfilter

end

section
variable [DecidableEq α] {adjacency : ℕ}

theorem mergeRegions_swap (hadj : 1 ≤ adjacency) (A : Aligned o a localHunks)
    (B : Aligned o b remoteHunks) {fuel c i j : ℕ} {events events' : List SidedHunk}
    (hev : EventsOf localHunks remoteHunks events)
    (hL : Resume localHunks .localSide events c i) (hR : Resume remoteHunks .remoteSide events c j)
    (hm : Mirrored events events') :
    mergeRegions o remoteHunks localHunks b a adjacency fuel c events' =
      mergeRegions o localHunks remoteHunks a b adjacency fuel c events := by
  induction fuel generalizing c i j events events' with
  | zero => rw [mergeRegions, mergeRegions]
  | succ fuel ih =>
    cases events with
    | nil =>
      have hnil : events' = [] := by simpa using hm.perm.length_eq.symm
      rw [hnil, mergeRegions, mergeRegions]
      all_goals simp
    | cons first rest =>
      cases events' with
      | nil => exact absurd hm.perm.length_eq (by simp)
      | cons first' rest' =>
        have hstart := hm.head_start
        rcases hgroup : groupRegion adjacency (first.oStart + first.oLength) [first.side] rest with
          ⟨e, sides, later⟩
        rcases hgroup' : groupRegion adjacency (first'.oStart + first'.oLength) [first'.side] rest'
          with ⟨e', sides', later'⟩
        have hregion := region_groupRegion hadj hm.ordered hgroup
        have hregion' := region_groupRegion hadj hm.ordered' hgroup'
        have hend := hregion.end_eq hregion' hm
        subst hend
        have he := hev.end_le A B hgroup
        obtain ⟨grouped, rfl, R⟩ := regionOf_groupRegion hadj hev.ordered hgroup
        have hse := R.start_le_end
        obtain ⟨_, q, _, hq, _, _⟩ := A.exists_cut he ((hL.within R).free_end hse)
        obtain ⟨_, q', _, hq', _, _⟩ := B.exists_cut he ((hR.within R).free_end hse)
        have hlocal : .localSide ∉ sides → segmentFor localHunks a first.oStart e =
            slice o first.oStart e := fun h => A.segmentFor_untouched hse he (hL.untouched R h)
        have hremote : .remoteSide ∉ sides → segmentFor remoteHunks b first.oStart e =
            slice o first.oStart e := fun h => B.segmentFor_untouched hse he (hR.untouched R h)
        have hlocal' : .remoteSide ∉ sides' → segmentFor localHunks a first.oStart e =
            slice o first.oStart e := fun h =>
          hlocal fun hin => h (hregion.mem_opposite hregion' hm hin)
        have hremote' : .localSide ∉ sides' → segmentFor remoteHunks b first.oStart e =
            slice o first.oStart e := fun h =>
          hremote fun hin => h (hregion.mem_opposite hregion' hm hin)
        have hlines := regionLines_swap hlocal hremote hlocal' hremote'
        have hrest := ih hev.later (hL.next R hq) (hR.next R hq')
          (hregion.mirrored_later hregion' hm)
        rw [mergeRegions, mergeRegions, hgroup, hgroup']
        dsimp only
        rw [← hstart, hlines, hrest]

theorem sidedEvents_mirrored (localHunks remoteHunks : List Hunk) :
    Mirrored (sidedEvents localHunks remoteHunks) (sidedEvents remoteHunks localHunks) := by
  refine ⟨(sidedEvents_eventsOf _ _).ordered, (sidedEvents_eventsOf _ _).ordered, ?_⟩
  have hsorted := perm_insertionSort SidedHunk.before
    (localHunks.map (fun h => (⟨h, .localSide⟩ : SidedHunk)) ++
      remoteHunks.map (fun h => (⟨h, .remoteSide⟩ : SidedHunk)))
  have hsorted' := perm_insertionSort SidedHunk.before
    (remoteHunks.map (fun h => (⟨h, .localSide⟩ : SidedHunk)) ++
      localHunks.map (fun h => (⟨h, .remoteSide⟩ : SidedHunk)))
  refine (hsorted.map mirrored).trans (List.Perm.trans ?_ hsorted'.symm)
  rw [map_append, map_map, map_map]
  exact perm_append_comm

theorem mergeLines_swap (hadj : 1 ≤ adjacency) (o a b : List α) :
    mergeLines adjacency o b a = mergeLines adjacency o a b := by
  have hm := sidedEvents_mirrored (diffHunks o a) (diffHunks o b)
  have hlength := hm.perm.length_eq
  rw [length_map] at hlength
  unfold mergeLines
  dsimp only
  rw [← hlength]
  exact mergeRegions_swap hadj (diffHunks_aligned o a) (diffHunks_aligned o b)
    (sidedEvents_eventsOf _ _) (Resume.local_start _ _) (Resume.remote_start _ _) hm

end

/-- Two devices that merge the same heads reach the same result, also where
they refuse. -/
theorem mergeText_swap (ancestor localText remoteText : JsString) :
    mergeText ancestor remoteText localText = mergeText ancestor localText remoteText := by
  unfold mergeText
  dsimp only [Option.getD_none]
  rw [mergeLines_swap (show 1 ≤ defaultAdjacencyLines from Nat.le_refl 1)]
  simp only [or_comm]

end Havemind.MergeSymmetry
