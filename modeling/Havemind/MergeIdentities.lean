import Havemind.MergeSymmetry

/-!
The identities of the merge: a change both sides made is made once, and a side that
changed nothing leaves the other side's text as it is. Each region gives back the
segment of the side to be restored, and the lines between the regions are the
ancestor's, which that side has as well.
-/
namespace Havemind.MergeIdentities

open Diff3 Diff3Cuts Diff3Soundness JsText LineDiff MergeSymmetry List

section
variable {α : Type*} [DecidableEq α]

/-- The diff of a list with itself walks down the diagonal and leaves no hunk. -/
theorem hunksFrom_backtrace_self (o : List α) (table : List (List ℕ)) {fuel i : ℕ}
    (hi : i ≤ o.length) (hfuel : o.length ≤ i + fuel) :
    hunksFrom i i (backtrace o o table fuel i i ++ [⟨o.length, o.length⟩]) = [] := by
  have hlast : ∀ n : ℕ, hunksFrom n n [⟨n, n⟩] = [] := by
    intro n
    simp [hunksFrom]
  induction fuel generalizing i with
  | zero =>
    have hend : i = o.length := by omega
    rw [hend]
    exact hlast _
  | succ fuel ih =>
    rcases Nat.eq_or_lt_of_le hi with hend | hlt
    · have hnone : o[i]? = none := List.getElem?_eq_none (Nat.le_of_eq hend.symm)
      rw [backtrace, hnone, hend]
      exact hlast _
    · have hline : o[i]? = some o[i] := List.getElem?_eq_getElem hlt
      rw [backtrace, hline]
      dsimp only
      rw [if_pos rfl, cons_append, hunksFrom]
      dsimp only
      rw [if_neg (by omega)]
      exact ih hlt (by omega)

theorem diffHunks_self (o : List α) : diffHunks o o = [] :=
  hunksFrom_backtrace_self o _ (Nat.zero_le _) (by omega)

end

section
variable {α : Type*} [DecidableEq α] {o a b : List α} {localHunks remoteHunks : List Hunk}
  {adjacency : ℕ}

variable (hadj : 1 ≤ adjacency)
include hadj

/-- The remote side is restored where every region gives back its segment. -/
theorem mergeRegions_restores (A : Aligned o a localHunks) (B : Aligned o b remoteHunks)
    (hregion : ∀ s e sides, s ≤ e → e ≤ o.length →
      (.remoteSide ∉ sides → Untouched remoteHunks s e) →
      regionLines o localHunks remoteHunks a b s e sides =
        .ok (some (segmentFor remoteHunks b s e))) {fuel c j : ℕ} {events : List SidedHunk}
    (hc : c ≤ o.length) (hfuel : events.length ≤ fuel)
    (hev : EventsOf localHunks remoteHunks events)
    (hR : Resume remoteHunks .remoteSide events c j) :
    mergeRegions o localHunks remoteHunks a b adjacency fuel c events =
      .ok (some (b.drop j)) := by
  induction fuel generalizing c j events with
  | zero =>
    have hnil : events = [] := length_eq_zero_iff.mp (Nat.le_zero.mp hfuel)
    subst hnil
    rw [mergeRegions, hR.tail B hc]
  | succ fuel ih =>
    cases events with
    | nil => simp only [mergeRegions, hR.tail B hc]
    | cons first rest =>
      rw [mergeRegions]
      obtain ⟨⟨e, sides, later⟩, hgroup⟩ : ∃ region,
        groupRegion adjacency (first.oStart + first.oLength) [first.side] rest = region := ⟨_, rfl⟩
      rw [hgroup]
      dsimp only
      have he := hev.end_le A B hgroup
      obtain ⟨grouped, rfl, R⟩ := regionOf_groupRegion hadj hev.ordered hgroup
      have hse := R.start_le_end
      have hwithin := hR.within R
      obtain ⟨hcs, p, hp, hjp, hgap⟩ := hR.copied B R he
      obtain ⟨_, q, _, hq, _, _⟩ := B.exists_cut he (hwithin.free_end hse)
      have hpq := variantStart_le_variantEnd B hse he hwithin
      rw [hp, hq] at hpq
      rw [hregion first.oStart e sides hse he (hR.untouched R)]
      dsimp only
      have hlater : later.length ≤ fuel := by
        simp only [length_cons, length_append] at hfuel
        omega
      rw [ih he hlater hev.later (hR.next R hq)]
      have hsegment : segmentFor remoteHunks b first.oStart e = slice b p q := by
        rw [segmentFor, hp, hq]
      have hjoined : slice o c first.oStart ++ segmentFor remoteHunks b first.oStart e ++ b.drop q =
          b.drop j := by
        rw [← hgap, hsegment, append_assoc, slice_append_drop b (Int.ofNat_le.mp hpq),
          slice_append_drop b hjp]
      exact congrArg (fun lines => Except.ok (some lines)) hjoined

theorem mergeLines_restores (o a b : List α)
    (hregion : ∀ s e sides, s ≤ e → e ≤ o.length →
      (.remoteSide ∉ sides → Untouched (diffHunks o b) s e) →
      regionLines o (diffHunks o a) (diffHunks o b) a b s e sides =
        .ok (some (segmentFor (diffHunks o b) b s e))) :
    mergeLines adjacency o a b = .ok (some b) :=
  mergeRegions_restores hadj (diffHunks_aligned o a) (diffHunks_aligned o b) hregion (Nat.zero_le _)
    (Nat.le_refl _) (sidedEvents_eventsOf _ _) (Resume.remote_start _ _)

/-- Both sides have the same segment everywhere. -/
theorem mergeLines_same (o b : List α) : mergeLines adjacency o b b = .ok (some b) := by
  refine mergeLines_restores hadj o b b fun s e sides _ _ _ => ?_
  unfold regionLines
  dsimp only
  rw [if_pos (rfl : segmentFor (diffHunks o b) b s e = segmentFor (diffHunks o b) b s e)]
  split_ifs
  · rfl
  · rfl
  · rfl

/-- The local side has the ancestor's segment everywhere. -/
theorem mergeLines_unchanged (o b : List α) : mergeLines adjacency o o b = .ok (some b) := by
  refine mergeLines_restores hadj o o b fun s e sides hse he huntouched => ?_
  have hlocal : segmentFor (diffHunks o o) o s e = slice o s e := by
    refine (diffHunks_aligned o o).segmentFor_untouched hse he fun h hh => ?_
    rw [diffHunks_self] at hh
    cases hh
  unfold regionLines
  dsimp only
  rw [hlocal]
  by_cases hremote : .remoteSide ∉ sides ∨ segmentFor (diffHunks o b) b s e = slice o s e
  · have hsame : segmentFor (diffHunks o b) b s e = slice o s e :=
      hremote.elim (fun hside => (diffHunks_aligned o b).segmentFor_untouched hse he
        (huntouched hside)) id
    rw [if_pos hremote, hsame]
  · rw [if_neg hremote, if_pos (Or.inr rfl)]

end

/-- The table of the two texts stays within the ceiling. -/
def FitsCells (ancestor text : JsString) : Prop :=
  ((splitLines ancestor).length + 1) * ((splitLines text).length + 1) ≤ defaultMaxLcsCells

instance (ancestor text : JsString) : Decidable (FitsCells ancestor text) :=
  inferInstanceAs (Decidable (_ ≤ _))

theorem mergeText_of_lines {ancestor localText remoteText text : JsString}
    (hlocal : FitsCells ancestor localText) (hremote : FitsCells ancestor remoteText)
    (hlines : mergeLines defaultAdjacencyLines (splitLines ancestor) (splitLines localText)
      (splitLines remoteText) = .ok (some (splitLines text))) :
    mergeText ancestor localText remoteText = .ok (.merged text) := by
  have hcells : ¬ (((splitLines ancestor).length + 1) * ((splitLines localText).length + 1) >
      defaultMaxLcsCells ∨
      ((splitLines ancestor).length + 1) * ((splitLines remoteText).length + 1) >
        defaultMaxLcsCells) :=
    not_or.mpr ⟨Nat.not_lt.mpr hlocal, Nat.not_lt.mpr hremote⟩
  unfold mergeText
  dsimp only [Option.getD_none]
  rw [if_neg hcells, hlines]
  exact congrArg (fun merged => Except.ok (Diff3MergeResult.merged merged))
    (joinLines_splitLines text)

/-- Within the ceiling, a change both sides made merges to the changed text, and where
one side has the ancestor's text the merge is the other side's. -/
theorem mergeText_identities (ancestor text : JsString) (hcells : FitsCells ancestor text) :
    mergeText ancestor text text = .ok (.merged text) ∧
      (FitsCells ancestor ancestor →
        mergeText ancestor ancestor text = .ok (.merged text) ∧
          mergeText ancestor text ancestor = .ok (.merged text)) := by
  have hadj : 1 ≤ defaultAdjacencyLines := Nat.le_refl 1
  refine ⟨mergeText_of_lines hcells hcells (mergeLines_same hadj _ _), fun hself => ?_⟩
  have hunchanged : mergeText ancestor ancestor text = .ok (.merged text) :=
    mergeText_of_lines hself hcells (mergeLines_unchanged hadj _ _)
  exact ⟨hunchanged, (mergeText_swap ancestor ancestor text).trans hunchanged⟩

/-- Three lines of which two are equal, and one of those deleted. -/
theorem mergeText_identities_repeated :
    mergeText [97, 10, 98, 10, 97] [98, 10, 97] [98, 10, 97] = .ok (.merged [98, 10, 97]) ∧
      mergeText [97, 10, 98, 10, 97] [97, 10, 98, 10, 97] [98, 10, 97] =
        .ok (.merged [98, 10, 97]) ∧
      mergeText [97, 10, 98, 10, 97] [98, 10, 97] [97, 10, 98, 10, 97] =
        .ok (.merged [98, 10, 97]) := by
  have hidentities := mergeText_identities [97, 10, 98, 10, 97] [98, 10, 97] (by decide)
  exact ⟨hidentities.1, hidentities.2 (by decide)⟩

end Havemind.MergeIdentities
