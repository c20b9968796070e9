import Havemind.JointText

/-!
Which lines survive a merge. A merged text holds what either side wrote and the ancestor
lines both sides kept at one place; a line that each side kept at another place, and that
neither wrote, is in all three texts and not in the merged one.
-/
namespace Havemind.SharedLines

open JsText LineDiff Diff3 Diff3Cuts Diff3Soundness MergeSymmetry RegionTwins JointText List

section
variable {α : Type*} [DecidableEq α] {o a b v m : List α} {adjacency : ℕ} {line : α}

/-- The side's diff writes the line anew. -/
def Writes (o v : List α) (line : α) : Prop := ∃ h ∈ diffHunks o v, line ∈ replacement v h

/-- Both sides keep the line at one ancestor position. -/
def KeptTogether (o a b : List α) (line : α) : Prop :=
  ∃ q, o[q]? = some line ∧ Kept (diffHunks o a) q ∧ Kept (diffHunks o b) q

omit [DecidableEq α] in
theorem mem_stretch {keep change : ℕ → List α} {c n : ℕ} :
    line ∈ stretch keep change c n ↔
      ∃ p, c ≤ p ∧ p < c + n ∧ (line ∈ keep p ∨ line ∈ change (p + 1)) := by
  rw [stretch, mem_flatMap]
  simp only [mem_range'_1, mem_append, and_assoc]

theorem merged_of_writes (hadj : 1 ≤ adjacency) (hrun : mergeLines adjacency o a b = .ok (some m))
    (h : Writes o a line) : line ∈ m := by
  obtain ⟨k, hk, hmem⟩ := h
  have A := diffHunks_aligned o a
  have hinside := A.inside k hk
  have hchange : changeAt a b (diffHunks o a) (diffHunks o b) k.oStart = replacement a k := by
    rw [changeAt_local fun _ _ _ => ⟨k, hk, rfl⟩, changeOf_hunk A hk]
  rw [mergeLines_joint hadj hrun, mem_append, jointStretch, mem_stretch]
  rcases Nat.eq_zero_or_pos k.oStart with hzero | hpos
  · left
    rw [← hzero, hchange]
    exact hmem
  · right
    refine ⟨k.oStart - 1, Nat.zero_le _, by omega, .inr ?_⟩
    rw [Nat.sub_add_cancel hpos, hchange]
    exact hmem

/-- A merge holds exactly what one side wrote and what both kept at one place. -/
theorem mem_merged_iff (hadj : 1 ≤ adjacency) (hrun : mergeLines adjacency o a b = .ok (some m)) :
    line ∈ m ↔ Writes o a line ∨ Writes o b line ∨ KeptTogether o a b line := by
  constructor
  · intro hmem
    have hchanged : ∀ p, line ∈ changeAt a b (diffHunks o a) (diffHunks o b) p →
        Writes o a line ∨ Writes o b line := by
      intro p hmem
      unfold changeAt at hmem
      cases hlocal : hunkAt (diffHunks o a) p with
      | some k =>
        rw [hlocal] at hmem
        exact .inl ⟨k, mem_of_find?_eq_some hlocal, hmem⟩
      | none =>
        cases hremote : hunkAt (diffHunks o b) p with
        | some k =>
          rw [hlocal, hremote] at hmem
          exact .inr ⟨k, mem_of_find?_eq_some hremote, hmem⟩
        | none =>
          rw [hlocal, hremote] at hmem
          cases hmem
    rw [mergeLines_joint hadj hrun, mem_append, jointStretch, mem_stretch] at hmem
    rcases hmem with hfirst | ⟨p, -, -, hkeep | hchange⟩
    · exact (hchanged 0 hfirst).imp_right .inl
    · right
      right
      unfold keptAt at hkeep
      split at hkeep
      · rename_i hkept
        exact ⟨p, Option.mem_toList.mp hkeep, hkept⟩
      · cases hkeep
    · exact (hchanged (p + 1) hchange).imp_right .inl
  · rintro (hlocal | hremote | ⟨q, hline, hkept⟩)
    · exact merged_of_writes hadj hrun hlocal
    · rw [mergeLines_swap hadj] at hrun
      exact merged_of_writes hadj hrun hremote
    · rw [mergeLines_joint hadj hrun, mem_append, jointStretch, mem_stretch]
      have hlt := (List.getElem?_eq_some_iff.mp hline).1
      refine .inr ⟨q, Nat.zero_le q, by omega, .inl ?_⟩
      rw [keptAt, if_pos hkept, hline]
      exact mem_cons_self

end

/-- Every shared line survives exactly where each line that neither side writes is kept by
both sides at one ancestor position. -/
theorem shared_lines_survive_iff (ancestor localText remoteText text : JsString)
    (h : mergeText ancestor localText remoteText = .ok (.merged text)) :
    (∀ line ∈ splitLines ancestor, line ∈ splitLines localText → line ∈ splitLines remoteText →
      line ∈ splitLines text) ↔
    ∀ line ∈ splitLines ancestor, line ∈ splitLines localText → line ∈ splitLines remoteText →
      ¬ Writes (splitLines ancestor) (splitLines localText) line →
      ¬ Writes (splitLines ancestor) (splitLines remoteText) line →
      KeptTogether (splitLines ancestor) (splitLines localText) (splitLines remoteText) line := by
  obtain ⟨hrun, -⟩ := lines_of_merged (Nat.le_refl _) h
  constructor
  · intro hsurvive line ho hlocal hremote hnot hnot'
    have hmem := (mem_merged_iff (Nat.le_refl _) hrun).mp (hsurvive line ho hlocal hremote)
    exact (hmem.resolve_left hnot).resolve_left hnot'
  · intro hkept line ho hlocal hremote
    rw [mem_merged_iff (Nat.le_refl _) hrun]
    by_contra hnone
    obtain ⟨hnot, hrest⟩ := not_or.mp hnone
    obtain ⟨hnot', hapart⟩ := not_or.mp hrest
    exact hapart (hkept line ho hlocal hremote hnot hnot')

/-- Both sides edit one of two neighbouring lines, and the line between the texts stays. -/
theorem shared_lines_survive_edits :
    mergeText [97, 10, 98, 10, 99] [100, 10, 98, 10, 99] [97, 10, 98, 10, 101] =
      .ok (.merged [100, 10, 98, 10, 101]) ∧
    ∀ line ∈ splitLines [97, 10, 98, 10, 99], line ∈ splitLines [100, 10, 98, 10, 99] →
      line ∈ splitLines [97, 10, 98, 10, 101] → line ∈ splitLines [100, 10, 98, 10, 101] := by
  refine ⟨by decide, ?_⟩
  apply (shared_lines_survive_iff [97, 10, 98, 10, 99] [100, 10, 98, 10, 99] [97, 10, 98, 10, 101]
    [100, 10, 98, 10, 101] (by decide)).mpr
  intro line ho hlocal hremote _ _
  have hmiddle : ∀ line ∈ splitLines [97, 10, 98, 10, 99],
      line ∈ splitLines [100, 10, 98, 10, 99] → line ∈ splitLines [97, 10, 98, 10, 101] →
      line = [98] := by
    decide
  have hline := hmiddle line ho hlocal hremote
  exact ⟨1, by rw [hline]; rfl, by decide, by decide⟩

/-- Of two equal lines one side deletes the first, the other the second. -/
theorem shared_line_lost :
    mergeText [120, 10, 112, 10, 120] [112, 10, 120] [120, 10, 112] = .ok (.merged [112]) ∧
      [120] ∈ splitLines [120, 10, 112, 10, 120] ∧ [120] ∈ splitLines [112, 10, 120] ∧
      [120] ∈ splitLines [120, 10, 112] ∧ [120] ∉ splitLines [112] := by
  decide

end Havemind.SharedLines
