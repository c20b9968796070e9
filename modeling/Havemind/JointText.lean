import Havemind.RegionTwins

/-!
The text of a merge as one formula. At each ancestor position stands the replacement of the
hunk that starts there, then the line itself where both sides kept it. How the changes were
grouped into regions does not show in it.
-/
namespace Havemind.JointText

open JsText LineDiff Diff3 Diff3Cuts Diff3Soundness DisjointRegion MergeTail RegionTwins List

variable {α : Type*}

def replacement (v : List α) (h : Hunk) : List α := (v.drop h.abStart).take h.abLength

section
variable (o a b : List α) (localHunks remoteHunks : List Hunk)

def hunkAt (hunks : List Hunk) (p : ℕ) : Option Hunk := hunks.find? fun h => h.oStart = p

/-- The replacement that starts at a position, the local one first. -/
def changeAt (p : ℕ) : List α :=
  ((hunkAt localHunks p).map (replacement a)).getD
    (((hunkAt remoteHunks p).map (replacement b)).getD [])

instance (hunks : List Hunk) (q : ℕ) : Decidable (Kept hunks q) :=
  inferInstanceAs (Decidable (∀ h ∈ hunks, h.oStart + h.oLength ≤ q ∨ q < h.oStart))

def keptAt (p : ℕ) : List α :=
  if Kept localHunks p ∧ Kept remoteHunks p then o[p]?.toList else []

end

section
variable {keep change keep' change' : ℕ → List α} {c n m : ℕ}

/-- `n` positions behind the change at `c`. -/
def stretch (keep change : ℕ → List α) (c n : ℕ) : List α :=
  (List.range' c n).flatMap fun p => keep p ++ change (p + 1)

theorem stretch_zero : stretch keep change c 0 = [] := rfl

theorem stretch_succ :
    stretch keep change c (n + 1) = keep c ++ change (c + 1) ++ stretch keep change (c + 1) n := by
  rw [stretch, range'_succ, flatMap_cons]
  rfl

theorem stretch_add :
    stretch keep change c (n + m) = stretch keep change c n ++ stretch keep change (c + n) m := by
  rw [stretch, ← range'_append_1, flatMap_append]
  rfl

theorem stretch_congr (hkeep : ∀ p, c ≤ p → p < c + n → keep p = keep' p)
    (hchange : ∀ p, c < p → p ≤ c + n → change p = change' p) :
    stretch keep change c n = stretch keep' change' c n := by
  induction n generalizing c with
  | zero => rfl
  | succ n ih =>
    rw [stretch_succ, stretch_succ, hkeep c (Nat.le_refl c) (by omega),
      hchange (c + 1) (by omega) (by omega),
      ih (fun p hp hlt => hkeep p (by omega) (by omega))
        fun p hp hle => hchange p (by omega) (by omega)]

/-- No change before the last position. -/
theorem stretch_plain (hchange : ∀ p, c < p → p < c + (n + 1) → change p = []) :
    stretch keep change c (n + 1) =
      (List.range' c (n + 1)).flatMap keep ++ change (c + (n + 1)) := by
  induction n generalizing c with
  | zero =>
    rw [stretch_succ, stretch_zero, append_nil]
    simp
  | succ n ih =>
    have hlast : c + 1 + (n + 1) = c + (n + 1 + 1) := by omega
    have hrange : List.range' c (n + 1 + 1) = c :: List.range' (c + 1) (n + 1) := range'_succ
    rw [stretch_succ, hchange (c + 1) (by omega) (by omega), append_nil,
      ih fun p hp hlt => hchange p (by omega) (by omega), hrange, flatMap_cons,
      append_assoc, hlast]

end

section
variable {o v : List α} {hunks : List Hunk} {h : Hunk} {c e s : ℕ}

def changeOf (v : List α) (hunks : List Hunk) (p : ℕ) : List α :=
  ((hunkAt hunks p).map (replacement v)).getD []

def keptOf (o : List α) (hunks : List Hunk) (p : ℕ) : List α :=
  if Kept hunks p then o[p]?.toList else []

theorem hunkAt_eq_none : hunkAt hunks c = none ↔ ∀ h ∈ hunks, h.oStart ≠ c := by
  rw [hunkAt, List.find?_eq_none]
  simp

theorem hunkAt_eq_some (A : Aligned o v hunks) (hh : h ∈ hunks) :
    hunkAt hunks h.oStart = some h := by
  cases hfound : hunkAt hunks h.oStart with
  | none => exact absurd rfl (hunkAt_eq_none.mp hfound h hh)
  | some k =>
    have hk : k ∈ hunks := mem_of_find?_eq_some hfound
    have hstart : k.oStart = h.oStart := by simpa using List.find?_some hfound
    rcases hunk_order A hh hk with hbefore | rfl | hbehind
    · omega
    · rfl
    · omega

theorem changeOf_hunk (A : Aligned o v hunks) (hh : h ∈ hunks) :
    changeOf v hunks h.oStart = replacement v h := by
  rw [changeOf, hunkAt_eq_some A hh]
  rfl

theorem changeOf_nil (hnone : ∀ h ∈ hunks, h.oStart ≠ c) : changeOf v hunks c = [] := by
  rw [changeOf, hunkAt_eq_none.mpr hnone]
  rfl

theorem replacement_eq_slice :
    replacement v h = slice v h.abStart (h.abStart + h.abLength : ℕ) := by
  rw [slice_natCast, drop_take, replacement, Nat.add_sub_cancel_left]

/-- Inside a hunk no line is kept and no other hunk starts. -/
theorem stretch_hunk (A : Aligned o v hunks) (hh : h ∈ hunks) :
    stretch (keptOf o hunks) (changeOf v hunks) h.oStart h.oLength = [] := by
  have hnone : ∀ p, h.oStart < p → p ≤ h.oStart + h.oLength → changeOf v hunks p = [] := by
    intro p hp hle
    apply changeOf_nil
    intro k hk
    rcases hunk_order A hh hk with hbefore | rfl | hbehind <;> omega
  have hcovered : ∀ p, h.oStart ≤ p → p < h.oStart + h.oLength → keptOf o hunks p = [] := by
    intro p hp hlt
    apply if_neg
    intro hkept
    have := hkept h hh
    omega
  have hempty : stretch (keptOf o hunks) (changeOf v hunks) h.oStart h.oLength =
      stretch (fun _ => []) (fun _ => []) h.oStart h.oLength := stretch_congr hcovered hnone
  rw [hempty]
  simp [stretch]

/-- The variant between two cuts: the kept lines and the replacements, in ancestor order. -/
theorem stretch_side (A : Aligned o v hunks) (hce : c ≤ e) (he : e ≤ o.length)
    (hc : Kept hunks c) (hend : Kept hunks e) :
    slice v (variantEnd hunks c) (variantEnd hunks e) =
      stretch (keptOf o hunks) (changeOf v hunks) c (e - c) := by
  induction hn : e - c using Nat.strong_induction_on generalizing c with
  | h n ih =>
    obtain ⟨-, last, -, hlast, -, -⟩ := A.exists_cut he hend.free
    rcases Nat.eq_or_lt_of_le hce with rfl | hlt
    · have hzero : n = 0 := by omega
      rw [hzero, stretch_zero, hlast, slice_self]
    · obtain ⟨y, hy, hnext, hline⟩ := A.copied c (by omega) hc
      have hget : o[c]? = some o[c] := List.getElem?_eq_getElem (by omega)
      have hkept : keptOf o hunks c = [o[c]] := by
        rw [keptOf, if_pos hc, hget]
        rfl
      have hmono := start_le_end A (show c + 1 ≤ e from hlt) he hc.free_succ hend.free
      have hfirst : slice v (variantEnd hunks c) (variantEnd hunks e) =
          o[c] :: slice v (y + 1 : ℕ) (variantEnd hunks e) := by
        rw [hy, hlast, slice_succ v (hline.trans hget) (by omega)]
      by_cases hstart : ∃ h ∈ hunks, h.oStart = c + 1
      · obtain ⟨h, hh, hstart⟩ := hstart
        obtain ⟨hcut, hcut'⟩ := A.hunk_cuts h hh
        have hbehind := kept_behind_hunk A hh
        have hle : h.oStart + h.oLength ≤ e := by
          have := hend h hh
          omega
        have hrest := ih (e - (h.oStart + h.oLength)) (by omega) hle hbehind rfl
        have hbound := end_mono A hle he hbehind.free hend.free
        have hcount : n = 1 + (h.oLength + (e - (h.oStart + h.oLength))) := by omega
        have hreplaced : slice v (y + 1 : ℕ) (variantEnd hunks e) = replacement v h ++
            slice v (variantEnd hunks (h.oStart + h.oLength)) (variantEnd hunks e) := by
          have hsame : y + 1 = h.abStart := by
            rw [hstart, hnext] at hcut
            omega
          rw [hcut', hlast] at hbound
          rw [hcut', hlast, hsame, replacement_eq_slice, ← Nat.cast_add,
            slice_append_slice v (by omega) (by omega)]
        have hone : stretch (keptOf o hunks) (changeOf v hunks) c 1 =
            o[c] :: replacement v h := by
          rw [stretch_succ, stretch_zero, append_nil, hkept, ← hstart, changeOf_hunk A hh]
          rfl
        rw [hfirst, hreplaced, hrest, hcount, stretch_add, stretch_add, hone, ← hstart,
          stretch_hunk A hh]
        rfl
      · push Not at hstart
        have hnone : changeOf v hunks (c + 1) = [] := changeOf_nil hstart
        have hsettled : Kept hunks (c + 1) := by
          intro h hh
          have hat := hc h hh
          have hother := hstart h hh
          omega
        have hsplit : variantStart hunks (c + 1) = variantEnd hunks (c + 1) := by
          apply variantStart_eq_variantEnd
          intro h hh hle
          have hother := hstart h hh
          omega
        have hrest := ih (e - (c + 1)) (by omega) hlt hsettled rfl
        have hcount : n = e - (c + 1) + 1 := by omega
        rw [hcount, stretch_succ, hkept, hnone, append_nil, ← hrest, hfirst, ← hsplit, hnext]
        rfl

/-- A region of one side: the change at its start and the stretch behind it. -/
theorem segment_side (A : Aligned o v hunks) (hse : s ≤ e) (he : e ≤ o.length)
    (hw : Within hunks s e) :
    segmentFor hunks v s e =
      changeOf v hunks s ++ stretch (keptOf o hunks) (changeOf v hunks) s (e - s) := by
  have hend : Kept hunks e := by
    intro h hh
    have := hw h hh
    omega
  obtain ⟨-, last, -, hlast, -, -⟩ := A.exists_cut he hend.free
  by_cases hstart : ∃ h ∈ hunks, h.oStart = s
  · obtain ⟨h, hh, rfl⟩ := hstart
    obtain ⟨hcut, hcut'⟩ := A.hunk_cuts h hh
    have hbehind := kept_behind_hunk A hh
    have hle : h.oStart + h.oLength ≤ e := by
      have := hend h hh
      omega
    have hcount : e - h.oStart = h.oLength + (e - (h.oStart + h.oLength)) := by omega
    have hbound := end_mono A hle he hbehind.free hend.free
    rw [segmentFor, changeOf_hunk A hh, hcount, stretch_add, stretch_hunk A hh, nil_append,
      ← stretch_side A hle he hbehind hend, hcut, hcut', hlast, replacement_eq_slice, ← Nat.cast_add]
    rw [hcut', hlast] at hbound
    rw [slice_append_slice v (by omega) (by omega)]
  · push Not at hstart
    have hsettled : Kept hunks s := by
      intro h hh
      have hin := hw h hh
      have hother := hstart h hh
      omega
    have hsplit : variantStart hunks s = variantEnd hunks s := by
      apply variantStart_eq_variantEnd
      intro h hh hle
      have hother := hstart h hh
      omega
    rw [segmentFor, changeOf_nil hstart, nil_append, hsplit,
      stretch_side A hse he hsettled hend]

end

section
variable {o a b lines out : List α} {localHunks remoteHunks : List Hunk} {s e p q line fuel : ℕ}
variable {h : Hunk}

/-- The stretch of both sides' hunks. -/
def jointStretch (o a b : List α) (localHunks remoteHunks : List Hunk) (c n : ℕ) : List α :=
  stretch (keptAt o localHunks remoteHunks) (changeAt a b localHunks remoteHunks) c n

theorem changeAt_local (h : ∀ k ∈ remoteHunks, k.oStart = p → ∃ j ∈ localHunks, j.oStart = p) :
    changeAt a b localHunks remoteHunks p = changeOf a localHunks p := by
  unfold changeAt changeOf
  cases hfound : hunkAt localHunks p with
  | some k => rfl
  | none =>
    have hnone : hunkAt remoteHunks p = none := by
      apply hunkAt_eq_none.mpr
      intro k hk hstart
      obtain ⟨j, hj, hother⟩ := h k hk hstart
      exact hunkAt_eq_none.mp hfound j hj hother
    rw [hnone]
    rfl

theorem changeAt_remote (h : ∀ k ∈ localHunks, k.oStart ≠ p) :
    changeAt a b localHunks remoteHunks p = changeOf b remoteHunks p := by
  unfold changeAt changeOf
  rw [hunkAt_eq_none.mpr h]
  rfl

theorem changeAt_nil (h : ∀ k ∈ localHunks, k.oStart ≠ p) (h' : ∀ k ∈ remoteHunks, k.oStart ≠ p) :
    changeAt a b localHunks remoteHunks p = [] := by
  rw [changeAt_remote h, changeOf_nil h']

/-- A region where the other side has no hunk of its own. -/
theorem local_region (A : Aligned o a localHunks) (hse : s ≤ e) (he : e ≤ o.length)
    (hw : Within localHunks s e)
    (hstarts : ∀ k ∈ remoteHunks, s ≤ k.oStart → k.oStart ≤ e →
      ∃ j ∈ localHunks, j.oStart = k.oStart)
    (hkept : ∀ q, s ≤ q → q < e → Kept localHunks q → Kept remoteHunks q) :
    segmentFor localHunks a s e = changeAt a b localHunks remoteHunks s ++
      jointStretch o a b localHunks remoteHunks s (e - s) := by
  have hchange : ∀ p, s ≤ p → p ≤ e →
      changeOf a localHunks p = changeAt a b localHunks remoteHunks p := by
    intro p hp hle
    apply (changeAt_local _).symm
    rintro k hk rfl
    exact hstarts k hk hp hle
  rw [segment_side A hse he hw, hchange s (Nat.le_refl s) hse, jointStretch,
    stretch_congr (fun p hp hlt => ?_) fun p hp hle => hchange p (by omega) (by omega)]
  unfold keptOf keptAt
  by_cases hlocal : Kept localHunks p
  · rw [if_pos hlocal, if_pos ⟨hlocal, hkept p hp (by omega) hlocal⟩]
  · rw [if_neg hlocal, if_neg fun hboth => hlocal hboth.1]

theorem remote_region (B : Aligned o b remoteHunks) (hse : s ≤ e) (he : e ≤ o.length)
    (hw : Within remoteHunks s e) (huntouched : Untouched localHunks s e) :
    segmentFor remoteHunks b s e = changeAt a b localHunks remoteHunks s ++
      jointStretch o a b localHunks remoteHunks s (e - s) := by
  have hchange : ∀ p, s ≤ p → p ≤ e →
      changeOf b remoteHunks p = changeAt a b localHunks remoteHunks p := by
    intro p hp hle
    apply (changeAt_remote _).symm
    intro k hk
    have := huntouched k hk
    omega
  rw [segment_side B hse he hw, hchange s (Nat.le_refl s) hse, jointStretch,
    stretch_congr (fun p hp hlt => ?_) fun p hp hle => hchange p (by omega) (by omega)]
  unfold keptOf keptAt
  have hlocal : Kept localHunks p := by
    intro k hk
    have := huntouched k hk
    omega
  by_cases hremote : Kept remoteHunks p
  · rw [if_pos hremote, if_pos ⟨hlocal, hremote⟩]
  · rw [if_neg hremote, if_neg fun hboth => hremote hboth.2]

/-- One hunk of the walk: its replacement, and no more until it ends. -/
theorem owned_stretch (hlq : line < q) (hchange : changeAt a b localHunks remoteHunks line = lines)
    (hnone : ∀ p, line < p → p < q → changeAt a b localHunks remoteHunks p = [])
    (hcovered : ∀ p, line ≤ p → p < q → ¬ (Kept localHunks p ∧ Kept remoteHunks p))
    (hqe : q ≤ e) :
    changeAt a b localHunks remoteHunks line ++
        jointStretch o a b localHunks remoteHunks line (e - line) =
      lines ++ (changeAt a b localHunks remoteHunks q ++
        jointStretch o a b localHunks remoteHunks q (e - q)) := by
  obtain ⟨n, rfl⟩ : ∃ n, q = line + (n + 1) := ⟨q - line - 1, by omega⟩
  have hcount : e - line = (n + 1) + (e - (line + (n + 1))) := by omega
  have hempty : (List.range' line (n + 1)).flatMap (keptAt o localHunks remoteHunks) = [] := by
    rw [flatMap_eq_nil_iff]
    intro p hp
    obtain ⟨hlow, hhigh⟩ := mem_range'_1.mp hp
    exact if_neg (hcovered p hlow hhigh)
  rw [hchange, hcount, jointStretch, stretch_add, stretch_plain hnone, hempty, nil_append]
  rfl

theorem owned_none {own : List α} {ownHunks oppositeHunks : List Hunk}
    (A : Aligned o own ownHunks) (hh : h ∈ ownHunks)
    (hopp : ¬ regionHasOppositeChange oppositeHunks h.oStart (h.oStart + h.oLength) = true) :
    ∀ p, h.oStart < p → p < h.oStart + h.oLength →
      (∀ k ∈ ownHunks, k.oStart ≠ p) ∧ ∀ k ∈ oppositeHunks, k.oStart ≠ p := by
  intro p hp hlt
  constructor
  · intro k hk
    rcases hunk_order A hh hk with hbefore | rfl | hbehind <;> omega
  · rintro k hk rfl
    apply hopp
    exact any_eq_true.mpr ⟨k, hk, by simp; omega⟩

theorem disjointWalk_joint (A : Aligned o a localHunks) (B : Aligned o b remoteHunks)
    (he : e ≤ o.length) (hbalL : BalancedIn localHunks s e) (hbalR : BalancedIn remoteHunks s e)
    (hinsL : NoInsertion localHunks s e) (hinsR : NoInsertion remoteHunks s e)
    (hwL : Within localHunks s e) (hwR : Within remoteHunks s e) (hs : s ≤ line) (hle : line ≤ e)
    (hfuel : e ≤ line + fuel) (hfL : Free localHunks line) (hfR : Free remoteHunks line)
    (hrun : disjointWalk localHunks remoteHunks a b e fuel line = .ok (some out)) :
    out = changeAt a b localHunks remoteHunks line ++
      jointStretch o a b localHunks remoteHunks line (e - line) := by
  have hdone : changeAt a b localHunks remoteHunks e ++
      jointStretch o a b localHunks remoteHunks e (e - e) = [] := by
    rw [Nat.sub_self, changeAt_nil]
    · rfl
    · intro k hk
      have := hwL k hk
      have := hinsL k hk
      omega
    · intro k hk
      have := hwR k hk
      have := hinsR k hk
      omega
  induction fuel generalizing line out with
  | zero =>
    obtain rfl : line = e := by omega
    rw [disjointWalk_done le_rfl] at hrun
    cases hrun
    exact hdone.symm
  | succ fuel ih =>
    rcases Nat.lt_or_ge line e with hlt | hge
    · obtain ⟨own, rest, -, hnext, ⟨hcover, -, hopp, rfl⟩ | ⟨hcover, hnone, hopp, rfl⟩⟩ :=
        disjointWalk_owned hlt hrun
      · have hmem : own ∈ localHunks := mem_of_find?_eq_some hcover
        obtain ⟨q, hq, hstart, hlq, hqe, hfq, hfq', -, -⟩ :=
          owned_step A B he hbalL hinsL hinsR hs hlt hfL hcover hopp
        have hfree := owned_none A hmem hopp
        rw [hq] at hnext hfree
        rw [hstart] at hfree
        have hchange : changeAt a b localHunks remoteHunks line = replacement a own := by
          rw [changeAt_local fun _ _ _ => ⟨own, hmem, hstart⟩, ← hstart, changeOf_hunk A hmem]
        rw [if_pos (Nat.le_of_eq hstart.symm),
          owned_stretch hlq hchange (fun p hp hlt' => changeAt_nil (hfree p hp hlt').1
            (hfree p hp hlt').2) (fun p hp hlt' hboth => ?_) hqe,
          ih (by omega) hqe (by omega) hfq hfq' hnext]
        · rfl
        · have := hboth.1 own hmem
          omega
      · have hmem : own ∈ remoteHunks := mem_of_find?_eq_some hcover
        obtain ⟨q, hq, hstart, hlq, hqe, hfq, hfq', -, -⟩ :=
          owned_step B A he hbalR hinsR hinsL hs hlt hfR hcover hopp
        have hfree := owned_none B hmem hopp
        rw [hq] at hnext hfree
        rw [hstart] at hfree
        have hlocal : ∀ k ∈ localHunks, k.oStart ≠ line := by
          intro k hk hsame
          have hnot := List.find?_eq_none.mp hnone k hk
          have hin := hinsL k hk
          simp only [decide_eq_true_eq] at hnot
          omega
        have hchange : changeAt a b localHunks remoteHunks line = replacement b own := by
          rw [changeAt_remote hlocal, ← hstart, changeOf_hunk B hmem]
        rw [if_pos (Nat.le_of_eq hstart.symm),
          owned_stretch hlq hchange (fun p hp hlt' => changeAt_nil (hfree p hp hlt').2
            (hfree p hp hlt').1) (fun p hp hlt' hboth => ?_) hqe,
          ih (by omega) hqe (by omega) hfq' hfq hnext]
        · rfl
        · have := hboth.2 own hmem
          omega
    · obtain rfl : line = e := by omega
      rw [disjointWalk_done le_rfl] at hrun
      cases hrun
      exact hdone.symm

end

variable [DecidableEq α] {o a b m lines : List α} {s e c : ℕ}

/-- Whatever way a region is resolved, its lines are the changes of both sides and the lines
both kept. -/
theorem region_joint (hse : s ≤ e) (he : e ≤ o.length) (hwL : Within (diffHunks o a) s e)
    (hwR : Within (diffHunks o b) s e)
    (hchoice : Choice o a b (diffHunks o a) (diffHunks o b) s e lines) :
    lines = changeAt a b (diffHunks o a) (diffHunks o b) s ++
      jointStretch o a b (diffHunks o a) (diffHunks o b) s (e - s) := by
  have A := diffHunks_aligned o a
  have B := diffHunks_aligned o b
  have hsameCase : segmentFor (diffHunks o a) a s e = segmentFor (diffHunks o b) b s e →
      segmentFor (diffHunks o a) a s e = changeAt a b (diffHunks o a) (diffHunks o b) s ++
        jointStretch o a b (diffHunks o a) (diffHunks o b) s (e - s) := by
    intro hsame
    apply local_region A hse he hwL
    · intro k hk hs hle
      have hin := hwR k hk
      obtain ⟨j, hj, hstart, -⟩ := exists_twin hse he hwR hwL hsame.symm hk hs (by omega)
      exact ⟨j, hj, hstart⟩
    · intro q hs hlt hkept
      exact kept_of_kept hse he hwL hwR hsame hs hlt hkept
  cases hchoice with
  | localText hlines hother =>
    rcases hother with hancestor | hsame
    · have huntouched := untouched_of_same hse he hwR hancestor
      rw [hlines]
      apply local_region A hse he hwL
      · intro k hk hs hle
        have := huntouched k hk
        omega
      · intro q hs hlt _ k hk
        have := huntouched k hk
        omega
    · rw [hlines, hsameCase hsame.symm]
  | remoteText hlines hother =>
    rcases hother with hancestor | hsame
    · rw [hlines]
      exact remote_region B hse he hwR (untouched_of_same hse he hwL hancestor)
    · rw [hlines, ← hsame, hsameCase hsame]
  | disjoint hrun =>
    obtain ⟨hbalL, hbalR, hinsL, hinsR, hwalk⟩ := mergeDisjointRegion_some hrun
    exact disjointWalk_joint A B he hbalL hbalR hinsL hinsR hwL hwR (Nat.le_refl s) hse (by omega)
      (hwL.free_start hse) (hwR.free_start hse) hwalk

section
variable {localHunks remoteHunks : List Hunk} {n : ℕ}

omit [DecidableEq α] in
theorem kept_lines (hend : c + n ≤ o.length) (hL : ∀ p, c ≤ p → p < c + n → Kept localHunks p)
    (hR : ∀ p, c ≤ p → p < c + n → Kept remoteHunks p) :
    (List.range' c n).flatMap (keptAt o localHunks remoteHunks) = slice o c (c + n : ℕ) := by
  induction n generalizing c with
  | zero => rw [Nat.add_zero, slice_self]; rfl
  | succ n ih =>
    have hget : o[c]? = some o[c] := List.getElem?_eq_getElem (by omega)
    have hkept : keptAt o localHunks remoteHunks c = [o[c]] := by
      rw [keptAt, if_pos ⟨hL c (by omega) (by omega), hR c (by omega) (by omega)⟩, hget]
      rfl
    have hlast : c + (n + 1) = c + 1 + n := by omega
    rw [range'_succ, flatMap_cons, hkept, slice_succ o hget (by omega), hlast,
      ih (by omega) (fun p hp hlt => hL p (by omega) (by omega))
        fun p hp hlt => hR p (by omega) (by omega)]
    rfl

omit [DecidableEq α] in
/-- The untouched lines before the next hunks, and the change that ends them. -/
theorem gap_joint (hcs : c < s) (hs : s ≤ o.length)
    (hL : ∀ h ∈ localHunks, h.oStart + h.oLength ≤ c ∨ s ≤ h.oStart)
    (hR : ∀ h ∈ remoteHunks, h.oStart + h.oLength ≤ c ∨ s ≤ h.oStart) :
    jointStretch o a b localHunks remoteHunks c (s - c) =
      slice o c s ++ changeAt a b localHunks remoteHunks s := by
  obtain ⟨n, hn⟩ : ∃ n, s = c + (n + 1) := ⟨s - c - 1, by omega⟩
  have hcount : s - c = n + 1 := by omega
  have hkept : ∀ {hunks : List Hunk}, (∀ h ∈ hunks, h.oStart + h.oLength ≤ c ∨ s ≤ h.oStart) →
      ∀ p, c ≤ p → p < c + (n + 1) → Kept hunks p := by
    intro hunks hout p hp hlt h hh
    have := hout h hh
    omega
  have hnone : ∀ {hunks : List Hunk}, (∀ h ∈ hunks, h.oStart + h.oLength ≤ c ∨ s ≤ h.oStart) →
      ∀ p, c < p → p < c + (n + 1) → ∀ h ∈ hunks, h.oStart ≠ p := by
    intro hunks hout p hp hlt h hh
    have := hout h hh
    omega
  rw [hcount, jointStretch, stretch_plain fun p hp hlt =>
    changeAt_nil (hnone hL p hp hlt) (hnone hR p hp hlt), kept_lines (by omega) (hkept hL) (hkept hR),
    hn]

end

section
variable {adjacency fuel i j : ℕ} {events : List SidedHunk}

omit [DecidableEq α] in
theorem rest_joint {hL hR : List Hunk} (hc : c ≤ o.length)
    (hdone : ∀ h ∈ hL, h.oStart + h.oLength ≤ c) (hdone' : ∀ h ∈ hR, h.oStart + h.oLength ≤ c) :
    o.drop c = jointStretch o a b hL hR c (o.length - c) := by
  rcases Nat.eq_or_lt_of_le hc with rfl | hlt
  · rw [Nat.sub_self, drop_length]
    rfl
  · have hnone : ∀ {hunks : List Hunk}, (∀ h ∈ hunks, h.oStart + h.oLength ≤ c) →
        ∀ h ∈ hunks, h.oStart ≠ o.length := by
      intro hunks hout h hh
      have := hout h hh
      omega
    rw [gap_joint hlt (Nat.le_refl _) (fun h hh => .inl (hdone h hh)) fun h hh =>
      .inl (hdone' h hh), changeAt_nil (hnone hdone) (hnone hdone'), append_nil,
      slice_natCast, take_length]

theorem region_of_step {later : List SidedHunk} {i' j' : ℕ} {m' : List α}
    (S : RegionStep o a b (diffHunks o a) (diffHunks o b) adjacency fuel c i j s m e i' j' later
      lines m') :
    lines = changeAt a b (diffHunks o a) (diffHunks o b) s ++
      jointStretch o a b (diffHunks o a) (diffHunks o b) s (e - s) := by
  have A := diffHunks_aligned o a
  have B := diffHunks_aligned o b
  obtain ⟨sides, hlocal, hremote, hregion⟩ := S.region
  apply region_joint S.start_le_end S.end_le S.local_within S.remote_within
  exact regionLines_choice
    (fun h => A.segmentFor_untouched S.start_le_end S.end_le (hlocal h))
    (fun h => B.segmentFor_untouched S.start_le_end S.end_le (hremote h)) hregion

theorem mergeRegions_joint (hadj : 1 ≤ adjacency) (hc : c ≤ o.length)
    (hfuel : events.length ≤ fuel) (hev : EventsOf (diffHunks o a) (diffHunks o b) events)
    (hL : Resume (diffHunks o a) .localSide events c i)
    (hR : Resume (diffHunks o b) .remoteSide events c j) (hbehind : ∀ ev ∈ events, c < ev.oStart)
    (hrun : mergeRegions o (diffHunks o a) (diffHunks o b) a b adjacency fuel c events =
      .ok (some m)) :
    m = jointStretch o a b (diffHunks o a) (diffHunks o b) c (o.length - c) := by
  have A := diffHunks_aligned o a
  have B := diffHunks_aligned o b
  induction fuel generalizing c i j events m with
  | zero =>
    obtain rfl : events = [] := length_eq_zero_iff.mp (Nat.le_zero.mp hfuel)
    simp only [mergeRegions, Except.ok.injEq, Option.some.injEq] at hrun
    rw [← hrun, rest_joint hc hL.done hR.done]
  | succ fuel ih =>
    cases events with
    | nil =>
      simp only [mergeRegions, Except.ok.injEq, Option.some.injEq] at hrun
      rw [← hrun, rest_joint hc hL.done hR.done]
    | cons first rest =>
      have hcs : c < first.oStart := hbehind first mem_cons_self
      have hpendL := hL.pending hev.ordered
      have hpendR := hR.pending hev.ordered
      obtain ⟨e, i', j', later, lines, m', hlen, S⟩ := mergeRegions_step hadj A B hev hL hR hrun
      have hse := S.start_le_end
      have he := S.end_le
      rw [length_cons] at hfuel
      have hrest := ih S.end_le (by omega) S.events S.local_resume S.remote_resume S.later_out S.run
      have hcount : o.length - c =
          (first.oStart - c) + ((e - first.oStart) + (o.length - e)) := by omega
      have hat : c + (first.oStart - c) = first.oStart := by omega
      have hat' : first.oStart + (e - first.oStart) = e := by omega
      rw [S.merged, region_of_step S, hrest, hcount]
      unfold jointStretch
      rw [stretch_add, stretch_add, hat, hat']
      have hgap := gap_joint (o := o) (a := a) (b := b) hcs (by omega) hpendL hpendR
      unfold jointStretch at hgap
      rw [hgap]
      simp only [append_assoc]

/-- The merged lines do not depend on how changes are grouped. -/
theorem mergeLines_joint (hadj : 1 ≤ adjacency) (hrun : mergeLines adjacency o a b = .ok (some m)) :
    m = changeAt a b (diffHunks o a) (diffHunks o b) 0 ++
      jointStretch o a b (diffHunks o a) (diffHunks o b) 0 o.length := by
  have A := diffHunks_aligned o a
  have B := diffHunks_aligned o b
  have hev := sidedEvents_eventsOf (diffHunks o a) (diffHunks o b)
  have hallL : ∀ h ∈ diffHunks o a,
      (⟨h, .localSide⟩ : SidedHunk) ∈ sidedEvents (diffHunks o a) (diffHunks o b) :=
    fun h hh => mem_sidedEvents.mpr (.inl ⟨h, hh, rfl⟩)
  have hallR : ∀ h ∈ diffHunks o b,
      (⟨h, .remoteSide⟩ : SidedHunk) ∈ sidedEvents (diffHunks o a) (diffHunks o b) :=
    fun h hh => mem_sidedEvents.mpr (.inr ⟨h, hh, rfl⟩)
  have hL := Resume.local_start (diffHunks o a) (diffHunks o b)
  have hR := Resume.remote_start (diffHunks o a) (diffHunks o b)
  unfold mergeLines at hrun
  dsimp only at hrun
  generalize sidedEvents (diffHunks o a) (diffHunks o b) = events at hev hallL hallR hL hR hrun
  by_cases hbehind : ∀ ev ∈ events, 0 < ev.oStart
  · have hnone : changeAt a b (diffHunks o a) (diffHunks o b) 0 = [] := by
      apply changeAt_nil
      · exact fun h hh => Nat.ne_of_gt (hbehind _ (hallL h hh))
      · exact fun h hh => Nat.ne_of_gt (hbehind _ (hallR h hh))
    rw [hnone, nil_append]
    exact mergeRegions_joint hadj (Nat.zero_le _) (Nat.le_refl _) hev hL hR hbehind hrun
  · cases events with
    | nil => exact absurd (fun _ hev => absurd hev not_mem_nil) hbehind
    | cons first rest =>
      have hzero : first.oStart = 0 := by
        by_contra hpos
        apply hbehind
        intro ev hmem
        rcases mem_cons.mp hmem with rfl | hmem
        · omega
        · have := rel_of_pairwise_cons hev.ordered hmem
          omega
      obtain ⟨e, i', j', later, lines, m', hlen, S⟩ := mergeRegions_step hadj A B hev hL hR hrun
      have he := S.end_le
      have hrest := mergeRegions_joint hadj S.end_le hlen S.events S.local_resume S.remote_resume
        S.later_out S.run
      have hregion := region_of_step S
      have hcount : o.length = e + (o.length - e) := by omega
      rw [hzero, Nat.sub_zero] at hregion
      rw [S.merged, hregion, hrest, hzero, slice_self, nil_append, hcount]
      unfold jointStretch
      rw [stretch_add, Nat.zero_add, Nat.add_sub_cancel_left, append_assoc]

end

end Havemind.JointText
