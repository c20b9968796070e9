import Havemind.LcsCuts
import Havemind.MergeIdentities
import Havemind.MergeTail

/-!
Two diffs against one ancestor inside one region. Where both sides end up with the same
lines, the walks inside the region are the same, so each hunk of one side has a twin on the
other: the same ancestor lines and the same replacement. A side whose region is the
ancestor's has no hunk in it.
-/
namespace Havemind.RegionTwins

open JsText LineDiff LcsTrace LcsCuts Diff3 Diff3Cuts Diff3Soundness MergeTail List
open MergeIdentities (diffHunks_self)

variable {α : Type*} {o v v' : List α}

/-- An ancestor line that no hunk covers. -/
def Kept (hunks : List Hunk) (q : ℕ) : Prop :=
  ∀ h ∈ hunks, h.oStart + h.oLength ≤ q ∨ q < h.oStart

section
variable {i j q : ℕ} {bs : List Match} {m : Match}

theorem match_ge (hb : BoundariesFrom o v i j bs) : ∀ m ∈ bs, i ≤ m.x := by
  induction hb with
  | last hi hj =>
    intro m hm
    rw [mem_singleton.mp hm]
    exact hi
  | step hx hy ho hv tail ih =>
    intro m hm
    rcases mem_cons.mp hm with rfl | hm
    · exact hx
    · have := ih m hm
      omega

theorem kept_of_match (hb : BoundariesFrom o v i j bs) (hm : m ∈ bs) (hlt : m.x < o.length) :
    Kept (hunksFrom i j bs) m.x ∧ endFrom i j bs m.x = m.y := by
  have hhead : ∀ {first : Match} {rest : List Match} {i j : ℕ}, i ≤ first.x → first.x ≤ m.x →
      (∀ h ∈ hunksFrom (first.x + 1) (first.y + 1) rest,
        h.oStart + h.oLength ≤ m.x ∨ m.x < h.oStart) →
      Kept (hunksFrom i j (first :: rest)) m.x := by
    intro first rest i j hi hle hrest h hh
    rw [hunksFrom_cons] at hh
    rcases mem_append.mp hh with hfirst | hlater
    · split at hfirst
      · rw [mem_singleton.mp hfirst]
        left
        dsimp only
        omega
      · cases hfirst
    · exact hrest h hlater
  induction hb with
  | last hi hj =>
    rw [mem_singleton.mp hm] at hlt
    exact absurd hlt (Nat.lt_irrefl _)
  | @step i j first rest line hx hy ho hv tail ih =>
    rcases mem_cons.mp hm with rfl | hm
    · constructor
      · apply hhead hx (Nat.le_refl _)
        intro h hh
        have := oStart_ge tail h hh
        omega
      · rw [endFrom_of_le hx hy (oStart_ge tail) hx (Nat.le_refl _) (Or.inr (Nat.le_refl _)),
          if_pos (Nat.le_refl _)]
    · have hge := match_ge tail m hm
      obtain ⟨hkept, hend⟩ := ih hm
      exact ⟨hhead hx (by omega) hkept, by rw [endFrom_of_lt hx hy (by omega), hend]⟩

theorem exists_match (hb : BoundariesFrom o v i j bs) (hiq : i ≤ q) (hq : q < o.length)
    (hkept : Kept (hunksFrom i j bs) q) : ∃ y, ⟨q, y⟩ ∈ bs := by
  have hfree : ∀ {first : Match} {rest : List Match} {i j : ℕ}, i ≤ first.x → i ≤ q →
      Kept (hunksFrom i j (first :: rest)) q → first.x ≤ q := by
    intro first rest i j hi hiq hkept
    by_contra hlt
    have hhead := hkept ⟨i, first.x - i, j, first.y - j⟩ (by
      rw [hunksFrom_cons, if_pos (by omega)]
      exact mem_append_left _ (mem_singleton_self _))
    dsimp only at hhead
    omega
  induction hb with
  | last hi hj =>
    have hge := hfree hi hiq hkept
    dsimp only at hge
    omega
  | @step i j first rest line hx hy ho hv tail ih =>
    have hge := hfree hx hiq hkept
    by_cases hsame : q = first.x
    · exact ⟨first.y, by rw [hsame]; exact mem_cons_self⟩
    · obtain ⟨y, hmem⟩ := ih (by omega) fun h hh => hkept h (by
        rw [hunksFrom_cons]
        exact mem_append_right _ hh)
      exact ⟨y, mem_cons_of_mem _ hmem⟩

/-- The matches of the diff are the kept ancestor lines, each with its variant position. -/
theorem mem_lcsMatches_iff [DecidableEq α] {y : ℕ} : ⟨q, y⟩ ∈ lcsMatches o v ↔
    q < o.length ∧ Kept (diffHunks o v) q ∧ variantEnd (diffHunks o v) q = y := by
  have hb : BoundariesFrom o v 0 0 (lcsMatches o v ++ [⟨o.length, v.length⟩]) :=
    backtrace_boundaries o v _ _ 0 0 (Nat.zero_le _) (Nat.zero_le _)
  have hend : ∀ p, variantEnd (diffHunks o v) p =
      endFrom 0 0 (lcsMatches o v ++ [⟨o.length, v.length⟩]) p := by
    intro p
    simp [endFrom, diffHunks]
  constructor
  · intro hmem
    have hlt := ((lcsMatches_trace o v).pairs.lt _ hmem).1
    obtain ⟨hkept, hcut⟩ := kept_of_match hb (mem_append_left _ hmem) hlt
    exact ⟨hlt, hkept, by rw [hend, hcut]⟩
  · rintro ⟨hlt, hkept, hcut⟩
    obtain ⟨y', hmem⟩ := exists_match hb (Nat.zero_le q) hlt hkept
    have hother := (kept_of_match hb hmem hlt).2
    rw [← hend, hcut] at hother
    have hsame : y = y' := by exact_mod_cast hother
    rw [hsame]
    rcases mem_append.mp hmem with hmatch | hlast
    · exact hmatch
    · obtain ⟨hq, -⟩ := Match.mk.inj (mem_singleton.mp hlast)
      omega

end

section
variable {hunks : List Hunk} {h : Hunk} {p q s e : ℕ}

theorem Kept.free (h : Kept hunks q) : Free hunks q := by
  intro k hk
  have := h k hk
  omega

theorem Kept.free_succ (h : Kept hunks q) : Free hunks (q + 1) := by
  intro k hk
  have := h k hk
  omega

theorem end_mono (A : Aligned o v hunks) (hpq : p ≤ q) (hq : q ≤ o.length) (hfp : Free hunks p)
    (hfq : Free hunks q) : variantEnd hunks p ≤ variantEnd hunks q := by
  rcases Nat.eq_or_lt_of_le hpq with rfl | hlt
  · exact le_refl _
  · have hstart := A.monotone p q hlt hq hfp hfq
    have hbounds := A.bounds q hq hfq
    omega

theorem start_le_end (A : Aligned o v hunks) (hpq : p ≤ q) (hq : q ≤ o.length)
    (hfp : Free hunks p) (hfq : Free hunks q) : variantStart hunks p ≤ variantEnd hunks q := by
  have hbounds := A.bounds p (Nat.le_trans hpq hq) hfp
  have hmono := end_mono A hpq hq hfp hfq
  omega

/-- Behind the line before a region no hunk is pending. -/
theorem kept_before (hw : Within hunks s e) (hse : s ≤ e) (hs : 0 < s) :
    Kept hunks (s - 1) := by
  intro h hh
  have := hw h hh
  omega

theorem kept_before_hunk (A : Aligned o v hunks) (hh : h ∈ hunks)
    (hpos : 0 < h.oStart) : Kept hunks (h.oStart - 1) := by
  intro k hk
  rcases hunk_order A hh hk with hbefore | rfl | hbehind <;> omega

theorem kept_behind_hunk (A : Aligned o v hunks) (hh : h ∈ hunks) :
    Kept hunks (h.oStart + h.oLength) := by
  intro k hk
  rcases hunk_order A hh hk with hbefore | rfl | hbehind <;> omega

theorem replacement_eq {lines : List α} {first last a b : ℕ} (hab : first + b ≤ last)
    (hlines : lines = (v.take last).drop first) :
    (v.drop (first + a)).take (b - a) = (lines.drop a).take (b - a) := by
  rw [hlines, drop_drop, drop_take, take_take, Nat.min_eq_left (by omega)]

end

variable [DecidableEq α] {s e : ℕ}

/-- The variant's first line of a region. -/
def startAt (hunks : List Hunk) (p : ℕ) : ℕ := (variantStart hunks p).toNat

theorem separates_cut (he : e ≤ o.length) (hfree : Free (diffHunks o v) e) :
    Separates e (cutAt (diffHunks o v) e) (lcsMatches o v) := by
  intro m hm
  have A := diffHunks_aligned o v
  obtain ⟨hlt, hkept, hend⟩ := mem_lcsMatches_iff.mp hm
  obtain ⟨y, hy, hnext, -⟩ := A.copied m.x hlt hkept
  obtain ⟨-, cut, -, hcut, -, -⟩ := A.exists_cut he hfree
  rw [cutAt_eq hcut]
  by_cases hbefore : m.x < e
  · have hnext' : m.x + 1 ≤ e := hbefore
    have hle := start_le_end A hnext' he hkept.free_succ hfree
    left
    omega
  · have hle := end_mono A (Nat.le_of_not_lt hbefore) (Nat.le_of_lt hlt) hfree hkept.free
    right
    omega

variable (hse : s ≤ e)
include hse

/-- The walk stands at the start of every region. -/
theorem trace_start (he : e ≤ o.length) (hw : Within (diffHunks o v) s e) :
    ∃ ms, Trace o v s (startAt (diffHunks o v) s) ms ∧
      ∀ m, m ∈ ms ↔ m ∈ lcsMatches o v ∧ s ≤ m.x := by
  have A := diffHunks_aligned o v
  have hwhole := lcsMatches_trace o v
  rcases Nat.eq_zero_or_pos s with rfl | hpos
  · have hzero : startAt (diffHunks o v) 0 = 0 := by
      rw [startAt, variantStart_of_le _ 0 fun h _ => Nat.zero_le _]
      rfl
    rw [hzero]
    exact ⟨_, hwhole, fun m => ⟨fun hm => ⟨hm, Nat.zero_le _⟩, fun hm => hm.1⟩⟩
  · have hkept := kept_before hw hse hpos
    obtain ⟨y, hy, hnext, -⟩ := A.copied (s - 1) (by omega) hkept
    have hmatch : ⟨s - 1, y⟩ ∈ lcsMatches o v := mem_lcsMatches_iff.mpr ⟨by omega, hkept, hy⟩
    obtain ⟨ms, htrace, hmem⟩ := hwhole.resume hmatch
    have hsucc : s - 1 + 1 = s := Nat.succ_pred_eq_of_pos hpos
    rw [hsucc] at hnext
    have hstart : startAt (diffHunks o v) s = y + 1 := by
      rw [startAt, hnext]
      omega
    dsimp only at htrace hmem
    rw [hsucc] at htrace
    refine ⟨ms, hstart ▸ htrace, fun m => ?_⟩
    rw [hmem]
    exact and_congr_right fun _ => by omega

theorem segmentFor_eq (he : e ≤ o.length) (hw : Within (diffHunks o v) s e) :
    segmentFor (diffHunks o v) v s e =
        (v.take (cutAt (diffHunks o v) e)).drop (startAt (diffHunks o v) s) ∧
      variantStart (diffHunks o v) s = startAt (diffHunks o v) s ∧
      variantEnd (diffHunks o v) e = cutAt (diffHunks o v) e ∧
      startAt (diffHunks o v) s ≤ cutAt (diffHunks o v) e ∧
      cutAt (diffHunks o v) e ≤ v.length := by
  have A := diffHunks_aligned o v
  obtain ⟨first, -, hstart, -, -, -⟩ := A.exists_cut (Nat.le_trans hse he) (hw.free_start hse)
  obtain ⟨-, last, -, hend, -, hlast⟩ := A.exists_cut he (hw.free_end hse)
  have hle := start_le_end A hse he (hw.free_start hse) (hw.free_end hse)
  have hfirst : startAt (diffHunks o v) s = first := by
    rw [startAt, hstart, Int.toNat_natCast]
  rw [segmentFor, hstart, hend, hfirst, cutAt_eq hend, slice_natCast]
  exact ⟨rfl, rfl, rfl, by omega, hlast⟩

/-- Inside a region that both sides end up with alike, both keep the same lines at the same
places. -/
theorem kept_agree (he : e ≤ o.length) (hw : Within (diffHunks o v) s e)
    (hw' : Within (diffHunks o v') s e)
    (hsame : segmentFor (diffHunks o v) v s e = segmentFor (diffHunks o v') v' s e) {q n : ℕ}
    (hs : s ≤ q) (hq : q < e) (hkept : Kept (diffHunks o v) q)
    (hend : variantEnd (diffHunks o v) q = startAt (diffHunks o v) s + n) :
    Kept (diffHunks o v') q ∧
      variantEnd (diffHunks o v') q = startAt (diffHunks o v') s + n := by
  obtain ⟨ms, htrace, hmem⟩ := trace_start hse he hw
  obtain ⟨ms', htrace', hmem'⟩ := trace_start hse he hw'
  obtain ⟨hlines, -, -, -, hlast⟩ := segmentFor_eq hse he hw
  obtain ⟨hlines', -, -, -, hlast'⟩ := segmentFor_eq hse he hw'
  rw [hlines, hlines'] at hsame
  have hmatch : ⟨q, startAt (diffHunks o v) s + n⟩ ∈ ms := by
    rw [hmem, mem_lcsMatches_iff]
    exact ⟨⟨by omega, hkept, by rw [hend]; push_cast; rfl⟩, hs⟩
  have hcut : Separates e (cutAt (diffHunks o v) e) ms := fun m hm =>
    separates_cut he (hw.free_end hse) m ((hmem m).mp hm).1
  have hcut' : Separates e (cutAt (diffHunks o v') e) ms' := fun m hm =>
    separates_cut he (hw'.free_end hse) m ((hmem' m).mp hm).1
  have hother := htrace.agree htrace' hcut hcut' hlast hlast' hsame q n hq hmatch
  rw [hmem', mem_lcsMatches_iff] at hother
  obtain ⟨⟨-, hkept', hend'⟩, -⟩ := hother
  exact ⟨hkept', by rw [hend']; push_cast; rfl⟩

/-- Two hunks with the same ancestor lines and the same replacement. -/
def Twins (v v' : List α) (h h' : Hunk) : Prop :=
  h'.oStart = h.oStart ∧ h'.oLength = h.oLength ∧
    (v'.drop h'.abStart).take h'.abLength = (v.drop h.abStart).take h.abLength

/-- The position before a line behind which no hunk is open, on both sides. -/
theorem start_agree (he : e ≤ o.length) (hw : Within (diffHunks o v) s e)
    (hw' : Within (diffHunks o v') s e)
    (hsame : segmentFor (diffHunks o v) v s e = segmentFor (diffHunks o v') v' s e) {p : ℕ}
    (hs : s ≤ p) (hp : p ≤ e) (hkept : s < p → Kept (diffHunks o v) (p - 1)) :
    ∃ n : ℕ, variantStart (diffHunks o v) p = startAt (diffHunks o v) s + n ∧
      variantStart (diffHunks o v') p = startAt (diffHunks o v') s + n := by
  have A := diffHunks_aligned o v
  have B := diffHunks_aligned o v'
  obtain ⟨-, hstart, -, -, -⟩ := segmentFor_eq hse he hw
  obtain ⟨-, hstart', -, -, -⟩ := segmentFor_eq hse he hw'
  rcases Nat.eq_or_lt_of_le hs with rfl | hlt
  · exact ⟨0, by simpa using hstart, by simpa using hstart'⟩
  · have hbefore := hkept hlt
    obtain ⟨y, hy, hnext, -⟩ := A.copied (p - 1) (by omega) hbefore
    have hsucc : p - 1 + 1 = p := by omega
    rw [hsucc] at hnext
    have hle := start_le_end A (by omega) (by omega) (hw.free_start hse) hbefore.free
      (p := s) (q := p - 1)
    obtain ⟨n, hn⟩ : ∃ n : ℕ, y = startAt (diffHunks o v) s + n :=
      Nat.exists_eq_add_of_le (by omega)
    obtain ⟨hother, hy'⟩ := kept_agree hse he hw hw' hsame (q := p - 1) (n := n) (by omega)
      (by omega) hbefore (by rw [hy, hn]; push_cast; rfl)
    obtain ⟨y', hcut, hnext', -⟩ := B.copied (p - 1) (by omega) hother
    rw [hsucc] at hnext'
    exact ⟨n + 1, by omega, by omega⟩

theorem end_agree (he : e ≤ o.length) (hw : Within (diffHunks o v) s e)
    (hw' : Within (diffHunks o v') s e)
    (hsame : segmentFor (diffHunks o v) v s e = segmentFor (diffHunks o v') v' s e) {p : ℕ}
    (hs : s ≤ p) (hp : p ≤ e) (hkept : p < e → Kept (diffHunks o v) p) :
    ∃ n : ℕ, variantEnd (diffHunks o v) p = startAt (diffHunks o v) s + n ∧
      variantEnd (diffHunks o v') p = startAt (diffHunks o v') s + n := by
  have A := diffHunks_aligned o v
  obtain ⟨hlines, hstart, hend, hle, hlast⟩ := segmentFor_eq hse he hw
  obtain ⟨hlines', hstart', hend', hle', hlast'⟩ := segmentFor_eq hse he hw'
  rcases Nat.eq_or_lt_of_le hp with rfl | hlt
  · rw [hlines, hlines'] at hsame
    have hlength := congrArg List.length hsame
    simp only [length_drop, length_take] at hlength
    refine ⟨cutAt (diffHunks o v) p - startAt (diffHunks o v) s, ?_, ?_⟩
    · omega
    · omega
  · have hbehind := hkept hlt
    obtain ⟨y, hy, -, -⟩ := A.copied p (by omega) hbehind
    have hfirst := start_le_end A hs (by omega) (hw.free_start hse) hbehind.free
    obtain ⟨n, hn⟩ : ∃ n : ℕ, y = startAt (diffHunks o v) s + n :=
      Nat.exists_eq_add_of_le (by omega)
    obtain ⟨-, hy'⟩ := kept_agree hse he hw hw' hsame hs hlt hbehind
      (by rw [hy, hn]; push_cast; rfl)
    exact ⟨n, by omega, hy'⟩

theorem kept_of_kept (he : e ≤ o.length) (hw : Within (diffHunks o v) s e)
    (hw' : Within (diffHunks o v') s e)
    (hsame : segmentFor (diffHunks o v) v s e = segmentFor (diffHunks o v') v' s e) {q : ℕ}
    (hs : s ≤ q) (hq : q < e) (hkept : Kept (diffHunks o v) q) : Kept (diffHunks o v') q := by
  have A := diffHunks_aligned o v
  obtain ⟨y, hy, -, -⟩ := A.copied q (by omega) hkept
  obtain ⟨-, hstart, -, -, -⟩ := segmentFor_eq hse he hw
  have hfirst := start_le_end A hs (by omega) (hw.free_start hse) hkept.free
  obtain ⟨n, hn⟩ : ∃ n : ℕ, y = startAt (diffHunks o v) s + n :=
    Nat.exists_eq_add_of_le (by omega)
  exact (kept_agree hse he hw hw' hsame hs hq hkept (by rw [hy, hn]; push_cast; rfl)).1

variable {h : Hunk}

/-- Each hunk of a region that both sides end up with alike has a twin. -/
theorem exists_twin (he : e ≤ o.length) (hw : Within (diffHunks o v) s e)
    (hw' : Within (diffHunks o v') s e)
    (hsame : segmentFor (diffHunks o v) v s e = segmentFor (diffHunks o v') v' s e)
    (hh : h ∈ diffHunks o v) (hs : s ≤ h.oStart) (hend : h.oStart + h.oLength ≤ e) :
    ∃ h' ∈ diffHunks o v', Twins v v' h h' := by
  have A := diffHunks_aligned o v
  have B := diffHunks_aligned o v'
  obtain ⟨hlines, hstart, hlast, -, -⟩ := segmentFor_eq hse he hw
  obtain ⟨hlines', hstart', hlast', -, -⟩ := segmentFor_eq hse he hw'
  have hback := fun q => kept_of_kept hse he hw' hw hsame.symm (q := q)
  have hforth := fun q => kept_of_kept hse he hw hw' hsame (q := q)
  obtain ⟨a, ha, ha'⟩ := start_agree hse he hw hw' hsame hs (by omega) fun hlt =>
    kept_before_hunk A hh (by omega)
  obtain ⟨b, hb, hb'⟩ := end_agree hse he hw hw' hsame (p := h.oStart + h.oLength) (by omega) hend
    fun _ => kept_behind_hunk A hh
  obtain ⟨hcut, hcut'⟩ := A.hunk_cuts h hh
  have hexists : ∃ h' ∈ diffHunks o v', h'.oStart = h.oStart ∧ h'.oLength = h.oLength := by
    rcases Nat.eq_zero_or_pos h.oLength with hzero | hpos
    · have hpos := (diffHunks_greedy o v hh).nonempty
      by_contra hnone
      have hsplit : variantStart (diffHunks o v') h.oStart =
          variantEnd (diffHunks o v') h.oStart := by
        apply variantStart_eq_variantEnd
        intro k hk hle
        by_contra hge
        exact hnone ⟨k, hk, by omega, by omega⟩
      rw [hzero, Nat.add_zero] at hb hb' hcut'
      omega
    · have hcovered : ¬ Kept (diffHunks o v') h.oStart := by
        intro hkept
        have := hback h.oStart hs (by omega) hkept h hh
        omega
      unfold Kept at hcovered
      push Not at hcovered
      obtain ⟨h', hh', hbefore, hbehind⟩ := hcovered
      have hin := hw' h' hh'
      have hfirst : h'.oStart = h.oStart := by
        by_contra hne
        have := hforth (h.oStart - 1) (by omega) (by omega) (kept_before_hunk A hh (by omega)) h' hh'
        omega
      refine ⟨h', hh', hfirst, ?_⟩
      by_contra hne
      rcases Nat.lt_or_gt_of_ne hne with hshort | hlong
      · have := hback (h'.oStart + h'.oLength) (by omega) (by omega) (kept_behind_hunk B hh') h hh
        omega
      · have := hforth (h.oStart + h.oLength) (by omega) (by omega) (kept_behind_hunk A hh) h' hh'
        omega
  obtain ⟨h', hh', hfirst, hlength⟩ := hexists
  obtain ⟨hother, hother'⟩ := B.hunk_cuts h' hh'
  rw [hfirst] at hother hother'
  rw [hlength] at hother'
  have hbound := end_mono A hend he (kept_behind_hunk A hh).free (hw.free_end hse)
  have hbound' := end_mono B hend he (hlength ▸ hfirst ▸ (kept_behind_hunk B hh').free)
    (hw'.free_end hse)
  refine ⟨h', hh', hfirst, hlength, ?_⟩
  have hstarts : h.abStart = startAt (diffHunks o v) s + a := by omega
  have hstarts' : h'.abStart = startAt (diffHunks o v') s + a := by omega
  have hlengths : h.abLength = b - a := by omega
  have hlengths' : h'.abLength = b - a := by omega
  rw [hstarts, hstarts', hlengths, hlengths', replacement_eq (by omega) hlines,
    replacement_eq (by omega) hlines', hsame]

/-- A side whose region is the ancestor's changed nothing in it. -/
theorem untouched_of_same (he : e ≤ o.length) (hw : Within (diffHunks o v) s e)
    (hsame : segmentFor (diffHunks o v) v s e = slice o s e) : Untouched (diffHunks o v) s e := by
  have hnone : diffHunks o o = [] := diffHunks_self o
  have hself : segmentFor (diffHunks o o) o s e = slice o s e := by
    rw [hnone]
    simp [segmentFor]
  have hw' : Within (diffHunks o o) s e := by
    rw [hnone]
    intro h hh
    cases hh
  intro h hh
  rcases hw h hh with hbefore | ⟨hs, hend⟩ | hbehind
  · exact .inl hbefore
  · obtain ⟨h', hh', -⟩ := exists_twin hse he hw hw' (hsame.trans hself.symm) hh hs hend
    rw [hnone] at hh'
    cases hh'
  · exact .inr hbehind

end Havemind.RegionTwins
