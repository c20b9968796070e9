import Havemind.JointText

/-!
When a merge with a wider adjacency returns at all. A region may then hold ancestor lines
that neither side changed; rebuilding a disputed region reads the hunk of such a line, which
is not there. The merge ends with that error exactly where the first region it cannot
resolve has such a line in front of the lines both sides changed.
-/
namespace Havemind.MergeTotality

open JsText LineDiff Diff3 Diff3Cuts DisjointRegion Diff3Soundness MergeTail RegionTwins JointText
  List

section
variable {α : Type*} {o a b : List α} {localHunks remoteHunks : List Hunk} {s e line fuel : ℕ}
  {hunks : List Hunk} {q : ℕ} {own : Hunk}

/-- A line neither side changed, with no earlier line of the region that both changed. -/
def Open (localHunks remoteHunks : List Hunk) (s e : ℕ) : Prop :=
  ∃ p, s ≤ p ∧ p < e ∧ (Kept localHunks p ∧ Kept remoteHunks p) ∧
    ∀ q, s ≤ q → q < p → Kept localHunks q ∨ Kept remoteHunks q

/-- A line both sides changed, with no earlier line of the region that neither changed. -/
def Clash (localHunks remoteHunks : List Hunk) (s e : ℕ) : Prop :=
  ∃ q, s ≤ q ∧ q < e ∧ (¬ Kept localHunks q ∧ ¬ Kept remoteHunks q) ∧
    ∀ p, s ≤ p → p < q → ¬ (Kept localHunks p ∧ Kept remoteHunks p)

theorem not_open_of_clash (h : Clash localHunks remoteHunks s e) :
    ¬ Open localHunks remoteHunks s e := by
  obtain ⟨q, hs, -, ⟨hlocal, hremote⟩, hbefore⟩ := h
  rintro ⟨p, hsp, -, hkept, hearlier⟩
  rcases Nat.lt_trichotomy p q with hlt | rfl | hgt
  · exact hbefore p hsp hlt hkept
  · exact hlocal hkept.1
  · exact (hearlier q hs hgt).elim hlocal hremote

theorem hunkCovering_eq_none : hunkCovering hunks q = none ↔ Kept hunks q := by
  rw [hunkCovering, List.find?_eq_none]
  constructor
  · intro h k hk
    have hnot := h k hk
    simp only [decide_eq_true_eq] at hnot
    omega
  · intro h k hk
    have := h k hk
    simp only [decide_eq_true_eq]
    omega

/-- What the walk over a balanced region without insertions ends with. -/
inductive WalkEnd (localHunks remoteHunks : List Hunk) (s e : ℕ) :
    Except JsError (Option (List α)) → Prop
  | thrown : Open localHunks remoteHunks s e → WalkEnd localHunks remoteHunks s e (.error .typeError)
  | refused : Clash localHunks remoteHunks s e → WalkEnd localHunks remoteHunks s e (.ok none)
  | rebuilt {out : List α} : ¬ Open localHunks remoteHunks s e → ¬ Clash localHunks remoteHunks s e →
      WalkEnd localHunks remoteHunks s e (.ok (some out))

/-- Lines with one owner each change nothing about what the walk meets behind them. -/
theorem WalkEnd.before {f : List α → List α} {x : Except JsError (Option (List α))}
    (hlq : line ≤ q)
    (hone : ∀ p, line ≤ p → p < q → ¬ (Kept localHunks p ∧ Kept remoteHunks p) ∧
      (Kept localHunks p ∨ Kept remoteHunks p)) (h : WalkEnd localHunks remoteHunks q e x) :
    WalkEnd localHunks remoteHunks line e (x.map (Option.map f)) := by
  have hopen : Open localHunks remoteHunks q e ↔ Open localHunks remoteHunks line e := by
    constructor
    · rintro ⟨p, hqp, hpe, hkept, hearlier⟩
      refine ⟨p, Nat.le_trans hlq hqp, hpe, hkept, fun p' hp' hlt => ?_⟩
      by_cases hin : p' < q
      · exact (hone p' hp' hin).2
      · exact hearlier p' (Nat.le_of_not_lt hin) hlt
    · rintro ⟨p, hlp, hpe, hkept, hearlier⟩
      have hqp : q ≤ p := by
        by_contra hin
        exact (hone p hlp (Nat.lt_of_not_le hin)).1 hkept
      exact ⟨p, hqp, hpe, hkept, fun p' hp' hlt => hearlier p' (Nat.le_trans hlq hp') hlt⟩
  have hclash : Clash localHunks remoteHunks q e ↔ Clash localHunks remoteHunks line e := by
    constructor
    · rintro ⟨p, hqp, hpe, hboth, hearlier⟩
      refine ⟨p, Nat.le_trans hlq hqp, hpe, hboth, fun p' hp' hlt => ?_⟩
      by_cases hin : p' < q
      · exact (hone p' hp' hin).1
      · exact hearlier p' (Nat.le_of_not_lt hin) hlt
    · rintro ⟨p, hlp, hpe, hboth, hearlier⟩
      have hqp : q ≤ p := by
        by_contra hin
        exact (hone p hlp (Nat.lt_of_not_le hin)).2.elim hboth.1 hboth.2
      exact ⟨p, hqp, hpe, hboth, fun p' hp' hlt => hearlier p' (Nat.le_trans hlq hp') hlt⟩
  cases h with
  | thrown h => exact .thrown (hopen.mp h)
  | refused h => exact .refused (hclash.mp h)
  | rebuilt hnot hnot' => exact .rebuilt (fun h => hnot (hopen.mpr h)) fun h => hnot' (hclash.mpr h)

/-- The walk at a hunk only its owner has at this line: it refuses where the other side
changes a later line of it, else it goes on behind lines with one owner each. -/
theorem owner_end {ownHunks oppositeHunks : List Hunk} (hmem : own ∈ ownHunks)
    (hstart : own.oStart = line) (hlast : own.oStart + own.oLength ≤ e)
    (hopposite : Kept oppositeHunks line) (hs : s ≤ line) (hins : NoInsertion oppositeHunks s e) :
    (regionHasOppositeChange oppositeHunks own.oStart (own.oStart + own.oLength) = true →
      ∃ q, line ≤ q ∧ q < e ∧ (¬ Kept ownHunks q ∧ ¬ Kept oppositeHunks q) ∧
        ∀ p, line ≤ p → p < q → ¬ Kept ownHunks p) ∧
    (¬ regionHasOppositeChange oppositeHunks own.oStart (own.oStart + own.oLength) = true →
      ∀ p, line ≤ p → p < own.oStart + own.oLength → ¬ Kept ownHunks p ∧ Kept oppositeHunks p) := by
  have howned : ∀ p, line ≤ p → p < own.oStart + own.oLength → ¬ Kept ownHunks p := by
    intro p hp hlt hkept
    have := hkept own hmem
    omega
  constructor
  · intro hopp
    obtain ⟨k, hk, hmeets⟩ := any_eq_true.mp hopp
    simp only [decide_eq_true_eq] at hmeets
    have hfar := hopposite k hk
    have hsolid := hins k hk
    refine ⟨k.oStart, by omega, by omega, ⟨howned _ (by omega) (by omega), fun hkept => ?_⟩,
      fun p hp hlt => howned p hp (by omega)⟩
    have := hkept k hk
    omega
  · intro hnone p hp hlt
    refine ⟨howned p hp hlt, fun k hk => ?_⟩
    by_contra hin
    apply hnone
    exact any_eq_true.mpr ⟨k, hk, by simp; omega⟩

theorem owner_at (hbal : BalancedIn hunks s e) (hmem : own ∈ hunks) (hs : s ≤ line)
    (hlt : line < e) (hfree : Free hunks line) (hcover : hunkCovering hunks line = some own) :
    own.oStart = line ∧ own.oStart + own.oLength ≤ e ∧ 0 < own.oLength ∧
      own.oLength = own.abLength := by
  have hcov : line ≥ own.oStart ∧ line < own.oStart + own.oLength := by
    simpa using List.find?_some hcover
  have hat := hfree own hmem
  have hin := hbal own hmem (by omega) (by omega)
  omega

theorem disjointWalk_walkEnd (hbalL : BalancedIn localHunks s e) (hbalR : BalancedIn remoteHunks s e)
    (hinsL : NoInsertion localHunks s e) (hinsR : NoInsertion remoteHunks s e)
    (A : Aligned o a localHunks) (B : Aligned o b remoteHunks) (hs : s ≤ line) (hle : line ≤ e)
    (hfuel : e ≤ line + fuel) (hfL : Free localHunks line) (hfR : Free remoteHunks line) :
    WalkEnd localHunks remoteHunks line e
      (disjointWalk localHunks remoteHunks a b e fuel line) := by
  have hdone : ∀ (line : ℕ) {out : List α}, ¬ line < e →
      WalkEnd localHunks remoteHunks line e (.ok (some out)) := by
    intro line out hend
    apply WalkEnd.rebuilt
    · rintro ⟨p, hp, hpe, -⟩
      omega
    · rintro ⟨q, hq, hqe, -⟩
      omega
  induction fuel generalizing line with
  | zero =>
    rw [disjointWalk]
    exact hdone line (by omega)
  | succ fuel ih =>
    rw [disjointWalk]
    dsimp only
    split
    · rename_i hlt
      split
      · rename_i ownL ownR hcoverL hcoverR
        have hlocal : ¬ Kept localHunks line := by
          rw [← hunkCovering_eq_none, hcoverL]
          exact Option.some_ne_none _
        have hremote : ¬ Kept remoteHunks line := by
          rw [← hunkCovering_eq_none, hcoverR]
          exact Option.some_ne_none _
        exact .refused ⟨line, Nat.le_refl _, hlt, ⟨hlocal, hremote⟩, fun p hp hpl => by omega⟩
      · rename_i hnoneL hnoneR
        exact .thrown ⟨line, Nat.le_refl _, hlt,
          ⟨hunkCovering_eq_none.mp hnoneL, hunkCovering_eq_none.mp hnoneR⟩, fun p hp hpl => by omega⟩
      · rename_i own hcover hnone
        have hmem : own ∈ localHunks := mem_of_find?_eq_some hcover
        obtain ⟨hstart, hlast, hpos⟩ := owner_at hbalL hmem hs hlt hfL hcover
        obtain ⟨hrefuse, hgo⟩ := owner_end hmem hstart hlast (hunkCovering_eq_none.mp hnone) hs hinsR
        split
        · rename_i hopp
          obtain ⟨q, hlq, hqe, hboth, hbefore⟩ := hrefuse hopp
          exact .refused ⟨q, hlq, hqe, hboth, fun p hp hpq hkept => hbefore p hp hpq hkept.1⟩
        · rename_i hopp
          have hone := hgo hopp
          have hfree : Free localHunks (own.oStart + own.oLength) :=
            free_of_separated A.separated hmem
          have hfree' : Free remoteHunks (own.oStart + own.oLength) := by
            intro k hk
            have := (hone (own.oStart + own.oLength - 1) (by omega) (by omega)).2 k hk
            omega
          rw [if_neg (by omega)]
          apply WalkEnd.before (show line ≤ own.oStart + own.oLength by omega)
          · intro p hp hpq
            exact ⟨fun hkept => (hone p hp hpq).1 hkept.1, .inr (hone p hp hpq).2⟩
          · exact ih (by omega) hlast (by omega) hfree hfree'
      · rename_i own hnone hcover
        have hmem : own ∈ remoteHunks := mem_of_find?_eq_some hcover
        obtain ⟨hstart, hlast, hpos⟩ := owner_at hbalR hmem hs hlt hfR hcover
        obtain ⟨hrefuse, hgo⟩ := owner_end hmem hstart hlast (hunkCovering_eq_none.mp hnone) hs hinsL
        split
        · rename_i hopp
          obtain ⟨q, hlq, hqe, hboth, hbefore⟩ := hrefuse hopp
          exact .refused ⟨q, hlq, hqe, hboth.symm, fun p hp hpq hkept => hbefore p hp hpq hkept.2⟩
        · rename_i hopp
          have hone := hgo hopp
          have hfree : Free remoteHunks (own.oStart + own.oLength) :=
            free_of_separated B.separated hmem
          have hfree' : Free localHunks (own.oStart + own.oLength) := by
            intro k hk
            have := (hone (own.oStart + own.oLength - 1) (by omega) (by omega)).2 k hk
            omega
          rw [if_neg (by omega)]
          apply WalkEnd.before (show line ≤ own.oStart + own.oLength by omega)
          · intro p hp hpq
            exact ⟨fun hkept => (hone p hp hpq).1 hkept.2, .inl (hone p hp hpq).2⟩
          · exact ih (by omega) hlast (by omega) hfree' hfree
    · rename_i hend
      exact hdone line hend

end

/-- One region of the outer loop: its ends and the sides seen in it. -/
structure Span where
  first : ℕ
  last : ℕ
  sides : List Side

/-- The regions the outer loop forms, whatever becomes of them. -/
def spansOf (adjacency : ℕ) : ℕ → List SidedHunk → List Span
  | 0, _ => []
  | _, [] => []
  | fuel + 1, first :: rest =>
    let (regionEnd, sides, later) :=
      groupRegion adjacency (first.oStart + first.oLength) [first.side] rest
    ⟨first.oStart, regionEnd, sides⟩ :: spansOf adjacency fuel later

variable {α : Type*} (o a b : List α) (localHunks remoteHunks : List Hunk)

/-- Both sides changed the region, and not alike. -/
structure Disputed (r : Span) : Prop where
  by_remote : .remoteSide ∈ r.sides
  remote_changed : segmentFor remoteHunks b r.first r.last ≠ slice o r.first r.last
  by_local : .localSide ∈ r.sides
  local_changed : segmentFor localHunks a r.first r.last ≠ slice o r.first r.last
  differ : segmentFor localHunks a r.first r.last ≠ segmentFor remoteHunks b r.first r.last

/-- Every hunk in the region replaces its lines one for one. -/
def OneForOne (r : Span) : Prop :=
  balanced localHunks r.first r.last = true ∧ balanced remoteHunks r.first r.last = true ∧
    insertionsIn localHunks r.first r.last = [] ∧ insertionsIn remoteHunks r.first r.last = []

/-- A region that is refused. -/
def Contested (r : Span) : Prop :=
  Disputed o a b localHunks remoteHunks r ∧
    (¬ OneForOne localHunks remoteHunks r ∨ Clash localHunks remoteHunks r.first r.last)

/-- A region whose rebuilding reads a hunk that is not there. -/
def Gapped (r : Span) : Prop :=
  Disputed o a b localHunks remoteHunks r ∧ OneForOne localHunks remoteHunks r ∧
    Open localHunks remoteHunks r.first r.last

variable {o a b localHunks remoteHunks} {s e : ℕ} {sides : List Side}

theorem mergeDisjointRegion_refused (h : ¬ OneForOne localHunks remoteHunks ⟨s, e, sides⟩) :
    mergeDisjointRegion localHunks remoteHunks a b s e = .ok none := by
  unfold mergeDisjointRegion
  split
  · rfl
  · rename_i hbal
    rw [if_pos]
    by_contra hins
    apply h
    simp only [Bool.or_eq_true, Bool.not_eq_true', not_or, Bool.not_eq_false] at hbal
    obtain ⟨hinsL, hinsR⟩ := not_or.mp hins
    have hlocal : (insertionsIn localHunks s e).length = 0 := by omega
    have hremote : (insertionsIn remoteHunks s e).length = 0 := by omega
    exact ⟨hbal.1, hbal.2, length_eq_zero_iff.mp hlocal, length_eq_zero_iff.mp hremote⟩

/-- Every gapped region of the list stands behind a contested one. -/
def GapsBehind (o a b : List α) (localHunks remoteHunks : List Hunk) (spans : List Span) : Prop :=
  ∀ before r after, spans = before ++ r :: after → Gapped o a b localHunks remoteHunks r →
    ∃ r' ∈ before, Contested o a b localHunks remoteHunks r'

theorem gapsBehind_nil : GapsBehind o a b localHunks remoteHunks [] := by
  intro before r after hsplit
  exact absurd hsplit.symm (append_ne_nil_of_right_ne_nil before (cons_ne_nil r after))

theorem gapsBehind_cons {r : Span} {spans : List Span} :
    GapsBehind o a b localHunks remoteHunks (r :: spans) ↔
      ¬ Gapped o a b localHunks remoteHunks r ∧
        (Contested o a b localHunks remoteHunks r ∨
          GapsBehind o a b localHunks remoteHunks spans) := by
  constructor
  · intro h
    have hfirst : ¬ Gapped o a b localHunks remoteHunks r := by
      intro hgap
      obtain ⟨_, hmem, _⟩ := h [] r spans rfl hgap
      exact not_mem_nil hmem
    refine ⟨hfirst, ?_⟩
    by_cases hcontested : Contested o a b localHunks remoteHunks r
    · exact .inl hcontested
    · right
      intro before r' after hsplit hgap
      obtain ⟨r'', hmem, hother⟩ := h (r :: before) r' after (by rw [hsplit]; rfl) hgap
      rcases mem_cons.mp hmem with rfl | hmem
      · exact absurd hother hcontested
      · exact ⟨r'', hmem, hother⟩
  · rintro ⟨hfirst, hrest⟩ before r' after hsplit hgap
    cases before with
    | nil =>
      obtain ⟨rfl, rfl⟩ := List.cons.inj hsplit
      exact absurd hgap hfirst
    | cons r'' before =>
      obtain ⟨rfl, hspans⟩ := List.cons.inj hsplit
      rcases hrest with hcontested | hrest
      · exact ⟨r, mem_cons_self, hcontested⟩
      · obtain ⟨t, hmem, hother⟩ := hrest before r' after hspans hgap
        exact ⟨t, mem_cons_of_mem r hmem, hother⟩

/-- What a region ends with: an error, a refusal or its lines. -/
inductive RegionEnd (o a b : List α) (localHunks remoteHunks : List Hunk) (r : Span) :
    Except JsError (Option (List α)) → Prop
  | thrown : Gapped o a b localHunks remoteHunks r →
      RegionEnd o a b localHunks remoteHunks r (.error .typeError)
  | refused : Contested o a b localHunks remoteHunks r → ¬ Gapped o a b localHunks remoteHunks r →
      RegionEnd o a b localHunks remoteHunks r (.ok none)
  | taken {lines : List α} : ¬ Contested o a b localHunks remoteHunks r →
      ¬ Gapped o a b localHunks remoteHunks r →
      RegionEnd o a b localHunks remoteHunks r (.ok (some lines))

theorem mergeDisjointRegion_end (A : Aligned o a localHunks) (B : Aligned o b remoteHunks)
    (hse : s ≤ e) (hwL : Within localHunks s e) (hwR : Within remoteHunks s e)
    (hdisputed : Disputed o a b localHunks remoteHunks ⟨s, e, sides⟩) :
    RegionEnd o a b localHunks remoteHunks ⟨s, e, sides⟩
      (mergeDisjointRegion localHunks remoteHunks a b s e) := by
  by_cases hone : OneForOne localHunks remoteHunks ⟨s, e, sides⟩
  · obtain ⟨hbalL, hbalR, hinsL, hinsR⟩ := hone
    dsimp only at hbalL hbalR hinsL hinsR
    have hwalk : mergeDisjointRegion localHunks remoteHunks a b s e =
        disjointWalk localHunks remoteHunks a b e (e - s) s := by
      unfold mergeDisjointRegion
      rw [hbalL, hbalR, hinsL, hinsR]
      rfl
    have hnoneL : NoInsertion localHunks s e :=
      noInsertion_of_length (by rw [hinsL]; exact Nat.lt_irrefl 0)
    have hnoneR : NoInsertion remoteHunks s e :=
      noInsertion_of_length (by rw [hinsR]; exact Nat.lt_irrefl 0)
    have hfuel : e ≤ s + (e - s) := by omega
    have hend := disjointWalk_walkEnd (balancedIn_of_balanced hbalL)
      (balancedIn_of_balanced hbalR) hnoneL hnoneR A B (Nat.le_refl s) hse hfuel
      (hwL.free_start hse) (hwR.free_start hse)
    rw [hwalk]
    generalize disjointWalk localHunks remoteHunks a b e (e - s) s = result at hend ⊢
    cases hend with
    | thrown hopen => exact .thrown ⟨hdisputed, ⟨hbalL, hbalR, hinsL, hinsR⟩, hopen⟩
    | refused hclash =>
      exact .refused ⟨hdisputed, .inr hclash⟩ fun hgap => not_open_of_clash hclash hgap.2.2
    | rebuilt hopen hclash =>
      refine .taken (fun hcontested => ?_) fun hgap => hopen hgap.2.2
      exact hcontested.2.elim (fun hnot => hnot ⟨hbalL, hbalR, hinsL, hinsR⟩) hclash
  · rw [mergeDisjointRegion_refused hone]
    exact .refused ⟨hdisputed, .inl hone⟩ fun hgap => hone hgap.2.1

variable [DecidableEq α] {adjacency fuel c i j : ℕ} {events : List SidedHunk}

theorem regionLines_end (A : Aligned o a localHunks) (B : Aligned o b remoteHunks) (hse : s ≤ e)
    (hwL : Within localHunks s e) (hwR : Within remoteHunks s e) :
    RegionEnd o a b localHunks remoteHunks ⟨s, e, sides⟩
      (regionLines o localHunks remoteHunks a b s e sides) := by
  by_cases hdisputed : Disputed o a b localHunks remoteHunks ⟨s, e, sides⟩
  · have hlines : regionLines o localHunks remoteHunks a b s e sides =
        mergeDisjointRegion localHunks remoteHunks a b s e := by
      unfold regionLines
      dsimp only
      rw [if_neg fun h => h.elim (fun hnot => hnot hdisputed.by_remote) hdisputed.remote_changed,
        if_neg fun h => h.elim (fun hnot => hnot hdisputed.by_local) hdisputed.local_changed,
        if_neg hdisputed.differ]
    rw [hlines]
    exact mergeDisjointRegion_end A B hse hwL hwR hdisputed
  · have htaken : ∀ {lines : List α},
        RegionEnd o a b localHunks remoteHunks ⟨s, e, sides⟩ (.ok (some lines)) :=
      .taken (fun h => hdisputed h.1) fun h => hdisputed h.1
    unfold regionLines
    dsimp only
    split
    · exact htaken
    · rename_i hremote
      split
      · exact htaken
      · rename_i hlocal
        split
        · exact htaken
        · rename_i hne
          rw [not_or, not_not] at hremote hlocal
          exact absurd ⟨hremote.1, hremote.2, hlocal.1, hlocal.2, hne⟩ hdisputed

theorem map_returns_iff {β γ : Type*} {f : β → γ} {x : Except JsError β} :
    (∃ y, x.map f = .ok y) ↔ ∃ y, x = .ok y := by
  cases x with
  | error e => simp [Except.map]
  | ok y => simp [Except.map]

/-- The outer loop returns unless it comes to a gapped region. -/
theorem mergeRegions_returns_iff (hadj : 1 ≤ adjacency) (A : Aligned o a localHunks)
    (B : Aligned o b remoteHunks) (hfuel : events.length ≤ fuel)
    (hev : EventsOf localHunks remoteHunks events)
    (hL : Resume localHunks .localSide events c i)
    (hR : Resume remoteHunks .remoteSide events c j) :
    (∃ result, mergeRegions o localHunks remoteHunks a b adjacency fuel c events = .ok result) ↔
      GapsBehind o a b localHunks remoteHunks (spansOf adjacency fuel events) := by
  induction fuel generalizing c i j events with
  | zero =>
    obtain rfl : events = [] := length_eq_zero_iff.mp (Nat.le_zero.mp hfuel)
    exact iff_of_true ⟨_, rfl⟩ gapsBehind_nil
  | succ fuel ih =>
    cases events with
    | nil => exact iff_of_true ⟨_, rfl⟩ gapsBehind_nil
    | cons first rest =>
      rw [mergeRegions, spansOf, gapsBehind_cons]
      rcases hgroup : groupRegion adjacency (first.oStart + first.oLength) [first.side] rest with
        ⟨e, sides, later⟩
      dsimp only
      have he := hev.end_le A B hgroup
      obtain ⟨grouped, rfl, R⟩ := regionOf_groupRegion hadj hev.ordered hgroup
      have hse := R.start_le_end
      have hwL := hL.within R
      have hwR := hR.within R
      have hlen : later.length ≤ fuel := by
        rw [length_cons, length_append] at hfuel
        omega
      obtain ⟨_, q, _, hq, _, _⟩ := A.exists_cut he (hwL.free_end hse)
      obtain ⟨_, q', _, hq', _, _⟩ := B.exists_cut he (hwR.free_end hse)
      have hend : RegionEnd o a b localHunks remoteHunks ⟨first.oStart, e, sides⟩
          (regionLines o localHunks remoteHunks a b first.oStart e sides) :=
        regionLines_end A B hse hwL hwR
      generalize regionLines o localHunks remoteHunks a b first.oStart e sides = result at hend ⊢
      cases hend with
      | thrown hgap =>
        refine iff_of_false ?_ fun h => h.1 hgap
        rintro ⟨_, herror⟩
        cases herror
      | refused hcontested hgap => exact iff_of_true ⟨_, rfl⟩ ⟨hgap, .inl hcontested⟩
      | taken hcontested hgap =>
        dsimp only
        rw [map_returns_iff, ih hlen hev.later (hL.next R hq) (hR.next R hq')]
        exact ⟨fun h => ⟨hgap, .inr h⟩, fun h => h.2.resolve_left hcontested⟩

/-- Whether the tables of the merge exceed the ceiling on their cells. -/
def TooLarge (ancestor localText remoteText : JsString) (options : Diff3Options) : Prop :=
  let maxCells := options.maxLcsCells.getD defaultMaxLcsCells
  ((splitLines ancestor).length + 1) * ((splitLines localText).length + 1) > maxCells ∨
    ((splitLines ancestor).length + 1) * ((splitLines remoteText).length + 1) > maxCells

/-- No gapped region is reached: a contested one stands before each. -/
def NoGapReached (ancestor localText remoteText : JsString) (options : Diff3Options) : Prop :=
  let o := splitLines ancestor
  let a := splitLines localText
  let b := splitLines remoteText
  let events := sidedEvents (diffHunks o a) (diffHunks o b)
  GapsBehind o a b (diffHunks o a) (diffHunks o b)
    (spansOf (options.adjacencyLines.getD defaultAdjacencyLines) events.length events)

theorem mergeText_returns_iff (ancestor localText remoteText : JsString) (options : Diff3Options)
    (hadj : 1 ≤ options.adjacencyLines.getD defaultAdjacencyLines) :
    (∃ result, mergeText ancestor localText remoteText options = .ok result) ↔
      TooLarge ancestor localText remoteText options ∨
        NoGapReached ancestor localText remoteText options := by
  unfold mergeText TooLarge
  dsimp only
  split
  · rename_i hlarge
    exact iff_of_true ⟨_, rfl⟩ (.inl hlarge)
  · rename_i hsmall
    rw [map_returns_iff, mergeLines, mergeRegions_returns_iff hadj (diffHunks_aligned _ _)
      (diffHunks_aligned _ _) (Nat.le_refl _) (sidedEvents_eventsOf _ _)
      (Resume.local_start _ _) (Resume.remote_start _ _)]
    exact ⟨.inr, fun h => h.resolve_left hsmall⟩

/-- The wider setting does not change what is merged, only whether anything is. -/
theorem merged_text_unique {ancestor localText remoteText text text' : JsString}
    {options options' : Diff3Options}
    (hadj : 1 ≤ options.adjacencyLines.getD defaultAdjacencyLines)
    (hadj' : 1 ≤ options'.adjacencyLines.getD defaultAdjacencyLines)
    (h : mergeText ancestor localText remoteText options = .ok (.merged text))
    (h' : mergeText ancestor localText remoteText options' = .ok (.merged text')) :
    text = text' := by
  obtain ⟨hlines, -⟩ := lines_of_merged hadj h
  obtain ⟨hlines', -⟩ := lines_of_merged hadj' h'
  have hsame : splitLines text = splitLines text' := by
    rw [mergeLines_joint hadj hlines, mergeLines_joint hadj' hlines']
  rw [← joinLines_splitLines text, hsame, joinLines_splitLines]

/-- For every setting the merge returns exactly when no gapped region is reached, and two
settings that both merge give one text. -/
theorem mergeText_total_iff (ancestor localText remoteText : JsString) (options : Diff3Options)
    (hadj : 1 ≤ options.adjacencyLines.getD defaultAdjacencyLines) :
    ((∃ result, mergeText ancestor localText remoteText options = .ok result) ↔
      TooLarge ancestor localText remoteText options ∨
        NoGapReached ancestor localText remoteText options) ∧
    ∀ options' : Diff3Options, 1 ≤ options'.adjacencyLines.getD defaultAdjacencyLines →
      ∀ text text', mergeText ancestor localText remoteText options = .ok (.merged text) →
        mergeText ancestor localText remoteText options' = .ok (.merged text') → text = text' := by
  refine ⟨mergeText_returns_iff ancestor localText remoteText options hadj, ?_⟩
  intro options' hadj' text text' h h'
  exact merged_text_unique hadj hadj' h h'

/-- Both sides change neighbouring lines, with an adjacency of two. -/
theorem mergeText_total_neighbours :
    ((∃ result, mergeText [97, 10, 98] [99, 10, 98] [97, 10, 100] ⟨some 2, none⟩ = .ok result) ↔
      TooLarge [97, 10, 98] [99, 10, 98] [97, 10, 100] ⟨some 2, none⟩ ∨
        NoGapReached [97, 10, 98] [99, 10, 98] [97, 10, 100] ⟨some 2, none⟩) ∧
    ∀ options' : Diff3Options, 1 ≤ options'.adjacencyLines.getD defaultAdjacencyLines →
      ∀ text text',
        mergeText [97, 10, 98] [99, 10, 98] [97, 10, 100] ⟨some 2, none⟩ = .ok (.merged text) →
        mergeText [97, 10, 98] [99, 10, 98] [97, 10, 100] options' = .ok (.merged text') →
        text = text' :=
  mergeText_total_iff [97, 10, 98] [99, 10, 98] [97, 10, 100] ⟨some 2, none⟩ (by decide)

/-- The first and the last of three lines are changed by one side each; with an adjacency of
two the line between them makes the merge throw. -/
theorem line_between_throws :
    mergeText [97, 10, 98, 10, 99] [120, 10, 98, 10, 99] [97, 10, 98, 10, 121] ⟨some 2, none⟩ =
      .error .typeError := by
  decide

end Havemind.MergeTotality
