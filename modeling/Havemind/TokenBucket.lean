import Mathlib.Algebra.Order.Field.Basic
import Mathlib.Algebra.BigOperators.Group.List.Basic
import Mathlib.Tactic.Linarith

/-!
A token bucket over an ordered field. It holds at most a burst, refills at a rate and
grants a request it has the tokens for. No bucket at all stands for a full one, and a
bucket matters only by its level from now on: two with the same level grant the same.
-/
namespace Havemind.TokenBucket

open List

variable {K : Type*} [Field K] [LinearOrder K]

structure Limits (K : Type*) [Field K] [LinearOrder K] where
  burst : K
  rate : K
  burst_nonneg : 0 ≤ burst
  rate_nonneg : 0 ≤ rate

structure Bucket (K : Type*) where
  tokens : K
  lastRefill : K
  deriving DecidableEq

structure Request (K : Type*) where
  time : K
  amount : K
  deriving DecidableEq

section
variable (limits : Limits K)

/-- The tokens of a bucket after its refill. -/
def refilled (bucket : Bucket K) (now : K) : K :=
  min limits.burst (bucket.tokens + max 0 (now - bucket.lastRefill) * limits.rate)

def level (bucket : Option (Bucket K)) (now : K) : K :=
  bucket.elim limits.burst fun bucket => refilled limits bucket now

/-- Whether the request is granted, and the bucket it leaves. -/
def consume (bucket : Option (Bucket K)) (request : Request K) : Bool × Bucket K :=
  let tokens := level limits bucket request.time
  if tokens < request.amount then (false, { tokens, lastRefill := request.time })
  else (true, { tokens := tokens - request.amount, lastRefill := request.time })

def outcomes (bucket : Option (Bucket K)) : List (Request K) → List (Request K × Bool)
  | [] => []
  | request :: rest =>
    let (allowed, next) := consume limits bucket request
    (request, allowed) :: outcomes (some next) rest

/-- What was granted from the first to the last of these instants. -/
def granted (first last : K) (outcomes : List (Request K × Bool)) : K :=
  ((outcomes.filter fun outcome =>
    outcome.2 ∧ first ≤ outcome.1.time ∧ outcome.1.time ≤ last).map
      fun outcome => outcome.1.amount).sum

/-- The times do not decrease and the amounts are not negative. -/
structure Timely (requests : List (Request K)) : Prop where
  ordered : requests.Pairwise fun a b => a.time ≤ b.time
  amounts : ∀ request ∈ requests, 0 ≤ request.amount

end

section
variable {limits : Limits K} {bucket other : Option (Bucket K)} {requests : List (Request K)}
  {now first last : K}

/-- A bucket that can come about. -/
def Within (limits : Limits K) (bucket : Option (Bucket K)) : Prop :=
  ∀ b ∈ bucket, 0 ≤ b.tokens ∧ b.tokens ≤ limits.burst

theorem within_none : Within limits none := fun _ h => nomatch h

theorem level_le_burst : level limits bucket now ≤ limits.burst := by
  cases bucket with
  | none => exact le_rfl
  | some b => exact min_le_left _ _

theorem consume_congr {request : Request K}
    (h : level limits bucket request.time = level limits other request.time) :
    consume limits bucket request = consume limits other request := by
  unfold consume
  rw [h]

theorem granted_cons {outcome : Request K × Bool} {rest : List (Request K × Bool)} :
    granted first last (outcome :: rest) =
      (if outcome.2 ∧ first ≤ outcome.1.time ∧ outcome.1.time ≤ last then outcome.1.amount else 0) +
        granted first last rest := by
  unfold granted
  rw [filter_cons]
  split_ifs with hcount hsum hsum
  · rw [map_cons, sum_cons]
  · exact absurd (of_decide_eq_true hcount) hsum
  · exact absurd (decide_eq_true hsum) hcount
  · exact (zero_add _).symm

/-- Behind the last instant nothing counts. -/
theorem granted_behind (h : ∀ request ∈ requests, last < request.time) :
    granted first last (outcomes limits bucket requests) = 0 := by
  induction requests generalizing bucket with
  | nil => rfl
  | cons request rest ih =>
    have hlate : ¬ request.time ≤ last := not_le.mpr (h request mem_cons_self)
    unfold outcomes
    rw [granted_cons, if_neg fun hcount => hlate hcount.2.2, zero_add]
    exact ih fun later hlater => h later (mem_cons_of_mem _ hlater)

end

section
variable [IsStrictOrderedRing K] {limits : Limits K} {bucket : Option (Bucket K)}
  {request : Request K} {now later : K}

theorem level_nonneg (h : Within limits bucket) : 0 ≤ level limits bucket now := by
  cases bucket with
  | none => exact limits.burst_nonneg
  | some b =>
    have hrefill : 0 ≤ max 0 (now - b.lastRefill) * limits.rate :=
      mul_nonneg (le_max_left _ _) limits.rate_nonneg
    exact le_min limits.burst_nonneg (add_nonneg (h b rfl).1 hrefill)

/-- A level grows, by no more than the rate. -/
theorem level_mono (h : now ≤ later) : level limits bucket now ≤ level limits bucket later := by
  cases bucket with
  | none => exact le_rfl
  | some b =>
    have hrefill : max 0 (now - b.lastRefill) * limits.rate ≤
        max 0 (later - b.lastRefill) * limits.rate :=
      mul_le_mul_of_nonneg_right (max_le_max le_rfl (sub_le_sub_right h _)) limits.rate_nonneg
    exact min_le_min le_rfl (by linarith only [hrefill])

theorem level_le_add (h : now ≤ later) :
    level limits bucket later ≤ level limits bucket now + (later - now) * limits.rate := by
  have hgain : 0 ≤ (later - now) * limits.rate :=
    mul_nonneg (sub_nonneg.mpr h) limits.rate_nonneg
  cases bucket with
  | none => exact le_add_of_nonneg_right hgain
  | some b =>
    have helapsed : max 0 (later - b.lastRefill) ≤ max 0 (now - b.lastRefill) + (later - now) := by
      refine max_le ?_ ?_
      · exact add_nonneg (le_max_left _ _) (sub_nonneg.mpr h)
      · linarith only [le_max_right 0 (now - b.lastRefill)]
    have hrefill := mul_le_mul_of_nonneg_right helapsed limits.rate_nonneg
    rw [add_mul] at hrefill
    unfold level refilled
    dsimp only [Option.elim_some]
    rw [min_add]
    exact min_le_min (le_add_of_nonneg_right hgain) (by linarith only [hrefill])

theorem consume_within (h : Within limits bucket) (hamount : 0 ≤ request.amount) :
    Within limits (some (consume limits bucket request).2) := by
  intro b hb
  have hlevel : 0 ≤ level limits bucket request.time := level_nonneg h
  have hburst : level limits bucket request.time ≤ limits.burst := level_le_burst
  rw [← Option.some.inj hb]
  unfold consume
  dsimp only
  split
  · exact ⟨hlevel, hburst⟩
  · rename_i hfits
    exact ⟨sub_nonneg.mpr (not_lt.mp hfits), (sub_le_self _ hamount).trans hburst⟩

/-- The level a request leaves at its own time. -/
theorem level_consume (h : Within limits bucket) (hamount : 0 ≤ request.amount) :
    level limits (some (consume limits bucket request).2) request.time =
      level limits bucket request.time -
        if (consume limits bucket request).1 then request.amount else 0 := by
  have hwithin := (consume_within h hamount _ rfl).2
  have hsame : level limits (some (consume limits bucket request).2) request.time =
      (consume limits bucket request).2.tokens := by
    have htime : (consume limits bucket request).2.lastRefill = request.time := by
      unfold consume
      dsimp only
      split
      · rfl
      · rfl
    unfold level refilled
    dsimp only [Option.elim_some]
    rw [htime, sub_self, max_self, zero_mul, add_zero, min_eq_right hwithin]
  rw [hsame]
  unfold consume
  dsimp only
  split
  · exact (sub_zero _).symm
  · rfl

end

variable [IsStrictOrderedRing K] {limits : Limits K} {bucket : Option (Bucket K)}
  {requests : List (Request K)} {first last start : K}

/-- From an instant on no more is granted than the level there and the refill. -/
theorem granted_le_level (h : Within limits bucket) (timely : Timely requests)
    (hstart : ∀ request ∈ requests, start ≤ request.time) (hle : start ≤ last) :
    granted first last (outcomes limits bucket requests) ≤
      level limits bucket start + (last - start) * limits.rate := by
  induction requests generalizing bucket start with
  | nil =>
    exact add_nonneg (level_nonneg h) (mul_nonneg (sub_nonneg.mpr hle) limits.rate_nonneg)
  | cons request rest ih =>
    obtain ⟨hordered, hrest⟩ := pairwise_cons.mp timely.ordered
    have hamount := timely.amounts request mem_cons_self
    have hfrom := hstart request mem_cons_self
    by_cases hlast : request.time ≤ last
    · have hnext := ih (consume_within h hamount)
        ⟨hrest, fun later hlater => timely.amounts later (mem_cons_of_mem _ hlater)⟩
        hordered hlast
      rw [level_consume h hamount] at hnext
      have hgrown : level limits bucket request.time ≤
          level limits bucket start + (request.time - start) * limits.rate := level_le_add hfrom
      have hcounted : (if (consume limits bucket request).1 ∧ first ≤ request.time ∧
          request.time ≤ last then request.amount else 0) ≤
            if (consume limits bucket request).1 then request.amount else 0 := by
        by_cases hallowed : (consume limits bucket request).1 = true
        · rw [if_pos hallowed]
          split_ifs
          · exact le_rfl
          · exact hamount
        · rw [if_neg hallowed, if_neg fun hcount => hallowed hcount.1]
      unfold outcomes
      rw [granted_cons]
      linarith only [hnext, hgrown, hcounted]
    · have hzero : granted first last (outcomes limits bucket (request :: rest)) = 0 := by
        refine granted_behind fun later hlater => ?_
        rcases mem_cons.mp hlater with rfl | hlater
        · exact not_le.mp hlast
        · exact (not_le.mp hlast).trans_le (hordered later hlater)
      rw [hzero]
      exact add_nonneg (level_nonneg h) (mul_nonneg (sub_nonneg.mpr hle) limits.rate_nonneg)

/-- In any interval no more is granted than the burst and the refill. -/
theorem granted_le (h : Within limits bucket) (timely : Timely requests) (hle : first ≤ last) :
    granted first last (outcomes limits bucket requests) ≤
      limits.burst + (last - first) * limits.rate := by
  induction requests generalizing bucket with
  | nil =>
    exact add_nonneg limits.burst_nonneg (mul_nonneg (sub_nonneg.mpr hle) limits.rate_nonneg)
  | cons request rest ih =>
    obtain ⟨hordered, hrest⟩ := pairwise_cons.mp timely.ordered
    by_cases hfirst : first ≤ request.time
    · have hstart : ∀ later ∈ request :: rest, first ≤ later.time := by
        intro later hlater
        rcases mem_cons.mp hlater with rfl | hlater
        · exact hfirst
        · exact hfirst.trans (hordered later hlater)
      have hlevel : granted first last (outcomes limits bucket (request :: rest)) ≤ _ :=
        granted_le_level h timely hstart hle
      have hburst : level limits bucket first ≤ limits.burst := level_le_burst
      linarith only [hlevel, hburst]
    · have hamount : 0 ≤ request.amount := timely.amounts request mem_cons_self
      have hskipped := ih (consume_within h hamount)
        ⟨hrest, fun later hlater => timely.amounts later (mem_cons_of_mem _ hlater)⟩
      unfold outcomes
      rw [granted_cons, if_neg fun hcount => hfirst hcount.2.1, zero_add]
      exact hskipped

end Havemind.TokenBucket
