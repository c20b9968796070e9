import Havemind.JsObject
import Havemind.RevisionSchema
import Havemind.TokenBucket
import Mathlib.Algebra.Order.Ring.Rat
import Mathlib.Tactic.NormNum

/-!
The byte limiter of blob reads: a token bucket for each device, measured in bytes. At
32 devices a charge first drops the buckets that have refilled. A dropped bucket and a
full one have the same level from then on, so no decision depends on the eviction.
-/
namespace Havemind.BlobByteRate

open JsObject RevisionSchema TokenBucket List

/-- A read of a blob: the device, the blob's byte length and the time in milliseconds. -/
structure Charge where
  deviceId : Id
  bytes : ℕ
  now : ℚ
  deriving DecidableEq

def Charge.request (charge : Charge) : Request ℚ := ⟨charge.now, charge.bytes⟩

abbrev Buckets := JsObject Id (Bucket ℚ)

section
variable (limits : Limits ℚ)

def sweepThresholdDevices : ℕ := 32

def sweep (buckets : Buckets) (now : ℚ) : Buckets :=
  if buckets.entries.length < sweepThresholdDevices then buckets
  else buckets.filterEntries fun entry => refilled limits entry.2 now < limits.burst

/-- The charge itself; a device that has no bucket starts with a full one. -/
def consumeBytes (buckets : Buckets) (charge : Charge) : Bool × Buckets :=
  let (allowed, bucket) := consume limits (buckets.get charge.deviceId) charge.request
  (allowed, buckets.set charge.deviceId bucket)

def tryConsume (buckets : Buckets) (charge : Charge) : Bool × Buckets :=
  consumeBytes limits (sweep limits buckets charge.now) charge

end

section
variable (step : Buckets → Charge → Bool × Buckets)

def decisions (buckets : Buckets) : List Charge → List (Charge × Bool)
  | [] => []
  | charge :: rest => (charge, (step buckets charge).1) :: decisions (step buckets charge).2 rest

def bucketsAfter (buckets : Buckets) (charges : List Charge) : Buckets :=
  charges.foldl (fun buckets charge => (step buckets charge).2) buckets

/-- The bytes a device was allowed from the first to the last of these instants. -/
def allowedBytes (deviceId : Id) (first last : ℚ) (decisions : List (Charge × Bool)) : ℚ :=
  ((decisions.filter fun decision =>
    decision.1.deviceId = deviceId ∧ decision.2 ∧ first ≤ decision.1.now ∧
      decision.1.now ≤ last).map fun decision => (decision.1.bytes : ℚ)).sum

end

section
variable {limits : Limits ℚ} {buckets kept : Buckets} {charge : Charge} {charges : List Charge}
  {deviceId : Id} {now : ℚ}

theorem level_sweep (h : ∀ later, now ≤ later →
      level limits (buckets.get deviceId) later = level limits (kept.get deviceId) later) :
    ∀ later, now ≤ later → level limits ((sweep limits buckets now).get deviceId) later =
      level limits (kept.get deviceId) later := by
  intro later hlater
  rw [← h later hlater]
  unfold sweep
  split
  · rfl
  rw [get_filterEntries]
  cases hbucket : buckets.get deviceId with
  | none => rfl
  | some bucket =>
    by_cases hkeep : refilled limits bucket now < limits.burst
    · rw [Option.filter_some, if_pos (decide_eq_true hkeep)]
    · rw [Option.filter_some, if_neg fun h => hkeep (of_decide_eq_true h)]
      have hfull : limits.burst ≤ level limits (some bucket) now := not_lt.mp hkeep
      exact (le_antisymm level_le_burst (hfull.trans (level_mono hlater))).symm

/-- A step of the limiter and one without eviction, on buckets of the same levels. -/
theorem consumeBytes_congr (hlevel : ∀ deviceId later, charge.now ≤ later →
      level limits (buckets.get deviceId) later = level limits (kept.get deviceId) later) :
    (consumeBytes limits buckets charge).1 = (consumeBytes limits kept charge).1 ∧
      ∀ deviceId later, charge.now ≤ later →
        level limits ((consumeBytes limits buckets charge).2.get deviceId) later =
          level limits ((consumeBytes limits kept charge).2.get deviceId) later := by
  have hsame : consume limits (buckets.get charge.deviceId) charge.request =
      consume limits (kept.get charge.deviceId) charge.request :=
    consume_congr (hlevel charge.deviceId charge.now le_rfl)
  unfold consumeBytes
  rw [hsame]
  refine ⟨rfl, fun deviceId later hlater => ?_⟩
  dsimp only
  rw [get_set, get_set]
  split
  · rfl
  · exact hlevel deviceId later hlater

/-- On buckets of the same levels the eviction changes no decision. -/
theorem decisions_tryConsume (hordered : charges.Pairwise fun a b => a.now ≤ b.now)
    (hstart : ∀ charge ∈ charges, now ≤ charge.now)
    (hlevel : ∀ deviceId later, now ≤ later →
      level limits (buckets.get deviceId) later = level limits (kept.get deviceId) later) :
    decisions (tryConsume limits) buckets charges =
      decisions (consumeBytes limits) kept charges := by
  induction charges generalizing buckets kept now with
  | nil => rfl
  | cons charge rest ih =>
    obtain ⟨hlater, hrest⟩ := pairwise_cons.mp hordered
    have hnow := hstart charge mem_cons_self
    have hswept : ∀ deviceId later, charge.now ≤ later →
        level limits ((sweep limits buckets charge.now).get deviceId) later =
          level limits (kept.get deviceId) later := by
      intro deviceId
      exact level_sweep fun later h => hlevel deviceId later (hnow.trans h)
    obtain ⟨hallowed, hnext⟩ := consumeBytes_congr hswept
    unfold decisions
    refine congrArg₂ List.cons (congrArg _ hallowed) (ih hrest hlater hnext)

end

section
variable {limits : Limits ℚ} {buckets : Buckets} {charge : Charge} {charges : List Charge}
  {deviceId : Id}

/-- What the decisions on one device's charges are: those of its own bucket. -/
theorem decisions_device :
    ((decisions (consumeBytes limits) buckets charges).filter fun decision =>
      decision.1.deviceId = deviceId).map (fun decision => (decision.1.request, decision.2)) =
      outcomes limits (buckets.get deviceId)
        ((charges.filter fun charge => charge.deviceId = deviceId).map Charge.request) := by
  induction charges generalizing buckets with
  | nil => rfl
  | cons charge rest ih =>
    unfold decisions
    by_cases hdevice : charge.deviceId = deviceId
    · have hnext : (consumeBytes limits buckets charge).2.get deviceId =
          some (consume limits (buckets.get deviceId) charge.request).2 := by
        unfold consumeBytes
        dsimp only
        rw [get_set, hdevice, if_pos rfl]
      have hallowed : (consumeBytes limits buckets charge).1 =
          (consume limits (buckets.get deviceId) charge.request).1 := hdevice ▸ rfl
      simp only [filter_cons, hdevice, decide_true, if_true, map_cons, ih, hnext, hallowed,
        outcomes]
    · have hnext : (consumeBytes limits buckets charge).2.get deviceId = buckets.get deviceId := by
        unfold consumeBytes
        dsimp only
        rw [get_set, if_neg fun h => hdevice h.symm]
      simp only [filter_cons, hdevice, decide_false, Bool.false_eq_true, if_false, ih, hnext]

theorem allowedBytes_eq_granted {first last : ℚ} {decisions : List (Charge × Bool)} :
    allowedBytes deviceId first last decisions =
      granted first last ((decisions.filter fun decision => decision.1.deviceId = deviceId).map
        fun decision => (decision.1.request, decision.2)) := by
  unfold allowedBytes granted
  rw [filter_map, map_map, filter_filter]
  refine congrArg List.sum (congrArg _ (filter_congr fun decision _ => ?_))
  dsimp only [Function.comp_apply, Charge.request]
  rw [Bool.decide_and, Bool.and_comm]

variable (h : ∀ deviceId, Within limits (buckets.get deviceId))
include h

/-- Every bucket that is kept holds at least nothing and at most the burst. -/
theorem consumeBytes_within :
    ∀ deviceId, Within limits ((consumeBytes limits buckets charge).2.get deviceId) := by
  intro deviceId
  unfold consumeBytes
  dsimp only
  rw [get_set]
  split
  · exact consume_within (h charge.deviceId) (Nat.cast_nonneg _)
  · exact h deviceId

theorem sweep_within {now : ℚ} :
    ∀ deviceId, Within limits ((sweep limits buckets now).get deviceId) := by
  intro deviceId
  unfold sweep
  split
  · exact h deviceId
  · rw [get_filterEntries]
    intro bucket hbucket
    exact h deviceId bucket (Option.filter_eq_some_iff.mp hbucket).1

theorem bucketsAfter_within :
    ∀ deviceId, Within limits ((bucketsAfter (tryConsume limits) buckets charges).get deviceId) := by
  induction charges generalizing buckets with
  | nil => exact h
  | cons charge rest ih => exact ih (consumeBytes_within (sweep_within h))

end

/-- The limiter decides as one without eviction, no device's tokens leave the range from
zero to the burst, and in no interval a device is allowed more than the burst and the
refill. -/
theorem limiter_paced (limits : Limits ℚ) {charges : List Charge}
    (hordered : charges.Pairwise fun a b => a.now ≤ b.now) :
    decisions (tryConsume limits) ∅ charges = decisions (consumeBytes limits) ∅ charges ∧
      (∀ deviceId bucket,
        (bucketsAfter (tryConsume limits) ∅ charges).get deviceId = some bucket →
          0 ≤ bucket.tokens ∧ bucket.tokens ≤ limits.burst) ∧
      ∀ deviceId first last, first ≤ last →
        allowedBytes deviceId first last (decisions (tryConsume limits) ∅ charges) ≤
          limits.burst + (last - first) * limits.rate := by
  have hsame : decisions (tryConsume limits) ∅ charges =
      decisions (consumeBytes limits) ∅ charges := by
    cases charges with
    | nil => rfl
    | cons charge rest =>
      have hstart : ∀ later ∈ charge :: rest, charge.now ≤ later.now := by
        intro later hlater
        rcases mem_cons.mp hlater with rfl | hlater
        · exact le_rfl
        · exact (pairwise_cons.mp hordered).1 later hlater
      exact decisions_tryConsume hordered hstart fun _ _ _ => rfl
  refine ⟨hsame, fun deviceId bucket hbucket => ?_, fun deviceId first last hle => ?_⟩
  · exact bucketsAfter_within (fun _ => within_none) deviceId bucket hbucket
  · rw [hsame, allowedBytes_eq_granted, decisions_device]
    refine granted_le within_none ⟨?_, ?_⟩ hle
    · rw [pairwise_map]
      exact hordered.filter _
    · intro request hrequest
      obtain ⟨charge, -, rfl⟩ := mem_map.mp hrequest
      exact Nat.cast_nonneg _

/-- Twenty bytes at once, and one more for every ten milliseconds. -/
def sampleLimits : Limits ℚ := ⟨20, 1 / 10, by norm_num, by norm_num⟩

/-- Thirty-two devices read five bytes each, and one of them reads twice more. -/
def sampleCharges : List Charge :=
  (List.range 32).map (fun deviceId => ⟨deviceId, 5, 0⟩) ++ [⟨1, 15, 40⟩, ⟨1, 10, 60⟩]

/-- The last charge finds the other devices' buckets full and drops them. -/
theorem limiter_paced_sample :
    decisions (tryConsume sampleLimits) ∅ sampleCharges =
        decisions (consumeBytes sampleLimits) ∅ sampleCharges ∧
      (decisions (tryConsume sampleLimits) ∅ sampleCharges).map Prod.snd =
        List.replicate 33 true ++ [false] ∧
      (bucketsAfter (tryConsume sampleLimits) ∅ sampleCharges).entries.map Prod.fst = [1] ∧
      allowedBytes 1 0 60 (decisions (tryConsume sampleLimits) ∅ sampleCharges) ≤
        20 + (60 - 0) * (1 / 10) := by
  have hordered : sampleCharges.Pairwise fun a b => a.now ≤ b.now := by decide +kernel
  obtain ⟨hsame, -, hinterval⟩ := limiter_paced sampleLimits hordered
  exact ⟨hsame, by decide +kernel, by decide +kernel, hinterval 1 0 60 (by norm_num)⟩

end Havemind.BlobByteRate
