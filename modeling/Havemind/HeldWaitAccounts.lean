import Havemind.HeldWaits
import Havemind.Runs
import Mathlib.Algebra.BigOperators.Group.Finset.Basic
import Mathlib.Algebra.Order.BigOperators.Group.Finset
import Mathlib.Data.Int.Order.Basic

/-!
The two counters of the held waits under any order of calls. The global count is lowered by a
release whether or not the device holds a slot, so the counters agree as long as every release
answers an acquire; the caps hold in any case.
-/
namespace Havemind.HeldWaitAccounts

open RevisionSchema HeldWaits Runs Option Finset

inductive LimiterCall
  | tryAcquire (deviceId : Id)
  | release (deviceId : Id)
  deriving DecidableEq

/-- A refused acquire leaves the limiter as it is. -/
def limiterStep (limiter : HeldWaitLimiter) : LimiterCall → Option HeldWaitLimiter
  | .tryAcquire deviceId => some ((limiter.tryAcquire deviceId).getD limiter)
  | .release deviceId => some (limiter.release deviceId)

/-- The devices that hold a slot are among these. -/
def HeldBy (limiter : HeldWaitLimiter) (devices : Finset Id) : Prop :=
  ∀ deviceId ∉ devices, limiter.perDevice deviceId = 0

/-- The global count is the sum of the devices' counts. -/
def Balanced (limiter : HeldWaitLimiter) : Prop :=
  ∃ devices : Finset Id, HeldBy limiter devices ∧
    limiter.global = ∑ deviceId ∈ devices, limiter.perDevice deviceId

structure WithinCaps (limiter : HeldWaitLimiter) : Prop where
  perDevice : ∀ deviceId, limiter.perDevice deviceId ≤ limiter.perDeviceMax
  global : limiter.global ≤ limiter.globalMax

/-- A release gives back a slot that the device holds, or there is none to give back. -/
def Answers (limiter : HeldWaitLimiter) : LimiterCall → Prop
  | .tryAcquire _ => True
  | .release deviceId => 0 < limiter.perDevice deviceId ∨ limiter.global = 0

section
variable {limiter : HeldWaitLimiter} {devices : Finset Id} {deviceId : Id}

theorem HeldBy.grow (h : HeldBy limiter devices) (deviceId : Id) :
    HeldBy limiter (insert deviceId devices) := by
  intro other hother
  exact h other fun hmem => hother (mem_insert_of_mem hmem)

theorem HeldBy.sum_grow (h : HeldBy limiter devices) (deviceId : Id) :
    ∑ other ∈ insert deviceId devices, limiter.perDevice other =
      ∑ other ∈ devices, limiter.perDevice other := by
  refine (sum_subset (subset_insert deviceId devices) ?_).symm
  exact fun other _ hother => h other hother

theorem HeldBy.sum_eq {devices' : Finset Id} (h : HeldBy limiter devices)
    (h' : HeldBy limiter devices') :
    ∑ other ∈ devices, limiter.perDevice other = ∑ other ∈ devices', limiter.perDevice other := by
  calc ∑ other ∈ devices, limiter.perDevice other
      = ∑ other ∈ devices ∪ devices', limiter.perDevice other :=
        sum_subset subset_union_left fun other _ hother => h other hother
    _ = ∑ other ∈ devices', limiter.perDevice other :=
        (sum_subset subset_union_right fun other _ hother => h' other hother).symm

theorem Balanced.sum_eq (h : Balanced limiter) (hheld : HeldBy limiter devices) :
    limiter.global = ∑ other ∈ devices, limiter.perDevice other := by
  obtain ⟨devices', hheld', hsum⟩ := h
  rw [hsum]
  exact hheld'.sum_eq hheld

/-- A device's slots are among all those held. -/
theorem Balanced.perDevice_le (h : Balanced limiter) (deviceId : Id) :
    limiter.perDevice deviceId ≤ limiter.global := by
  obtain ⟨devices, hheld, hcount⟩ := h
  rw [hcount, ← hheld.sum_grow deviceId]
  exact single_le_sum (fun other _ => Nat.zero_le _) (mem_insert_self deviceId devices)

/-- One device's count changes and the global count with it. -/
theorem sum_changed {limiter' : HeldWaitLimiter} (hmem : deviceId ∈ devices)
    (hsame : ∀ other ≠ deviceId, limiter'.perDevice other = limiter.perDevice other) :
    (∑ other ∈ devices, limiter'.perDevice other) + limiter.perDevice deviceId =
      (∑ other ∈ devices, limiter.perDevice other) + limiter'.perDevice deviceId := by
  have hrest : ∑ other ∈ devices.erase deviceId, limiter'.perDevice other =
      ∑ other ∈ devices.erase deviceId, limiter.perDevice other :=
    sum_congr rfl fun other hother => hsame other (ne_of_mem_erase hother)
  have hbefore := sum_erase_add devices limiter.perDevice hmem
  have hafter := sum_erase_add devices limiter'.perDevice hmem
  omega

end

section
variable {limiter limiter' : HeldWaitLimiter} {deviceId : Id} {call : LimiterCall}

theorem tryAcquire_eq_none :
    limiter.tryAcquire deviceId = none ↔
      limiter.globalMax ≤ limiter.global ∨ limiter.perDeviceMax ≤ limiter.perDevice deviceId := by
  unfold HeldWaitLimiter.tryAcquire
  by_cases hglobal : limiter.globalMax ≤ limiter.global
  · simp [hglobal]
  · by_cases hdevice : limiter.perDeviceMax ≤ limiter.perDevice deviceId
    · simp [hglobal, hdevice]
    · simp [hglobal, hdevice]

theorem tryAcquire_caps (h : limiter.tryAcquire deviceId = some limiter') :
    limiter'.perDeviceMax = limiter.perDeviceMax ∧ limiter'.globalMax = limiter.globalMax ∧
      limiter.global < limiter.globalMax ∧ limiter.perDevice deviceId < limiter.perDeviceMax := by
  have hfree : ¬ (limiter.globalMax ≤ limiter.global ∨
      limiter.perDeviceMax ≤ limiter.perDevice deviceId) := by
    rw [← tryAcquire_eq_none, h]
    exact some_ne_none _
  unfold HeldWaitLimiter.tryAcquire at h
  rw [if_neg fun hglobal => hfree (.inl hglobal), if_neg fun hdevice => hfree (.inr hdevice)] at h
  cases h
  refine ⟨rfl, rfl, ?_, ?_⟩ <;> omega

theorem limiterStep_cases (hstep : limiterStep limiter call = some limiter') :
    limiter' = limiter ∨
      (∃ deviceId, call = .tryAcquire deviceId ∧ limiter.tryAcquire deviceId = some limiter') ∨
      ∃ deviceId, call = .release deviceId ∧ limiter' = limiter.release deviceId := by
  cases call with
  | tryAcquire deviceId =>
    cases hacquire : limiter.tryAcquire deviceId with
    | none =>
      simp only [limiterStep, hacquire, getD_none, some.injEq] at hstep
      exact .inl hstep.symm
    | some acquired =>
      simp only [limiterStep, hacquire, getD_some, some.injEq] at hstep
      exact .inr (.inl ⟨deviceId, rfl, hstep ▸ hacquire⟩)
  | release deviceId =>
    cases hstep
    exact .inr (.inr ⟨deviceId, rfl, rfl⟩)

theorem withinCaps_step (h : WithinCaps limiter)
    (hstep : limiterStep limiter call = some limiter') : WithinCaps limiter' := by
  rcases limiterStep_cases hstep with rfl | ⟨deviceId, rfl, hacquire⟩ | ⟨deviceId, rfl, rfl⟩
  · exact h
  · obtain ⟨hglobal, hdevice⟩ := HeldWaitLimiter.tryAcquire_eq_some hacquire
    obtain ⟨hdeviceMax, hglobalMax, hglobalFree, hdeviceFree⟩ := tryAcquire_caps hacquire
    refine ⟨fun other => ?_, by omega⟩
    have hother := h.perDevice other
    rw [hdevice other, hdeviceMax]
    split_ifs with hsame
    · subst hsame
      omega
    · omega
  · refine ⟨fun other => ?_, ?_⟩
    · rw [HeldWaitLimiter.perDevice_release]
      exact (Nat.sub_le _ _).trans (h.perDevice other)
    · rw [HeldWaitLimiter.global_release]
      exact (Nat.sub_le _ _).trans h.global

theorem balanced_tryAcquire (h : Balanced limiter)
    (hacquire : limiter.tryAcquire deviceId = some limiter') : Balanced limiter' := by
  obtain ⟨hglobal, hdevice⟩ := HeldWaitLimiter.tryAcquire_eq_some hacquire
  obtain ⟨devices, hheld, hcount⟩ := h
  have hsum := hheld.sum_grow deviceId
  have hmem := mem_insert_self deviceId devices
  have hsame : ∀ other ≠ deviceId, limiter'.perDevice other = limiter.perDevice other := by
    intro other hother
    rw [hdevice other, if_neg hother, Nat.add_zero]
  refine ⟨insert deviceId devices, fun other hother => ?_, ?_⟩
  · rw [hsame other fun heq => hother (heq ▸ hmem)]
    exact hheld.grow deviceId other hother
  · have hchanged := sum_changed hmem hsame
    have hone := hdevice deviceId
    rw [if_pos rfl] at hone
    omega

/-- A release keeps the counters in step exactly when it answers an acquire or nothing is held. -/
theorem balanced_release (h : Balanced limiter) :
    Balanced (limiter.release deviceId) ↔ Answers limiter (.release deviceId) := by
  have hle := h.perDevice_le deviceId
  obtain ⟨devices, hheld, hcount⟩ := h
  have hsum := hheld.sum_grow deviceId
  have hmem := mem_insert_self deviceId devices
  have hsame : ∀ other ≠ deviceId,
      (limiter.release deviceId).perDevice other = limiter.perDevice other := by
    intro other hother
    rw [HeldWaitLimiter.perDevice_release, if_neg hother, Nat.sub_zero]
  have hheld' : HeldBy (limiter.release deviceId) (insert deviceId devices) := by
    intro other hother
    rw [hsame other fun heq => hother (heq ▸ hmem)]
    exact hheld.grow deviceId other hother
  have hchanged := sum_changed hmem hsame
  have hdevice : (limiter.release deviceId).perDevice deviceId = limiter.perDevice deviceId - 1 := by
    rw [HeldWaitLimiter.perDevice_release, if_pos rfl]
  have hglobal : (limiter.release deviceId).global = limiter.global - 1 :=
    HeldWaitLimiter.global_release
  unfold Answers
  constructor
  · intro hafter
    have hsum' := hafter.sum_eq hheld'
    omega
  · intro hanswers
    refine ⟨insert deviceId devices, hheld', ?_⟩
    omega

theorem balanced_step (h : Balanced limiter) (hanswers : Answers limiter call)
    (hstep : limiterStep limiter call = some limiter') : Balanced limiter' := by
  rcases limiterStep_cases hstep with rfl | ⟨deviceId, rfl, hacquire⟩ | ⟨deviceId, rfl, rfl⟩
  · exact h
  · exact balanced_tryAcquire h hacquire
  · exact (balanced_release h).mpr hanswers

end

theorem withinCaps_new (perDeviceMax globalMax : ℕ) :
    WithinCaps (HeldWaitLimiter.new perDeviceMax globalMax) :=
  ⟨fun _ => Nat.zero_le _, Nat.zero_le _⟩

theorem balanced_new (perDeviceMax globalMax : ℕ) :
    Balanced (HeldWaitLimiter.new perDeviceMax globalMax) :=
  ⟨∅, fun _ _ => rfl, rfl⟩

/-- The caps are those the limiter was made with. -/
theorem caps_of_reached {guard : HeldWaitLimiter → LimiterCall → Prop} {start limiter : HeldWaitLimiter}
    (h : Reached limiterStep guard start limiter) :
    limiter.perDeviceMax = start.perDeviceMax ∧ limiter.globalMax = start.globalMax := by
  refine h.invariant (P := fun limiter =>
    limiter.perDeviceMax = start.perDeviceMax ∧ limiter.globalMax = start.globalMax) ⟨rfl, rfl⟩ ?_
  rintro limiter call limiter' ⟨hdevice, hglobal⟩ - hstep
  rcases limiterStep_cases hstep with rfl | ⟨deviceId, rfl, hacquire⟩ | ⟨deviceId, rfl, rfl⟩
  · exact ⟨hdevice, hglobal⟩
  · obtain ⟨hdeviceMax, hglobalMax, -⟩ := tryAcquire_caps hacquire
    rw [hdeviceMax, hglobalMax]
    exact ⟨hdevice, hglobal⟩
  · exact ⟨hdevice, hglobal⟩

/-- In every run the counts stay within the caps and a cap is the only reason to refuse. They
agree in every run whose releases answer acquires, and any other release sets them apart. -/
theorem held_waits_accounted (perDeviceMax globalMax : ℕ) :
    (∀ limiter, Reached limiterStep (fun _ _ => True)
        (HeldWaitLimiter.new perDeviceMax globalMax) limiter →
      limiter.global ≤ globalMax ∧ (∀ deviceId, limiter.perDevice deviceId ≤ perDeviceMax) ∧
        ∀ deviceId, limiter.tryAcquire deviceId = none →
          limiter.global = globalMax ∨ limiter.perDevice deviceId = perDeviceMax) ∧
    ∀ limiter, Reached limiterStep Answers (HeldWaitLimiter.new perDeviceMax globalMax) limiter →
      Balanced limiter ∧
        ∀ deviceId, Balanced (limiter.release deviceId) ↔ Answers limiter (.release deviceId) := by
  constructor
  · intro limiter h
    obtain ⟨hdeviceMax, hglobalMax⟩ := caps_of_reached h
    have hcaps : WithinCaps limiter := h.invariant (withinCaps_new perDeviceMax globalMax)
      fun _ _ _ hbefore _ hstep => withinCaps_step hbefore hstep
    have hglobal := hcaps.global
    have hdevice := hcaps.perDevice
    rw [hglobalMax] at hglobal
    rw [hdeviceMax] at hdevice
    refine ⟨hglobal, hdevice, fun deviceId hrefused => ?_⟩
    rcases tryAcquire_eq_none.mp hrefused with hfull | hfull
    · left
      rw [hglobalMax] at hfull
      exact Nat.le_antisymm hglobal hfull
    · right
      rw [hdeviceMax] at hfull
      exact Nat.le_antisymm (hdevice deviceId) hfull
  · intro limiter h
    have hbalanced : Balanced limiter := h.invariant (balanced_new perDeviceMax globalMax)
      fun _ _ _ hbefore hanswers hstep => balanced_step hbefore hanswers hstep
    exact ⟨hbalanced, fun deviceId => balanced_release hbalanced⟩

/-- Device 1 takes a slot, is refused a second one and gives the first back. -/
theorem held_waits_accounted_single :
    ∃ limiter, Reached limiterStep Answers (HeldWaitLimiter.new 1 4) limiter ∧
      limiter.perDevice 1 = 1 ∧ limiter.tryAcquire 1 = none ∧ limiter.global ≤ 4 ∧
        Balanced limiter ∧ Balanced (limiter.release 1) := by
  have hrun : ∃ limiter, run limiterStep (HeldWaitLimiter.new 1 4) [.tryAcquire 1] = some limiter ∧
      limiter.perDevice 1 = 1 ∧ limiter.tryAcquire 1 = none := ⟨_, rfl, rfl, rfl⟩
  obtain ⟨limiter, hrun, hone, hrefused⟩ := hrun
  have hanswers : Allowed limiterStep Answers (HeldWaitLimiter.new 1 4) [.tryAcquire 1] :=
    ⟨trivial, fun _ _ => trivial⟩
  have hreached : Reached limiterStep Answers (HeldWaitLimiter.new 1 4) limiter :=
    Reached.start.run hanswers hrun
  have hany : Reached limiterStep (fun _ _ => True) (HeldWaitLimiter.new 1 4) limiter :=
    Reached.start.run (allowed_of_forall (fun _ _ => trivial) _ _) hrun
  obtain ⟨hglobal, -⟩ := (held_waits_accounted 1 4).1 limiter hany
  obtain ⟨hbalanced, hrelease⟩ := (held_waits_accounted 1 4).2 limiter hreached
  refine ⟨limiter, hreached, hone, hrefused, hglobal, hbalanced, (hrelease 1).mpr (.inl ?_)⟩
  rw [hone]
  exact Nat.one_pos

/-- Device 1 holds a slot; the release for device 2, which holds none, lowers the global count. -/
theorem release_unmatched :
    ∃ limiter, run limiterStep (HeldWaitLimiter.new 2 4) [.tryAcquire 1, .release 2] = some limiter ∧
      limiter.perDevice 1 = 1 ∧ limiter.global = 0 ∧ ¬ Balanced limiter := by
  refine ⟨_, rfl, rfl, rfl, fun h => ?_⟩
  have hle := h.perDevice_le 1
  revert hle
  decide

end Havemind.HeldWaitAccounts
