import Havemind.RevisionSchema
import Mathlib.Logic.Function.Basic

/-!
The two in-memory tables behind a held `/wait`: the wake callbacks of each vault
and the slots of each device. A callback stands for the request that registered it;
an absent entry of either map is the empty set and the count zero.
-/
namespace Havemind.HeldWaits

open RevisionSchema Function

/-- The number of a `/wait` request in order of arrival. -/
abbrev RequestId := ℕ

structure VaultWakeRegistry where
  waitersByVault : Id → List RequestId

namespace VaultWakeRegistry

def empty : VaultWakeRegistry := ⟨fun _ => []⟩

def subscribe (registry : VaultWakeRegistry) (vaultId : Id) (onWake : RequestId) :
    VaultWakeRegistry :=
  let waiters := registry.waitersByVault vaultId
  ⟨update registry.waitersByVault vaultId
    (if onWake ∈ waiters then waiters else waiters ++ [onWake])⟩

def unsubscribe (registry : VaultWakeRegistry) (vaultId : Id) (onWake : RequestId) :
    VaultWakeRegistry :=
  ⟨update registry.waitersByVault vaultId
    ((registry.waitersByVault vaultId).filter fun waiter => waiter ≠ onWake)⟩

/-- The snapshot `notify` calls back, and the registry it leaves first. -/
def takeWaiters (registry : VaultWakeRegistry) (vaultId : Id) :
    List RequestId × VaultWakeRegistry :=
  (registry.waitersByVault vaultId, ⟨update registry.waitersByVault vaultId []⟩)

variable {registry : VaultWakeRegistry} {vaultId : Id} {other : Id} {onWake waiter : RequestId}

theorem mem_subscribe :
    waiter ∈ (registry.subscribe vaultId onWake).waitersByVault other ↔
      waiter ∈ registry.waitersByVault other ∨ (other = vaultId ∧ waiter = onWake) := by
  by_cases hvault : other = vaultId
  · subst hvault
    by_cases hmem : onWake ∈ registry.waitersByVault other
    · have habsorb : waiter = onWake → waiter ∈ registry.waitersByVault other := by
        intro h
        exact h ▸ hmem
      simpa [subscribe, hmem] using habsorb
    · simp [subscribe, hmem]
  · simp [subscribe, hvault]

theorem mem_unsubscribe :
    waiter ∈ (registry.unsubscribe vaultId onWake).waitersByVault other ↔
      waiter ∈ registry.waitersByVault other ∧ ¬ (other = vaultId ∧ waiter = onWake) := by
  by_cases hvault : other = vaultId
  · subst hvault
    simp [unsubscribe]
  · simp [unsubscribe, hvault]

theorem mem_takeWaiters :
    waiter ∈ (registry.takeWaiters vaultId).2.waitersByVault other ↔
      waiter ∈ registry.waitersByVault other ∧ other ≠ vaultId := by
  by_cases hvault : other = vaultId
  · subst hvault
    simp [takeWaiters]
  · simp [takeWaiters, hvault]

end VaultWakeRegistry

structure HeldWaitLimiter where
  perDeviceMax : ℕ
  globalMax : ℕ
  perDevice : Id → ℕ
  global : ℕ

namespace HeldWaitLimiter

def new (perDeviceMax globalMax : ℕ) : HeldWaitLimiter where
  perDeviceMax := perDeviceMax
  globalMax := globalMax
  perDevice := fun _ => 0
  global := 0

/-- `none` stands for the answer false. -/
def tryAcquire (limiter : HeldWaitLimiter) (deviceId : Id) : Option HeldWaitLimiter :=
  if limiter.globalMax ≤ limiter.global then none
  else if limiter.perDeviceMax ≤ limiter.perDevice deviceId then none
  else some { limiter with
    perDevice := update limiter.perDevice deviceId (limiter.perDevice deviceId + 1)
    global := limiter.global + 1 }

def release (limiter : HeldWaitLimiter) (deviceId : Id) : HeldWaitLimiter :=
  { limiter with
    perDevice := update limiter.perDevice deviceId
      (if limiter.perDevice deviceId ≤ 1 then 0 else limiter.perDevice deviceId - 1)
    global := limiter.global - 1 }

variable {limiter limiter' : HeldWaitLimiter} {deviceId other : Id}

theorem tryAcquire_eq_some (h : limiter.tryAcquire deviceId = some limiter') :
    limiter'.global = limiter.global + 1 ∧
      ∀ other, limiter'.perDevice other =
        limiter.perDevice other + if other = deviceId then 1 else 0 := by
  by_cases hglobal : limiter.globalMax ≤ limiter.global
  · simp [tryAcquire, hglobal] at h
  · by_cases hdevice : limiter.perDeviceMax ≤ limiter.perDevice deviceId
    · simp [tryAcquire, hglobal, hdevice] at h
    · simp only [tryAcquire, hglobal, hdevice, if_false, Option.some.injEq] at h
      subst h
      refine ⟨rfl, ?_⟩
      intro other
      by_cases hother : other = deviceId
      · subst hother
        simp
      · simp [hother]

theorem perDevice_release :
    (limiter.release deviceId).perDevice other =
      limiter.perDevice other - if other = deviceId then 1 else 0 := by
  by_cases hother : other = deviceId
  · subst hother
    by_cases hlast : limiter.perDevice other ≤ 1
    · simp [release, hlast]
    · simp [release, hlast]
  · simp [release, hother]

theorem global_release : (limiter.release deviceId).global = limiter.global - 1 := rfl

end HeldWaitLimiter

end Havemind.HeldWaits
