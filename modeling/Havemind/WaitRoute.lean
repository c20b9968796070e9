import Havemind.HeldWaits
import Havemind.Runs

/-!
The `/wait` route beside the commits and the notices of the push route. One step is
one synchronous segment: a request is answered, refused or subscribed in one, and
each later callback of a held request is another. A callback may fire even when the
teardown has removed it already; the flag `settled` stands between.
-/
namespace Havemind.WaitRoute

open RevisionSchema HeldWaits Runs Option List

structure Vault where
  cursor : ℕ
  deleted : Bool

inductive Reply
  | cursor (cursor : ℕ)
  | notFound
  | rateLimited
  | hijacked
  deriving DecidableEq

/-- One `/wait` request: what it asked, the cursor the handler read, and what became
of it. `releases` counts the calls of `release` made for it. -/
structure Request where
  vaultId : Id
  deviceId : Id
  clientCursor : ℕ
  current : ℕ
  acquired : Bool
  settled : Bool
  releases : ℕ
  reply : Option Reply
  deriving DecidableEq

/-- `notices` keeps the arguments of every call of `notify`. -/
structure World where
  vaults : Id → Option Vault
  wired : Bool
  wakeRegistry : VaultWakeRegistry
  heldWaits : HeldWaitLimiter
  requests : List Request
  notices : List (Id × ℕ)

inductive Event
  | createVault (vaultId : Id)
  | deleteVault (vaultId : Id)
  | commit (vaultId : Id)
  | notify (vaultId : Id)
  | wait (vaultId deviceId : Id) (clientCursor : ℕ)
  | timeout (id : RequestId)
  | clientGone (id : RequestId)

def initial (wired : Bool) (perDeviceMax globalMax : ℕ) : World where
  vaults := fun _ => none
  wired := wired
  wakeRegistry := VaultWakeRegistry.empty
  heldWaits := HeldWaitLimiter.new perDeviceMax globalMax
  requests := []
  notices := []

def Request.held (request : Request) : Bool := request.acquired && !request.settled

/-- The request once it has been settled and torn down. -/
def Request.answered (request : Request) (reply : Reply) : Request :=
  { request with
    settled := true
    releases := request.releases + 1
    reply := some reply }

def answerAtOnce (vaultId deviceId : Id) (clientCursor current : ℕ) (reply : Reply) : Request where
  vaultId := vaultId
  deviceId := deviceId
  clientCursor := clientCursor
  current := current
  acquired := false
  settled := true
  releases := 0
  reply := some reply

def holdRequest (vaultId deviceId : Id) (clientCursor current : ℕ) : Request where
  vaultId := vaultId
  deviceId := deviceId
  clientCursor := clientCursor
  current := current
  acquired := true
  settled := false
  releases := 0
  reply := none

namespace World

def getCursor (world : World) (vaultId : Id) : Option ℕ :=
  match world.vaults vaultId with
  | some vault => if vault.deleted then none else some vault.cursor
  | none => none

/-- The handler of `/wait`, up to its promise. -/
def wait (world : World) (vaultId deviceId : Id) (clientCursor : ℕ) : World :=
  match world.getCursor vaultId with
  | none =>
    { world with
      requests := world.requests ++ [answerAtOnce vaultId deviceId clientCursor 0 .notFound] }
  | some current =>
    if clientCursor < current ∨ world.wired = false then
      { world with
        requests := world.requests ++
          [answerAtOnce vaultId deviceId clientCursor current (.cursor current)] }
    else
      match world.heldWaits.tryAcquire deviceId with
      | none =>
        { world with
          requests := world.requests ++
            [answerAtOnce vaultId deviceId clientCursor current .rateLimited] }
      | some heldWaits =>
        { world with
          heldWaits := heldWaits
          wakeRegistry := world.wakeRegistry.subscribe vaultId world.requests.length
          requests := world.requests ++ [holdRequest vaultId deviceId clientCursor current] }

/-- The guard on `settled`, the teardown and the resolved promise. -/
def settle (world : World) (id : RequestId) (reply : Request → Reply) : World :=
  match world.requests[id]? with
  | some request =>
    if request.held then
      { world with
        wakeRegistry := world.wakeRegistry.unsubscribe request.vaultId id
        heldWaits := world.heldWaits.release request.deviceId
        requests := world.requests.set id (request.answered (reply request)) }
    else world
  | none => world

def finish (world : World) (id : RequestId) (cursor : ℕ) : World :=
  world.settle id fun _ => .cursor cursor

/-- The push route's notice, with the cursor it reads in the same segment. -/
def notify (world : World) (vaultId : Id) : World :=
  match world.getCursor vaultId with
  | none => world
  | some cursor =>
    let taken := world.wakeRegistry.takeWaiters vaultId
    taken.1.foldl (fun world id => world.finish id cursor)
      { world with wakeRegistry := taken.2, notices := (vaultId, cursor) :: world.notices }

def timeout (world : World) (id : RequestId) : World :=
  world.settle id fun request => .cursor request.current

def onClientGone (world : World) (id : RequestId) : World :=
  world.settle id fun _ => .hijacked

def setVault (world : World) (vaultId : Id) (vault : Vault) : World :=
  { world with vaults := Function.update world.vaults vaultId (some vault) }

end World

open World

def step (world : World) : Event → Option World
  | .createVault vaultId =>
    match world.vaults vaultId with
    | none => some (world.setVault vaultId ⟨0, false⟩)
    | some _ => none
  | .deleteVault vaultId =>
    (world.vaults vaultId).map fun vault => world.setVault vaultId { vault with deleted := true }
  | .commit vaultId =>
    (world.getCursor vaultId).map fun cursor => world.setVault vaultId ⟨cursor + 1, false⟩
  | .notify vaultId => if world.wired then some (world.notify vaultId) else none
  | .wait vaultId deviceId clientCursor => some (world.wait vaultId deviceId clientCursor)
  | .timeout id => some (world.timeout id)
  | .clientGone id => some (world.onClientGone id)

/-- Any order of events. -/
def Anything (_ : World) (_ : Event) : Prop := True

variable {world world' : World} {id other : RequestId} {request : Request} {vaultId : Id}

/-- A request as `settle` leaves it when it is the one the callback belongs to. -/
def Request.resolve (reply : Request → Reply) (request : Request) : Request :=
  if request.held then request.answered (reply request) else request

theorem held_answered (request : Request) (answer : Reply) :
    (request.answered answer).held = false := by
  simp [Request.held, Request.answered]

theorem held_resolve (request : Request) (reply : Request → Reply) :
    (request.resolve reply).held = false := by
  by_cases hheld : request.held = true
  · simp [Request.resolve, hheld, held_answered]
  · simp [Request.resolve, hheld]

theorem resolve_resolve (request : Request) (reply : Request → Reply) :
    (request.resolve reply).resolve reply = request.resolve reply := by
  simp [Request.resolve.eq_1 reply (request.resolve reply), held_resolve]

variable {reply : Request → Reply}

theorem settle_of_held (hget : world.requests[id]? = some request) (hheld : request.held = true) :
    world.settle id reply =
      { world with
        wakeRegistry := world.wakeRegistry.unsubscribe request.vaultId id
        heldWaits := world.heldWaits.release request.deviceId
        requests := world.requests.set id (request.answered (reply request)) } := by
  simp [settle, hget, hheld]

theorem settle_of_not_held (h : ∀ request, world.requests[id]? = some request →
    request.held = false) : world.settle id reply = world := by
  cases hget : world.requests[id]? with
  | none => simp [settle, hget]
  | some request => simp [settle, hget, h request hget]

/-- Either the callback finds its request held, or it changes nothing. -/
theorem settle_cases (world : World) (id : RequestId) :
    (∃ request, world.requests[id]? = some request ∧ request.held = true) ∨
      (∀ request, world.requests[id]? = some request → request.held = false) := by
  cases hget : world.requests[id]? with
  | none =>
    right
    intro request h
    cases h
  | some request =>
    by_cases hheld : request.held = true
    · exact Or.inl ⟨request, rfl, hheld⟩
    · right
      intro found h
      cases h
      simpa using hheld

theorem requests_settle (world : World) (id : RequestId) (reply : Request → Reply)
    (other : RequestId) :
    (world.settle id reply).requests[other]? =
      if other = id then world.requests[other]?.map (Request.resolve reply)
      else world.requests[other]? := by
  rcases settle_cases world id with ⟨request, hget, hheld⟩ | hidle
  · have hlength : id < world.requests.length := (List.getElem?_eq_some_iff.mp hget).1
    rw [settle_of_held hget hheld, List.getElem?_set]
    by_cases hother : other = id
    · subst hother
      rw [if_pos rfl, if_pos rfl, if_pos hlength, hget]
      simp [Request.resolve, hheld]
    · have hne : ¬ id = other := fun h => hother h.symm
      simp [hother, hne]
  · rw [settle_of_not_held hidle]
    by_cases hother : other = id
    · subst hother
      cases hget : world.requests[other]? with
      | none => simp
      | some request => simp [Request.resolve, hidle request hget]
    · simp [hother]

@[simp] theorem vaults_settle : (world.settle id reply).vaults = world.vaults := by
  rcases settle_cases world id with ⟨request, hget, hheld⟩ | hidle
  · rw [settle_of_held hget hheld]
  · rw [settle_of_not_held hidle]

@[simp] theorem notices_settle : (world.settle id reply).notices = world.notices := by
  rcases settle_cases world id with ⟨request, hget, hheld⟩ | hidle
  · rw [settle_of_held hget hheld]
  · rw [settle_of_not_held hidle]

theorem foldl_finish_frame (ids : List RequestId) (cursor : ℕ) (world : World) :
    (ids.foldl (fun world id => world.finish id cursor) world).vaults = world.vaults ∧
      (ids.foldl (fun world id => world.finish id cursor) world).notices = world.notices := by
  induction ids generalizing world with
  | nil => exact ⟨rfl, rfl⟩
  | cons id rest ih =>
    obtain ⟨hvaults, hnotices⟩ := ih (world.finish id cursor)
    exact ⟨hvaults.trans vaults_settle, hnotices.trans notices_settle⟩

/-- A notice resolves the requests of its snapshot and no other. -/
theorem requests_foldl_finish (ids : List RequestId) (cursor : ℕ) (world : World)
    (other : RequestId) :
    (ids.foldl (fun world id => world.finish id cursor) world).requests[other]? =
      if other ∈ ids then world.requests[other]?.map (Request.resolve fun _ => .cursor cursor)
      else world.requests[other]? := by
  induction ids generalizing world with
  | nil => simp
  | cons id rest ih =>
    rw [foldl_cons, ih (world.finish id cursor), finish, requests_settle]
    by_cases hhead : other = id
    · subst hhead
      by_cases hrest : other ∈ rest
      · simp [hrest, Function.comp_def, resolve_resolve]
      · simp [hrest]
    · simp [hhead]

/-- `due` lists the requests that a notice has taken out and not yet called back. -/
def RegisteredExcept (due : List RequestId) (world : World) : Prop :=
  ∀ vaultId id, id ∈ world.wakeRegistry.waitersByVault vaultId ↔
    id ∉ due ∧ ∃ request, world.requests[id]? = some request ∧ request.held = true ∧
      request.vaultId = vaultId

theorem registered_settle {due rest : List RequestId} (h : RegisteredExcept due world)
    (hrest : ∀ other, other ≠ id → (other ∈ rest ↔ other ∈ due)) :
    RegisteredExcept rest (world.settle id reply) := by
  intro vaultId other
  by_cases hother : other = id
  · subst hother
    have hgone : ¬ ∃ request, (world.settle other reply).requests[other]? = some request ∧
        request.held = true ∧ request.vaultId = vaultId := by
      rintro ⟨request, hget, hheld, -⟩
      rw [requests_settle, if_pos rfl] at hget
      obtain ⟨before, -, rfl⟩ := map_eq_some_iff.mp hget
      rw [held_resolve] at hheld
      cases hheld
    have hout : other ∉ (world.settle other reply).wakeRegistry.waitersByVault vaultId := by
      rcases settle_cases world other with ⟨request, hget, hheld⟩ | hidle
      · rw [settle_of_held hget hheld, VaultWakeRegistry.mem_unsubscribe, h]
        rintro ⟨⟨-, found, hfound, -, hvault⟩, hout⟩
        rw [hget] at hfound
        cases hfound
        exact hout ⟨hvault.symm, rfl⟩
      · rw [settle_of_not_held hidle, h]
        rintro ⟨-, found, hfound, hheld, -⟩
        rw [hidle found hfound] at hheld
        cases hheld
    exact ⟨fun hmem => absurd hmem hout, fun hmem => absurd hmem.2 hgone⟩
  · rw [requests_settle, if_neg hother, hrest other hother, ← h]
    rcases settle_cases world id with ⟨request, hget, hheld⟩ | hidle
    · rw [settle_of_held hget hheld, VaultWakeRegistry.mem_unsubscribe]
      exact ⟨fun hmem => hmem.1, fun hmem => ⟨hmem, fun hsame => hother hsame.2⟩⟩
    · rw [settle_of_not_held hidle]

theorem registered_foldl_finish (due : List RequestId) (cursor : ℕ)
    (h : RegisteredExcept due world) :
    RegisteredExcept [] (due.foldl (fun world id => world.finish id cursor) world) := by
  induction due generalizing world with
  | nil => exact h
  | cons id rest ih =>
    refine ih (registered_settle h ?_)
    intro other hother
    simp [hother]

theorem registered_notify (h : RegisteredExcept [] world) :
    RegisteredExcept [] (world.notify vaultId) := by
  cases hcursor : world.getCursor vaultId with
  | none => simpa [notify, hcursor] using h
  | some cursor =>
    simp only [notify, hcursor]
    refine registered_foldl_finish _ cursor ?_
    intro other id
    rw [VaultWakeRegistry.mem_takeWaiters, h]
    constructor
    · rintro ⟨⟨-, request, hget, hheld, hvault⟩, hother⟩
      refine ⟨?_, request, hget, hheld, hvault⟩
      intro hmem
      obtain ⟨-, found, hfound, -, hfoundVault⟩ := (h vaultId id).mp hmem
      rw [hget] at hfound
      cases hfound
      exact hother (hvault.symm.trans hfoundVault)
    · rintro ⟨hdue, request, hget, hheld, hvault⟩
      refine ⟨⟨not_mem_nil, request, hget, hheld, hvault⟩, ?_⟩
      rintro rfl
      exact hdue ((h other id).mpr ⟨not_mem_nil, request, hget, hheld, hvault⟩)

theorem getElem?_append_singleton {requests : List Request} {found : Request} :
    (requests ++ [request])[id]? = some found ↔
      requests[id]? = some found ∨ (id = requests.length ∧ found = request) := by
  by_cases hlast : id < requests.length
  · have hne : id ≠ requests.length := Nat.ne_of_lt hlast
    simp [List.getElem?_append_left hlast, hne]
  · have hnone : requests[id]? = none := by simpa using Nat.le_of_not_lt hlast
    rw [List.getElem?_append_right (Nat.le_of_not_lt hlast), List.getElem?_singleton, hnone]
    by_cases hend : id - requests.length = 0
    · have hlen : id = requests.length :=
        Nat.le_antisymm (Nat.le_of_sub_eq_zero hend) (Nat.le_of_not_lt hlast)
      simp [hlen, eq_comm]
    · have hlen : id ≠ requests.length := fun h => hend (h ▸ Nat.sub_self _)
      simp [hend, hlen]

/-- An answer at once leaves the callbacks as they are. -/
theorem registered_append_settled (h : RegisteredExcept [] world) (hnew : request.held = false) :
    RegisteredExcept [] { world with requests := world.requests ++ [request] } := by
  intro vaultId id
  rw [h]
  constructor
  · rintro ⟨hdue, found, hget, hheld, hvault⟩
    exact ⟨hdue, found, getElem?_append_singleton.mpr (Or.inl hget), hheld, hvault⟩
  · rintro ⟨hdue, found, hget, hheld, hvault⟩
    rcases getElem?_append_singleton.mp hget with hold | ⟨-, rfl⟩
    · exact ⟨hdue, found, hold, hheld, hvault⟩
    · rw [hnew] at hheld
      cases hheld

theorem registered_subscribe (h : RegisteredExcept [] world) (hnew : request.held = true)
    (hvault : request.vaultId = vaultId) (heldWaits : HeldWaitLimiter) :
    RegisteredExcept [] { world with
      heldWaits := heldWaits
      wakeRegistry := world.wakeRegistry.subscribe vaultId world.requests.length
      requests := world.requests ++ [request] } := by
  intro other id
  rw [VaultWakeRegistry.mem_subscribe, h]
  constructor
  · rintro (⟨hdue, found, hget, hheld, hfound⟩ | ⟨rfl, rfl⟩)
    · exact ⟨hdue, found, getElem?_append_singleton.mpr (Or.inl hget), hheld, hfound⟩
    · exact ⟨not_mem_nil, request, getElem?_append_singleton.mpr (Or.inr ⟨rfl, rfl⟩), hnew,
        hvault⟩
  · rintro ⟨hdue, found, hget, hheld, hfound⟩
    rcases getElem?_append_singleton.mp hget with hold | ⟨rfl, rfl⟩
    · exact Or.inl ⟨hdue, found, hold, hheld, hfound⟩
    · exact Or.inr ⟨hfound.symm.trans hvault, rfl⟩

/-- What `wait` may do, with what it checked on the way. -/
inductive Waited (world : World) (vaultId deviceId : Id) (clientCursor : ℕ) : World → Prop
  | atOnce (current : ℕ) (reply : Reply) :
      Waited world vaultId deviceId clientCursor { world with
        requests := world.requests ++
          [answerAtOnce vaultId deviceId clientCursor current reply] }
  | hold (current : ℕ) (heldWaits : HeldWaitLimiter) (read : world.getCursor vaultId = some current)
      (behind : current ≤ clientCursor)
      (acquired : world.heldWaits.tryAcquire deviceId = some heldWaits) :
      Waited world vaultId deviceId clientCursor { world with
        heldWaits := heldWaits
        wakeRegistry := world.wakeRegistry.subscribe vaultId world.requests.length
        requests := world.requests ++ [holdRequest vaultId deviceId clientCursor current] }

theorem wait_cases (world : World) (vaultId deviceId : Id) (clientCursor : ℕ) :
    Waited world vaultId deviceId clientCursor (world.wait vaultId deviceId clientCursor) := by
  cases hread : world.getCursor vaultId with
  | none =>
    simp only [World.wait, hread]
    exact .atOnce 0 .notFound
  | some current =>
    by_cases hfast : clientCursor < current ∨ world.wired = false
    · simp only [World.wait, hread, hfast, if_true]
      exact .atOnce current (.cursor current)
    · cases hslot : world.heldWaits.tryAcquire deviceId with
      | none =>
        simp only [World.wait, hread, hfast, if_false, hslot]
        exact .atOnce current .rateLimited
      | some heldWaits =>
        simp only [World.wait, hread, hfast, if_false, hslot]
        exact .hold current heldWaits hread (Nat.le_of_not_lt fun h => hfast (Or.inl h)) hslot

theorem getCursor_eq_some {cursor : ℕ} (h : world.getCursor vaultId = some cursor) :
    world.vaults vaultId = some ⟨cursor, false⟩ := by
  cases hvault : world.vaults vaultId with
  | none => simp [World.getCursor, hvault] at h
  | some vault =>
    obtain ⟨number, deleted⟩ := vault
    by_cases hdeleted : deleted = true
    · simp [World.getCursor, hvault, hdeleted] at h
    · have hlive : deleted = false := by simpa using hdeleted
      subst hlive
      simp only [World.getCursor, hvault] at h
      cases h
      rfl

/-- What an event does: a vault's cursor only grows, and what ends a held request settles it. -/
inductive Taken (world : World) : World → Prop
  | setVault (vaultId : Id) (vault : Vault)
      (grows : ∀ before, world.vaults vaultId = some before → before.cursor ≤ vault.cursor) :
      Taken world (world.setVault vaultId vault)
  | notify (vaultId : Id) : Taken world (world.notify vaultId)
  | wait (vaultId deviceId : Id) (clientCursor : ℕ) :
      Taken world (world.wait vaultId deviceId clientCursor)
  | settle (id : RequestId) (reply : Request → Reply) : Taken world (world.settle id reply)

theorem taken_of_step {event : Event} (htaken : step world event = some world') :
    Taken world world' := by
  cases event with
  | createVault vaultId =>
    cases hvault : world.vaults vaultId with
    | none =>
      simp only [step, hvault, some.injEq] at htaken
      rw [← htaken]
      exact .setVault vaultId _ fun _ hbefore => nomatch hvault.symm.trans hbefore
    | some vault => simp [step, hvault] at htaken
  | deleteVault vaultId =>
    obtain ⟨vault, hvault, rfl⟩ := map_eq_some_iff.mp htaken
    refine .setVault vaultId _ fun before hbefore => ?_
    rw [hvault] at hbefore
    cases hbefore
    exact Nat.le_refl _
  | commit vaultId =>
    obtain ⟨cursor, hcursor, rfl⟩ := map_eq_some_iff.mp htaken
    refine .setVault vaultId _ fun before hbefore => ?_
    rw [getCursor_eq_some hcursor] at hbefore
    cases hbefore
    exact Nat.le_succ _
  | notify vaultId =>
    by_cases hwired : world.wired = true
    · simp only [step, hwired, if_true, some.injEq] at htaken
      exact htaken ▸ .notify vaultId
    · simp [step, hwired] at htaken
  | wait vaultId deviceId clientCursor =>
    cases htaken
    exact .wait vaultId deviceId clientCursor
  | timeout id =>
    cases htaken
    exact .settle id _
  | clientGone id =>
    cases htaken
    exact .settle id _

theorem registered_step (h : RegisteredExcept [] world) (htaken : Taken world world') :
    RegisteredExcept [] world' := by
  cases htaken with
  | setVault vaultId vault grows => exact h
  | notify vaultId => exact registered_notify h
  | wait vaultId deviceId clientCursor =>
    have hcases := wait_cases world vaultId deviceId clientCursor
    generalize world.wait vaultId deviceId clientCursor = next at hcases ⊢
    cases hcases with
    | atOnce current reply => exact registered_append_settled h rfl
    | hold current heldWaits read behind acquired =>
      have hnew : (holdRequest vaultId deviceId clientCursor current).held = true := rfl
      exact registered_subscribe h hnew rfl heldWaits
  | settle id reply => exact registered_settle h fun _ _ => Iff.rfl

theorem notices_notify {cursor : ℕ} (h : world.getCursor vaultId = some cursor) :
    (world.notify vaultId).notices = (vaultId, cursor) :: world.notices := by
  simp only [notify, h]
  exact (foldl_finish_frame _ cursor _).2

theorem vaults_notify (world : World) (vaultId : Id) :
    (world.notify vaultId).vaults = world.vaults := by
  cases hcursor : world.getCursor vaultId with
  | none => simp [notify, hcursor]
  | some cursor =>
    simp only [notify, hcursor]
    exact (foldl_finish_frame _ cursor _).1

theorem requests_notify {cursor : ℕ} (h : world.getCursor vaultId = some cursor) :
    (world.notify vaultId).requests[id]? =
      if id ∈ world.wakeRegistry.waitersByVault vaultId then
        world.requests[id]?.map (Request.resolve fun _ => .cursor cursor)
      else world.requests[id]? := by
  simp only [notify, h]
  exact requests_foldl_finish _ cursor _ id

/-- Every request held for the vault is resolved by the notice, with its cursor. -/
theorem resolved_by_notify {cursor : ℕ} (hregistered : RegisteredExcept [] world)
    (hcursor : world.getCursor request.vaultId = some cursor)
    (hget : world.requests[id]? = some request) (hheld : request.held = true) :
    (world.notify request.vaultId).requests[id]? = some (request.answered (.cursor cursor)) := by
  have hmem : id ∈ world.wakeRegistry.waitersByVault request.vaultId :=
    (hregistered _ _).mpr ⟨not_mem_nil, request, hget, hheld, rfl⟩
  rw [requests_notify hcursor, if_pos hmem, hget]
  simp [Request.resolve, hheld]

/-- What is still held after a notice was held before and waits for another vault. -/
theorem held_after_notify {cursor : ℕ} (hregistered : RegisteredExcept [] world)
    (hcursor : world.getCursor vaultId = some cursor)
    (hget : (world.notify vaultId).requests[id]? = some request) (hheld : request.held = true) :
    world.requests[id]? = some request ∧ request.vaultId ≠ vaultId := by
  rw [requests_notify hcursor] at hget
  by_cases hmem : id ∈ world.wakeRegistry.waitersByVault vaultId
  · rw [if_pos hmem] at hget
    obtain ⟨before, -, rfl⟩ := map_eq_some_iff.mp hget
    rw [held_resolve] at hheld
    cases hheld
  · rw [if_neg hmem] at hget
    refine ⟨hget, ?_⟩
    rintro rfl
    exact hmem ((hregistered _ _).mpr ⟨not_mem_nil, request, hget, hheld, rfl⟩)

/-- What is still held after a callback was held before. -/
theorem held_after_settle (hget : (world.settle id reply).requests[other]? = some request)
    (hheld : request.held = true) : world.requests[other]? = some request := by
  rw [requests_settle] at hget
  by_cases hother : other = id
  · rw [if_pos hother] at hget
    obtain ⟨before, -, rfl⟩ := map_eq_some_iff.mp hget
    rw [held_resolve] at hheld
    cases hheld
  · rwa [if_neg hother] at hget

structure Quiet (world : World) : Prop where
  held : ∀ (id : RequestId) (request : Request), world.requests[id]? = some request →
    request.held = true → ∀ cursor, (request.vaultId, cursor) ∈ world.notices → cursor ≤ request.clientCursor
  covered : ∀ vaultId cursor, (vaultId, cursor) ∈ world.notices →
    ∃ vault, world.vaults vaultId = some vault ∧ cursor ≤ vault.cursor

/-- Cursors only grow, so the notices stay covered. -/
theorem Quiet.setVault {vault : Vault} (h : Quiet world)
    (hgrows : ∀ before, world.vaults vaultId = some before → before.cursor ≤ vault.cursor) :
    Quiet (world.setVault vaultId vault) where
  held := h.held
  covered := by
    intro other cursor hmem
    obtain ⟨before, hbefore, hle⟩ := h.covered other cursor hmem
    by_cases hother : other = vaultId
    · subst hother
      exact ⟨vault, by simp [World.setVault], Nat.le_trans hle (hgrows before hbefore)⟩
    · exact ⟨before, by simpa [World.setVault, hother] using hbefore, hle⟩

theorem Quiet.settle (h : Quiet world) : Quiet (world.settle id reply) where
  held := by
    intro other request hget hheld cursor hmem
    rw [notices_settle] at hmem
    exact h.held other request (held_after_settle hget hheld) hheld cursor hmem
  covered := by
    intro vaultId cursor hmem
    rw [notices_settle] at hmem
    rw [vaults_settle]
    exact h.covered vaultId cursor hmem

theorem Quiet.notify (hregistered : RegisteredExcept [] world) (h : Quiet world) :
    Quiet (world.notify vaultId) := by
  cases hcursor : world.getCursor vaultId with
  | none => simpa [World.notify, hcursor] using h
  | some cursor =>
    constructor
    · intro id request hget hheld number hmem
      obtain ⟨hbefore, hother⟩ := held_after_notify hregistered hcursor hget hheld
      rw [notices_notify hcursor] at hmem
      rcases mem_cons.mp hmem with hnew | hold
      · exact absurd (congrArg Prod.fst hnew) hother
      · exact h.held id request hbefore hheld number hold
    · intro other number hmem
      rw [notices_notify hcursor] at hmem
      rw [vaults_notify]
      rcases mem_cons.mp hmem with hnew | hold
      · cases hnew
        exact ⟨_, getCursor_eq_some hcursor, Nat.le_refl _⟩
      · exact h.covered other number hold

/-- A request is held only when the cursor read with it is not beyond its own. -/
theorem Quiet.append (h : Quiet world) (request : Request)
    (hnew : request.held = true → ∀ cursor, (request.vaultId, cursor) ∈ world.notices →
      cursor ≤ request.clientCursor)
    (heldWaits : HeldWaitLimiter) (wakeRegistry : VaultWakeRegistry) :
    Quiet { world with
      heldWaits := heldWaits
      wakeRegistry := wakeRegistry
      requests := world.requests ++ [request] } where
  held := by
    intro id found hget hheld cursor hmem
    rcases getElem?_append_singleton.mp hget with hold | ⟨-, rfl⟩
    · exact h.held id found hold hheld cursor hmem
    · exact hnew hheld cursor hmem
  covered := h.covered

theorem quiet_step (hregistered : RegisteredExcept [] world) (h : Quiet world)
    (htaken : Taken world world') : Quiet world' := by
  cases htaken with
  | setVault vaultId vault grows => exact h.setVault grows
  | notify vaultId => exact h.notify hregistered
  | wait vaultId deviceId clientCursor =>
    have hcases := wait_cases world vaultId deviceId clientCursor
    generalize world.wait vaultId deviceId clientCursor = next at hcases ⊢
    cases hcases with
    | atOnce current reply =>
      refine h.append _ ?_ _ _
      intro hheld
      simp [Request.held, answerAtOnce] at hheld
    | hold current heldWaits read behind acquired =>
      refine h.append _ ?_ _ _
      intro _ cursor hmem
      obtain ⟨vault, hvault, hle⟩ := h.covered _ cursor hmem
      have hsame : some vault = some ⟨current, false⟩ := hvault.symm.trans (getCursor_eq_some read)
      cases hsame
      exact Nat.le_trans hle behind
  | settle id reply => exact h.settle

/-- Held by one device, or by any. -/
def Request.holds (deviceId : Option Id) (request : Request) : Bool :=
  request.held && deviceId.all fun deviceId => request.deviceId == deviceId

structure Balanced (world : World) : Prop where
  perDevice : ∀ deviceId, world.heldWaits.perDevice deviceId =
    world.requests.countP (Request.holds (some deviceId))
  global : world.heldWaits.global = world.requests.countP (Request.holds none)

theorem holds_of_not_held {deviceId : Option Id} (h : request.held = false) :
    request.holds deviceId = false := by
  simp [Request.holds, h]

/-- A settled request is counted once less. -/
theorem countP_settle (deviceId : Option Id) (answer : Reply)
    (hget : world.requests[id]? = some request) :
    (world.requests.set id (request.answered answer)).countP (Request.holds deviceId) =
      world.requests.countP (Request.holds deviceId) -
        if request.holds deviceId then 1 else 0 := by
  obtain ⟨hlength, hrequest⟩ := List.getElem?_eq_some_iff.mp hget
  rw [countP_set hlength, hrequest, holds_of_not_held (held_answered request answer)]
  simp

theorem Balanced.settle (h : Balanced world) : Balanced (world.settle id reply) := by
  rcases settle_cases world id with ⟨request, hget, hheld⟩ | hidle
  · rw [settle_of_held hget hheld]
    constructor
    · intro deviceId
      rw [HeldWaitLimiter.perDevice_release, countP_settle _ _ hget, h.perDevice]
      by_cases hdevice : deviceId = request.deviceId
      · simp [Request.holds, hheld, hdevice]
      · have hne : ¬ request.deviceId = deviceId := fun hsame => hdevice hsame.symm
        simp [Request.holds, hheld, hdevice, hne]
    · rw [HeldWaitLimiter.global_release, countP_settle _ _ hget, h.global]
      simp [Request.holds, hheld]
  · rwa [settle_of_not_held hidle]

theorem Balanced.foldl_finish (ids : List RequestId) (cursor : ℕ) (h : Balanced world) :
    Balanced (ids.foldl (fun world id => world.finish id cursor) world) := by
  induction ids generalizing world with
  | nil => exact h
  | cons id rest ih => exact ih h.settle

theorem Balanced.notify (h : Balanced world) : Balanced (world.notify vaultId) := by
  cases hcursor : world.getCursor vaultId with
  | none => simpa [World.notify, hcursor] using h
  | some cursor =>
    have htaken : Balanced { world with
        wakeRegistry := (world.wakeRegistry.takeWaiters vaultId).2
        notices := (vaultId, cursor) :: world.notices } := ⟨h.perDevice, h.global⟩
    simp only [World.notify, hcursor]
    exact htaken.foldl_finish _ cursor

theorem Balanced.wait (h : Balanced world) (vaultId deviceId : Id) (clientCursor : ℕ) :
    Balanced (world.wait vaultId deviceId clientCursor) := by
  have hcases := wait_cases world vaultId deviceId clientCursor
  generalize world.wait vaultId deviceId clientCursor = next at hcases
  cases hcases with
  | atOnce current reply =>
    constructor
    · intro other
      simp [h.perDevice, Request.holds, Request.held, answerAtOnce]
    · simp [h.global, Request.holds, Request.held, answerAtOnce]
  | hold current heldWaits read behind acquired =>
    obtain ⟨hglobal, hdevice⟩ := HeldWaitLimiter.tryAcquire_eq_some acquired
    constructor
    · intro other
      rw [hdevice other, h.perDevice]
      by_cases hother : other = deviceId
      · simp [Request.holds, Request.held, holdRequest, hother]
      · have hne : ¬ deviceId = other := fun hsame => hother hsame.symm
        simp [Request.holds, Request.held, holdRequest, hother, hne]
    · rw [hglobal, h.global]
      simp [Request.holds, Request.held, holdRequest]

/-- A request is settled with one release of its slot, or had none to release. -/
def Accounted (request : Request) : Prop :=
  request.settled = request.reply.isSome ∧
    request.releases = if request.acquired && request.settled then 1 else 0

theorem accounted_resolve (h : Accounted request) : Accounted (request.resolve reply) := by
  by_cases hheld : request.held = true
  · obtain ⟨hacquired, hsettled⟩ : request.acquired = true ∧ request.settled = false := by
      simpa [Request.held] using hheld
    obtain ⟨-, hreleases⟩ := h
    have hzero : request.releases = 0 := by simpa [hacquired, hsettled] using hreleases
    constructor
    · simp [Request.resolve, hheld, Request.answered]
    · simp [Request.resolve, hheld, Request.answered, hacquired, hzero]
  · simpa [Request.resolve, hheld] using h

def AllAccounted (world : World) : Prop :=
  ∀ (id : RequestId) (request : Request), world.requests[id]? = some request → Accounted request

theorem AllAccounted.settle (h : AllAccounted world) : AllAccounted (world.settle id reply) := by
  intro other request hget
  rw [requests_settle] at hget
  by_cases hother : other = id
  · rw [if_pos hother] at hget
    obtain ⟨before, hbefore, rfl⟩ := map_eq_some_iff.mp hget
    exact accounted_resolve (h other before hbefore)
  · rw [if_neg hother] at hget
    exact h other request hget

theorem AllAccounted.notify (h : AllAccounted world) : AllAccounted (world.notify vaultId) := by
  intro other request hget
  cases hcursor : world.getCursor vaultId with
  | none =>
    simp only [World.notify, hcursor] at hget
    exact h other request hget
  | some cursor =>
    rw [requests_notify hcursor] at hget
    by_cases hmem : other ∈ world.wakeRegistry.waitersByVault vaultId
    · rw [if_pos hmem] at hget
      obtain ⟨before, hbefore, rfl⟩ := map_eq_some_iff.mp hget
      exact accounted_resolve (h other before hbefore)
    · rw [if_neg hmem] at hget
      exact h other request hget

theorem AllAccounted.wait (h : AllAccounted world) (vaultId deviceId : Id) (clientCursor : ℕ) :
    AllAccounted (world.wait vaultId deviceId clientCursor) := by
  have hcases := wait_cases world vaultId deviceId clientCursor
  generalize world.wait vaultId deviceId clientCursor = next at hcases
  intro id request hget
  cases hcases with
  | atOnce current reply =>
    rcases getElem?_append_singleton.mp hget with hold | ⟨-, rfl⟩
    · exact h id request hold
    · exact ⟨rfl, rfl⟩
  | hold current heldWaits read behind acquired =>
    rcases getElem?_append_singleton.mp hget with hold | ⟨-, rfl⟩
    · exact h id request hold
    · exact ⟨rfl, rfl⟩

/-- What holds in every state of the route. -/
structure Sound (world : World) : Prop where
  registered : RegisteredExcept [] world
  quiet : Quiet world
  balanced : Balanced world
  accounted : AllAccounted world

theorem balanced_step (h : Balanced world) (haccounted : AllAccounted world)
    (htaken : Taken world world') : Balanced world' ∧ AllAccounted world' := by
  cases htaken with
  | setVault vaultId vault grows => exact ⟨⟨h.perDevice, h.global⟩, haccounted⟩
  | notify vaultId => exact ⟨h.notify, haccounted.notify⟩
  | wait vaultId deviceId clientCursor =>
    exact ⟨h.wait vaultId deviceId clientCursor, haccounted.wait vaultId deviceId clientCursor⟩
  | settle id reply => exact ⟨h.settle, haccounted.settle⟩

theorem sound_initial (wired : Bool) (perDeviceMax globalMax : ℕ) :
    Sound (initial wired perDeviceMax globalMax) where
  registered := by simp [RegisteredExcept, initial, VaultWakeRegistry.empty]
  quiet := ⟨by simp [initial], by simp [initial]⟩
  balanced := ⟨by simp [initial, HeldWaitLimiter.new], by simp [initial, HeldWaitLimiter.new]⟩
  accounted := by simp [AllAccounted, initial]

theorem sound_step (h : Sound world) (htaken : Taken world world') : Sound world' := by
  obtain ⟨hbalanced, haccounted⟩ := balanced_step h.balanced h.accounted htaken
  exact ⟨registered_step h.registered htaken, quiet_step h.registered h.quiet htaken, hbalanced,
    haccounted⟩

theorem sound_reached {wired : Bool} {perDeviceMax globalMax : ℕ}
    (h : Reached step Anything (initial wired perDeviceMax globalMax) world) : Sound world := by
  refine h.invariant (sound_initial wired perDeviceMax globalMax) ?_
  intro before event next hsound _ htaken
  exact sound_step hsound (taken_of_step htaken)

/-- In every state reached, no notice of its vault went beyond the cursor of a held
request, the next notice resolves it with the vault's cursor, its slot is counted
until it is settled, and a settled request has released its slot once. -/
theorem no_lost_wake_up {wired : Bool} {perDeviceMax globalMax : ℕ}
    (h : Reached step Anything (initial wired perDeviceMax globalMax) world) :
    (∀ (id : RequestId) (request : Request), world.requests[id]? = some request →
      request.held = true →
      (∀ cursor, (request.vaultId, cursor) ∈ world.notices → cursor ≤ request.clientCursor) ∧
      ∀ cursor, world.getCursor request.vaultId = some cursor →
        (world.notify request.vaultId).requests[id]? =
          some (request.answered (.cursor cursor))) ∧
    (∀ (id : RequestId) (request : Request), world.requests[id]? = some request →
      request.settled = request.reply.isSome ∧
      request.releases = if request.acquired && request.settled then 1 else 0) ∧
    (∀ deviceId, world.heldWaits.perDevice deviceId =
      world.requests.countP fun request => request.held && request.deviceId == deviceId) ∧
    world.heldWaits.global = world.requests.countP Request.held := by
  have hsound := sound_reached h
  refine ⟨?_, hsound.accounted, ?_, ?_⟩
  · intro id request hget hheld
    refine ⟨hsound.quiet.held id request hget hheld, ?_⟩
    intro cursor hcursor
    exact resolved_by_notify hsound.registered hcursor hget hheld
  · exact hsound.balanced.perDevice
  · have hany : Request.holds none = Request.held := by
      funext request
      simp [Request.holds]
    rw [hsound.balanced.global, hany]

/-- One device waits on the vault it has caught up with. -/
def caughtUp : List Event := [.createVault 1, .commit 1, .notify 1, .wait 1 2 1]

theorem no_lost_wake_up_caught_up :
    ∃ world, run step (initial true 4 256) caughtUp = some world ∧
      (world.notify 1).requests[0]? =
        some ((holdRequest 1 2 1 1).answered (.cursor 1)) := by
  obtain ⟨world, hrun⟩ : ∃ world, run step (initial true 4 256) caughtUp = some world := ⟨_, rfl⟩
  have hreached : Reached step Anything (initial true 4 256) world :=
    Reached.start.run (allowed_of_forall (fun _ _ => trivial) _ _) hrun
  refine ⟨world, hrun, ?_⟩
  cases hrun
  exact ((no_lost_wake_up hreached).1 0 (holdRequest 1 2 1 1) rfl rfl).2 1 rfl

end Havemind.WaitRoute
