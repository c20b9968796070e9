import Havemind.RevisionSchema

/-!
The client's sync runner: the records it exchanges with its ports and one turn
of its pull loop. The loop takes the events of a page in ascending order; other
parties act between two turns, so a turn is a function of its own.
-/
namespace Havemind.SyncRunner

open RevisionSchema

structure RemoteRevision where
  revisionId : Id
  fileId : Id
  contentHash : BlobHash
  parentRevisionIds : Option (List Id)
  authorMembershipId : Option Id
  acceptedAt : Option Timestamp
  deriving DecidableEq

structure RemoteEvent where
  serverSequence : ℕ
  revision : RemoteRevision
  deriving DecidableEq

structure PushReceipt where
  revisionId : Id
  serverSequence : ℕ
  deriving DecidableEq

inductive PushOutcome
  | accepted
  | rejected
  deriving DecidableEq

structure PushItemResult where
  revisionId : Id
  outcome : PushOutcome
  receipt : Option PushReceipt := none
  permanent : Bool := false
  missingParent : Bool := false
  deriving DecidableEq

structure PullResult where
  cursor : ℕ
  epoch : Option JsText.JsString
  events : List RemoteEvent

/-- A thrown error, by what the runner reads off it. -/
structure SyncFailure where
  authDenied : Bool := false
  permanent : Bool := false
  permanentApply : Bool := false
  message : Option String := none
  deriving DecidableEq

inductive RemoteApplyOutcome
  | applied
  | conflict
  | noop
  | deferred
  deriving DecidableEq

def maxApplyAttempts : ℕ := 3

/-- What the runner's pull loop reads and writes: the durable cursor, authored
revisions and parked changes, and the failed applies of this session. -/
structure PullState where
  cursor : ℕ
  locallyAuthored : List Id
  parked : List RemoteEvent
  applyFailures : Id → ℕ

/-- What the vault answers about an event: an editor with unsaved text holds the
file, or the apply ends or throws. -/
structure VaultAnswer where
  unsaved : Bool
  apply : Except SyncFailure RemoteApplyOutcome

/-- What one turn did with its event. -/
inductive Handling
  | duplicate
  | suppressed
  | parked
  | applied (outcome : RemoteApplyOutcome)
  deriving DecidableEq

/-- How a turn ends: with the next event, by leaving the loop, or by throwing. -/
inductive Turn
  | next (state : PullState) (handling : Handling)
  | leave (state : PullState)
  | throw (state : PullState) (failure : SyncFailure)

def PullState.isLocallyAuthored (state : PullState) (revisionId : Id) : Bool :=
  revisionId ∈ state.locallyAuthored

def PullState.saveCursor (state : PullState) (sequence : ℕ) : PullState :=
  { state with cursor := sequence }

def PullState.parkRemote (state : PullState) (event : RemoteEvent) : PullState :=
  { state with
    parked := (state.parked.filter fun item =>
      item.revision.revisionId ≠ event.revision.revisionId) ++ [event] }

def PullState.setFailures (state : PullState) (revisionId : Id) (attempts : ℕ) : PullState :=
  { state with
    applyFailures := fun id => if id = revisionId then attempts else state.applyFailures id }

/-- One event of a page. -/
def pullEvent (state : PullState) (remoteEvent : RemoteEvent) (answer : VaultAnswer) : Turn :=
  let id := remoteEvent.revision.revisionId
  if remoteEvent.serverSequence ≤ state.cursor then .next state .duplicate
  else if remoteEvent.serverSequence ≠ state.cursor + 1 then .leave state
  else if state.isLocallyAuthored id then
    .next (state.saveCursor remoteEvent.serverSequence) .suppressed
  else if answer.unsaved then .leave state
  else
    match answer.apply with
    | .error failure =>
        let attempts := state.applyFailures id + 1
        if failure.authDenied ∨ (attempts < maxApplyAttempts ∧ ¬ failure.permanentApply) then
          .throw (state.setFailures id attempts) failure
        else
          .next (((state.setFailures id 0).parkRemote remoteEvent).saveCursor
            remoteEvent.serverSequence) .parked
    | .ok .deferred => .leave (state.setFailures id 0)
    | .ok outcome =>
        .next ((state.setFailures id 0).saveCursor remoteEvent.serverSequence) (.applied outcome)

/-- A turn that goes on either met a duplicate or saved the next sequence. -/
theorem pullEvent_eq_next {handling : Handling}
    (h : pullEvent state event answer = .next state' handling) :
    (handling = .duplicate ∧ state' = state) ∨
      (handling ≠ .duplicate ∧ event.serverSequence = state.cursor + 1 ∧
        state'.cursor = event.serverSequence) := by
  unfold pullEvent at h
  dsimp only at h
  split at h
  · cases h
    exact .inl ⟨rfl, rfl⟩
  · split at h
    · cases h
    · rename_i hsequence
      right
      split at h
      · cases h
        exact ⟨by decide, not_not.mp hsequence, rfl⟩
      · split at h
        · cases h
        · split at h
          · split at h
            · cases h
            · cases h
              exact ⟨by decide, not_not.mp hsequence, rfl⟩
          · cases h
          · cases h
            exact ⟨nofun, not_not.mp hsequence, rfl⟩

/-- A turn that leaves the loop keeps the cursor. -/
theorem pullEvent_eq_leave (h : pullEvent state event answer = .leave state') :
    state'.cursor = state.cursor := by
  unfold pullEvent at h
  dsimp only at h
  repeat' split at h
  all_goals cases h
  all_goals rfl

theorem pullEvent_eq_throw {failure : SyncFailure}
    (h : pullEvent state event answer = .throw state' failure) : state'.cursor = state.cursor := by
  unfold pullEvent at h
  dsimp only at h
  repeat' split at h
  all_goals cases h
  rfl

end Havemind.SyncRunner
