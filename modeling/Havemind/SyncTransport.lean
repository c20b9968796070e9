import Havemind.PullRoute
import Havemind.SyncRunner

/-!
The client's transport: the requests it builds from a connection and how it
reads the server's answers. A pull names an epoch only when its connection
supplies one, which the connection of the sync loop does not.
-/
namespace Havemind.SyncTransport

open RevisionSchema ServerDatabase PullRoute SyncRunner

structure PushHeaderIdentity where
  vaultId : Id
  memberId : Id
  deviceId : Id
  deriving DecidableEq

structure RequestUrlTransportOptions where
  vaultId : Id
  serverEpoch : Option Epoch
  identity : Option PushHeaderIdentity

structure SyncConnection where
  vaultId : Id
  serverEpoch : Option Epoch := none
  pushIdentity : Option (Id × Id) := none

/-- The transport the sync controller wires for a connection. -/
def buildTransport (connection : SyncConnection) : RequestUrlTransportOptions where
  vaultId := connection.vaultId
  serverEpoch := connection.serverEpoch
  identity := connection.pushIdentity.map fun identity =>
    ⟨connection.vaultId, identity.1, identity.2⟩

structure StoredConnection where
  vaultId : Id
  memberId : Option Id
  deviceId : Option Id

/-- The connection the sync loop starts from a stored one. -/
def startSyncLoop (connection : StoredConnection) : SyncConnection where
  vaultId := connection.vaultId
  pushIdentity := connection.memberId.bind fun memberId =>
    connection.deviceId.map fun deviceId => (memberId, deviceId)

def isPermanentStatus (status : ℕ) : Bool :=
  status = 400 ∨ status = 403 ∨ status = 413 ∨ status = 422

/-- The error thrown for an answer that is no success. -/
def requestFailure (failure : SyncError) : SyncFailure :=
  if failure.code = .quotaExceeded then {}
  else { authDenied := failure.status = 401, permanent := isPermanentStatus failure.status }

def remoteEvent (stored : StoredRevisionEvent) : RemoteEvent where
  serverSequence := stored.serverSequence
  revision :=
    { revisionId := stored.revisionId
      fileId := stored.fileId
      contentHash := stored.receipt.blobHash
      parentRevisionIds := stored.receipt.parentRevisionIds
      authorMembershipId := some stored.receipt.memberId
      acceptedAt := some stored.receipt.serverTime }

def pullQuery (options : RequestUrlTransportOptions) (after : ℕ) : PullQuery where
  after := some after
  epoch := options.serverEpoch
  limit := none

def parsePullResponse : Except SyncError PullResponse → Except SyncFailure PullResult
  | .error failure => .error (requestFailure failure)
  | .ok response => .ok ⟨response.cursor, response.epoch, response.events.map remoteEvent⟩

/-- A pull answered by the server as it is. -/
def pull (options : RequestUrlTransportOptions) (server : Instance) (session : Option Id)
    (after : ℕ) : Except SyncFailure PullResult :=
  parsePullResponse (getEvents server session options.vaultId (pullQuery options after))

/-- The events of an accepted pull, in ascending order of their sequences. -/
def orderedEvents (result : PullResult) : List RemoteEvent :=
  result.events.insertionSort fun left right => left.serverSequence ≤ right.serverSequence

/-- An accepted pull lies within the vault's head, and its events were issued. -/
theorem pull_eq_ok {options : RequestUrlTransportOptions} {server : Instance}
    {session : Option Id} {after : ℕ} {result : PullResult}
    (h : pull options server session after = .ok result) :
    (∃ cursor, getCursor server.database options.vaultId = .ok cursor ∧ after ≤ cursor) ∧
      ∀ event ∈ orderedEvents result, Issued server.database options.vaultId
        event.serverSequence event.revision.revisionId := by
  unfold pull at h
  cases hpage : getEvents server session options.vaultId (pullQuery options after) with
  | error failure =>
    rw [hpage] at h
    cases h
  | ok page =>
    rw [hpage] at h
    cases h
    obtain ⟨hcursor, hwithin, hevents⟩ := readPage_eq_ok (getEvents_eq_ok hpage)
    refine ⟨⟨page.cursor, hcursor, hwithin⟩, ?_⟩
    intro event hevent
    obtain ⟨stored, hstored, rfl⟩ := List.mem_map.mp ((List.mem_insertionSort _).mp hevent)
    exact (listEvents_issued hevents hstored).2

end Havemind.SyncTransport
