import Havemind.PullRoute
import Havemind.RevisionReplay
import Havemind.Runs

/-!
The push requests of all clients against one database. The pre-check of the quota,
the feasibility check, the write of the blob, the preparation and the transaction of
each revision are steps of their own, and steps of other requests fall anywhere
between them. The last step of a request wakes the held waits and answers it.
-/
namespace Havemind.PushHandler

open RevisionSchema Transaction ServerDatabase RevisionRepository PushRoute PullRoute RevisionReplay

def readVaultQuotaBytes (db : Database) (vaultId : Id) : Option ℕ :=
  (db.vaults.find? fun row => row.id = vaultId).bind VaultRow.quotaBytes

/-- The loop of the pre-check behind the running total and the blobs charged so far. -/
def precheckBlobs (db : Database) (vaultId : Id) (quota : ℕ) :
    ℕ → List BlobHash → List HashedRevisionInput → Bool
  | _, _, [] => false
  | projected, chargedInBatch, revision :: rest =>
    if revision.blobHash ∈ chargedInBatch ∨ vaultContainsBlob db vaultId revision.blobHash then
      precheckBlobs db vaultId quota projected chargedInBatch rest
    else if quota < projected + revision.byteLength then true
    else
      precheckBlobs db vaultId quota (projected + revision.byteLength)
        (revision.blobHash :: chargedInBatch) rest

/-- Whether the batch would exceed the quota of the vault. -/
def precheckVaultQuota (options : RevisionRepositoryOptions) (db : Database) (vaultId : Id)
    (hashed : List HashedRevisionInput) : Bool :=
  precheckBlobs db vaultId
    (resolveEffectiveQuotaBytes (readVaultQuotaBytes db vaultId) options.vaultQuotaBytes)
    (computeVaultStorageBytes db vaultId) [] hashed

/-- Whether the error is one of the repository's own. -/
def isRepositoryError : RepositoryError → Bool
  | .schemaError | .sqliteConstraint | .blobStoreFailure => false
  | _ => true

/-- The errors that end the request; any other rejects one revision. -/
def endsRequest (error : RepositoryError) : Bool :=
  error = .quotaExceeded ∨ isRepositoryError error = false

inductive ItemResult
  | answered (revisionId : Id) (result : CommitRevisionResult)
  | rejected (revisionId : Id) (code : RepositoryError)
  deriving DecidableEq

inductive Reply
  | results (results : List ItemResult)
  | error (error : RepositoryError)
  deriving DecidableEq

/-- What the handler awaits for the first remaining revision, or that it is past the
loop. -/
inductive Phase
  | checking
  | storing
  | preparing
  | committing (prepared : PreparedCommit)
  | ending
  | done
  deriving DecidableEq

/-- A revision the loop is through with, and the database its last step saw. -/
structure Attempt where
  actor : AuthenticatedRevisionActor
  revision : HashedRevisionInput
  before : Database
  outcome : Except RepositoryError CommitRevisionResult

/-- `attempts` records the run of the loop; the handler itself keeps `results`. -/
structure PushRequest where
  actor : AuthenticatedRevisionActor
  vaultId : Id
  remaining : List HashedRevisionInput
  phase : Phase
  results : List ItemResult
  failure : Option RepositoryError
  attempts : List Attempt
  notified : Option ℕ
  reply : Option Reply

structure World where
  database : Database
  requests : List PushRequest

inductive RequestEvent
  | check
  | store
  | prepare
  | commit (now : Option Timestamp)
  | fault (error : RepositoryError)
  | finish
  deriving DecidableEq

inductive Event
  | push (actor : AuthenticatedRevisionActor) (vaultId : Id) (ordered : List HashedRevisionInput)
  | request (id : ℕ) (event : RequestEvent)
  | prune (cutoff : Timestamp)
  | administer (users : List UserRow) (devices : List DeviceRow) (memberships : List MembershipRow)

/-- A request answered before its loop. -/
def refused (actor : AuthenticatedRevisionActor) (vaultId : Id) (error : RepositoryError) :
    PushRequest where
  actor := actor
  vaultId := vaultId
  remaining := []
  phase := .done
  results := []
  failure := some error
  attempts := []
  notified := none
  reply := some (.error error)

def begun (actor : AuthenticatedRevisionActor) (vaultId : Id)
    (ordered : List HashedRevisionInput) : PushRequest where
  actor := actor
  vaultId := vaultId
  remaining := ordered
  phase := if ordered = [] then .ending else .checking
  results := []
  failure := none
  attempts := []
  notified := none
  reply := none

namespace PushRequest

/-- The end of one turn of the loop. -/
def conclude (request : PushRequest) (revision : HashedRevisionInput)
    (rest : List HashedRevisionInput) (before : Database)
    (outcome : Except RepositoryError CommitRevisionResult) : PushRequest :=
  let tried : PushRequest := { request with
    remaining := rest
    phase := if rest = [] then .ending else .checking
    attempts := request.attempts ++ [⟨request.actor, revision, before, outcome⟩] }
  match outcome with
  | .ok result =>
    { tried with results := request.results ++ [.answered revision.header.revisionId result] }
  | .error error =>
    if endsRequest error then { tried with phase := .ending, failure := some error }
    else { tried with results := request.results ++ [.rejected revision.header.revisionId error] }

def anyAccepted (request : PushRequest) : Bool :=
  request.results.any fun
    | .answered _ result => result.status = .accepted
    | .rejected _ _ => false

/-- The notice behind the loop and the one of a request that tripped the quota. -/
def wakes (request : PushRequest) : Bool :=
  request.anyAccepted &&
    (request.failure = none || request.failure = some .quotaExceeded)

end PushRequest

section
variable (options : RevisionRepositoryOptions) (wired : Bool)

/-- One step of a request; `none` when it awaits something else. -/
def advance (db : Database) (request : PushRequest) : RequestEvent → Option (PushRequest × Database)
  | .check =>
    match request.phase, request.remaining with
    | .checking, revision :: rest =>
      match assertCommittable options db (revision.commitInput request.actor)
          revision.byteLength with
      | .ok () => some ({ request with phase := .storing }, db)
      | .error error => some (request.conclude revision rest db (.error error), db)
    | _, _ => none
  | .store =>
    match request.phase with
    | .storing => some ({ request with phase := .preparing }, db)
    | _ => none
  | .prepare =>
    match request.phase, request.remaining with
    | .preparing, revision :: rest =>
      match prepareCommit options db (fun _ => .notFound)
          (revision.commitInput request.actor) with
      | .ok prepared => some ({ request with phase := .committing prepared }, db)
      | .error error => some (request.conclude revision rest db (.error error), db)
    | _, _ => none
  | .commit now =>
    match request.phase, request.remaining with
    | .committing prepared, revision :: rest =>
      match transaction (commitPrepared options now prepared) db with
      | .ok result db' => some (request.conclude revision rest db (.ok result), db')
      | .error error db' => some (request.conclude revision rest db (.error error), db')
    | _, _ => none
  | .fault error =>
    if isRepositoryError error ∨ request.phase = .ending ∨ request.phase = .done then none
    else
      match request.remaining with
      | revision :: rest => some (request.conclude revision rest db (.error error), db)
      | [] => none
  | .finish =>
    match request.phase with
    | .ending =>
      some ({ request with
        phase := .done
        notified :=
          if wired && request.wakes then (getCursor db request.vaultId).toOption else none
        reply := some (match request.failure with
          | none => .results request.results
          | some error => .error error) }, db)
    | _ => none

/-- The route up to its loop: the identities of the batch and the pre-check. -/
def receive (db : Database) (actor : AuthenticatedRevisionActor) (vaultId : Id)
    (ordered : List HashedRevisionInput) : PushRequest :=
  if ∃ revision ∈ ordered, revision.header.vaultId ≠ vaultId ∨
      revision.header.expectedMemberId ≠ actor.memberId ∨
      revision.header.expectedDeviceId ≠ actor.deviceId then
    refused actor vaultId .forbidden
  else if precheckVaultQuota options db vaultId ordered then refused actor vaultId .quotaExceeded
  else begun actor vaultId ordered

def step (world : World) : Event → Option World
  | .push actor vaultId ordered =>
    some { world with
      requests := world.requests ++ [receive options world.database actor vaultId ordered] }
  | .request id event =>
    (world.requests[id]?).bind fun request =>
      (advance options wired world.database request event).map fun next =>
        { database := next.2, requests := world.requests.set id next.1 }
  | .prune cutoff =>
    some { world with database := { world.database with
      idempotencyRecords := world.database.idempotencyRecords.filter fun row =>
        ¬ row.expiresAt < cutoff } }
  | .administer users devices memberships =>
    some { world with database := { world.database with users, devices, memberships } }

end

/-- Any order of events. -/
def Anything (_ : World) (_ : Event) : Prop := True

/-- A revision of its own file, pushed under its own key. -/
def exampleRevision (fileId revisionId : Id) : HashedRevisionInput :=
  ⟨⟨⟨1, 0⟩, 1, fileId, revisionId, [], 7, 6⟩, [revisionId.toUInt16], revisionId, 3⟩

def exampleBatch : List HashedRevisionInput := [exampleRevision 9 64, exampleRevision 10 65]

/-- The steps that commit the first remaining revision of a request. -/
def commitTurn (id : ℕ) : List Event :=
  [.request id .check, .request id .store, .request id .prepare, .request id (.commit (some 5))]

end Havemind.PushHandler
