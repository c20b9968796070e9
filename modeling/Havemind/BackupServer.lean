import Havemind.CreateBackup
import Havemind.VaultQuota

/-!
The server with its database and its directory of blobs: pushes that write a blob and
then commit its revision, runs of createBackup, and the sweep of unreferenced blobs
behind each start. Every await is a step, and the steps of all of them interleave.
-/
namespace Havemind.BackupServer

open JsText RevisionSchema ServerDatabase RevisionRepository PushRoute PushHandler BlobStore
  CreateBackup

structure PushedRevision where
  header : ProtectedRevisionHeader
  idempotencyKey : JsString
  payload : Bytes

def PushedRevision.hashed (address : BlobAddress) (revision : PushedRevision) :
    HashedRevisionInput where
  header := revision.header
  idempotencyKey := revision.idempotencyKey
  blobHash := address.hashBlob revision.payload
  byteLength := revision.payload.length

/-- A push request with the batch it came with and the write it awaits. -/
structure Upload where
  request : PushRequest
  batch : List PushedRevision
  put : Option Put

inductive UploadEvent
  | request (event : RequestEvent)
  | beginPut
  | put (event : PutEvent)
  | publish
  | putFails

/-- How far the sweep of a start is. -/
inductive Startup
  | selecting
  | listing (referenced : List BlobHash)
  | removing (referenced pending : List BlobHash)
  deriving DecidableEq

structure Server where
  database : Database
  tree : BlobTree
  uploads : List Upload
  startup : Option Startup
  backups : List Backup

inductive Event
  | push (actor : AuthenticatedRevisionActor) (vaultId : Id) (ordered : List PushedRevision)
  | upload (id : ℕ) (event : UploadEvent)
  | prune (cutoff : Timestamp)
  | administer (users : List UserRow) (devices : List DeviceRow) (memberships : List MembershipRow)
  | restart
  | sweep
  | listen
  | snapshot (previous : Option BlobTree)
  | backup (id : ℕ) (event : BackupEvent)

section
variable (options : RevisionRepositoryOptions) (wired : Bool) (address : BlobAddress)
  (directory : JsString)

/-- Whether a write of the blob is under way in another request. -/
def occupied (others : List Upload) (hash : BlobHash) : Bool :=
  others.any fun other => other.put.any fun put => put.hash = hash ∧ put.stage ≠ .queued

/-- One step of a push; `none` when it awaits something else. Writes of one blob run one
at a time. -/
def uploadStep (db : Database) (tree : BlobTree) (others : List Upload) (upload : Upload) :
    UploadEvent → Option (Upload × Database × BlobTree)
  | .request event =>
    if upload.put.isSome ∨ event = .store then none
    else (advance options wired db upload.request event).map fun next =>
      ({ upload with request := next.1 }, next.2, tree)
  | .beginPut =>
    match upload.put, upload.batch[upload.request.attempts.length]? with
    | none, some revision =>
      if upload.request.phase = .storing then
        some ({ upload with
          put := some ⟨address.hashBlob revision.payload, revision.payload, .queued⟩ }, db, tree)
      else none
    | _, _ => none
  | .put event =>
    upload.put.bind fun put =>
      if occupied others put.hash then none
      else (putStep address tree put event).map fun next =>
        ({ upload with put := some next.1 }, db, next.2)
  | .publish =>
    upload.put.bind fun put =>
      if put.stage = .publishing then
        (advance options wired db upload.request .store).map fun next =>
          ({ upload with request := next.1, put := none }, next.2, tree)
      else none
  | .putFails =>
    upload.put.bind fun put =>
      (advance options wired db upload.request (.fault .blobStoreFailure)).map fun next =>
        ({ upload with request := next.1, put := none }, next.2, discardTemporary tree put)

/-- One step of the sweep, before the server accepts connections. -/
def sweepStep (db : Database) (tree : BlobTree) : Startup → Option (Startup × BlobTree)
  | .selecting => some (.listing (db.revisions.map RevisionRow.blobHash), tree)
  | .listing referenced =>
    some (.removing referenced (tree.keys.filterMap fun path => address.parse path.name), tree)
  | .removing referenced (hash :: pending) =>
    some (.removing referenced pending,
      if referenced.contains hash then tree else tree.erase (pathForHash address hash))
  | .removing _ [] => none

def step (server : Server) : Event → Option Server
  | .push actor vaultId ordered =>
    if server.startup.isSome then none
    else
      let request := receive options server.database actor vaultId
        (ordered.map (PushedRevision.hashed address))
      some { server with uploads := server.uploads ++ [⟨request, ordered, none⟩] }
  | .upload id event =>
    server.uploads[id]?.bind fun upload =>
      (uploadStep options wired address server.database server.tree (server.uploads.eraseIdx id)
        upload event).map fun next =>
          { server with
            uploads := server.uploads.set id next.1
            database := next.2.1
            tree := next.2.2 }
  | .prune cutoff =>
    some { server with database := { server.database with
      idempotencyRecords := server.database.idempotencyRecords.filter fun row =>
        ¬ row.expiresAt < cutoff } }
  | .administer users devices memberships =>
    some { server with database := { server.database with users, devices, memberships } }
  -- The requests of the old process are gone; a backup may run in a process of its own.
  | .restart => some { server with uploads := [], startup := some .selecting }
  | .sweep =>
    (server.startup.bind (sweepStep address server.database server.tree)).map fun next =>
      { server with startup := some next.1, tree := next.2 }
  | .listen =>
    match server.startup with
    | some (.removing _ []) => some { server with startup := none }
    | _ => none
  | .snapshot previous =>
    some { server with backups := server.backups ++ [begun previous server.database] }
  | .backup id event =>
    server.backups[id]?.bind fun backup =>
      (backupStep address directory server.tree backup event).map fun next =>
        { server with backups := server.backups.set id next }

end

/-- A server that starts on the database and the blobs. -/
def starting (database : Database) (tree : BlobTree) : Server where
  database := database
  tree := tree
  uploads := []
  startup := some .selecting
  backups := []

/-- Any order of events. -/
def Interleaved (_ : Server) (_ : Event) : Prop := True

end Havemind.BackupServer
