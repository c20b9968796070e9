import Havemind.RevisionSchema
import Havemind.Transaction
import Mathlib.Tactic.MkIffOfInductiveProp

/-!
The tables the revision repository reads and writes, as lists of rows, and its
single-row statements. An insertion fails on the table's keys, on a dangling
reference and on a check, and appends the row otherwise. Columns that no
modelled statement reads (names, keys, creation dates) are left out.
-/
namespace Havemind.ServerDatabase

open JsText RevisionSchema Transaction

/-- Codes of the repository's errors; the last two are thrown by the schema
library and by the database. -/
inductive RepositoryError
  | corruptBlob
  | fileAlreadyExists
  | idempotencyKeyReuse
  | missingBlob
  | parentFileMismatch
  | repositoryIntegrity
  | forbidden
  | headSetChanged
  | invalidRequest
  | missingParent
  | notFound
  | quotaExceeded
  | revisionIdReuse
  | schemaError
  | sqliteConstraint
  | blobStoreFailure
  deriving DecidableEq

inductive AccountStatus
  | active
  | revoked
  deriving DecidableEq

inductive DeviceStatus
  | pending
  | approved
  | revoked
  deriving DecidableEq

structure UserRow where
  id : Id
  status : AccountStatus
  deriving DecidableEq

structure DeviceRow where
  id : Id
  userId : Id
  status : DeviceStatus
  deriving DecidableEq

structure MembershipRow where
  id : Id
  vaultId : Id
  userId : Id
  status : AccountStatus
  deriving DecidableEq

structure VaultRow where
  id : Id
  writeEpoch : ℕ
  nextServerSequence : ℕ
  quotaBytes : Option ℕ
  deletedAt : Option Timestamp
  deriving DecidableEq

structure FileRow where
  id : Id
  vaultId : Id
  deriving DecidableEq

/-- Stored header bytes: the canonical text of a header, or other bytes with
what they parse to. -/
inductive HeaderBytes
  | canonicalJson (header : ProtectedRevisionHeader)
  | other (bytes : ℕ) (parsed : Option ProtectedRevisionHeader)
  deriving DecidableEq

def HeaderBytes.parse : HeaderBytes → Option ProtectedRevisionHeader
  | .canonicalJson header => if header.schemaValid then some header else none
  | .other _ parsed => parsed.filter fun header => header.schemaValid

/-- `acceptedAt` is `none` for a text that is no date. -/
structure RevisionRow where
  id : Id
  vaultId : Id
  fileId : Id
  memberId : Id
  deviceId : Id
  serverSequence : ℕ
  writeEpoch : ℕ
  protectedHeader : HeaderBytes
  protectedHeaderHash : ℕ
  blobHash : BlobHash
  blobSize : ℕ
  acceptedAt : Option Timestamp
  deriving DecidableEq

structure RevisionParentRow where
  revisionId : Id
  parentRevisionId : Id
  parentOrder : ℕ
  deriving DecidableEq

structure FileHeadRow where
  fileId : Id
  revisionId : Id
  deriving DecidableEq

/-- `receipt` and `payloadFileId` are the fields of the event's payload text. -/
structure VaultEventRow where
  vaultId : Id
  serverSequence : ℕ
  revisionId : Option Id
  payloadFileId : Id
  receipt : OpaqueBlobReceipt
  deriving DecidableEq

inductive CommitStatus
  | accepted
  | replayed
  deriving DecidableEq

structure CommitRevisionResult where
  receipt : OpaqueBlobReceipt
  status : CommitStatus
  deriving DecidableEq

/-- `responseBody` is `none` for a text that parses to no commit result. -/
structure IdempotencyRow where
  deviceId : Id
  idempotencyKey : JsString
  requestHash : ℕ
  responseStatus : ℕ
  responseBody : Option CommitRevisionResult
  expiresAt : Timestamp
  deriving DecidableEq

structure Database where
  users : List UserRow
  devices : List DeviceRow
  memberships : List MembershipRow
  vaults : List VaultRow
  files : List FileRow
  revisions : List RevisionRow
  revisionParents : List RevisionParentRow
  fileHeads : List FileHeadRow
  vaultEvents : List VaultEventRow
  idempotencyRecords : List IdempotencyRow
  deriving DecidableEq

abbrev Tx (α : Type) := EStateM RepositoryError Database α

def FileInsertable (row : FileRow) (db : Database) : Prop :=
  (∀ stored ∈ db.files, stored.id ≠ row.id) ∧ ∃ vault ∈ db.vaults, vault.id = row.vaultId

instance (row : FileRow) : DecidablePred (FileInsertable row) := fun db => by
  unfold FileInsertable
  infer_instance

def insertFile (row : FileRow) : Tx Unit :=
  guardedWrite .sqliteConstraint (FileInsertable row) fun db =>
    { db with files := db.files ++ [row] }

@[mk_iff]
structure RevisionInsertable (row : RevisionRow) (db : Database) : Prop where
  id_free : ∀ stored ∈ db.revisions, stored.id ≠ row.id
  hash_free : ∀ stored ∈ db.revisions, stored.protectedHeaderHash ≠ row.protectedHeaderHash
  sequence_free : ∀ stored ∈ db.revisions,
    ¬ (stored.vaultId = row.vaultId ∧ stored.serverSequence = row.serverSequence)
  sequence_pos : 0 < row.serverSequence
  vault : ∃ vault ∈ db.vaults, vault.id = row.vaultId
  file : ∃ file ∈ db.files, file.id = row.fileId
  membership : ∃ membership ∈ db.memberships, membership.id = row.memberId
  device : ∃ device ∈ db.devices, device.id = row.deviceId

instance (row : RevisionRow) : DecidablePred (RevisionInsertable row) := fun db =>
  decidable_of_iff _ (revisionInsertable_iff row db).symm

def insertRevisionRow (row : RevisionRow) : Tx Unit :=
  guardedWrite .sqliteConstraint (RevisionInsertable row) fun db =>
    { db with revisions := db.revisions ++ [row] }

def ParentInsertable (row : RevisionParentRow) (db : Database) : Prop :=
  (∀ stored ∈ db.revisionParents, stored.revisionId = row.revisionId →
    stored.parentRevisionId ≠ row.parentRevisionId ∧ stored.parentOrder ≠ row.parentOrder) ∧
  row.revisionId ≠ row.parentRevisionId ∧
  (∃ revision ∈ db.revisions, revision.id = row.revisionId) ∧
  ∃ revision ∈ db.revisions, revision.id = row.parentRevisionId

instance (row : RevisionParentRow) : DecidablePred (ParentInsertable row) := fun db => by
  unfold ParentInsertable
  infer_instance

def insertParent (row : RevisionParentRow) : Tx Unit :=
  guardedWrite .sqliteConstraint (ParentInsertable row) fun db =>
    { db with revisionParents := db.revisionParents ++ [row] }

def HeadInsertable (row : FileHeadRow) (db : Database) : Prop :=
  row ∉ db.fileHeads ∧ (∃ file ∈ db.files, file.id = row.fileId) ∧
    ∃ revision ∈ db.revisions, revision.id = row.revisionId

instance (row : FileHeadRow) : DecidablePred (HeadInsertable row) := fun db => by
  unfold HeadInsertable
  infer_instance

def insertHead (row : FileHeadRow) : Tx Unit :=
  guardedWrite .sqliteConstraint (HeadInsertable row) fun db =>
    { db with fileHeads := db.fileHeads ++ [row] }

def removeHead (row : FileHeadRow) : Tx Unit :=
  guardedWrite .sqliteConstraint (fun _ => True) fun db =>
    { db with fileHeads := db.fileHeads.filter fun head => head ≠ row }

def EventInsertable (row : VaultEventRow) (db : Database) : Prop :=
  (∀ stored ∈ db.vaultEvents,
    ¬ (stored.vaultId = row.vaultId ∧ stored.serverSequence = row.serverSequence)) ∧
  0 < row.serverSequence ∧ (∃ vault ∈ db.vaults, vault.id = row.vaultId) ∧
  ∀ id ∈ row.revisionId, ∃ revision ∈ db.revisions, revision.id = id

instance (row : VaultEventRow) : DecidablePred (EventInsertable row) := fun db => by
  unfold EventInsertable
  infer_instance

def insertEvent (row : VaultEventRow) : Tx Unit :=
  guardedWrite .sqliteConstraint (EventInsertable row) fun db =>
    { db with vaultEvents := db.vaultEvents ++ [row] }

def IdempotencyInsertable (row : IdempotencyRow) (db : Database) : Prop :=
  (∀ stored ∈ db.idempotencyRecords,
    ¬ (stored.deviceId = row.deviceId ∧ stored.idempotencyKey = row.idempotencyKey)) ∧
  100 ≤ row.responseStatus ∧ row.responseStatus ≤ 599 ∧
  ∃ device ∈ db.devices, device.id = row.deviceId

instance (row : IdempotencyRow) : DecidablePred (IdempotencyInsertable row) := fun db => by
  unfold IdempotencyInsertable
  infer_instance

def insertIdempotencyRow (row : IdempotencyRow) : Tx Unit :=
  guardedWrite .sqliteConstraint (IdempotencyInsertable row) fun db =>
    { db with idempotencyRecords := db.idempotencyRecords ++ [row] }

/-- What the schema promises of every stored database: unique keys, and
references to rows that exist. -/
structure Database.SchemaHolds (db : Database) : Prop where
  vault_keys : (db.vaults.map VaultRow.id).Nodup
  vault_sequences : ∀ vault ∈ db.vaults, 0 < vault.nextServerSequence
  file_keys : (db.files.map FileRow.id).Nodup
  revision_keys : (db.revisions.map RevisionRow.id).Nodup
  revision_file : ∀ row ∈ db.revisions, ∃ file ∈ db.files, file.id = row.fileId
  parent_child : ∀ row ∈ db.revisionParents, ∃ r ∈ db.revisions, r.id = row.revisionId
  parent_parent : ∀ row ∈ db.revisionParents, ∃ r ∈ db.revisions, r.id = row.parentRevisionId
  head_file : ∀ row ∈ db.fileHeads, ∃ file ∈ db.files, file.id = row.fileId
  head_revision : ∀ row ∈ db.fileHeads, ∃ r ∈ db.revisions, r.id = row.revisionId

end Havemind.ServerDatabase
