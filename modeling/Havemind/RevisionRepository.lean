import Havemind.ServerDatabase
import Mathlib.Algebra.Order.Ring.Int
import Mathlib.Data.List.Dedup
import Mathlib.Data.List.Sort

/-!
The revision repository: the read-only feasibility check and the commit of one
protected revision. A commit first prepares its input outside the transaction,
against the database as it is then, and repeats every check inside it.
-/
namespace Havemind.RevisionRepository

open JsText RevisionSchema Transaction ServerDatabase

structure AuthenticatedRevisionActor where
  deviceId : Id
  memberId : Id
  deriving DecidableEq

structure CommitRevisionInput where
  actor : AuthenticatedRevisionActor
  blobHash : BlobHash
  header : ProtectedRevisionHeader
  idempotencyKey : JsString
  blobSize : Option ℕ
  deriving DecidableEq

/-- The digests of the canonical texts of a header and of a request. -/
structure Digests where
  headerHash : ProtectedRevisionHeader → ℕ
  requestHash : AuthenticatedRevisionActor → BlobHash → ProtectedRevisionHeader → ℕ

def defaultIdempotencyTtlMs : ℕ := 24 * 60 * 60 * 1000

def maxIdempotencyTtlMs : ℕ := 365 * 24 * 60 * 60 * 1000

def defaultVaultQuotaBytes : ℕ := 2 * 1024 * 1024 * 1024

structure RevisionRepositoryOptions where
  digests : Digests
  idempotencyTtlMs : ℕ := defaultIdempotencyTtlMs
  vaultQuotaBytes : ℕ := defaultVaultQuotaBytes
  ttl_valid : 0 < idempotencyTtlMs ∧ idempotencyTtlMs ≤ maxIdempotencyTtlMs := by decide

/-- What reading a blob back and verifying it yields. -/
inductive BlobRead
  | verified (byteLength : ℕ)
  | integrityError
  | notFound
  | otherError

structure PreparedHeader where
  actor : AuthenticatedRevisionActor
  blobHash : BlobHash
  header : ProtectedRevisionHeader
  headerBytes : HeaderBytes
  headerHash : ℕ
  idempotencyKey : JsString
  requestHash : ℕ
  deriving DecidableEq

structure PreparedCommit extends PreparedHeader where
  blobSize : ℕ
  deriving DecidableEq

section
variable (db : Database)

def getExistingRevision (revisionId : Id) : Option RevisionRow :=
  db.revisions.find? fun row => row.id = revisionId

def getVault (vaultId : Id) : Except RepositoryError VaultRow :=
  match db.vaults.find? fun row => row.id = vaultId ∧ row.deletedAt = none with
  | none => .error .notFound
  | some row => .ok row

def getIdempotencyRecord (prepared : PreparedHeader) : Option IdempotencyRow :=
  db.idempotencyRecords.find? fun row =>
    row.deviceId = prepared.actor.deviceId ∧ row.idempotencyKey = prepared.idempotencyKey

/-- The actor's joined membership, user and device rows. -/
def findActor (actor : AuthenticatedRevisionActor) :
    Option (MembershipRow × UserRow × DeviceRow) := do
  let membership ← db.memberships.find? fun row => row.id = actor.memberId
  let user ← db.users.find? fun row => row.id = membership.userId
  let device ← db.devices.find? fun row => row.id = actor.deviceId
  return (membership, user, device)

def actorAuthorized (actor : AuthenticatedRevisionActor) (header : ProtectedRevisionHeader) :
    Bool :=
  match findActor db actor with
  | none => false
  | some (membership, user, device) =>
      membership.vaultId = header.vaultId ∧ membership.userId = device.userId ∧
        membership.status = .active ∧ user.status = .active ∧ device.status = .approved

def assertAuthorizedActor (actor : AuthenticatedRevisionActor)
    (header : ProtectedRevisionHeader) : Except RepositoryError Unit :=
  require (actorAuthorized db actor header) .forbidden

/-- The head set of a file in ascending order. -/
def getHeads (vaultId fileId : Id) : List Id :=
  if ∃ file ∈ db.files, file.id = fileId ∧ file.vaultId = vaultId then
    ((db.fileHeads.filter fun row => row.fileId = fileId).map FileHeadRow.revisionId).insertionSort
      (· ≤ ·)
  else []

def vaultContainsBlob (vaultId : Id) (blobHash : BlobHash) : Bool :=
  db.revisions.any fun row => row.vaultId = vaultId ∧ row.blobHash = blobHash

/-- The charged size of a vault: the greatest recorded size of each distinct
blob. -/
def computeVaultStorageBytes (vaultId : Id) : ℕ :=
  let rows := db.revisions.filter fun row => row.vaultId = vaultId
  ((rows.map RevisionRow.blobHash).dedup.map fun hash =>
    ((rows.filter fun row => row.blobHash = hash).map RevisionRow.blobSize).foldr max 0).sum

end

def resolveEffectiveQuotaBytes (rawQuota : Option ℕ) (defaultQuotaBytes : ℕ) : ℕ :=
  rawQuota.getD defaultQuotaBytes

def storedRevisionMatches (stored : RevisionRow) (prepared : PreparedCommit) : Bool :=
  stored.id = prepared.header.revisionId ∧ stored.vaultId = prepared.header.vaultId ∧
    stored.fileId = prepared.header.fileId ∧ stored.memberId = prepared.actor.memberId ∧
    stored.deviceId = prepared.actor.deviceId ∧
    stored.protectedHeaderHash = prepared.headerHash ∧
    stored.protectedHeader = prepared.headerBytes ∧ stored.blobHash = prepared.blobHash ∧
    stored.blobSize = prepared.blobSize

def assertStoredRevisionMatches (stored : RevisionRow) (prepared : PreparedCommit) :
    Except RepositoryError Unit :=
  require (storedRevisionMatches stored prepared) .revisionIdReuse

def receiptFromStoredRevision (stored : RevisionRow) : Except RepositoryError OpaqueBlobReceipt :=
  match stored.protectedHeader.parse, stored.acceptedAt with
  | some header, some acceptedAt =>
      let receipt : OpaqueBlobReceipt :=
        { blobHash := stored.blobHash
          byteLength := stored.blobSize
          deviceId := stored.deviceId
          memberId := stored.memberId
          revisionId := stored.id
          serverSequence := stored.serverSequence
          serverTime := acceptedAt
          parentRevisionIds := some header.parentRevisionIds }
      if receipt.schemaValid then .ok receipt else .error .repositoryIntegrity
  | _, _ => .error .repositoryIntegrity

/-- The parents are not compared. -/
def sameReceipt (left right : OpaqueBlobReceipt) : Bool :=
  left.revisionId = right.revisionId ∧ left.memberId = right.memberId ∧
    left.deviceId = right.deviceId ∧ left.serverSequence = right.serverSequence ∧
    left.serverTime = right.serverTime ∧ left.blobHash = right.blobHash ∧
    left.byteLength = right.byteLength

def parseStoredResult (responseBody : Option CommitRevisionResult)
    (expectedReceipt : OpaqueBlobReceipt) : Except RepositoryError CommitRevisionResult :=
  match responseBody with
  | none => .error .repositoryIntegrity
  | some result =>
      if result.receipt.schemaValid ∧ sameReceipt result.receipt expectedReceipt then .ok result
      else .error .repositoryIntegrity

def requireSafeSequence (value : ℕ) : Except RepositoryError ℕ :=
  if 0 < value ∧ value ≤ maxSafeInteger then .ok value else .error .repositoryIntegrity

def requireSafeNonNegativeInteger (value : ℕ) : Except RepositoryError ℕ :=
  if value ≤ maxSafeInteger then .ok value else .error .repositoryIntegrity

def assertIdempotencyRequest (stored : IdempotencyRow) (prepared : PreparedHeader) :
    Except RepositoryError Unit :=
  require (stored.requestHash = prepared.requestHash) .idempotencyKeyReuse

/-- The repository's clock; `none` is an invalid date. -/
def readNow (now : Option Timestamp) : Except RepositoryError Timestamp :=
  match now with
  | none => .error .repositoryIntegrity
  | some time => .ok time

def assertParents (db : Database) (vaultId fileId : Id) : List Id → Except RepositoryError Unit
  | [] => .ok ()
  | parentId :: rest =>
      match getExistingRevision db parentId with
      | none => .error .missingParent
      | some parent =>
          if parent.vaultId ≠ vaultId ∨ parent.fileId ≠ fileId then .error .parentFileMismatch
          else assertParents db vaultId fileId rest

/-- Whether the revision is the root of a new file, or the reason it does not
fit the file's graph. -/
def assertFileGraphCommittable (db : Database) (prepared : PreparedHeader) :
    Except RepositoryError Bool :=
  let vaultId := prepared.header.vaultId
  let fileId := prepared.header.fileId
  let parentRevisionIds := prepared.header.parentRevisionIds
  let file := db.files.find? fun row => row.id = fileId
  if parentRevisionIds.length = 0 then
    match file with
    | some file =>
        .error (if file.vaultId = vaultId then .fileAlreadyExists else .parentFileMismatch)
    | none => .ok true
  else
    match file with
    | none => .error .missingParent
    | some file =>
        if file.vaultId ≠ vaultId then .error .parentFileMismatch
        else do
          assertParents db vaultId fileId parentRevisionIds
          if parentRevisionIds.length ≥ 2 ∧ getHeads db vaultId fileId ≠ parentRevisionIds then
            .error .headSetChanged
          else .ok false

section
variable (options : RevisionRepositoryOptions)

def assertWithinQuota (db : Database) (prepared : PreparedCommit) (vault : VaultRow) :
    Except RepositoryError Unit :=
  require (vaultContainsBlob db prepared.header.vaultId prepared.blobHash ∨
    computeVaultStorageBytes db prepared.header.vaultId + prepared.blobSize ≤
      resolveEffectiveQuotaBytes vault.quotaBytes options.vaultQuotaBytes) .quotaExceeded

/-- What preparing an input yields, whatever database it ran against. -/
def preparedHeader (input : CommitRevisionInput) : PreparedHeader :=
  { actor := input.actor
    blobHash := input.blobHash
    header := input.header
    headerBytes := .canonicalJson input.header
    headerHash := options.digests.headerHash input.header
    idempotencyKey := input.idempotencyKey
    requestHash := options.digests.requestHash input.actor input.blobHash input.header }

/-- Everything about a commit that does not need the blob. -/
def prepareHeader (db : Database) (input : CommitRevisionInput) :
    Except RepositoryError PreparedHeader := do
  require input.header.schemaValid .schemaError
  require (idempotencyKeyValid input.idempotencyKey) .invalidRequest
  require (input.header.expectedMemberId = input.actor.memberId ∧
    input.header.expectedDeviceId = input.actor.deviceId) .forbidden
  assertAuthorizedActor db input.actor input.header
  let prepared := preparedHeader options input
  match getExistingRevision db input.header.revisionId with
  | none => .ok prepared
  | some existing => do
      require (existing.blobHash = input.blobHash ∧
        existing.protectedHeaderHash = prepared.headerHash ∧
        existing.protectedHeader = prepared.headerBytes) .revisionIdReuse
      assertStoredRevisionMatches existing { prepared with blobSize := existing.blobSize }
      .ok prepared

def readVerifiedBlob (blobStore : BlobHash → BlobRead) (hash : BlobHash) :
    Except RepositoryError ℕ :=
  match blobStore hash with
  | .verified byteLength => .ok byteLength
  | .integrityError => .error .corruptBlob
  | .notFound => .error .missingBlob
  | .otherError => .error .blobStoreFailure

/-- The given size, or that of the verified blob. -/
def commitBlobSize (blobStore : BlobHash → BlobRead) (hash : BlobHash) :
    Option ℕ → Except RepositoryError ℕ
  | some size => .ok size
  | none => readVerifiedBlob blobStore hash

def prepareCommit (db : Database) (blobStore : BlobHash → BlobRead)
    (input : CommitRevisionInput) : Except RepositoryError PreparedCommit := do
  let base ← prepareHeader options db input
  let blobSize ← commitBlobSize blobStore base.blobHash input.blobSize
  return { base with blobSize }

/-- The read-only mirror of a commit's checks. -/
def assertWouldCommit (db : Database) (prepared : PreparedCommit) : Except RepositoryError Unit := do
  assertAuthorizedActor db prepared.actor prepared.header
  let vault ← getVault db prepared.header.vaultId
  match getExistingRevision db prepared.header.revisionId with
  | some existing => assertStoredRevisionMatches existing prepared
  | none =>
      match getIdempotencyRecord db prepared.toPreparedHeader with
      | some idempotency => do
          assertIdempotencyRequest idempotency prepared.toPreparedHeader
          .error .repositoryIntegrity
      | none => do
          assertWithinQuota options db prepared vault
          let _ ← assertFileGraphCommittable db prepared.toPreparedHeader
          return ()

/-- The feasibility check the route makes before it stores the blob. -/
def assertCommittable (db : Database) (input : CommitRevisionInput) (blobSize : ℕ) :
    Except RepositoryError Unit := do
  let base ← prepareHeader options db input
  assertWouldCommit options db { base with blobSize }

def insertIdempotencyRecord (prepared : PreparedHeader) (result : CommitRevisionResult)
    (responseStatus : ℕ) (now : Timestamp) : Tx Unit :=
  insertIdempotencyRow
    { deviceId := prepared.actor.deviceId
      idempotencyKey := prepared.idempotencyKey
      requestHash := prepared.requestHash
      responseStatus
      responseBody := some result
      expiresAt := now + options.idempotencyTtlMs }

def replayExisting (now : Option Timestamp) (prepared : PreparedCommit) (existing : RevisionRow)
    (idempotency : Option IdempotencyRow) : Tx CommitRevisionResult := do
  check (assertStoredRevisionMatches existing prepared)
  let receipt ← check (receiptFromStoredRevision existing)
  match idempotency with
  | some record => do
      check (assertIdempotencyRequest record prepared.toPreparedHeader)
      check (parseStoredResult record.responseBody receipt)
  | none => do
      let replayed : CommitRevisionResult := ⟨receipt, .replayed⟩
      let time ← check (readNow now)
      insertIdempotencyRecord options prepared.toPreparedHeader replayed 200 time
      return replayed

def validateAndPrepareFileGraph (prepared : PreparedHeader) : Tx Unit := do
  let db ← get
  let isRootCreate ← check (assertFileGraphCommittable db prepared)
  if isRootCreate then insertFile ⟨prepared.header.fileId, prepared.header.vaultId⟩
  else return ()

def revisionRow (prepared : PreparedCommit) (serverSequence writeEpoch : ℕ)
    (serverTime : Timestamp) : RevisionRow :=
  { id := prepared.header.revisionId
    vaultId := prepared.header.vaultId
    fileId := prepared.header.fileId
    memberId := prepared.actor.memberId
    deviceId := prepared.actor.deviceId
    serverSequence
    writeEpoch
    protectedHeader := prepared.headerBytes
    protectedHeaderHash := prepared.headerHash
    blobHash := prepared.blobHash
    blobSize := prepared.blobSize
    acceptedAt := some serverTime }

def insertRevision (prepared : PreparedCommit) (vault : VaultRow) (serverSequence : ℕ)
    (serverTime : Timestamp) : Tx Unit := do
  let writeEpoch ← check (requireSafeNonNegativeInteger vault.writeEpoch)
  insertRevisionRow (revisionRow prepared serverSequence writeEpoch serverTime)

/-- Records the parents from `order` on and removes each from the heads. -/
def replaceParents (header : ProtectedRevisionHeader) : ℕ → List Id → Tx Unit
  | _, [] => return ()
  | order, parentId :: rest => do
      insertParent ⟨header.revisionId, parentId, order⟩
      removeHead ⟨header.fileId, parentId⟩
      replaceParents header (order + 1) rest

def replaceParentHeads (prepared : PreparedHeader) : Tx Unit := do
  replaceParents prepared.header 0 prepared.header.parentRevisionIds
  insertHead ⟨prepared.header.fileId, prepared.header.revisionId⟩

def commitReceipt (prepared : PreparedCommit) (serverSequence : ℕ) (serverTime : Timestamp) :
    OpaqueBlobReceipt :=
  { blobHash := prepared.blobHash
    byteLength := prepared.blobSize
    deviceId := prepared.actor.deviceId
    memberId := prepared.actor.memberId
    revisionId := prepared.header.revisionId
    serverSequence
    serverTime
    parentRevisionIds := some prepared.header.parentRevisionIds }

def parseReceipt (receipt : OpaqueBlobReceipt) : Except RepositoryError OpaqueBlobReceipt :=
  if receipt.schemaValid then .ok receipt else .error .schemaError

def insertRevisionEvent (prepared : PreparedHeader) (receipt : OpaqueBlobReceipt) : Tx Unit :=
  insertEvent
    { vaultId := prepared.header.vaultId
      serverSequence := receipt.serverSequence
      revisionId := some prepared.header.revisionId
      payloadFileId := prepared.header.fileId
      receipt }

/-- The guarded update of the sequence allocator; it must change one row. -/
def advanceCursor (vaultId : Id) (serverSequence : ℕ) : Tx Unit := fun db =>
  let hit (row : VaultRow) : Bool := row.id = vaultId ∧ row.nextServerSequence = serverSequence
  let db' := { db with
    vaults := db.vaults.map fun row =>
      if hit row then { row with nextServerSequence := row.nextServerSequence + 1 } else row }
  if db.vaults.countP hit = 1 then .ok () db' else .error .repositoryIntegrity db'

def commitNewRevision (now : Option Timestamp) (prepared : PreparedCommit) (vault : VaultRow) :
    Tx CommitRevisionResult := do
  let time ← check (readNow now)
  let serverSequence ← check (requireSafeSequence vault.nextServerSequence)
  check (require (serverSequence < maxSafeInteger) .repositoryIntegrity)
  let db ← get
  check (assertWithinQuota options db prepared vault)
  validateAndPrepareFileGraph prepared.toPreparedHeader
  insertRevision prepared vault serverSequence time
  replaceParentHeads prepared.toPreparedHeader
  let receipt ← check (parseReceipt (commitReceipt prepared serverSequence time))
  insertRevisionEvent prepared.toPreparedHeader receipt
  advanceCursor prepared.header.vaultId serverSequence
  insertIdempotencyRecord options prepared.toPreparedHeader ⟨receipt, .accepted⟩ 201 time
  return ⟨receipt, .accepted⟩

def commitPrepared (now : Option Timestamp) (prepared : PreparedCommit) :
    Tx CommitRevisionResult := do
  let db ← get
  check (assertAuthorizedActor db prepared.actor prepared.header)
  let vault ← check (getVault db prepared.header.vaultId)
  let idempotency := getIdempotencyRecord db prepared.toPreparedHeader
  match getExistingRevision db prepared.header.revisionId with
  | some existing => replayExisting options now prepared existing idempotency
  | none =>
      match idempotency with
      | some record => do
          check (assertIdempotencyRequest record prepared.toPreparedHeader)
          throw .repositoryIntegrity
      | none => commitNewRevision options now prepared vault

/-- A commit whose input was prepared against the database `seen`, which other
transactions may have changed before this one starts. -/
def commitRevisionSeen (seen : Database) (blobStore : BlobHash → BlobRead)
    (now : Option Timestamp) (input : CommitRevisionInput) : Tx CommitRevisionResult := do
  let prepared ← check (prepareCommit options seen blobStore input)
  transaction (commitPrepared options now prepared)

def commitRevision (blobStore : BlobHash → BlobRead) (now : Option Timestamp)
    (input : CommitRevisionInput) : Tx CommitRevisionResult := fun db =>
  commitRevisionSeen options db blobStore now input db

/-- One call of the repository: its input, the database its input is prepared
against, and what the blob store and the clock answer. -/
structure CommitCall where
  seen : Database
  blobStore : BlobHash → BlobRead
  now : Option Timestamp
  input : CommitRevisionInput

def runCall (call : CommitCall) : Tx CommitRevisionResult :=
  commitRevisionSeen options call.seen call.blobStore call.now call.input

def afterCall (db : Database) (call : CommitCall) : Database :=
  match runCall options call db with
  | .ok _ db' => db'
  | .error _ db' => db'

def afterCalls (db : Database) (calls : List CommitCall) : Database :=
  calls.foldl (afterCall options) db

end

def exampleOptions : RevisionRepositoryOptions where
  digests := ⟨fun header => header.revisionId, fun _ _ header => header.revisionId⟩
  idempotencyTtlMs := 10

/-- One member with one device and the empty vault 1. -/
def exampleDatabase : Database :=
  { users := [⟨5, .active⟩]
    devices := [⟨6, 5, .approved⟩]
    memberships := [⟨7, 1, 5, .active⟩]
    vaults := [⟨1, 0, 1, none, none⟩]
    files := []
    revisions := []
    revisionParents := []
    fileHeads := []
    vaultEvents := []
    idempotencyRecords := [] }

/-- That device's commit of a revision of three bytes under its own key. -/
def exampleCall (fileId revisionId : Id) (parents : List Id) : CommitCall :=
  { seen := exampleDatabase
    blobStore := fun _ => .verified 3
    now := some revisionId
    input :=
      { actor := ⟨6, 7⟩
        blobHash := 40
        header := ⟨⟨1, 0⟩, 1, fileId, revisionId, parents, 7, 6⟩
        idempotencyKey := [revisionId.toUInt16]
        blobSize := none } }

end Havemind.RevisionRepository
