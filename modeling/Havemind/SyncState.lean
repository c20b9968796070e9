import Havemind.GraphSearch
import Havemind.SyncRunner
import Havemind.Transaction
import Havemind.VaultPayload

/-!
A device's durable document, as far as the vault and the producer use it: the
outbox and the authored revisions, the path owners and base hashes of the apply
side, the producer's files and heads, and the journal of unfinished applies.
Base contents are not kept, as in production.
-/
namespace Havemind.SyncState

open JsText RevisionSchema SyncRunner VaultPayload

/-- `payload` is what the payload's bytes decode to, `contentHash` and
`byteLength` their address and length. -/
structure OutboxEnvelope where
  header : ProtectedRevisionHeader
  idempotencyKey : JsString
  revisionId : Id
  fileId : Id
  contentHash : BlobHash
  byteLength : ℕ
  payload : DecodedRevisionPayload
  deriving DecidableEq

structure PushRevision where
  revisionId : Id
  fileId : Id
  contentHash : BlobHash
  payloadBytes : ℕ
  parentRevisionIds : Option (List Id)
  deriving DecidableEq

structure LocalFileMapping where
  fileId : Id
  path : Path
  collisionKey : ℕ
  contentHash : ContentHash
  contentKind : SyncContentKind
  deriving DecidableEq

structure ProducerState where
  mappings : List LocalFileMapping
  heads : Id → Option Id

/-- An apply that may have to be undone: the producer's files and heads and the
owners and bases of the apply side, as they were for these files. -/
structure ProducerRecovery where
  id : Id
  fileIds : List Id
  mappings : List LocalFileMapping
  heads : Id → Option Id
  pathOwners : List (Path × Id)
  baseHashes : Id → Option ContentHash
  discardRevisionIds : List Id

structure PersistedSyncState where
  outbox : List OutboxEnvelope
  locallyAuthored : List Id
  quarantinedEnvelopes : List OutboxEnvelope
  pathOwners : List (Path × Id)
  baseHashes : Id → Option ContentHash
  conflictArtifacts : Id → Option Path
  producer : ProducerState
  producerRecovery : List ProducerRecovery

def upsertMapping (mappings : List LocalFileMapping) (upsert : LocalFileMapping) :
    List LocalFileMapping :=
  (mappings.filter fun mapping =>
    mapping.fileId ≠ upsert.fileId ∧ mapping.collisionKey ≠ upsert.collisionKey) ++ [upsert]

/-- Sets an entry of an object: a key that is there keeps its place. -/
def setOwner (owners : List (Path × Id)) (path : Path) (fileId : Id) : List (Path × Id) :=
  if ∃ entry ∈ owners, entry.1 = path then
    owners.map fun entry => if entry.1 = path then (path, fileId) else entry
  else owners ++ [(path, fileId)]

section
variable (state : PersistedSyncState)

def fileIdAtPath (path : Path) : Option Id :=
  (state.pathOwners.find? fun entry => entry.1 = path).map Prod.snd

def pathForFileId (fileId : Id) : Option Path :=
  (state.pathOwners.find? fun entry => entry.2 = fileId).map Prod.fst

def listOutbox : List PushRevision :=
  state.outbox.map fun envelope =>
    { revisionId := envelope.revisionId
      fileId := envelope.fileId
      contentHash := envelope.contentHash
      payloadBytes := envelope.byteLength
      parentRevisionIds :=
        if envelope.header.parentRevisionIds.length > 0 then
          some envelope.header.parentRevisionIds
        else none }

def hasAuthoredRevision (revisionId : Id) : Bool :=
  revisionId ∈ state.locallyAuthored ∨
    ∃ envelope ∈ state.outbox, envelope.revisionId = revisionId

def hasUncoveredChildren (ids : List Id) : Bool :=
  ∃ envelope ∈ state.outbox ++ state.quarantinedEnvelopes, envelope.revisionId ∉ ids ∧
    ∃ id ∈ envelope.header.parentRevisionIds, id ∈ ids

def headFor (fileId : Id) : Option Id := state.producer.heads fileId

/-- The head of a file and the content hash the producer holds for it. -/
def versionFor (fileId : Id) : Option (Id × ContentHash) := do
  let mapping ← state.producer.mappings.find? fun mapping => mapping.fileId = fileId
  let revisionId ← state.producer.heads fileId
  return (revisionId, mapping.contentHash)

end

variable (state : PersistedSyncState)

def recordApplied (fileId : Id) (path : Path) (hash : ContentHash) : PersistedSyncState :=
  { state with
    pathOwners := setOwner state.pathOwners path fileId
    baseHashes := fun id => if id = fileId then some hash else state.baseHashes id }

def recordPathOwner (fileId : Id) (path : Path) : PersistedSyncState :=
  { state with pathOwners := setOwner state.pathOwners path fileId }

def forgetPath (path : Path) : PersistedSyncState :=
  { state with pathOwners := state.pathOwners.filter fun entry => entry.1 ≠ path }

def forgetBaseHash (fileId : Id) : PersistedSyncState :=
  { state with baseHashes := fun id => if id = fileId then none else state.baseHashes id }

def recordConflictArtifactPath (revisionId : Id) (path : Path) : PersistedSyncState :=
  { state with
    conflictArtifacts := fun id => if id = revisionId then some path
      else state.conflictArtifacts id }

def adoptRemoteMapping (mapping : LocalFileMapping) (headRevisionId : Id) : PersistedSyncState :=
  { state with
    producer :=
      { mappings := upsertMapping state.producer.mappings mapping
        heads := fun id => if id = mapping.fileId then some headRevisionId
          else state.producer.heads id } }

def forgetRemoteMapping (collisionKey : ℕ) (fileId : Id) : PersistedSyncState :=
  { state with
    producer :=
      { mappings := state.producer.mappings.filter fun mapping =>
          mapping.collisionKey ≠ collisionKey ∧ mapping.fileId ≠ fileId
        heads := fun id => if id = fileId then none else state.producer.heads id } }

/-- The journal entry of an apply to one of the files. -/
def applyRecord (fileId : Id) : Option ProducerRecovery :=
  state.producerRecovery.find? fun record => fileId ∈ record.fileIds

/-- `none` when no apply to the file is journalled. -/
def enqueueAutomaticMerge (envelope : OutboxEnvelope) : Option PersistedSyncState :=
  (applyRecord state envelope.fileId).map fun record =>
    { state with
      outbox := state.outbox ++ [envelope]
      producerRecovery := state.producerRecovery.map fun entry =>
        if entry.id = record.id then
          { entry with discardRevisionIds := entry.discardRevisionIds ++ [envelope.revisionId] }
        else entry }

/-- What concerns the files of a record comes from the record, the rest stays. -/
def restoredOwners (owners saved : List (Path × Id)) (fileIds : List Id) : List (Path × Id) :=
  saved.foldl (fun owners entry => setOwner owners entry.1 entry.2)
    (owners.filter fun entry => entry.2 ∉ fileIds)

def restored {α : Type} (values saved : Id → Option α) (fileIds : List Id) (fileId : Id) :
    Option α :=
  match saved fileId with
  | some value => some value
  | none => if fileId ∈ fileIds then none else values fileId

/-- Undoes an apply and drops its journal entry; `none` when that would orphan
queued work. -/
def recoverProducerQueue (record : ProducerRecovery) : Option PersistedSyncState :=
  if hasUncoveredChildren state record.discardRevisionIds then none
  else some
    { state with
      pathOwners := restoredOwners state.pathOwners record.pathOwners record.fileIds
      baseHashes := restored state.baseHashes record.baseHashes record.fileIds
      producer :=
        { mappings := (state.producer.mappings.filter fun mapping =>
            mapping.fileId ∉ record.fileIds) ++ record.mappings
          heads := restored state.producer.heads record.heads record.fileIds }
      producerRecovery := state.producerRecovery.filter fun entry => entry.id ≠ record.id
      outbox := state.outbox.filter fun envelope =>
        envelope.revisionId ∉ record.discardRevisionIds }

/-- Finishes every journal entry; `none` when one of them cannot be undone. -/
def recover (state : PersistedSyncState) : Option PersistedSyncState :=
  state.producerRecovery.foldlM recoverProducerQueue state

/-- The journal entry of an apply to a file that touches these paths. -/
def startRecord (recordId : Id) (fileId : Id) (paths : List Path) : ProducerRecovery :=
  let fileIds := (fileId :: (state.producer.mappings.filter fun mapping =>
    mapping.path ∈ paths).map LocalFileMapping.fileId).dedup
  { id := recordId
    fileIds
    mappings := state.producer.mappings.filter fun mapping => mapping.fileId ∈ fileIds
    heads := fun id => if id ∈ fileIds then state.producer.heads id else none
    pathOwners := state.pathOwners.filter fun entry => entry.2 ∈ fileIds
    baseHashes := fun id => if id ∈ fileIds then state.baseHashes id else none
    discardRevisionIds := [] }

/-- Journals an apply after finishing the entries that are there. -/
def checkpointApply (recordId : Id) (fileId : Id) (paths : List Path) :
    Option PersistedSyncState :=
  (recover state).map fun state =>
    { state with
      producerRecovery := state.producerRecovery ++ [startRecord state recordId fileId paths] }

def completeProducerRecovery (recordId : Id) : PersistedSyncState :=
  { state with
    producerRecovery := state.producerRecovery.filter fun entry => entry.id ≠ recordId }

end Havemind.SyncState
