import Havemind.DurableSections
import Havemind.PayloadCodec
import Havemind.RevisionEnvelope

/-!
The producer's side of a device: the files it knows with their heads, and the methods that
change them. A method finishes the interrupted transactions first and then makes its own
change in one write of the durable document, with a journal entry for the files it concerns.
-/
namespace Havemind.OutboxRepository

open JsText RevisionSchema SyncTransport VaultPayload RevisionEnvelope DurableState
  DurableOperations DurableSections

inductive LocalChangeKind
  | create
  | update
  | rename
  | delete
  deriving DecidableEq

structure LocalChangeOperation where
  content : Option JsString
  contentKind : Option SyncContentKind := none
  fileId : Id
  kind : LocalChangeKind
  operationId : Id
  path : Path
  previousPath : Option Path := none

structure LocalChangeCommit where
  operation : LocalChangeOperation
  removeFileId : Option Id
  upsertMapping : Option LocalFileMapping

/-- What an envelope is built with: `idText` is an id as text, and `encode` gives the
address of the payload's bytes and the bytes as text; `none` when they are refused. -/
structure EnvelopeBuilder where
  protocol : ProtocolVersion
  identity : PushHeaderIdentity
  idText : Id → JsString
  encode : ProtectedRevisionHeader → DecodedRevisionPayload → Option (BlobHash × JsString)

def envelopeHeader (builder : EnvelopeBuilder) (input : BuildRevisionEnvelopeInput) :
    ProtectedRevisionHeader where
  protocol := builder.protocol
  vaultId := builder.identity.vaultId
  fileId := input.fileId
  revisionId := input.revisionId
  parentRevisionIds := headerParents input.parentRevisionIds
  expectedMemberId := builder.identity.memberId
  expectedDeviceId := builder.identity.deviceId

def buildEnvelope (builder : EnvelopeBuilder) (input : BuildRevisionEnvelopeInput)
    (operationId : Id) : Option OutboxEnvelope :=
  if input.operation = .rename ∧ input.previousPath = none then none
  else
    (builder.encode (envelopeHeader builder input) (buildInnerPayload input)).map fun encoded =>
      { header := envelopeHeader builder input
        idempotencyKey := input.idempotencyKey
        payloadBase64 := encoded.2
        operationId
        revisionId := input.revisionId
        fileId := input.fileId
        contentHash := encoded.1 }

def upsertMapping (mappings : List LocalFileMapping) (upsert : LocalFileMapping) :
    List LocalFileMapping :=
  (mappings.filter fun mapping =>
    mapping.fileId ≠ upsert.fileId ∧ mapping.collisionKey ≠ upsert.collisionKey) ++ [upsert]

def nextMappings (mappings : List LocalFileMapping) (commit : LocalChangeCommit) :
    List LocalFileMapping :=
  let kept := match commit.removeFileId with
    | none => mappings
    | some removed => mappings.filter fun mapping => mapping.fileId ≠ removed
  match commit.upsertMapping with
  | none => kept
  | some upsert => upsertMapping kept upsert

/-- The producer after a commit; `revisionId` is the commit's revision, when it has one. -/
def applyCommit (producer : ProducerState) (commit : LocalChangeCommit)
    (revisionId : Option Id) : ProducerState where
  mappings := nextMappings producer.mappings commit
  heads :=
    if commit.operation.kind = .delete then producer.heads.erase commit.operation.fileId
    else
      match revisionId with
      | none => producer.heads
      | some head => producer.heads.set commit.operation.fileId head

/-- The mapping a table of the mappings by file holds: the last one. -/
def shapeOf (producer : ProducerState) (fileId : Id) : Option LocalFileMapping :=
  producer.mappings.reverse.find? fun mapping => mapping.fileId = fileId

/-- The files whose mapping or head differs between two producer states. -/
def changedFiles (before after : ProducerState) : List Id :=
  let ids := before.mappings.map LocalFileMapping.fileId ++
    after.mappings.map LocalFileMapping.fileId ++ before.heads.keys ++ after.heads.keys
  ids.eraseDups.filter fun id =>
    shapeOf before id ≠ shapeOf after id ∨ before.heads.get id ≠ after.heads.get id

section
variable {V : Type*} [DecidableEq V]

/-- The loop of the walk; `none` when it needs more than `fuel` turns. -/
def walkParents (lookup : V → Option (List V)) : ℕ → List V → List V → List V → Option (List V)
  | _, [], _, live => some live
  | 0, _ :: _, _, _ => none
  | fuel + 1, id :: pending, seen, live =>
    if id ∈ seen then walkParents lookup fuel pending seen live
    else
      match lookup id with
      | none => walkParents lookup fuel pending (seen ++ [id]) (live ++ [id])
      | some parents => walkParents lookup fuel (pending ++ parents) (seen ++ [id]) live

/-- Without a quarantine a head is its own answer. -/
def liveParentsIn (lookup : Option (V → Option (List V))) (fuel : ℕ) : Option V → Option (List V)
  | none => some []
  | some head =>
    match lookup with
    | none => some [head]
    | some lookup => walkParents lookup fuel [head] [] []

def parentsOf (lookup : V → Option (List V)) (id : V) : List V := (lookup id).getD []

end

/-- The parents a new revision of a file may name: its head, or what the walk back from a
head that never reached the server ends in. A turn for each parent a row may add is enough. -/
def liveParents (state : PersistedSyncState) (head : Option Id) : List Id :=
  let lookup := quarantinedParents state
  let rows := (state.quarantine.map QuarantinedRevision.revisionId).toFinset
  (liveParentsIn (some lookup) (1 + GraphSearch.budget (parentsOf lookup) rows []) head).getD []

/-- An update or a rename without a head is a root create. -/
def resolveOperation (kind : LocalChangeKind) (hasHead : Bool) : RevisionOperation :=
  match kind with
  | .create => .create
  | .delete => .delete
  | .update => if hasHead then .update else .create
  | .rename => if hasHead then .rename else .create

/-- The journal entry of a local commit. The note's text seeds the merge ancestor on first
authorship. -/
def commitRecord (id : Id) (before next : ProducerState) (operation : LocalChangeOperation) :
    ProducerRecovery :=
  let fileIds := (operation.fileId :: changedFiles before next).eraseDups
  let text := if operation.contentKind = some .binary then none else operation.content
  { id
    kind := .resolution
    fileIds
    state :=
      { mappings := (next.mappings.filter fun mapping => mapping.fileId ∈ fileIds).map fun mapping =>
          ⟨mapping, if mapping.fileId = operation.fileId then text else none⟩
        heads := next.heads.filterEntries fun entry => entry.1 ∈ fileIds }
    discardRevisionIds := [] }

/-- The journal entry of an apply to a file that may write these paths. -/
def checkpointRecord (id : Id) (before : ProducerState) (fileId : Id) (paths : List Path) :
    ProducerRecovery :=
  let affected := (fileId :: (before.mappings.filter fun mapping =>
    mapping.path ∈ paths).map LocalFileMapping.fileId).eraseDups
  { id
    kind := .apply
    fileIds := affected
    state :=
      { mappings := (before.mappings.filter fun mapping => mapping.fileId ∈ affected).map fun mapping =>
          ⟨mapping, none⟩
        heads := before.heads.filterEntries fun entry => entry.1 ∈ affected }
    discardRevisionIds := [] }

/-- The journal entry of a head resolution. -/
def resolutionRecord (id : Id) (mapping : LocalFileMapping) (content : JsString) (revisionId : Id)
    (pendingIds : List Id) : ProducerRecovery where
  id
  kind := .resolution
  fileIds := [mapping.fileId]
  state := { mappings := [⟨mapping, some content⟩], heads := JsObject.empty.set mapping.fileId revisionId }
  discardRevisionIds := pendingIds

section
variable (producer : ProducerState)

/-- The head of a file and the content hash the producer holds for it. -/
def versionFor (fileId : Id) : Option (Id × ContentHash) := do
  let mapping ← producer.mappings.find? fun mapping => mapping.fileId = fileId
  let revisionId ← producer.heads.get fileId
  return (revisionId, mapping.contentHash)

/-- A file taken over from the server with its head, as the apply side wrote it. -/
def adopted (mapping : LocalFileMapping) (headRevisionId : Id) : ProducerState where
  mappings := upsertMapping producer.mappings mapping
  heads := producer.heads.set mapping.fileId headRevisionId

/-- A file the apply side deleted. -/
def forgotten (collisionKey : ℕ) (fileId : Id) : ProducerState where
  mappings := producer.mappings.filter fun mapping =>
    mapping.collisionKey ≠ collisionKey ∧ mapping.fileId ≠ fileId
  heads := producer.heads.erase fileId

/-- The stat the startup scan found for a file, when the hash it read is still the one
the producer holds. -/
structure StatEntry where
  fileId : Id
  contentHash : ContentHash
  stat : FileStat

def withStat (entries : List StatEntry) (mapping : LocalFileMapping) : LocalFileMapping :=
  match entries.reverse.find? fun entry => entry.fileId = mapping.fileId with
  | none => mapping
  | some entry =>
    if entry.contentHash = mapping.contentHash then { mapping with stat := some entry.stat }
    else mapping

def statsRecorded (entries : List StatEntry) : ProducerState :=
  { producer with mappings := producer.mappings.map (withStat entries) }

end

section
variable (options : SyncStateOptions) (now : Timestamp)

/-- The document after an operation's section; `none` when it saves nothing. -/
def performed (operation : Operation) (state : PersistedSyncState) : Option PersistedSyncState :=
  (nextState options now operation state).map (trimmed options)

/-- A journal entry finished, if it is still there; `none` when that would orphan queued
work. -/
def recoverRecord (state : PersistedSyncState) (record : ProducerRecovery) :
    Option PersistedSyncState :=
  if state.journal.all fun entry => entry.id ≠ record.id then some state
  else performed options now (.recoverProducerQueue record.id) state

/-- Every journal entry of no running apply finished. -/
def recoverLocked (activeApplies : List Id) (state : PersistedSyncState) :
    Option PersistedSyncState :=
  (state.journal.filter fun record => record.id ∉ activeApplies).foldlM
    (recoverRecord options now) state

end

variable (options : SyncStateOptions) (builder : EnvelopeBuilder) (now : Timestamp)

/-- What ends a method: a recovery that would orphan queued work, a refused envelope, an
unfinished transaction on one of the files. -/
inductive RepositoryError
  | orphan
  | envelope
  | transaction
  deriving DecidableEq

/-- A head resolution asked of the producer. -/
structure ResolutionInput where
  mapping : LocalFileMapping
  content : JsString
  expectedHead : Id
  pendingIds : List Id
  parents : List Id
  existingRevisionId : Option Id
  deriving DecidableEq

/-- A committed transaction: the document before and after it, its journal entry and what it
queued. -/
structure Transaction where
  before : PersistedSyncState
  record : ProducerRecovery
  replacement : Option OutboxEnvelope
  after : PersistedSyncState

/-- The envelope a resolution queues: none when it adopts a revision of the server. -/
def resolutionEnvelope (input : ResolutionInput) (revisionId : Id) :
    Except RepositoryError (Option OutboxEnvelope) :=
  match input.existingRevisionId with
  | some _ => .ok none
  | none =>
    match buildEnvelope builder
        { fileId := input.mapping.fileId
          revisionId
          parentRevisionIds := input.parents
          operation := .update
          path := input.mapping.path
          content := some input.content
          idempotencyKey := builder.idText revisionId } revisionId with
    | none => .error .envelope
    | some envelope => .ok (some envelope)

/-- The document once the interrupted transactions are finished, and the resolution when
the file's head is still the expected one and the queue may be swapped. -/
def commitHeadResolution (activeApplies : List Id) (revisionId recordId : Id)
    (state : PersistedSyncState) (input : ResolutionInput) :
    Except RepositoryError (PersistedSyncState × Option Transaction) :=
  match recoverLocked options now activeApplies state with
  | none => .error .orphan
  | some current =>
    if current.producerState.heads.get input.mapping.fileId ≠ some input.expectedHead then
      .ok (current, none)
    else
      match resolutionEnvelope builder input revisionId with
      | .error error => .error error
      | .ok replacement =>
        let record := resolutionRecord recordId input.mapping input.content
          (input.existingRevisionId.getD revisionId) input.pendingIds
        if inTransaction current record then .error .transaction
        else
          match performed options now (.commitProducerChange record replacement) current with
          | none => .ok (current, none)
          | some after => .ok (after, some ⟨current, record, replacement, after⟩)

/-- The envelope of a local change: none for the deletion of a file the server never had; an
inner failure when it is refused. -/
def localEnvelope (state : PersistedSyncState) (operation : LocalChangeOperation)
    (revisionId : Id) : Except RepositoryError (Option OutboxEnvelope) :=
  let live := liveParents state (state.producerState.heads.get operation.fileId)
  let hasHead := live.length > 0
  if operation.kind = .delete ∧ ¬ hasHead then .ok none
  else
    let isBinary := operation.contentKind = some .binary
    let envelopeOperation := resolveOperation operation.kind hasHead
    match buildEnvelope builder
        { fileId := operation.fileId
          revisionId
          parentRevisionIds := if envelopeOperation = .create then [] else live
          operation := envelopeOperation
          path := operation.path
          previousPath := operation.previousPath
          kind := if isBinary then .binary else .markdown
          content := if isBinary then none else operation.content
          binaryContent :=
            if isBinary then PayloadCodec.base64ToBytes (operation.content.getD []) else none
          idempotencyKey := builder.idText operation.operationId } operation.operationId with
    | none => .error .envelope
    | some envelope => .ok (some envelope)

/-- The transaction of a local change on a document with no interrupted one. -/
def localTransaction (revisionId recordId : Id) (current : PersistedSyncState)
    (commit : LocalChangeCommit) : Except RepositoryError Transaction :=
  match localEnvelope builder current commit.operation revisionId with
  | .error error => .error error
  | .ok envelope =>
    let before := current.producerState
    let record := commitRecord recordId before
      (applyCommit before commit (envelope.map OutboxEnvelope.revisionId)) commit.operation
    match performed options now (.commitProducerChange record envelope) current with
    | none => .error .transaction
    | some after => .ok ⟨current, record, envelope, after⟩

/-- The document with the journal entry of an apply and the entry's id, to be kept among the
running applies. -/
def checkpointApply (activeApplies : List Id) (recordId fileId : Id) (paths : List Path)
    (state : PersistedSyncState) : Except RepositoryError PersistedSyncState :=
  match recoverLocked options now activeApplies state with
  | none => .error .orphan
  | some before =>
    match performed options now (.startProducerRecovery
        (checkpointRecord recordId before.producerState fileId paths) none) before with
    | none => .error .transaction
    | some after => .ok after

/-- What the apply side knows of a merge it is about to write. -/
structure MergedChange where
  mapping : LocalFileMapping
  content : JsString
  remoteRevisionId : Id
  remoteParentRevisionIds : List Id

/-- The envelope of an automatic merge; an inner `none` when the file's head is not this
device's own. An unsent edit over a child of the head needs that child as parent only. -/
def mergedEnvelope (state : PersistedSyncState) (input : MergedChange) (revisionId : Id) :
    Except RepositoryError (Option OutboxEnvelope) :=
  match state.producerState.heads.get input.mapping.fileId with
  | none => .ok none
  | some localHead =>
    if hasAuthoredRevision state localHead = false then .ok none
    else
      match buildEnvelope builder
          { fileId := input.mapping.fileId
            revisionId
            parentRevisionIds :=
              if input.remoteParentRevisionIds.contains localHead ∨
                  localHead = input.remoteRevisionId then [input.remoteRevisionId]
              else [localHead, input.remoteRevisionId]
            operation := .update
            path := input.mapping.path
            content := some input.content
            idempotencyKey := builder.idText revisionId } revisionId with
      | none => .error .envelope
      | some envelope => .ok (some envelope)

end Havemind.OutboxRepository
