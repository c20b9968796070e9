import Havemind.DurableLoad

/-!
The operations of the durable document. Each is the section that runs with nothing
else running: it takes the loaded state, computes the next one and saves it before
the cache changes; some also store or free payloads.
-/
namespace Havemind.DurableOperations

open JsText RevisionSchema SyncRunner AwaitCode DurableState DurableLoad
open VaultPayload (ContentHash Path)

section
variable (options : SyncStateOptions) (now : Timestamp)

/-- Saves the state, then makes it the cached one. -/
def mutate (next : PersistedSyncState) : Durable Unit := do
  let kept := trimmed options next
  save kept
  setCache kept

/-- Puts the envelope's bytes into the store, or notes that they stay inline. -/
def externalize (envelope : OutboxEnvelope) : Durable Unit := do
  if ← safePutPayload options envelope.revisionId envelope.payloadBase64 then
    addExternalized envelope.revisionId
  else deleteExternalized envelope.revisionId

/-- Frees the payload of a revision that left the queue and the stash; a failed
deletion is passed over. -/
def dropPayload (revisionId : Id) : Durable Unit := do
  if revisionId ∉ (← readMemory).externalized then return ()
  else if options.hasPayloadStore then do
    let _ ← Code.attempt (S := syncState) (.deletePayload revisionId)
    deleteExternalized revisionId
  else deleteExternalized revisionId

def dropPayloads : List Id → Durable Unit
  | [] => return ()
  | revisionId :: rest => do
    dropPayload options revisionId
    dropPayloads rest

/-- `none` when the swap would lose or orphan queued work. -/
def swapQueue (state : PersistedSyncState) (record : ProducerRecovery)
    (replacement : Option OutboxEnvelope) : Durable (Option PersistedSyncState) :=
  if inTransaction state record then Code.throw .recoveryMustFinish
  else if swapRefused state record replacement then return none
  else
    match replacement with
    | none => return some (swapped state now record none)
    | some envelope => do
      externalize options envelope
      return some (swapped state now record (some envelope))

def startProducerRecovery (record : ProducerRecovery) (replacement : Option OutboxEnvelope)
    (state : PersistedSyncState) : Durable Bool := do
  match ← swapQueue options now state record replacement with
  | none => return false
  | some swapped => do
    mutate options
      { swapped with producerRecovery := some (state.journal ++ [journalled state record]) }
    return true

def commitProducerChange (record : ProducerRecovery) (replacement : Option OutboxEnvelope)
    (state : PersistedSyncState) : Durable Bool := do
  match ← swapQueue options now state record replacement with
  | none => return false
  | some swapped => do
    mutate options (rolledForward swapped record)
    return true

def saveProducer (producer : ProducerState) (state : PersistedSyncState) : Durable Bool := do
  mutate options { state with producer := some producer }
  return true

def recoverProducerQueue (id : Id) (state : PersistedSyncState) : Durable Bool := do
  match state.journal.find? fun r => r.id = id with
  | none => return true
  | some record =>
    match record.kind with
    | .resolution => do
      mutate options (rolledForward state record)
      return true
    | .apply =>
      if hasUncoveredChildren state record.discardRevisionIds then Code.throw .wouldOrphan
      else do
        mutate options (rolledBack state now record)
        return true

def completeProducerRecovery (id : Id) (state : PersistedSyncState) : Durable Bool := do
  mutate options
    { state with producerRecovery := some (state.journal.filter fun r => r.id ≠ id) }
  return true

/-- The open apply of a file. -/
def applyRecord (state : PersistedSyncState) (fileId : Id) : Option ProducerRecovery :=
  state.journal.find? fun r => r.kind = .apply ∧ concerns r fileId

def mergeQueued (state : PersistedSyncState) (record : ProducerRecovery)
    (envelope : OutboxEnvelope) : PersistedSyncState :=
  { state with
    outbox := state.outbox ++ [{ envelope with enqueuedAt := some now }]
    producerRecovery := some (state.journal.map fun r =>
      if r.id = record.id then
        { r with discardRevisionIds := r.discardRevisionIds ++ [envelope.revisionId] }
      else r) }

def enqueueAutomaticMerge (envelope : OutboxEnvelope) (state : PersistedSyncState) :
    Durable Bool := do
  match applyRecord state envelope.fileId with
  | none => Code.throw .noApplyTransaction
  | some record => do
    mutate options (mergeQueued now state record envelope)
    return true

def saveCursor (sequence : ℕ) (state : PersistedSyncState) : Durable Bool := do
  mutate options { state with cursor := sequence }
  return true

/-- A queued merge the remote one makes redundant: a leaf with the same content. -/
def equivalentMerge (state : PersistedSyncState) (event : RemoteEvent)
    (entry : OutboxEnvelope) : Bool :=
  let remoteParents := event.revision.parentRevisionIds.getD []
  entry.fileId = event.revision.fileId ∧ entry.contentHash = event.revision.contentHash ∧
    2 ≤ entry.parents.length ∧ (entry.parents.all fun id => id ∈ remoteParents) ∧
    state.envelopes.all fun child => entry.revisionId ∉ child.parents

def retireEquivalentMerges (event : RemoteEvent) (state : PersistedSyncState) :
    Durable Bool := do
  let retired := (state.outbox.filter (equivalentMerge state event)).map OutboxEnvelope.revisionId
  if retired.length = 0 then return true
  else do
    mutate options
      { state with outbox := state.outbox.filter fun entry => entry.revisionId ∉ retired }
    return true

def rememberAuthored (existing : List Id) (revisionId : Id) : List Id :=
  if revisionId ∈ existing then existing
  else
    let next := existing ++ [revisionId]
    if options.maxLocallyAuthored < next.length then
      next.drop (next.length - options.maxLocallyAuthored)
    else next

def receiptRecorded (receipt : PushReceipt) (state : PersistedSyncState) : PersistedSyncState :=
  { state with
    outbox := state.outbox.filter fun envelope => envelope.revisionId ≠ receipt.revisionId
    locallyAuthored := rememberAuthored options state.locallyAuthored receipt.revisionId }

def recordPushReceipt (receipt : PushReceipt) (state : PersistedSyncState) : Durable Bool := do
  mutate options (receiptRecorded options receipt state)
  dropPayload options receipt.revisionId
  return true

def queuedEnvelope (state : PersistedSyncState) (revisionId : Id) : Option OutboxEnvelope :=
  state.outbox.find? fun envelope => envelope.revisionId = revisionId

def withRow (quarantine : List QuarantinedRevision) (row : QuarantinedRevision) :
    List QuarantinedRevision :=
  (quarantine.filter fun item => item.revisionId ≠ row.revisionId) ++ [row]

def quarantineRow (state : PersistedSyncState) (revisionId : Id) (reason : String) :
    QuarantinedRevision where
  revisionId := revisionId
  fileId := ((queuedEnvelope state revisionId).map OutboxEnvelope.fileId).getD emptyText
  reason := reason
  parentRevisionIds := (queuedEnvelope state revisionId).map OutboxEnvelope.parents

/-- The stash with the envelope that failed, before the budget is applied. -/
def stashWith (state : PersistedSyncState) (revisionId : Id) : JsObject Id OutboxEnvelope :=
  match queuedEnvelope state revisionId with
  | none => state.quarantinedEnvelopes
  | some failed => state.quarantinedEnvelopes.set revisionId failed

def quarantined (revisionId : Id) (reason : String) (state : PersistedSyncState) :
    PersistedSyncState :=
  { state with
    outbox := state.outbox.filter fun envelope => envelope.revisionId ≠ revisionId
    quarantine := withRow state.quarantine (quarantineRow state revisionId reason)
    quarantinedEnvelopes := evictStashesOverBudget options (stashWith state revisionId) }

/-- The stashes the budget leaves no room for. -/
def evicted (state : PersistedSyncState) (revisionId : Id) : List Id :=
  (stashWith state revisionId).keys.filter fun key =>
    key ∉ (evictStashesOverBudget options (stashWith state revisionId)).keys

def quarantineOutboxItem (revisionId : Id) (reason : String) (state : PersistedSyncState) :
    Durable Bool := do
  dropPayloads options (evicted options state revisionId)
  mutate options (quarantined options revisionId reason state)
  return true

def recordFailedToQueue (path : Path) (state : PersistedSyncState) : Durable Bool := do
  let row : QuarantinedRevision :=
    ⟨options.failedToQueueRevisionId path, path, failedToQueueReason, none⟩
  mutate options { state with quarantine := withRow state.quarantine row }
  return true

def recordApplied (fileId : Id) (path : Path) (hash : ContentHash) (content : Option JsString)
    (state : PersistedSyncState) : Durable Bool := do
  mutate options
    { state with
      pathOwners := state.pathOwners.set path fileId
      baseHashes := state.baseHashes.set fileId hash
      baseContents := match content with
        | none => state.baseContents
        | some content => state.baseContents.set fileId content }
  return true

def recordPathOwner (fileId : Id) (path : Path) (state : PersistedSyncState) :
    Durable Bool := do
  mutate options { state with pathOwners := state.pathOwners.set path fileId }
  return true

def forgetPath (path : Path) (state : PersistedSyncState) : Durable Bool := do
  if state.pathOwners.get path = none then return true
  else do
    mutate options { state with pathOwners := state.pathOwners.erase path }
    return true

def recordBaseHash (fileId : Id) (hash : ContentHash) (state : PersistedSyncState) :
    Durable Bool := do
  mutate options { state with baseHashes := state.baseHashes.set fileId hash }
  return true

def forgetBaseHash (fileId : Id) (state : PersistedSyncState) : Durable Bool := do
  if state.baseHashes.get fileId = none then return true
  else do
    mutate options { state with baseHashes := state.baseHashes.erase fileId }
    return true

def recordBaseContent (fileId : Id) (content : JsString) (state : PersistedSyncState) :
    Durable Bool := do
  mutate options { state with baseContents := state.baseContents.set fileId content }
  return true

def forgetBaseContent (fileId : Id) (state : PersistedSyncState) : Durable Bool := do
  if state.baseContents.get fileId = none then return true
  else do
    mutate options { state with baseContents := state.baseContents.erase fileId }
    return true

def recordConflictArtifactPath (revisionId : Id) (path : Path) (fileId : Option Id)
    (state : PersistedSyncState) : Durable Bool := do
  mutate options
    { state with
      conflictArtifacts := state.conflictArtifacts.set revisionId path
      conflictCopyFileIds := match fileId with
        | none => state.conflictCopyFileIds
        | some fileId => some ((state.conflictCopyFileIds.getD ∅).set path fileId) }
  return true

def enqueue (envelope : OutboxEnvelope) (state : PersistedSyncState) : Durable Bool := do
  let stamped := { envelope with enqueuedAt := envelope.enqueuedAt <|> some now }
  externalize options stamped
  mutate options
    { state with
      outbox := (state.outbox.filter fun entry => entry.revisionId ≠ envelope.revisionId) ++
        [stamped] }
  return true

def requeueQuarantined (revisionId : Id) (state : PersistedSyncState) : Durable Bool := do
  match state.quarantinedEnvelopes.get revisionId with
  | none => return false
  | some stashed => do
    mutate options
      { state with
        outbox := (state.outbox.filter fun entry => entry.revisionId ≠ revisionId) ++
          [{ stashed with enqueuedAt := some now }]
        quarantine := state.quarantine.filter fun item => item.revisionId ≠ revisionId
        quarantinedEnvelopes := state.quarantinedEnvelopes.erase revisionId }
    return true

def discardQuarantined (revisionId : Id) (state : PersistedSyncState) : Durable Bool := do
  if (state.quarantine.all fun item => item.revisionId ≠ revisionId) ∧
      state.quarantinedEnvelopes.get revisionId = none then return true
  else do
    mutate options
      { state with
        quarantine := state.quarantine.filter fun item => item.revisionId ≠ revisionId
        quarantinedEnvelopes := state.quarantinedEnvelopes.erase revisionId }
    dropPayload options revisionId
    return true

def withoutParked (deferred : List RemoteEvent) (revisionId : Id) : List RemoteEvent :=
  deferred.filter fun item => item.revision.revisionId ≠ revisionId

def parkRemote (event : RemoteEvent) (state : PersistedSyncState) : Durable Bool := do
  mutate options
    { state with
      deferred := withoutParked state.deferred event.revision.revisionId ++ [event] }
  return true

def unparkRemote (revisionId : Id) (state : PersistedSyncState) : Durable Bool := do
  mutate options { state with deferred := withoutParked state.deferred revisionId }
  return true

end

/-- A call that may change the document. -/
inductive Operation
  | startProducerRecovery (record : ProducerRecovery) (replacement : Option OutboxEnvelope)
  | commitProducerChange (record : ProducerRecovery) (replacement : Option OutboxEnvelope)
  | saveProducer (producer : ProducerState)
  | recoverProducerQueue (id : Id)
  | completeProducerRecovery (id : Id)
  | enqueueAutomaticMerge (envelope : OutboxEnvelope)
  | saveCursor (sequence : ℕ)
  | retireEquivalentMerges (event : RemoteEvent)
  | recordPushReceipt (receipt : PushReceipt)
  | quarantineOutboxItem (revisionId : Id) (reason : String)
  | recordFailedToQueue (path : Path)
  | recordApplied (fileId : Id) (path : Path) (hash : ContentHash) (content : Option JsString)
  | recordPathOwner (fileId : Id) (path : Path)
  | forgetPath (path : Path)
  | recordBaseHash (fileId : Id) (hash : ContentHash)
  | forgetBaseHash (fileId : Id)
  | recordBaseContent (fileId : Id) (content : JsString)
  | forgetBaseContent (fileId : Id)
  | recordConflictArtifactPath (revisionId : Id) (path : Path) (fileId : Option Id)
  | enqueue (envelope : OutboxEnvelope)
  | requeueQuarantined (revisionId : Id)
  | discardQuarantined (revisionId : Id)
  | parkRemote (event : RemoteEvent)
  | unparkRemote (revisionId : Id)
  deriving DecidableEq

variable (options : SyncStateOptions) (now : Timestamp)

/-- The section of an operation. -/
def operationSection : Operation → PersistedSyncState → Durable Bool
  | .startProducerRecovery record replacement =>
    startProducerRecovery options now record replacement
  | .commitProducerChange record replacement =>
    commitProducerChange options now record replacement
  | .saveProducer producer => saveProducer options producer
  | .recoverProducerQueue id => recoverProducerQueue options now id
  | .completeProducerRecovery id => completeProducerRecovery options id
  | .enqueueAutomaticMerge envelope => enqueueAutomaticMerge options now envelope
  | .saveCursor sequence => saveCursor options sequence
  | .retireEquivalentMerges event => retireEquivalentMerges options event
  | .recordPushReceipt receipt => recordPushReceipt options receipt
  | .quarantineOutboxItem revisionId reason => quarantineOutboxItem options revisionId reason
  | .recordFailedToQueue path => recordFailedToQueue options path
  | .recordApplied fileId path hash content => recordApplied options fileId path hash content
  | .recordPathOwner fileId path => recordPathOwner options fileId path
  | .forgetPath path => forgetPath options path
  | .recordBaseHash fileId hash => recordBaseHash options fileId hash
  | .forgetBaseHash fileId => forgetBaseHash options fileId
  | .recordBaseContent fileId content => recordBaseContent options fileId content
  | .forgetBaseContent fileId => forgetBaseContent options fileId
  | .recordConflictArtifactPath revisionId path fileId =>
    recordConflictArtifactPath options revisionId path fileId
  | .enqueue envelope => enqueue options now envelope
  | .requeueQuarantined revisionId => requeueQuarantined options now revisionId
  | .discardQuarantined revisionId => discardQuarantined options revisionId
  | .parkRemote event => parkRemote options event
  | .unparkRemote revisionId => unparkRemote options revisionId

/-- A merge of fewer than two parents retires nothing, and loads nothing. -/
def needsNoState : Operation → Bool
  | .retireEquivalentMerges event => (event.revision.parentRevisionIds.getD []).length < 2
  | _ => false

/-- A call made with nothing else running. -/
def perform (operation : Operation) : Durable Bool :=
  if needsNoState operation then return true
  else do
    let state ← ensureLoaded options now
    operationSection options now operation state

end Havemind.DurableOperations
