import Havemind.AwaitCode
import Havemind.PersistedBlob

/-!
The load of the durable document: the blob on disk is read or recovered, the
producer's section settled, and the payloads kept outside are put back into their
envelopes. The document, its backup and the payloads are reached by calls that take
full effect or throw.
-/
namespace Havemind.DurableLoad

open JsText RevisionSchema AwaitCode DurableState PersistedBlob

inductive SyncStateError
  | port
  | recoveryMustFinish
  | wouldOrphan
  | noApplyTransaction
  | invalidJournal
  | corruptWithRecovery
  deriving DecidableEq

inductive PersistCall
  | load
  | loadBackup
  | save (state : PersistedSyncState)
  | preserveCorrupt (raw : Raw)
  | loadLegacyProducer
  | putPayload (revisionId : Id) (payload : JsString)
  | getPayload (revisionId : Id)
  | deletePayload (revisionId : Id)
  | listPayloadIds

def PersistCall.Answer : PersistCall → Type
  | .load | .loadBackup => Raw
  | .save _ | .preserveCorrupt _ | .putPayload _ _ | .deletePayload _ => Unit
  | .loadLegacyProducer => Option ProducerState
  | .getPayload _ => Option JsString
  | .listPayloadIds => List Id

/-- What the process holds of the document. -/
structure Memory where
  cache : Option PersistedSyncState := none
  externalized : List Id := []
  recoveryRequired : Bool := false
  deriving DecidableEq

/-- What outlasts the process. -/
structure Disk where
  primary : Raw := .null
  backup : Raw := .null
  preserved : List Raw := []
  legacyProducer : Option ProducerState := none
  payloads : JsObject Id JsString := ∅
  deriving DecidableEq

def syncState : Signature := ⟨Memory, PersistCall, PersistCall.Answer, SyncStateError⟩

abbrev Durable := Code syncState

def respond : (call : PersistCall) → Disk → call.Answer × Disk
  | .load, disk => (disk.primary, disk)
  | .loadBackup, disk => (disk.backup, disk)
  | .save state, disk =>
    ((), { disk with primary := .record (written state), backup := disk.primary })
  | .preserveCorrupt raw, disk => ((), { disk with preserved := disk.preserved ++ [raw] })
  | .loadLegacyProducer, disk => (disk.legacyProducer, disk)
  | .putPayload revisionId payload, disk =>
    ((), { disk with payloads := disk.payloads.set revisionId payload })
  | .getPayload revisionId, disk => (disk.payloads.get revisionId, disk)
  | .deletePayload revisionId, disk =>
    ((), { disk with payloads := disk.payloads.erase revisionId })
  | .listPayloadIds, disk => (disk.payloads.keys, disk)

def readMemory : Durable Memory := Code.memory

def setCache (state : PersistedSyncState) : Durable Unit := do
  let memory ← readMemory
  Code.setMemory { memory with cache := some state }

def addExternalized (revisionId : Id) : Durable Unit := do
  let memory ← readMemory
  Code.setMemory { memory with externalized := revisionId :: memory.externalized }

def deleteExternalized (revisionId : Id) : Durable Unit := do
  let memory ← readMemory
  Code.setMemory
    { memory with externalized := memory.externalized.filter fun id => id ≠ revisionId }

def requireRecovery : Durable Unit := do
  let memory ← readMemory
  Code.setMemory { memory with recoveryRequired := true }

section
variable (options : SyncStateOptions)

/-- Saves the disk form of the state. -/
def save (state : PersistedSyncState) : Durable Unit := do
  let memory ← readMemory
  Code.call (S := syncState) (.save (toDiskForm memory.externalized state))

def safeGetPayload (revisionId : Id) : Durable (Option JsString) :=
  if options.hasPayloadStore = false then return none
  else do
    match ← Code.attempt (S := syncState) (.getPayload revisionId) with
    | .ok payload => return payload
    | .error _ => return none

def safePutPayload (revisionId : Id) (payload : JsString) : Durable Bool :=
  if options.hasPayloadStore = false then return false
  else do
    match ← Code.attempt (S := syncState) (.putPayload revisionId payload) with
    | .ok _ => return true
    | .error _ => return false

end

variable (options : SyncStateOptions)

def carriesRecovery (raw : RawState) : Bool :=
  raw.producerRecovery ≠ .absent ∨ raw.reconciliationBackups ≠ .absent

def preserveCorrupt (raw : Raw) : Durable Unit :=
  Code.call (S := syncState) (.preserveCorrupt raw)

/-- Recovers from a primary that cannot be read: the backup, else what is left of it. -/
def recoverCorrupt (raw : Raw) (salvage : Option PersistedSyncState) (atRisk : Bool) :
    Durable Bool := do
  let backup ← Code.call (S := syncState) .loadBackup
  if (← readMemory).cache ≠ none then return false
  match parsePersistedState options backup with
  | .ok state => do
    preserveCorrupt raw
    if (← readMemory).cache = none then
      setCache (trimmed options state)
      if salvageHasOutboxEntriesMissingFrom salvage state.outbox then requireRecovery
    return false
  | _ => do
    preserveCorrupt raw
    if (← readMemory).cache ≠ none then return false
    let recovered := match salvage with
      | some state => trimmed options state
      | none => emptyState
    setCache recovered
    if salvage = none ∧ atRisk then requireRecovery
    save recovered
    return false

/-- Reads the primary into the cache; whether it loaded as it was saved. -/
def hydrate (raw : Raw) : Durable Bool := do
  if (← readMemory).cache ≠ none then return false
  match raw with
  | .null => do
    setCache (trimmed options emptyState)
    return true
  | .scalar => recoverCorrupt options raw none false
  | .record sections =>
    if validRecoveryFields sections = false then do
      preserveCorrupt raw
      Code.throw .invalidJournal
    else
      match strictParse options sections with
      | some state => do
        setCache (trimmed options state)
        return true
      | none =>
        if carriesRecovery sections then do
          preserveCorrupt raw
          Code.throw .corruptWithRecovery
        else recoverCorrupt options raw (salvageState options sections) (outboxAtRisk sections)

def storedProducer : Raw → PersistedBlob.Field RawProducer
  | .record sections => sections.producer
  | _ => .absent

/-- The producer of a state that has none: the one the primary still carries, else
the one of the old key. -/
def missingProducer (parsed : ProducerParse) : Durable (Option ProducerState) :=
  match parsed with
  | .ok state _ => return some state
  | _ =>
    if options.readsLegacyProducer = false then return none
    else do
      let legacy ← Code.call (S := syncState) .loadLegacyProducer
      return some (legacy.getD emptyProducer)

def preserveProducer (stored : PersistedBlob.Field RawProducer) : ProducerParse → Durable Unit
  | .corrupt | .ok _ true =>
    preserveCorrupt (.record { versionOne := false, producer := stored })
  | _ => return ()

def settleProducer (raw : Raw) : Durable Unit := do
  let parsed := parseProducerStateResult (storedProducer raw)
  preserveProducer (storedProducer raw) parsed
  match (← readMemory).cache with
  | none => return ()
  | some state =>
    if state.producer ≠ none then return ()
    else do
      match ← missingProducer options parsed with
      | none => return ()
      | some producer => do
        let next := { state with producer := some producer }
        save next
        setCache next

/-- The outbox and the quarantine rows a reconciliation leaves, and whether the cache
and the disk change. -/
structure Reconciled where
  outbox : List OutboxEnvelope := []
  missing : List QuarantinedRevision := []
  stash : JsObject Id OutboxEnvelope := ∅
  cacheChanged : Bool := false
  persistNeeded : Bool := false
  deriving DecidableEq

def missingPayloadRow (envelope : OutboxEnvelope) : QuarantinedRevision where
  revisionId := envelope.revisionId
  fileId := envelope.fileId
  reason := payloadMissingReason

/-- Stores the bytes of an envelope that holds them itself. -/
def migratePayload (envelope : OutboxEnvelope) : Durable Bool := do
  if ← safePutPayload options envelope.revisionId envelope.payloadBase64 then
    addExternalized envelope.revisionId
    return true
  else return false

def reconcileOutbox (found : Reconciled) : List OutboxEnvelope → Durable Reconciled
  | [] => return found
  | envelope :: rest =>
    if envelope.payloadExternalized = some true then do
      match ← safeGetPayload options envelope.revisionId with
      | some payload => do
        addExternalized envelope.revisionId
        reconcileOutbox
          { found with
            outbox := found.outbox ++ [{ envelope with payloadBase64 := payload }]
            cacheChanged := true } rest
      | none =>
        reconcileOutbox
          { found with
            missing := found.missing ++ [missingPayloadRow envelope]
            cacheChanged := true
            persistNeeded := true } rest
    else do
      let migrated ← migratePayload options envelope
      reconcileOutbox
        { found with
          outbox := found.outbox ++ [envelope]
          persistNeeded := found.persistNeeded || migrated } rest

def reconcileStash (found : Reconciled) : List (Id × OutboxEnvelope) → Durable Reconciled
  | [] => return found
  | (key, envelope) :: rest =>
    if envelope.payloadExternalized = some true then do
      match ← safeGetPayload options envelope.revisionId with
      | some payload => do
        addExternalized envelope.revisionId
        reconcileStash
          { found with
            stash := found.stash.set key { envelope with payloadBase64 := payload }
            cacheChanged := true } rest
      | none => reconcileStash { found with persistNeeded := true } rest
    else do
      let migrated ← migratePayload options envelope
      reconcileStash
        { found with
          stash := found.stash.set key envelope
          persistNeeded := found.persistNeeded || migrated } rest

/-- The revisions a stored payload may belong to. -/
def liveRevisions (state : PersistedSyncState) : List Id :=
  state.envelopes.map OutboxEnvelope.revisionId ++
    state.quarantine.map QuarantinedRevision.revisionId

/-- Deletes the stored payloads nothing refers to, until a deletion fails. -/
def deleteUnreferenced (live : List Id) : List Id → Durable Unit
  | [] => return ()
  | revisionId :: rest =>
    if revisionId ∈ live then deleteUnreferenced live rest
    else do
      match ← Code.attempt (S := syncState) (.deletePayload revisionId) with
      | .ok _ => deleteUnreferenced live rest
      | .error _ => return ()

def sweepPayloads (state : PersistedSyncState) : Durable Unit :=
  if options.hasPayloadStore = false then return ()
  else do
    match ← Code.attempt (S := syncState) .listPayloadIds with
    | .ok revisionIds => deleteUnreferenced (liveRevisions state) revisionIds
    | .error _ => return ()

def reconciledState (state : PersistedSyncState)
    (backups : Option (JsObject Id (List OutboxEnvelope))) (found : Reconciled) :
    PersistedSyncState :=
  { state with
    reconciliationBackups := backups
    outbox := found.outbox
    quarantine := state.quarantine ++ found.missing
    quarantinedEnvelopes := found.stash }

def reconcilePayloads (now : Timestamp) (sweep : Bool) : Durable Unit := do
  match (← readMemory).cache with
  | none => return ()
  | some state => do
    let queued ← reconcileOutbox options {} state.outbox
    let found ← reconcileStash options queued state.quarantinedEnvelopes.entries
    let backups := withoutExpiredBackups state.reconciliationBackups now
    let expired := backups ≠ state.reconciliationBackups
    let next := reconciledState state backups found
    if sweep then sweepPayloads options next
    if (found.cacheChanged || found.persistNeeded || expired) = false then return ()
    else do
      setCache next
      if found.persistNeeded || expired then save next

def load (now : Timestamp) : Durable Unit := do
  let raw ← Code.call (S := syncState) .load
  let clean ← hydrate options raw
  settleProducer options raw
  reconcilePayloads options now clean

def ensureLoaded (now : Timestamp) : Durable PersistedSyncState := do
  match (← readMemory).cache with
  | some state => return state
  | none => do
    load options now
    match (← readMemory).cache with
    | some state => return state
    | none => do
      setCache emptyState
      return emptyState

end Havemind.DurableLoad
