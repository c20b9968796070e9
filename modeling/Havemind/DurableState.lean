import Havemind.JsObject
import Havemind.SyncRunner
import Havemind.VaultPayload
import Mathlib.Algebra.Order.Ring.Int

/-!
A device's whole durable document: the queue and its payloads, the quarantine with
the stashed envelopes, the parked changes, the owners and bases of the apply side,
the producer's files and heads and the journal of its unfinished transactions. The
functions here are the plain ones; those that wait for the disk come later.
-/
namespace Havemind.DurableState

open JsText RevisionSchema SyncRunner VaultPayload

/-- The empty text. -/
def emptyText : Id := 0

structure OutboxEnvelope where
  header : ProtectedRevisionHeader
  idempotencyKey : JsString
  payloadBase64 : JsString
  operationId : Id
  revisionId : Id
  fileId : Id
  contentHash : BlobHash
  enqueuedAt : Option Timestamp := none
  payloadExternalized : Option Bool := none
  backedUpAt : Option Timestamp := none
  deriving DecidableEq

structure QuarantinedRevision where
  revisionId : Id
  fileId : Id
  reason : String
  parentRevisionIds : Option (List Id) := none
  deriving DecidableEq

structure FileStat where
  mtime : ℕ
  size : ℕ
  deriving DecidableEq

structure LocalFileMapping where
  collisionKey : ℕ
  contentHash : ContentHash
  contentKind : Option SyncContentKind := none
  fileId : Id
  path : Path
  stat : Option FileStat := none
  deriving DecidableEq

structure ProducerState where
  mappings : List LocalFileMapping
  heads : JsObject Id Id
  deriving DecidableEq

def emptyProducer : ProducerState := ⟨[], ∅⟩

/-- A mapping of a journal entry, which may carry the note's text. -/
structure JournalMapping where
  mappingMetadata : LocalFileMapping
  content : Option JsString := none
  deriving DecidableEq

structure JournalState where
  mappings : List JournalMapping
  heads : JsObject Id Id
  deriving DecidableEq

inductive RecoveryKind
  | apply
  | resolution
  deriving DecidableEq

/-- The owners and bases of an apply's files, as they were at its start. -/
structure ApplyState where
  pathOwners : JsObject Path Id
  baseHashes : JsObject Id ContentHash
  baseContents : JsObject Id JsString
  deriving DecidableEq

structure ProducerRecovery where
  id : Id
  kind : RecoveryKind
  applyState : Option ApplyState := none
  fileIds : List Id
  state : JournalState
  discardRevisionIds : List Id
  deriving DecidableEq

structure PersistedSyncState where
  producer : Option ProducerState := none
  producerRecovery : Option (List ProducerRecovery) := none
  reconciliationBackups : Option (JsObject Id (List OutboxEnvelope)) := none
  cursor : ℕ := 0
  outbox : List OutboxEnvelope := []
  locallyAuthored : List Id := []
  deferred : List RemoteEvent := []
  quarantine : List QuarantinedRevision := []
  pathOwners : JsObject Path Id := ∅
  baseHashes : JsObject Id ContentHash := ∅
  baseContents : JsObject Id JsString := ∅
  conflictArtifacts : JsObject Id Path := ∅
  conflictCopyFileIds : Option (JsObject Path Id) := none
  quarantinedEnvelopes : JsObject Id OutboxEnvelope := ∅
  deriving DecidableEq

def emptyState : PersistedSyncState := {}

/-- How the state is kept, and the synthetic ids of a path and of a queue position. -/
structure SyncStateOptions where
  maxLocallyAuthored : ℕ := 10000
  envelopeBudgetBytes : ℕ := 5 * 1024 * 1024
  keepBaseContents : Bool := true
  hasPayloadStore : Bool := true
  readsLegacyProducer : Bool := false
  failedToQueueRevisionId : Path → Id
  corruptEnvelopeId : ℕ → Id

def payloadMissingReason : String := "payload-missing"

def failedToQueueReason : String := "failed-to-queue"

def corruptEnvelopeReason : String := "corrupt-envelope"

section
variable (state : PersistedSyncState)

def parentIdsFromHeader (header : ProtectedRevisionHeader) : List Id := header.parentRevisionIds

def OutboxEnvelope.parents (envelope : OutboxEnvelope) : List Id :=
  parentIdsFromHeader envelope.header

def PersistedSyncState.producerState : ProducerState := state.producer.getD emptyProducer

def PersistedSyncState.journal : List ProducerRecovery := state.producerRecovery.getD []

/-- The queued and the stashed envelopes. -/
def PersistedSyncState.envelopes : List OutboxEnvelope :=
  state.outbox ++ state.quarantinedEnvelopes.values

def hasUncoveredChildren (ids : List Id) : Bool :=
  state.envelopes.any fun envelope =>
    envelope.revisionId ∉ ids ∧ envelope.parents.any fun id => id ∈ ids

/-- The parents of a quarantined revision, when they are known. -/
def quarantinedParents (revisionId : Id) : Option (List Id) :=
  match state.quarantine.find? fun row => row.revisionId = revisionId with
  | none => none
  | some row =>
    match row.parentRevisionIds with
    | some parents => some parents
    | none => (state.quarantinedEnvelopes.get revisionId).map OutboxEnvelope.parents

def hasAuthoredRevision (revisionId : Id) : Bool :=
  revisionId ∈ state.locallyAuthored ∨
    state.outbox.any fun envelope => envelope.revisionId = revisionId

end

def equalsSign : CodeUnit := 0x3D

def base64Padding (base64 : JsString) : ℕ :=
  if base64.drop (base64.length - 2) = [equalsSign, equalsSign] then 2
  else if base64.drop (base64.length - 1) = [equalsSign] then 1 else 0

def base64ByteLength (base64 : JsString) : ℤ :=
  if base64.length = 0 then 0 else (base64.length * 3 / 4 : ℕ) - (base64Padding base64 : ℤ)

/-- The stashes from an entry on leave while the total is over the budget. -/
def evictFrom (budget : ℤ) (total : ℤ) (trimmed : JsObject Id OutboxEnvelope) :
    List (Id × OutboxEnvelope) → JsObject Id OutboxEnvelope
  | [] => trimmed
  | (key, envelope) :: rest =>
    if total ≤ budget then trimmed
    else
      evictFrom budget (total - base64ByteLength envelope.payloadBase64) (trimmed.erase key) rest

def evictStashesOverBudget (options : SyncStateOptions)
    (envelopes : JsObject Id OutboxEnvelope) : JsObject Id OutboxEnvelope :=
  let total := (envelopes.values.map fun envelope => base64ByteLength envelope.payloadBase64).sum
  evictFrom options.envelopeBudgetBytes total envelopes envelopes.entries

/-- The envelope without the bytes the store holds. -/
def strip (externalized : List Id) (envelope : OutboxEnvelope) : OutboxEnvelope :=
  if envelope.revisionId ∈ externalized then
    { envelope with payloadBase64 := [], payloadExternalized := some true }
  else envelope

/-- What is saved of a state. -/
def toDiskForm (externalized : List Id) (state : PersistedSyncState) : PersistedSyncState :=
  if externalized.length = 0 then state
  else
    { state with
      outbox := state.outbox.map (strip externalized)
      quarantinedEnvelopes := state.quarantinedEnvelopes.mapValues fun _ => strip externalized }

def trimmed (options : SyncStateOptions) (state : PersistedSyncState) : PersistedSyncState :=
  if options.keepBaseContents ∨ state.baseContents.keys.length = 0 then state
  else { state with baseContents := ∅ }

theorem trimmed_eq (options : SyncStateOptions) (state : PersistedSyncState) :
    trimmed options state = { state with
      baseContents := if options.keepBaseContents then state.baseContents else ∅ } := by
  unfold trimmed
  by_cases hkeep : options.keepBaseContents = true
  · rw [if_pos (.inl hkeep), if_pos hkeep]
  rw [if_neg hkeep]
  by_cases hempty : state.baseContents.keys.length = 0
  · have hnone : state.baseContents = ∅ :=
      JsObject.ext (List.map_eq_nil_iff.mp (List.length_eq_zero_iff.mp hempty))
    rw [if_pos (.inr hempty), ← hnone]
  · rw [if_neg (by simp [hkeep, hempty])]

def backupRetentionMs : ℕ := 7 * 24 * 60 * 60 * 1000

def backedUp (now : Timestamp) (envelopes : List OutboxEnvelope) : List OutboxEnvelope :=
  envelopes.map fun envelope =>
    { envelope with payloadExternalized := some false, backedUpAt := some now }

def freshBackup (now : Timestamp) (envelope : OutboxEnvelope) : Bool :=
  (now : ℤ) - ((envelope.backedUpAt <|> envelope.enqueuedAt).getD 0 : ℕ) < backupRetentionMs

def withoutExpiredBackups (backups : Option (JsObject Id (List OutboxEnvelope)))
    (now : Timestamp) : Option (JsObject Id (List OutboxEnvelope)) :=
  backups.map fun backups =>
    if backups.values.all fun entries => entries.all (freshBackup now) then backups
    else
      (backups.mapValues fun _ entries => entries.filter (freshBackup now)).filterEntries
        fun entry => 0 < entry.2.length

/-- The backups with one more under the record's id. -/
def addBackup (state : PersistedSyncState) (now : Timestamp) (id : Id)
    (earlier originals : List OutboxEnvelope) : Option (JsObject Id (List OutboxEnvelope)) :=
  if originals.length = 0 then state.reconciliationBackups
  else
    some ((state.reconciliationBackups.getD ∅).set id (earlier ++ backedUp now originals))

def concerns (record : ProducerRecovery) (fileId : Id) : Bool := fileId ∈ record.fileIds

def withProducerFiles (producer : ProducerState) (record : ProducerRecovery) : ProducerState where
  mappings := (producer.mappings.filter fun mapping => !concerns record mapping.fileId) ++
    record.state.mappings.map JournalMapping.mappingMetadata
  heads := (producer.heads.filterEntries fun entry => !concerns record entry.1).assign
    record.state.heads

/-- One file of a record rolled forward. -/
def rollFile (record : ProducerRecovery) (bases : ApplyState) (fileId : Id) : ApplyState :=
  let mapping := record.state.mappings.find? fun m => m.mappingMetadata.fileId = fileId
  let pathOwners := bases.pathOwners.filterEntries fun entry =>
    ¬ (entry.2 = fileId ∧ some entry.1 ≠ mapping.map fun m => m.mappingMetadata.path)
  match mapping with
  | none =>
    { pathOwners := pathOwners
      baseHashes := bases.baseHashes.erase fileId
      baseContents := bases.baseContents.erase fileId }
  | some m =>
    let baseHashes :=
      if bases.baseHashes.get fileId = none then
        bases.baseHashes.set fileId m.mappingMetadata.contentHash
      else bases.baseHashes
    { pathOwners := pathOwners.set m.mappingMetadata.path fileId
      baseHashes := baseHashes
      baseContents :=
        match m.content with
        | none => bases.baseContents
        | some content =>
          if m.mappingMetadata.contentKind ≠ some .binary ∧
              bases.baseContents.get fileId = none ∧
              baseHashes.get fileId = some m.mappingMetadata.contentHash then
            bases.baseContents.set fileId content
          else bases.baseContents }

def rolledForward (state : PersistedSyncState) (record : ProducerRecovery) :
    PersistedSyncState :=
  let bases := record.fileIds.foldl (rollFile record)
    ⟨state.pathOwners, state.baseHashes, state.baseContents⟩
  { state with
    pathOwners := bases.pathOwners
    baseHashes := bases.baseHashes
    baseContents := bases.baseContents
    producer := some (withProducerFiles state.producerState record)
    producerRecovery := some (state.journal.filter fun r => r.id ≠ record.id) }

/-- An unfinished transaction on one of the record's files. -/
def inTransaction (state : PersistedSyncState) (record : ProducerRecovery) : Bool :=
  state.journal.any fun r => r.fileIds.any fun id => concerns record id

/-- Whether the swap of the record's discarded revisions would lose or orphan
queued work. -/
def swapRefused (state : PersistedSyncState) (record : ProducerRecovery)
    (replacement : Option OutboxEnvelope) : Bool :=
  let ids := record.discardRevisionIds
  let originals := state.outbox.filter fun envelope => envelope.revisionId ∈ ids
  originals.length ≠ ids.dedup.length ∨ hasUncoveredChildren state ids ∨
    replacement.any fun envelope =>
      envelope.revisionId ∈ ids ∨ envelope.parents.any fun id => id ∈ ids

def swapped (state : PersistedSyncState) (now : Timestamp) (record : ProducerRecovery)
    (replacement : Option OutboxEnvelope) : PersistedSyncState :=
  let ids := record.discardRevisionIds
  { state with
    outbox := (state.outbox.filter fun envelope => envelope.revisionId ∉ ids) ++
      replacement.toList.map fun envelope => { envelope with enqueuedAt := some now }
    reconciliationBackups := addBackup state now record.id []
      (state.outbox.filter fun envelope => envelope.revisionId ∈ ids) }

/-- The journal entry of a started transaction: an apply's with what it may undo. -/
def journalled (state : PersistedSyncState) (record : ProducerRecovery) : ProducerRecovery :=
  match record.kind with
  | .resolution => record
  | .apply =>
    { record with
      applyState := some
        { pathOwners := state.pathOwners.filterEntries fun entry => concerns record entry.2
          baseHashes := state.baseHashes.filterEntries fun entry => concerns record entry.1
          baseContents := state.baseContents.filterEntries fun entry => concerns record entry.1 } }

/-- What an interrupted apply rolls back to. -/
def rolledBack (state : PersistedSyncState) (now : Timestamp) (record : ProducerRecovery) :
    PersistedSyncState :=
  let ids := record.discardRevisionIds
  let restored := match record.applyState with
    | none => state
    | some undo =>
      { state with
        pathOwners :=
          (state.pathOwners.filterEntries fun entry => !concerns record entry.2).assign
            undo.pathOwners
        baseHashes :=
          (state.baseHashes.filterEntries fun entry => !concerns record entry.1).assign
            undo.baseHashes
        baseContents :=
          (state.baseContents.filterEntries fun entry => !concerns record entry.1).assign
            undo.baseContents }
  { restored with
    producer := some (withProducerFiles state.producerState record)
    producerRecovery := some (state.journal.filter fun r => r.id ≠ record.id)
    outbox := state.outbox.filter fun envelope => envelope.revisionId ∉ ids
    reconciliationBackups := addBackup state now record.id
      ((state.reconciliationBackups.getD ∅).get record.id |>.getD [])
      (state.outbox.filter fun envelope => envelope.revisionId ∈ ids) }

end Havemind.DurableState
