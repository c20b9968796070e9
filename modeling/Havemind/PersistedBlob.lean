import Havemind.DurableState

/-!
The durable document as it lies on disk, and how a load reads it: section by section,
since what is there may be damaged. A section a reader cannot use is told from one
that is missing, because some readers tell them apart.
-/
namespace Havemind.PersistedBlob

open RevisionSchema SyncRunner DurableState

inductive Field (α : Type)
  | absent
  | unreadable
  | readable (value : α)
  deriving DecidableEq

def Field.toOption {α : Type} : Field α → Option α
  | .readable value => some value
  | _ => none

/-- A section that degrades to its default. -/
def Field.orDefault {α : Type} (default : α) : Field α → α
  | .readable value => value
  | _ => default

def Field.ofOption {α : Type} : Option α → Field α
  | some value => .readable value
  | none => .absent

inductive RawEnvelope
  | readable (envelope : OutboxEnvelope)
  | unreadable (revisionId fileId : Option Id)
  deriving DecidableEq

/-- A producer section: the entries that are no mappings are `none`. -/
structure RawProducer where
  mappings : List (Option LocalFileMapping)
  heads : JsObject Id Id
  deriving DecidableEq

/-- An object found on disk. -/
structure RawState where
  versionOne : Bool := true
  producer : Field RawProducer := .absent
  producerRecovery : Field (List ProducerRecovery) := .absent
  reconciliationBackups : Field (JsObject Id (List OutboxEnvelope)) := .absent
  cursor : Field ℤ := .absent
  outbox : Field (List RawEnvelope) := .absent
  locallyAuthored : Field (List Id) := .absent
  deferred : Field (List RemoteEvent) := .absent
  quarantine : Field (List QuarantinedRevision) := .absent
  pathOwners : Field (JsObject Id Id) := .absent
  baseHashes : Field (JsObject Id VaultPayload.ContentHash) := .absent
  baseContents : Field (JsObject Id JsText.JsString) := .absent
  conflictArtifacts : Field (JsObject Id Id) := .absent
  conflictCopyFileIds : Field (JsObject Id Id) := .absent
  quarantinedEnvelopes : Field (JsObject Id OutboxEnvelope) := .absent
  deriving DecidableEq

inductive Raw
  | null
  | scalar
  | record (sections : RawState)
  deriving DecidableEq

/-- What a save writes of a state. -/
def written (state : PersistedSyncState) : RawState where
  producer := Field.ofOption (state.producer.map fun producer =>
    ⟨producer.mappings.map some, producer.heads⟩)
  producerRecovery := Field.ofOption state.producerRecovery
  reconciliationBackups := Field.ofOption state.reconciliationBackups
  cursor := .readable state.cursor
  outbox := .readable (state.outbox.map .readable)
  locallyAuthored := .readable state.locallyAuthored
  deferred := .readable state.deferred
  quarantine := .readable state.quarantine
  pathOwners := .readable state.pathOwners
  baseHashes := .readable state.baseHashes
  baseContents := .readable state.baseContents
  conflictArtifacts := .readable state.conflictArtifacts
  conflictCopyFileIds := Field.ofOption state.conflictCopyFileIds
  quarantinedEnvelopes := .readable state.quarantinedEnvelopes

/-- Texts the journal holds may not be empty. -/
def validTexts (ids : List Id) : Bool := ids.all fun id => id ≠ emptyText

def validRecovery (record : ProducerRecovery) : Bool :=
  record.id ≠ emptyText ∧ validTexts record.fileIds ∧ validTexts record.discardRevisionIds ∧
    (record.state.heads.entries.all fun entry => concerns record entry.1) ∧
    record.state.mappings.all fun m =>
      (record.kind ≠ .resolution ∨ m.mappingMetadata.contentKind = some .binary ∨
        m.content.isSome) ∧
      concerns record m.mappingMetadata.fileId

def validJournal : Field (List ProducerRecovery) → Bool
  | .absent => true
  | .unreadable => false
  | .readable records => records.all validRecovery

def validBackups : Field (JsObject Id (List OutboxEnvelope)) → Bool
  | .absent => true
  | .unreadable => false
  | .readable backups => backups.values.all fun entries =>
    entries.all fun envelope => envelope.payloadExternalized ≠ some true

/-- The journal and the backups can be used as they are. -/
def validRecoveryFields (raw : RawState) : Bool :=
  validJournal raw.producerRecovery && validBackups raw.reconciliationBackups

def parseEnvelope (envelope : OutboxEnvelope) : OutboxEnvelope :=
  { envelope with
    payloadExternalized := envelope.payloadExternalized.filter (· = true)
    backedUpAt := none }

def quarantineForCorruptEnvelope (options : SyncStateOptions) (revisionId fileId : Option Id)
    (index : ℕ) : QuarantinedRevision where
  revisionId := revisionId.getD (options.corruptEnvelopeId index)
  fileId := fileId.getD emptyText
  reason := corruptEnvelopeReason

def parseOutboxEntries (options : SyncStateOptions) (outbox : List RawEnvelope) :
    List OutboxEnvelope × List QuarantinedRevision :=
  (outbox.filterMap fun
      | .readable envelope => some (parseEnvelope envelope)
      | .unreadable _ _ => none,
    outbox.zipIdx.filterMap fun
      | (.readable _, _) => none
      | (.unreadable revisionId fileId, index) =>
        some (quarantineForCorruptEnvelope options revisionId fileId index))

def parseRemoteEvent (event : RemoteEvent) : Option RemoteEvent :=
  if event.serverSequence ≤ maxSafeInteger then
    some
      { serverSequence := event.serverSequence
        revision :=
          { revisionId := event.revision.revisionId
            fileId := event.revision.fileId
            contentHash := event.revision.contentHash
            parentRevisionIds := none
            authorMembershipId := none
            acceptedAt := none } }
  else none

def parseEnvelopeMap (envelopes : JsObject Id OutboxEnvelope) : JsObject Id OutboxEnvelope :=
  envelopes.mapValues fun _ => parseEnvelope

/-- The stored producer: what is no mapping is left out, what is no producer is empty. -/
def parseProducerField : Field RawProducer → Option ProducerState
  | .absent => none
  | .unreadable => some emptyProducer
  | .readable raw => some ⟨raw.mappings.filterMap id, raw.heads⟩

def safeCursor (cursor : ℤ) : Bool := 0 ≤ cursor ∧ cursor ≤ maxSafeInteger

def strictParse (options : SyncStateOptions) (raw : RawState) : Option PersistedSyncState :=
  if validRecoveryFields raw = false ∨ raw.versionOne = false then none
  else
    match raw.cursor.toOption.filter safeCursor, raw.outbox.toOption,
        raw.locallyAuthored.toOption, raw.deferred.toOption with
    | some cursor, some outbox, some locallyAuthored, some deferred =>
      (deferred.mapM parseRemoteEvent).map fun parsedDeferred =>
        let entries := parseOutboxEntries options outbox
        { producer := parseProducerField raw.producer
          producerRecovery := raw.producerRecovery.toOption
          reconciliationBackups := raw.reconciliationBackups.toOption
          cursor := cursor.toNat
          outbox := entries.1
          locallyAuthored := locallyAuthored
          deferred := parsedDeferred
          quarantine := raw.quarantine.orDefault [] ++ entries.2
          pathOwners := raw.pathOwners.orDefault ∅
          baseHashes := raw.baseHashes.orDefault ∅
          baseContents := raw.baseContents.orDefault ∅
          conflictArtifacts := raw.conflictArtifacts.orDefault ∅
          conflictCopyFileIds := raw.conflictCopyFileIds.toOption
          quarantinedEnvelopes := parseEnvelopeMap (raw.quarantinedEnvelopes.orDefault ∅) }
    | _, _, _, _ => none

def salvageDeferred (deferred : Field (List RemoteEvent)) : List RemoteEvent :=
  ((deferred.orDefault []).mapM parseRemoteEvent).getD []

/-- The readable queue of a damaged blob, with defaults for what is damaged. -/
def salvageState (options : SyncStateOptions) (raw : RawState) : Option PersistedSyncState :=
  raw.outbox.toOption.map fun outbox =>
    let entries := parseOutboxEntries options outbox
    { producer := parseProducerField raw.producer
      producerRecovery := raw.producerRecovery.toOption
      reconciliationBackups := raw.reconciliationBackups.toOption
      cursor := ((raw.cursor.toOption.filter safeCursor).getD 0).toNat
      outbox := entries.1
      locallyAuthored := raw.locallyAuthored.orDefault []
      deferred := salvageDeferred raw.deferred
      quarantine := raw.quarantine.orDefault [] ++ entries.2
      pathOwners := raw.pathOwners.orDefault ∅
      baseHashes := raw.baseHashes.orDefault ∅
      baseContents := raw.baseContents.orDefault ∅
      conflictArtifacts := raw.conflictArtifacts.orDefault ∅
      conflictCopyFileIds := raw.conflictCopyFileIds.toOption
      quarantinedEnvelopes := parseEnvelopeMap (raw.quarantinedEnvelopes.orDefault ∅) }

/-- The outcome of reading a blob. -/
inductive ParseResult
  | absent
  | ok (state : PersistedSyncState)
  | corrupt (salvage : Option PersistedSyncState) (outboxAtRisk : Bool)

def outboxAtRisk (raw : RawState) : Bool := raw.outbox = .unreadable

def parsePersistedState (options : SyncStateOptions) : Raw → ParseResult
  | .null => .absent
  | .scalar => .corrupt none false
  | .record raw =>
    match strictParse options raw with
    | some state => .ok state
    | none => .corrupt (salvageState options raw) (outboxAtRisk raw)

def salvageHasOutboxEntriesMissingFrom (salvage : Option PersistedSyncState)
    (backupOutbox : List OutboxEnvelope) : Bool :=
  salvage.any fun salvage => salvage.outbox.any fun entry =>
    backupOutbox.all fun kept => kept.revisionId ≠ entry.revisionId

/-- What a load finds of a producer section: nothing, one it can use with or without
damaged entries, or one it cannot use. -/
inductive ProducerParse
  | absent
  | ok (state : ProducerState) (damaged : Bool)
  | corrupt

def parseProducerStateResult : Field RawProducer → ProducerParse
  | .absent => .absent
  | .unreadable => .corrupt
  | .readable raw => .ok ⟨raw.mappings.filterMap id, raw.heads⟩ (raw.mappings.any Option.isNone)

end Havemind.PersistedBlob
