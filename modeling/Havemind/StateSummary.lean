import Havemind.DurableSections
import Havemind.HeadReconciliation

/-!
The document the vault's calls work with is a part of the durable one: `summary` takes it out,
and what a call reads of it, or an apply records in it, is the same in both.
-/
namespace Havemind.StateSummary

open JsText RevisionSchema SyncRunner VaultPayload RevisionHistory HeadReconciliation
  DurableOperations DurableSections List

section
variable (decode : JsString → DecodedRevisionPayload × ℕ)

/-- `decode` is what a payload's text decodes to, with the length of its bytes. -/
def envelopeOf (envelope : DurableState.OutboxEnvelope) : SyncState.OutboxEnvelope where
  header := envelope.header
  idempotencyKey := envelope.idempotencyKey
  revisionId := envelope.revisionId
  fileId := envelope.fileId
  contentHash := envelope.contentHash
  byteLength := (decode envelope.payloadBase64).2
  payload := (decode envelope.payloadBase64).1

def mappingOf (mapping : DurableState.LocalFileMapping) : SyncState.LocalFileMapping where
  fileId := mapping.fileId
  path := mapping.path
  collisionKey := mapping.collisionKey
  contentHash := mapping.contentHash
  contentKind := mapping.contentKind.getD .markdown

def recordOf (record : DurableState.ProducerRecovery) : SyncState.ProducerRecovery where
  id := record.id
  fileIds := record.fileIds
  mappings := record.state.mappings.map fun mapping => mappingOf mapping.mappingMetadata
  heads := record.state.heads.get
  pathOwners := (record.applyState.map fun undo => undo.pathOwners.entries).getD []
  baseHashes id := record.applyState.bind fun undo => undo.baseHashes.get id
  discardRevisionIds := record.discardRevisionIds

def summary (state : DurableState.PersistedSyncState) : SyncState.PersistedSyncState where
  outbox := state.outbox.map (envelopeOf decode)
  locallyAuthored := state.locallyAuthored
  quarantinedEnvelopes := state.quarantinedEnvelopes.values.map (envelopeOf decode)
  pathOwners := state.pathOwners.entries
  baseHashes := state.baseHashes.get
  conflictArtifacts := state.conflictArtifacts.get
  producer := ⟨state.producerState.mappings.map mappingOf, state.producerState.heads.get⟩
  producerRecovery := state.journal.map recordOf

end

/-- What a call an apply makes does to that part. -/
def partCall : Operation → Option (SyncState.PersistedSyncState → SyncState.PersistedSyncState)
  | .recordApplied fileId path digest _ => some (SyncState.recordApplied · fileId path digest)
  | .recordPathOwner fileId path => some (SyncState.recordPathOwner · fileId path)
  | .forgetPath path => some (SyncState.forgetPath · path)
  | .forgetBaseHash fileId => some (SyncState.forgetBaseHash · fileId)
  | .recordConflictArtifactPath id path _ =>
    some (SyncState.recordConflictArtifactPath · id path)
  | .completeProducerRecovery id => some (SyncState.completeProducerRecovery · id)
  | _ => none

section
variable {decode : JsString → DecodedRevisionPayload × ℕ}
  {state : DurableState.PersistedSyncState} {options : DurableState.SyncStateOptions}
  {now : Timestamp} {operation : Operation}
  {change : SyncState.PersistedSyncState → SyncState.PersistedSyncState}

theorem hasUncoveredChildren_summary (ids : List Id) :
    SyncState.hasUncoveredChildren (summary decode state) ids =
      DurableState.hasUncoveredChildren state ids := by
  unfold SyncState.hasUncoveredChildren DurableState.hasUncoveredChildren
  rw [Bool.eq_iff_iff, decide_eq_true_iff, any_eq_true]
  have hsame : (summary decode state).outbox ++ (summary decode state).quarantinedEnvelopes =
      state.envelopes.map (envelopeOf decode) := map_append.symm
  rw [hsame]
  simp only [mem_map, exists_exists_and_eq_and, decide_eq_true_eq, any_eq_true]
  rfl

theorem upsertMapping_summary (mappings : List DurableState.LocalFileMapping)
    (upsert : DurableState.LocalFileMapping) :
    (OutboxRepository.upsertMapping mappings upsert).map mappingOf =
      SyncState.upsertMapping (mappings.map mappingOf) (mappingOf upsert) := by
  unfold OutboxRepository.upsertMapping SyncState.upsertMapping
  rw [map_append, filter_map]
  rfl

theorem graph_summary (accepted : List RemoteEvent) (fileId : Id) :
    graph accepted (summary decode state) fileId = graphOf accepted state fileId := by
  unfold graph graphOf SyncState.listOutbox summary
  rw [map_map, map_map]
  rfl

theorem entries_set (owners : JsObject Path Id) (path : Path) (fileId : Id) :
    (owners.set path fileId).entries = SyncState.setOwner owners.entries path fileId := by
  unfold JsObject.set SyncState.setOwner
  by_cases h : path ∈ owners.entries.map Prod.fst
  · rw [dif_pos h, if_pos (by simpa using h)]
  · rw [dif_neg h, if_neg (by simpa using h)]

/-- Erasing only a key that is there is erasing it. -/
theorem getD_erase {K V S : Type} [DecidableEq K] (key : K) (object : JsObject K V)
    (put : JsObject K V → S) :
    ((if object.get key = none then none else some (put (object.erase key))).getD (put object)) =
      put (object.erase key) := by
  split_ifs with hnone
  · rw [JsObject.erase_of_get_none hnone]
    rfl
  · rfl

/-- A call an apply makes changes the vault's part of the document as the vault's call does. -/
theorem summary_nextState (hcall : partCall operation = some change) :
    summary decode ((nextState options now operation state).getD state) =
      change (summary decode state) := by
  cases operation with
  | recordApplied fileId path digest =>
    cases hcall
    have hhashes : (state.baseHashes.set fileId digest).get = fun id =>
        if id = fileId then some digest else state.baseHashes.get id :=
      funext fun id => JsObject.get_set state.baseHashes fileId id digest
    simp only [nextState, Option.getD_some, summary, SyncState.recordApplied, entries_set, hhashes]
    rfl
  | recordPathOwner fileId path =>
    cases hcall
    simp only [nextState, Option.getD_some, summary, SyncState.recordPathOwner, entries_set]
    rfl
  | forgetPath path =>
    cases hcall
    have herase := getD_erase path state.pathOwners fun owners =>
      ({ state with pathOwners := owners } : DurableState.PersistedSyncState)
    exact congrArg (summary decode) herase
  | forgetBaseHash fileId =>
    cases hcall
    have herase := getD_erase fileId state.baseHashes fun hashes =>
      ({ state with baseHashes := hashes } : DurableState.PersistedSyncState)
    refine (congrArg (summary decode) herase).trans ?_
    have hhashes : (state.baseHashes.erase fileId).get = fun id =>
        if id = fileId then none else state.baseHashes.get id :=
      funext fun id => JsObject.get_erase state.baseHashes fileId id
    simp only [summary, SyncState.forgetBaseHash, hhashes]
    rfl
  | recordConflictArtifactPath id path =>
    cases hcall
    have hpaths : (state.conflictArtifacts.set id path).get = fun other =>
        if other = id then some path else state.conflictArtifacts.get other :=
      funext fun other => JsObject.get_set state.conflictArtifacts id other path
    simp only [nextState, Option.getD_some, summary, SyncState.recordConflictArtifactPath, hpaths]
    rfl
  | completeProducerRecovery id =>
    cases hcall
    have hjournal : (state.journal.filter fun record => record.id ≠ id).map recordOf =
        (state.journal.map recordOf).filter fun record => record.id ≠ id := by
      rw [filter_map]
      rfl
    simp only [nextState, Option.getD_some, summary, SyncState.completeProducerRecovery]
    rw [← hjournal]
    rfl
  | _ => cases hcall

end

end Havemind.StateSummary
