import Havemind.ProducerIndex

/-!
What every mapping has that a device keeps, in the producer or in a journal entry that may put
it back. No method makes up a mapping: it keeps those there are, takes one it is given, or
puts a stat on one.
-/
namespace Havemind.SavedMappings

open RevisionSchema VaultPayload DurableState DurableOperations DurableSections List DurableReload
  OutboxRepository ClientRuns ProducerIndex

section
variable {P Q : LocalFileMapping → Prop} {mappings : List LocalFileMapping}
  {producer next : ProducerState} {record : ProducerRecovery}

/-- One mapping for each file. -/
def FilesApart (mappings : List LocalFileMapping) : Prop :=
  (mappings.map LocalFileMapping.fileId).Nodup

/-- The mappings of an entry, each of a file of its own that the entry is about. -/
structure SavedRecord (P : LocalFileMapping → Prop) (record : ProducerRecovery) : Prop where
  apart : FilesApart (restoredMappings record)
  files : ∀ mapping ∈ restoredMappings record, mapping.fileId ∈ record.fileIds
  holds : ∀ mapping ∈ restoredMappings record, P mapping

theorem FilesApart.filter (h : FilesApart mappings) (keep : LocalFileMapping → Bool) :
    FilesApart (mappings.filter keep) := h.sublist (filter_sublist.map _)

theorem FilesApart.append {added : List LocalFileMapping} (h : FilesApart mappings)
    (h' : FilesApart added)
    (hfiles : ∀ mapping ∈ mappings, ∀ other ∈ added, mapping.fileId ≠ other.fileId) :
    FilesApart (mappings ++ added) := by
  unfold FilesApart
  rw [map_append]
  refine List.Nodup.append h h' fun id hid hid' => ?_
  obtain ⟨mapping, hmem, rfl⟩ := mem_map.mp hid
  obtain ⟨other, hother, hsame⟩ := mem_map.mp hid'
  exact hfiles mapping hmem other hother hsame.symm

theorem FilesApart.upsert (h : FilesApart mappings) (upsert : LocalFileMapping) :
    FilesApart (upsertMapping mappings upsert) := by
  refine (h.filter _).append (nodup_singleton _) ?_
  intro mapping hmem other hother
  rw [mem_singleton.mp hother]
  exact (of_decide_eq_true (mem_filter.mp hmem).2).1

theorem FilesApart.committed (h : FilesApart mappings) (commit : LocalChangeCommit) :
    FilesApart (nextMappings mappings commit) := by
  unfold nextMappings
  cases commit.removeFileId with
  | none =>
    cases commit.upsertMapping with
    | none => exact h
    | some upsert => exact h.upsert upsert
  | some removed =>
    cases commit.upsertMapping with
    | none => exact h.filter _
    | some upsert => exact (h.filter _).upsert upsert

theorem FilesApart.stats (h : FilesApart mappings) (entries : List StatEntry) :
    FilesApart (mappings.map (withStat entries)) := by
  have hsame : LocalFileMapping.fileId ∘ withStat entries = LocalFileMapping.fileId :=
    funext fun mapping => (withStat_same entries mapping).1
  unfold FilesApart
  rw [map_map, hsame]
  exact h

theorem SavedRecord.mono (h : SavedRecord P record) (hPQ : ∀ mapping, P mapping → Q mapping) :
    SavedRecord Q record :=
  ⟨h.apart, h.files, fun mapping hmem => hPQ mapping (h.holds mapping hmem)⟩

/-- What an entry puts back. -/
theorem SavedRecord.restore (hrecord : SavedRecord P record) (h : FilesApart producer.mappings)
    (hP : ∀ mapping ∈ producer.mappings, P mapping) :
    FilesApart (withProducerFiles producer record).mappings ∧
      ∀ mapping ∈ (withProducerFiles producer record).mappings, P mapping := by
  constructor
  · refine (h.filter _).append hrecord.apart ?_
    intro mapping hmem other hother hsame
    have hkept := (mem_filter.mp hmem).2
    rw [hsame] at hkept
    simp [concerns, hrecord.files other hother] at hkept
  · intro mapping hmem
    rcases mem_append.mp hmem with hkept | hrestored
    · exact hP mapping (mem_filter.mp hkept).1
    · exact hrecord.holds mapping hrestored

/-- An entry of the mappings of its files. -/
theorem savedRecord_filter {record : ProducerRecovery} {mappings : List LocalFileMapping}
    (hrestored : restoredMappings record =
      mappings.filter fun mapping => mapping.fileId ∈ record.fileIds)
    (hapart : FilesApart mappings) (hP : ∀ mapping ∈ mappings, P mapping) :
    SavedRecord P record := by
  constructor
  · rw [hrestored]
    exact hapart.filter _
  · intro mapping hmem
    rw [hrestored] at hmem
    exact of_decide_eq_true (mem_filter.mp hmem).2
  · intro mapping hmem
    rw [hrestored] at hmem
    exact hP mapping (mem_filter.mp hmem).1

theorem savedRecord_commit (producer : ProducerState) (hapart : FilesApart next.mappings)
    (hP : ∀ mapping ∈ next.mappings, P mapping) (id : Id) (operation : LocalChangeOperation) :
    SavedRecord P (commitRecord id producer next operation) :=
  savedRecord_filter (restoredMappings_commitRecord id producer next operation) hapart hP

theorem savedRecord_checkpoint (hapart : FilesApart producer.mappings)
    (hP : ∀ mapping ∈ producer.mappings, P mapping) (id fileId : Id) (paths : List Path) :
    SavedRecord P (checkpointRecord id producer fileId paths) :=
  savedRecord_filter (restoredMappings_checkpointRecord id producer fileId paths) hapart hP

theorem savedRecord_resolution (id : Id) {mapping : LocalFileMapping} (hP : P mapping)
    (content : JsText.JsString) (revisionId : Id) (pendingIds : List Id) :
    SavedRecord P (resolutionRecord id mapping content revisionId pendingIds) where
  apart := nodup_singleton _
  files := by
    intro other hmem
    rw [mem_singleton.mp hmem]
    exact mem_singleton_self _
  holds := by
    intro other hmem
    rw [mem_singleton.mp hmem]
    exact hP

end

section
variable {P Q : LocalFileMapping → Prop} {options : SyncStateOptions} {now : Timestamp}
  {state next : PersistedSyncState} {record : ProducerRecovery} {recordId : Id}

structure Saved (P : LocalFileMapping → Prop) (state : PersistedSyncState) : Prop where
  apart : FilesApart state.producerState.mappings
  holds : ∀ mapping ∈ state.producerState.mappings, P mapping
  journal : ∀ record ∈ state.journal, SavedRecord P record

variable (h : Saved P state) {replacement : Option OutboxEnvelope}
include h

theorem Saved.mono (hPQ : ∀ mapping, P mapping → Q mapping) : Saved Q state :=
  ⟨h.apart, fun mapping hmem => hPQ mapping (h.holds mapping hmem),
    fun record hmem => (h.journal record hmem).mono hPQ⟩

omit h in
theorem saved_empty : Saved P emptyState :=
  ⟨nodup_nil, nofun, nofun⟩

theorem Saved.of_same (hproducer : next.producer = state.producer)
    (hjournal : next.producerRecovery = state.producerRecovery) : Saved P next := by
  obtain ⟨hapart, hholds, hrecords⟩ := h
  unfold PersistedSyncState.producerState at hapart hholds
  unfold PersistedSyncState.journal at hrecords
  rw [← hproducer] at hapart hholds
  rw [← hjournal] at hrecords
  exact ⟨hapart, hholds, hrecords⟩

theorem Saved.trimmed : Saved P (trimmed options state) := by
  refine h.of_same ?_ ?_ <;> rw [trimmed_eq]

/-- A finished entry put back over the current producer. -/
theorem Saved.restored (hrecord : SavedRecord P record)
    (hproducer : next.producerState = withProducerFiles state.producerState record)
    (hjournal : next.journal = state.journal.filter fun r => r.id ≠ record.id) : Saved P next := by
  obtain ⟨hapart, hholds⟩ := hrecord.restore h.apart h.holds
  rw [← hproducer] at hapart hholds
  refine ⟨hapart, hholds, ?_⟩
  rw [hjournal]
  exact fun r hr => h.journal r (mem_filter.mp hr).1

theorem Saved.saveProducer {producer : ProducerState} (hapart : FilesApart producer.mappings)
    (hP : ∀ mapping ∈ producer.mappings, P mapping)
    (hnext : nextState options now (.saveProducer producer) state = some next) : Saved P next := by
  cases hnext
  exact ⟨hapart, hP, h.journal⟩

/-- A transaction committed in one write. -/
theorem Saved.committed (hrecord : SavedRecord P record)
    (hnext : next = DurableState.trimmed options
      (rolledForward (swapped state now record replacement) record)) : Saved P next := by
  rw [hnext]
  exact (h.restored hrecord rfl rfl).trimmed

theorem Saved.started (hrecord : SavedRecord P record)
    (hnext : nextState options now (.startProducerRecovery record replacement) state = some next) :
    Saved P next := by
  simp only [nextState] at hnext
  split_ifs at hnext
  cases hnext
  refine ⟨h.apart, h.holds, fun r hr => ?_⟩
  rcases mem_append.mp hr with hbefore | hnow
  · exact h.journal r hbefore
  · rw [mem_singleton.mp hnow]
    obtain ⟨hmappings, hfiles⟩ := restoredMappings_journalled state record
    refine ⟨?_, ?_, ?_⟩
    · rw [hmappings]
      exact hrecord.apart
    · rw [hmappings, hfiles]
      exact hrecord.files
    · rw [hmappings]
      exact hrecord.holds

theorem Saved.merged {envelope : OutboxEnvelope}
    (hnext : nextState options now (.enqueueAutomaticMerge envelope) state = some next) :
    Saved P next := by
  obtain ⟨record, -, rfl⟩ := Option.map_eq_some_iff.mp hnext
  refine ⟨h.apart, h.holds, fun r hr => ?_⟩
  obtain ⟨r', hr', rfl⟩ := mem_map.mp hr
  have hsaved := h.journal r' hr'
  split_ifs
  · exact ⟨hsaved.apart, hsaved.files, hsaved.holds⟩
  · exact hsaved

theorem Saved.recovered
    (hnext : nextState options now (.recoverProducerQueue recordId) state = some next) :
    Saved P next := by
  obtain ⟨record, hfind, hnext⟩ := Option.bind_eq_some_iff.mp hnext
  have hsaved := h.journal record (mem_of_find?_eq_some hfind)
  cases hkind : record.kind with
  | resolution =>
    simp only [hkind] at hnext
    cases hnext
    exact h.restored hsaved rfl rfl
  | apply =>
    simp only [hkind] at hnext
    split_ifs at hnext
    cases hnext
    exact h.restored hsaved rfl rfl

theorem Saved.completed
    (hnext : nextState options now (.completeProducerRecovery recordId) state = some next) :
    Saved P next := by
  cases hnext
  exact ⟨h.apart, h.holds, fun r hr => h.journal r (mem_filter.mp hr).1⟩

omit h in
/-- A local commit keeps every mapping it is to leave. -/
theorem mem_committed {builder : EnvelopeBuilder} {revisionId : Id} {commit : LocalChangeCommit}
    {transaction : Transaction} (h : FilesApart state.producerState.mappings)
    (hcommitted : RepositoryMethods.Locally options builder now revisionId recordId state commit
      transaction) {mapping : LocalFileMapping}
    (hmem : mapping ∈ nextMappings state.producerState.mappings commit) :
    mapping ∈ transaction.after.producerState.mappings := by
  have hafter : transaction.after.producerState =
      withProducerFiles state.producerState transaction.record := by
    rw [hcommitted.after, trimmed_eq]
    rfl
  have hnext : (applyCommit state.producerState commit (transaction.replacement.map
      OutboxEnvelope.revisionId)).mappings = nextMappings state.producerState.mappings commit := rfl
  have hapart := h.committed commit
  rw [← hnext] at hmem hapart
  rw [hafter, hcommitted.record]
  by_cases hconcerned : mapping.fileId ∈ (commit.operation.fileId :: changedFiles state.producerState
      (applyCommit state.producerState commit
        (transaction.replacement.map OutboxEnvelope.revisionId))).eraseDups
  · refine mem_append_right _ ?_
    change mapping ∈ restoredMappings _
    rw [restoredMappings_commitRecord]
    exact mem_filter.mpr ⟨hmem, decide_eq_true hconcerned⟩
  · refine mem_append_left _ (mem_filter.mpr ⟨?_, ?_⟩)
    · refine mem_before_of_unchanged hapart hmem fun hchanged => hconcerned ?_
      exact mem_eraseDups.mpr (mem_cons_of_mem _ hchanged)
    · rw [Bool.not_eq_true']
      exact decide_eq_false hconcerned

end

variable {P Q : LocalFileMapping → Prop} {options : ClientOptions} {world world' : ClientWorld}
  {action : ClientAction}

structure ClientSaved (P : LocalFileMapping → Prop) (world : ClientWorld) : Prop where
  state : Saved P world.state
  backup : Saved P world.backup

variable (h : ClientSaved P world)
include h

theorem ClientSaved.mono (hPQ : ∀ mapping, P mapping → Q mapping) :
    ClientSaved Q world := ⟨h.state.mono hPQ, h.backup.mono hPQ⟩

/-- The mappings the action is given, and those it puts a stat on. -/
def Brings (P : LocalFileMapping → Prop) (world : ClientWorld) : ClientAction → Prop
  | .commitLocalChange commit _ _ _ => ∀ mapping, commit.upsertMapping = some mapping → P mapping
  | .adoptRemoteMapping mapping _ => P mapping
  | .commitHeadResolution input _ _ _ => P input.mapping
  | .recordStats entries =>
    ∀ mapping ∈ world.state.producerState.mappings, P (withStat entries mapping)
  | _ => True

theorem ClientSaved.performing {now : Timestamp} {operation : Operation}
    (hdone : performing options world now operation = some world')
    (hop : ∀ next, nextState options.document now operation world.state = some next →
      Saved P next) : ClientSaved P world' := by
  obtain ⟨next, hnext, rfl⟩ := performing_eq_some hdone
  exact ⟨(hop next hnext).trimmed, h.state⟩

theorem Saved.loaded {next : PersistedSyncState} (hload : Loads world next) : Saved P next := by
  obtain ⟨stored, hstored, hreloaded, hmissing⟩ := hload
  have hsaved : Saved P stored := by
    rcases hstored with rfl | rfl
    · exact h.state
    · exact h.backup
  have hjournal : next.journal = stored.journal := by
    unfold PersistedSyncState.journal
    rw [hreloaded.journal]
  have hkept : ∀ other : PersistedSyncState, Saved P other → next.producer = other.producer →
      Saved P next := by
    intro other hother hproducer
    have hsame : next.producerState = other.producerState := by
      unfold PersistedSyncState.producerState
      rw [hproducer]
    refine ⟨hsame ▸ hother.apart, hsame ▸ hother.holds, ?_⟩
    rw [hjournal]
    exact hsaved.journal
  by_cases hnone : stored.producer = none
  · rcases hmissing hnone with hnext | hnext | hnext
    · exact hkept emptyState saved_empty hnext
    · exact hkept { emptyState with producer := some emptyProducer } ⟨nodup_nil, nofun, nofun⟩ hnext
    · exact hkept world.state h.state hnext
  · exact hkept stored hsaved (hreloaded.producer hnone)

omit h in
theorem mem_nextMappings_cases {mappings : List LocalFileMapping} {commit : LocalChangeCommit}
    (hP : ∀ mapping ∈ mappings, P mapping)
    (hcommit : ∀ mapping, commit.upsertMapping = some mapping → P mapping) :
    ∀ mapping ∈ nextMappings mappings commit, P mapping := by
  intro mapping hmem
  rcases ChangeObserver.mem_nextMappings hmem with hold | hnew
  · exact hP mapping hold
  · exact hcommit mapping hnew

theorem clientSaved_step (hbrings : Brings P world action) (hreloads : reloads world action)
    (hstep : clientStep options world action = some world') : ClientSaved P world' := by
  cases action with
  | commitLocalChange commit revisionId recordId now =>
    obtain ⟨transaction, hcommitted, rfl⟩ := commitLocalChange_step hstep
    have hrecord : SavedRecord P transaction.record := by
      rw [hcommitted.record]
      exact savedRecord_commit _ (h.state.apart.committed commit)
        (mem_nextMappings_cases h.state.holds hbrings) recordId commit.operation
    exact ⟨h.state.committed hrecord hcommitted.after, h.state⟩
  | checkpointApply recordId fileId paths now =>
    obtain ⟨next, hnext, rfl⟩ := checkpointApply_step hstep
    have hstarted := h.state.started
      (savedRecord_checkpoint h.state.apart h.state.holds recordId fileId paths) hnext
    exact ⟨hstarted.trimmed, h.state⟩
  | enqueueMerge input revisionId now =>
    obtain ⟨envelope, -, hmerged⟩ := enqueueMerge_step hstep
    exact h.performing hmerged fun next hnext => h.state.merged hnext
  | adoptRemoteMapping mapping headRevisionId =>
    refine h.performing hstep fun next hnext => ?_
    refine h.state.saveProducer (h.state.apart.upsert mapping) ?_ hnext
    intro other hmem
    rcases ChangeObserver.mem_upsertMapping hmem with hold | rfl
    · exact h.state.holds other hold
    · exact hbrings
  | forgetRemoteMapping collisionKey fileId =>
    refine h.performing hstep fun next hnext => ?_
    refine h.state.saveProducer (h.state.apart.filter _) ?_ hnext
    exact fun other hmem => h.state.holds other (mem_filter.mp hmem).1
  | completeApply recordId =>
    obtain ⟨-, next, hcompleted, rfl⟩ := completeApply_step hstep
    have hkept := h.performing hcompleted fun next hnext => h.state.completed hnext
    exact ⟨hkept.state, hkept.backup⟩
  | endApply recordId =>
    obtain ⟨-, rfl⟩ := endApply_step hstep
    exact ⟨h.state, h.backup⟩
  | recoverRecord recordId now =>
    obtain ⟨-, hrecovered⟩ := recoverRecord_step hstep
    exact h.performing hrecovered fun next hnext => h.state.recovered hnext
  | commitHeadResolution input revisionId recordId now =>
    obtain ⟨transaction, hresolved, hbefore, rfl⟩ := commitHeadResolution_step hstep
    have hrecord := savedRecord_resolution recordId hbrings input.content
      (input.existingRevisionId.getD revisionId) input.pendingIds
    rw [← hresolved.record] at hrecord
    have hafter := hresolved.after
    rw [hbefore] at hafter
    exact ⟨h.state.committed hrecord hafter, h.state⟩
  | recordStats entries =>
    refine h.performing hstep fun next hnext => ?_
    refine h.state.saveProducer (h.state.apart.stats entries) ?_ hnext
    intro other hmem
    obtain ⟨mapping, hmapping, rfl⟩ := mem_map.mp hmem
    exact hbrings mapping hmapping
  | document operation now =>
    obtain ⟨hkind, hdone⟩ := document_step hstep
    refine h.performing hdone fun next hnext => ?_
    obtain ⟨hproducer, hjournal⟩ := nextState_bookkeeping hkind hnext
    exact h.state.of_same hproducer hjournal
  | reload next backup =>
    cases hstep
    exact ⟨Saved.loaded h hreloads.1, Saved.loaded h hreloads.2⟩

end Havemind.SavedMappings
