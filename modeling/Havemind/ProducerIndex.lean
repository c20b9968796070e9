import Havemind.ChangeObserver
import Havemind.ClientRuns
import Havemind.HeadAbsorption

/-!
The producer's index: no two of its mappings share a file, and none share a collision key.
Every method keeps it that rebuilds the list by file and by key; one that puts mappings back
by file alone keeps it as long as no other file has taken one of their keys meanwhile.
-/
namespace Havemind.ProducerIndex

open RevisionSchema VaultPayload Runs DurableState DurableOperations DurableSections List
  DurableReload OutboxRepository ChangeObserver ClientRuns

structure UniqueMappings (mappings : List LocalFileMapping) : Prop where
  files : (mappings.map LocalFileMapping.fileId).Nodup
  keys : (mappings.map LocalFileMapping.collisionKey).Nodup

section
variable {mappings kept : List LocalFileMapping} {mapping other : LocalFileMapping}

variable (h : UniqueMappings mappings)
include h

theorem UniqueMappings.sublist (hsub : kept.Sublist mappings) :
    UniqueMappings kept := ⟨h.files.sublist (hsub.map _), h.keys.sublist (hsub.map _)⟩

theorem UniqueMappings.eq_of_file (hmem : mapping ∈ mappings) (hother : other ∈ mappings)
    (hfile : mapping.fileId = other.fileId) : mapping = other :=
  inj_on_of_nodup_map h.files hmem hother hfile

theorem UniqueMappings.eq_of_key (hmem : mapping ∈ mappings) (hother : other ∈ mappings)
    (hkey : mapping.collisionKey = other.collisionKey) :
    mapping = other := inj_on_of_nodup_map h.keys hmem hother hkey

theorem UniqueMappings.nodup : mappings.Nodup :=
  List.Nodup.of_map _ h.files

/-- Two lists of mappings that share neither a file nor a key. -/
theorem UniqueMappings.append {restored : List LocalFileMapping} (h' : UniqueMappings restored)
    (hfiles : ∀ m ∈ mappings, ∀ m' ∈ restored, m.fileId ≠ m'.fileId)
    (hkeys : ∀ m ∈ mappings, ∀ m' ∈ restored, m.collisionKey ≠ m'.collisionKey) :
    UniqueMappings (mappings ++ restored) := by
  constructor
  · rw [map_append]
    refine h.files.append h'.files fun id hid hid' => ?_
    obtain ⟨m, hm, rfl⟩ := mem_map.mp hid
    obtain ⟨m', hm', heq⟩ := mem_map.mp hid'
    exact hfiles m hm m' hm' heq.symm
  · rw [map_append]
    refine h.keys.append h'.keys fun key hkey hkey' => ?_
    obtain ⟨m, hm, rfl⟩ := mem_map.mp hkey
    obtain ⟨m', hm', heq⟩ := mem_map.mp hkey'
    exact hkeys m hm m' hm' heq.symm

theorem UniqueMappings.upsert (upsert : LocalFileMapping) :
    UniqueMappings (upsertMapping mappings upsert) := by
  refine (h.sublist filter_sublist).append ⟨nodup_singleton _, nodup_singleton _⟩
    ?_ ?_
  · intro m hm m' hm'
    rw [mem_singleton.mp hm']
    exact (of_decide_eq_true (mem_filter.mp hm).2).1
  · intro m hm m' hm'
    rw [mem_singleton.mp hm']
    exact (of_decide_eq_true (mem_filter.mp hm).2).2

theorem UniqueMappings.next (commit : LocalChangeCommit) :
    UniqueMappings (nextMappings mappings commit) := by
  unfold nextMappings
  cases commit.removeFileId with
  | none =>
    cases commit.upsertMapping with
    | none => exact h
    | some upsert => exact h.upsert upsert
  | some removed =>
    have hkept : UniqueMappings (mappings.filter fun mapping => mapping.fileId ≠ removed) :=
      h.sublist filter_sublist
    cases commit.upsertMapping with
    | none => exact hkept
    | some upsert => exact hkept.upsert upsert

theorem findMapping_of_mem (hmem : mapping ∈ mappings) :
    findMapping mappings mapping.collisionKey = some mapping := by
  cases hfound : findMapping mappings mapping.collisionKey with
  | none =>
    exact absurd (decide_eq_true rfl) (List.find?_eq_none.mp hfound mapping hmem)
  | some found =>
    obtain ⟨hother, hkey⟩ := findMapping_some hfound
    rw [h.eq_of_key hother hmem hkey]

omit h in
theorem mem_upsertMapping_of_ne {upsert : LocalFileMapping} (hmem : mapping ∈ mappings)
    (hfile : mapping.fileId ≠ upsert.fileId) (hkey : mapping.collisionKey ≠ upsert.collisionKey) :
    mapping ∈ upsertMapping mappings upsert :=
  mem_append_left _ (mem_filter.mpr ⟨hmem, decide_eq_true ⟨hfile, hkey⟩⟩)

omit h in
theorem withStat_same (entries : List StatEntry) (mapping : LocalFileMapping) :
    (withStat entries mapping).fileId = mapping.fileId ∧
      (withStat entries mapping).collisionKey = mapping.collisionKey := by
  unfold withStat
  split
  · exact ⟨rfl, rfl⟩
  · split_ifs <;> exact ⟨rfl, rfl⟩

theorem UniqueMappings.stats (entries : List StatEntry) :
    UniqueMappings (mappings.map (withStat entries)) := by
  constructor
  · rw [map_map]
    have hsame : LocalFileMapping.fileId ∘ withStat entries = LocalFileMapping.fileId :=
      funext fun mapping => (withStat_same entries mapping).1
    rw [hsame]
    exact h.files
  · rw [map_map]
    have hsame : LocalFileMapping.collisionKey ∘ withStat entries =
        LocalFileMapping.collisionKey :=
      funext fun mapping => (withStat_same entries mapping).2
    rw [hsame]
    exact h.keys

end

section
variable {producer next : ProducerState} {record : ProducerRecovery} {mapping : LocalFileMapping}
  {fileId : Id}

def restoredMappings (record : ProducerRecovery) : List LocalFileMapping :=
  record.state.mappings.map JournalMapping.mappingMetadata

/-- The mappings of an entry are an index of some of its files. -/
structure RecordIndex (record : ProducerRecovery) : Prop where
  unique : UniqueMappings (restoredMappings record)
  files : ∀ mapping ∈ restoredMappings record, mapping.fileId ∈ record.fileIds

/-- No file outside the entry holds a collision key of a mapping it puts back. -/
def RestoresFree (producer : ProducerState) (record : ProducerRecovery) : Prop :=
  ∀ mapping ∈ restoredMappings record, ∀ other ∈ producer.mappings,
    other.fileId ∉ record.fileIds → other.collisionKey ≠ mapping.collisionKey

/-- What an entry puts back. -/
theorem UniqueMappings.restore (h : UniqueMappings producer.mappings) (hrecord : RecordIndex record)
    (hfree : RestoresFree producer record) :
    UniqueMappings (withProducerFiles producer record).mappings := by
  have hout : ∀ m ∈ producer.mappings.filter fun mapping => !concerns record mapping.fileId,
      m ∈ producer.mappings ∧ m.fileId ∉ record.fileIds := by
    intro m hm
    obtain ⟨hmem, hkept⟩ := mem_filter.mp hm
    refine ⟨hmem, fun hin => ?_⟩
    simp [concerns, hin] at hkept
  refine (h.sublist filter_sublist).append hrecord.unique ?_ ?_
  · intro m hm m' hm' heq
    exact (hout m hm).2 (heq ▸ hrecord.files m' hm')
  · intro m hm m' hm'
    exact hfree m' hm' m (hout m hm).1 (hout m hm).2

/-- The last mapping of a file is its only one. -/
theorem shapeOf_of_mem (h : (producer.mappings.map LocalFileMapping.fileId).Nodup)
    (hmem : mapping ∈ producer.mappings) : shapeOf producer mapping.fileId = some mapping := by
  unfold shapeOf
  cases hfind : producer.mappings.reverse.find? fun m => m.fileId = mapping.fileId with
  | none =>
    have hnone := List.find?_eq_none.mp hfind mapping (mem_reverse.mpr hmem)
    simp at hnone
  | some found =>
    have hfound := mem_reverse.mp (mem_of_find?_eq_some hfind)
    have hfile : found.fileId = mapping.fileId := by simpa using List.find?_some hfind
    rw [inj_on_of_nodup_map h hfound hmem hfile]

theorem mem_of_shapeOf (h : shapeOf producer fileId = some mapping) : mapping ∈ producer.mappings :=
  mem_reverse.mp (mem_of_find?_eq_some h)

/-- A file that did not change has one shape in both states. -/
theorem shapeOf_unchanged
    (hlisted : fileId ∈ producer.mappings.map LocalFileMapping.fileId ∨
      fileId ∈ next.mappings.map LocalFileMapping.fileId)
    (hsame : fileId ∉ changedFiles producer next) :
    shapeOf producer fileId = shapeOf next fileId := by
  by_contra hne
  refine hsame (mem_filter.mpr ⟨?_, decide_eq_true (Or.inl hne)⟩)
  rw [mem_eraseDups]
  simp only [mem_append]
  exact Or.inl (Or.inl hlisted)

theorem mem_of_unchanged (h : (producer.mappings.map LocalFileMapping.fileId).Nodup)
    (hmem : mapping ∈ producer.mappings) (hsame : mapping.fileId ∉ changedFiles producer next) :
    mapping ∈ next.mappings := by
  have hshape := shapeOf_unchanged (.inl (mem_map_of_mem hmem)) hsame
  rw [shapeOf_of_mem h hmem] at hshape
  exact mem_of_shapeOf hshape.symm

theorem mem_before_of_unchanged (h : (next.mappings.map LocalFileMapping.fileId).Nodup)
    (hmem : mapping ∈ next.mappings) (hsame : mapping.fileId ∉ changedFiles producer next) :
    mapping ∈ producer.mappings := by
  have hshape := shapeOf_unchanged (.inr (mem_map_of_mem hmem)) hsame
  rw [shapeOf_of_mem h hmem] at hshape
  exact mem_of_shapeOf hshape

theorem restoredMappings_commitRecord (id : Id) (producer next : ProducerState)
    (operation : LocalChangeOperation) :
    restoredMappings (commitRecord id producer next operation) =
      next.mappings.filter fun mapping =>
        mapping.fileId ∈ (operation.fileId :: changedFiles producer next).eraseDups := by
  rw [restoredMappings, commitRecord]
  dsimp only
  rw [map_map]
  exact map_id _

theorem restoredMappings_checkpointRecord (id : Id) (producer : ProducerState) (fileId : Id)
    (paths : List Path) :
    restoredMappings (checkpointRecord id producer fileId paths) =
      producer.mappings.filter fun mapping =>
        mapping.fileId ∈ (checkpointRecord id producer fileId paths).fileIds := by
  rw [restoredMappings, checkpointRecord]
  dsimp only
  rw [map_map]
  exact map_id _

/-- A local commit's entry covers every file the commit displaces. -/
theorem commitRecord_index (h : UniqueMappings producer.mappings) (hnext : UniqueMappings next.mappings)
    (id : Id) (operation : LocalChangeOperation) :
    RecordIndex (commitRecord id producer next operation) ∧
      RestoresFree producer (commitRecord id producer next operation) := by
  have hmem : ∀ mapping ∈ restoredMappings (commitRecord id producer next operation),
      mapping ∈ next.mappings ∧
        mapping.fileId ∈ (commitRecord id producer next operation).fileIds := by
    intro mapping hmapping
    rw [restoredMappings_commitRecord] at hmapping
    obtain ⟨hin, hfile⟩ := mem_filter.mp hmapping
    exact ⟨hin, of_decide_eq_true hfile⟩
  refine ⟨⟨?_, fun mapping hmapping => (hmem mapping hmapping).2⟩, ?_⟩
  · rw [restoredMappings_commitRecord]
    exact hnext.sublist filter_sublist
  · intro mapping hmapping other hother hout hkey
    obtain ⟨hin, hfile⟩ := hmem mapping hmapping
    have hunchanged : other.fileId ∉ changedFiles producer next := fun hchanged =>
      hout (mem_eraseDups.mpr (mem_cons_of_mem _ hchanged))
    have hother' := mem_of_unchanged h.files hother hunchanged
    rw [hnext.eq_of_key hother' hin hkey] at hout
    exact hout hfile

theorem checkpointRecord_index (h : UniqueMappings producer.mappings) (id fileId : Id)
    (paths : List Path) : RecordIndex (checkpointRecord id producer fileId paths) := by
  have hrestored := restoredMappings_checkpointRecord id producer fileId paths
  constructor
  · rw [hrestored]
    exact h.sublist filter_sublist
  · intro mapping hmem
    rw [hrestored] at hmem
    exact of_decide_eq_true (mem_filter.mp hmem).2

theorem resolutionRecord_index (id : Id) (mapping : LocalFileMapping) (content : JsText.JsString)
    (revisionId : Id) (pendingIds : List Id) :
    RecordIndex (resolutionRecord id mapping content revisionId pendingIds) where
  unique := ⟨nodup_singleton _, nodup_singleton _⟩
  files := by
    intro m hmem
    rw [mem_singleton.mp hmem]
    exact mem_singleton_self _

end

section
variable {options : SyncStateOptions} {now : Timestamp} {state next : PersistedSyncState}
  {record : ProducerRecovery} {replacement : Option OutboxEnvelope} {recordId : Id}

/-- The producer is an index, and so is what every journal entry may put back. -/
structure Indexed (state : PersistedSyncState) : Prop where
  producer : UniqueMappings state.producerState.mappings
  journal : ∀ record ∈ state.journal, RecordIndex record

variable (h : Indexed state)
include h

theorem Indexed.of_same (hproducer : next.producer = state.producer)
    (hjournal : next.producerRecovery = state.producerRecovery) : Indexed next := by
  obtain ⟨hindex, hrecords⟩ := h
  unfold PersistedSyncState.producerState at hindex
  unfold PersistedSyncState.journal at hrecords
  rw [← hproducer] at hindex
  rw [← hjournal] at hrecords
  exact ⟨hindex, hrecords⟩

theorem Indexed.trimmed : Indexed (trimmed options state) := by
  refine h.of_same ?_ ?_ <;> rw [trimmed_eq]

omit h in
theorem indexed_empty : Indexed emptyState where
  producer := ⟨nodup_nil, nodup_nil⟩
  journal := by
    intro record hmem
    exact absurd hmem not_mem_nil

/-- A finished entry put back over the current producer. -/
theorem Indexed.restored (hrecord : RecordIndex record)
    (hfree : RestoresFree state.producerState record)
    (hproducer : next.producerState = withProducerFiles state.producerState record)
    (hjournal : next.journal = state.journal.filter fun r => r.id ≠ record.id) : Indexed next := by
  constructor
  · rw [hproducer]
    exact h.producer.restore hrecord hfree
  · rw [hjournal]
    exact fun r hr => h.journal r (mem_filter.mp hr).1

theorem Indexed.saveProducer {producer : ProducerState}
    (hunique : UniqueMappings producer.mappings)
    (hnext : nextState options now (.saveProducer producer) state = some next) : Indexed next := by
  cases hnext
  exact ⟨hunique, h.journal⟩

/-- A transaction committed in one write. -/
theorem Indexed.committed (hrecord : RecordIndex record)
    (hfree : RestoresFree state.producerState record)
    (hnext : next = DurableState.trimmed options
      (rolledForward (swapped state now record replacement) record)) : Indexed next := by
  rw [hnext]
  exact (h.restored hrecord hfree rfl rfl).trimmed

omit h in
theorem restoredMappings_journalled (state : PersistedSyncState) (record : ProducerRecovery) :
    restoredMappings (journalled state record) = restoredMappings record ∧
      (journalled state record).fileIds = record.fileIds := by
  unfold journalled
  cases record.kind <;> exact ⟨rfl, rfl⟩

theorem Indexed.started (hrecord : RecordIndex record)
    (hnext : nextState options now (.startProducerRecovery record replacement) state = some next) :
    Indexed next := by
  simp only [nextState] at hnext
  split_ifs at hnext
  cases hnext
  refine ⟨h.producer, fun r hr => ?_⟩
  rcases mem_append.mp hr with hbefore | hnow
  · exact h.journal r hbefore
  · rw [mem_singleton.mp hnow]
    obtain ⟨hmappings, hfiles⟩ := restoredMappings_journalled state record
    constructor
    · rw [hmappings]
      exact hrecord.unique
    · rw [hmappings, hfiles]
      exact hrecord.files

theorem Indexed.merged {envelope : OutboxEnvelope}
    (hnext : nextState options now (.enqueueAutomaticMerge envelope) state = some next) :
    Indexed next := by
  obtain ⟨record, -, rfl⟩ := Option.map_eq_some_iff.mp hnext
  refine ⟨h.producer, fun r hr => ?_⟩
  obtain ⟨r', hr', rfl⟩ := mem_map.mp hr
  have hindex := h.journal r' hr'
  split_ifs
  · exact ⟨hindex.unique, hindex.files⟩
  · exact hindex

theorem Indexed.recovered
    (hfree : ∀ record ∈ state.journal, record.id = recordId →
      RestoresFree state.producerState record)
    (hnext : nextState options now (.recoverProducerQueue recordId) state = some next) :
    Indexed next := by
  obtain ⟨record, hfind, hnext⟩ := Option.bind_eq_some_iff.mp hnext
  have hmem := mem_of_find?_eq_some hfind
  have hid : record.id = recordId := by simpa using List.find?_some hfind
  cases hkind : record.kind with
  | resolution =>
    simp only [hkind] at hnext
    cases hnext
    exact h.restored (h.journal record hmem) (hfree record hmem hid) rfl rfl
  | apply =>
    simp only [hkind] at hnext
    split_ifs at hnext
    cases hnext
    exact h.restored (h.journal record hmem) (hfree record hmem hid) rfl rfl

theorem Indexed.completed
    (hnext : nextState options now (.completeProducerRecovery recordId) state = some next) :
    Indexed next := by
  cases hnext
  exact ⟨h.producer, fun r hr => h.journal r (mem_filter.mp hr).1⟩

end

section
variable {options : ClientOptions} {world world' : ClientWorld} {action : ClientAction}
  {next : PersistedSyncState}

/-- Steps that put no mapping back over a key another file holds. -/
def keepsIndex (world : ClientWorld) (action : ClientAction) : Prop :=
  reloads world action ∧
    match action with
    | .recoverRecord recordId _ => ∀ record ∈ world.state.journal, record.id = recordId →
        RestoresFree world.state.producerState record
    | .commitHeadResolution input _ _ _ => ∀ other ∈ world.state.producerState.mappings,
        other.fileId ≠ input.mapping.fileId → other.collisionKey ≠ input.mapping.collisionKey
    | _ => True

structure IndexInv (world : ClientWorld) : Prop where
  state : Indexed world.state
  backup : Indexed world.backup

theorem IndexInv.save (I : IndexInv world) (h : Indexed next) :
    IndexInv (world.saved next) := ⟨h, I.state⟩

theorem IndexInv.performing (I : IndexInv world) {now : Timestamp} {operation : Operation}
    (h : performing options world now operation = some world')
    (hop : ∀ next, nextState options.document now operation world.state = some next →
      Indexed next) : IndexInv world' := by
  obtain ⟨next, hnext, rfl⟩ := performing_eq_some h
  exact I.save (hop next hnext).trimmed

/-- What a load makes of the saved records. -/
theorem Indexed.loaded (I : IndexInv world) (h : Loads world next) : Indexed next := by
  obtain ⟨stored, hstored, hreloaded, hmissing⟩ := h
  have hindex : Indexed stored := by
    rcases hstored with rfl | rfl
    · exact I.state
    · exact I.backup
  have hjournal : next.journal = stored.journal := by
    unfold PersistedSyncState.journal
    rw [hreloaded.journal]
  refine ⟨?_, hjournal ▸ hindex.journal⟩
  by_cases hnone : stored.producer = none
  · rcases hmissing hnone with hnext | hnext | hnext
    · rw [PersistedSyncState.producerState, hnext]
      exact indexed_empty.producer
    · rw [PersistedSyncState.producerState, hnext]
      exact indexed_empty.producer
    · rw [PersistedSyncState.producerState, hnext]
      exact I.state.producer
  · rw [PersistedSyncState.producerState, hreloaded.producer hnone]
    exact hindex.producer

theorem IndexInv.step (I : IndexInv world) (hguard : keepsIndex world action)
    (h : clientStep options world action = some world') : IndexInv world' := by
  cases action with
  | commitLocalChange commit revisionId recordId now =>
    obtain ⟨transaction, hcommitted, rfl⟩ := commitLocalChange_step h
    have hnext : UniqueMappings (applyCommit world.state.producerState commit
        (transaction.replacement.map OutboxEnvelope.revisionId)).mappings :=
      I.state.producer.next commit
    obtain ⟨hrecord, hfree⟩ := commitRecord_index I.state.producer hnext recordId commit.operation
    rw [← hcommitted.record] at hrecord hfree
    exact I.save (I.state.committed hrecord hfree hcommitted.after)
  | checkpointApply recordId fileId paths now =>
    obtain ⟨next, hnext, rfl⟩ := checkpointApply_step h
    have hstarted := I.state.started
      (checkpointRecord_index I.state.producer recordId fileId paths) hnext
    exact ⟨hstarted.trimmed, I.state⟩
  | enqueueMerge input revisionId now =>
    obtain ⟨envelope, -, hmerged⟩ := enqueueMerge_step h
    exact I.performing hmerged fun next hnext => I.state.merged hnext
  | adoptRemoteMapping mapping headRevisionId =>
    refine I.performing h fun next hnext => ?_
    exact I.state.saveProducer (I.state.producer.upsert mapping) hnext
  | forgetRemoteMapping collisionKey fileId =>
    refine I.performing h fun next hnext => ?_
    exact I.state.saveProducer (I.state.producer.sublist filter_sublist) hnext
  | completeApply recordId =>
    obtain ⟨-, next, hcompleted, rfl⟩ := completeApply_step h
    have hkept := I.performing hcompleted fun next hnext => I.state.completed hnext
    exact ⟨hkept.state, hkept.backup⟩
  | endApply recordId =>
    obtain ⟨-, rfl⟩ := endApply_step h
    exact ⟨I.state, I.backup⟩
  | recoverRecord recordId now =>
    obtain ⟨-, hrecovered⟩ := recoverRecord_step h
    exact I.performing hrecovered fun next hnext => I.state.recovered hguard.2 hnext
  | commitHeadResolution input revisionId recordId now =>
    obtain ⟨transaction, hresolved, hbefore, rfl⟩ := commitHeadResolution_step h
    have hrecord := resolutionRecord_index recordId input.mapping input.content
      (input.existingRevisionId.getD revisionId) input.pendingIds
    rw [← hresolved.record] at hrecord
    have hfree : RestoresFree world.state.producerState transaction.record := by
      intro mapping hmem other hother hout
      rw [hresolved.record] at hmem hout
      rw [mem_singleton.mp hmem]
      exact hguard.2 other hother (fun heq => hout (heq ▸ mem_singleton_self _))
    have hafter := hresolved.after
    rw [hbefore] at hafter
    exact I.save (I.state.committed hrecord hfree hafter)
  | recordStats entries =>
    refine I.performing h fun next hnext => ?_
    exact I.state.saveProducer (I.state.producer.stats entries) hnext
  | document operation now =>
    obtain ⟨hkind, hdone⟩ := document_step h
    refine I.performing hdone fun next hnext => ?_
    obtain ⟨hproducer, hjournal⟩ := nextState_bookkeeping hkind hnext
    exact I.state.of_same hproducer hjournal
  | reload next backup =>
    cases h
    exact ⟨Indexed.loaded I hguard.1.1, Indexed.loaded I hguard.1.2⟩

/-- In every run of a device whose rollbacks and head resolutions put no mapping back over a
key another file holds, no two mappings share a file or a collision key, and a file has one
head. -/
theorem producer_index_unique (options : ClientOptions) (world : ClientWorld)
    (h : Reached (clientStep options) keepsIndex {} world) :
    UniqueMappings world.state.producerState.mappings ∧
      world.state.producerState.heads.keys.Nodup := by
  have I : IndexInv world := h.invariant (P := IndexInv) ⟨indexed_empty, indexed_empty⟩
    fun _ _ _ I hguard hstep => I.step hguard hstep
  exact ⟨I.state.producer, world.state.producerState.heads.keys_nodup⟩

end

def plainClient : ClientOptions where
  document := DurableRuns.plainOptions
  builder := HeadAbsorption.plainBuilder

/-- A note at a path, which is its own collision key. -/
def noteAt (fileId : Id) (path : Path) : LocalFileMapping where
  collisionKey := path
  contentHash := .text []
  fileId
  path

def createNote (fileId : Id) (path : Path) : LocalChangeCommit where
  operation := { content := some [], fileId, kind := .create, operationId := 90, path }
  removeFileId := none
  upsertMapping := some (noteAt fileId path)

/-- The device's own note 1 is displaced by the remote note 2, whose apply then fails. -/
def displacement : List ClientAction :=
  [.commitLocalChange (createNote 1 5) 11 101 0, .checkpointApply 102 2 [5] 0,
    .adoptRemoteMapping (noteAt 2 5) 12, .endApply 102]

theorem producer_index_unique_displacement :
    ∃ world, Reached (clientStep plainClient) keepsIndex {} world ∧
      world.state.producerState.mappings = [noteAt 1 5] ∧
      UniqueMappings world.state.producerState.mappings ∧
      world.state.producerState.heads.keys.Nodup := by
  have hruns : (run (clientStep plainClient) {} displacement).any (fun world =>
      world.state.journal.all (fun record => (restoredMappings record).all fun mapping =>
        world.state.producerState.mappings.all fun other =>
          other.fileId ∈ record.fileIds ∨ other.collisionKey ≠ mapping.collisionKey) &&
      (clientStep plainClient world (.recoverRecord 102 0)).any fun next =>
        next.state.producerState.mappings = [noteAt 1 5]) = true := by decide +kernel
  obtain ⟨world, hrun, hworld⟩ := (Option.any_eq_true _ _).mp hruns
  rw [Bool.and_eq_true] at hworld
  obtain ⟨next, hstep, hnext⟩ := (Option.any_eq_true _ _).mp hworld.2
  have hplain : ∀ action ∈ displacement, ∀ world, keepsIndex world action := by
    intro action hmem world
    simp only [displacement, mem_cons, not_mem_nil, or_false] at hmem
    rcases hmem with rfl | rfl | rfl | rfl <;> exact ⟨trivial, trivial⟩
  have hreached : Reached (clientStep plainClient) keepsIndex {} world :=
    Reached.start.run (allowed_of_mem hplain {}) hrun
  have hguard : keepsIndex world (.recoverRecord 102 0) := by
    refine ⟨trivial, fun record hmem _ mapping hmapping other hother hout => ?_⟩
    have hrecord := all_eq_true.mp hworld.1 record hmem
    have hother' := all_eq_true.mp (all_eq_true.mp hrecord mapping hmapping) other hother
    exact (of_decide_eq_true hother').resolve_left hout
  have hlast := hreached.step hguard hstep
  exact ⟨next, hlast, of_decide_eq_true hnext, producer_index_unique plainClient next hlast⟩

/-- A note moves in an apply, another one is created where it was, and the apply fails. -/
def retakenPath : List ClientAction :=
  [.checkpointApply 101 1 [5] 0, .adoptRemoteMapping (noteAt 1 5) 11, .completeApply 101,
    .checkpointApply 102 1 [6] 0, .adoptRemoteMapping (noteAt 1 6) 12,
    .commitLocalChange (createNote 2 5) 13 103 0, .endApply 102, .recoverRecord 102 0]

theorem producer_index_shared :
    ∃ world, Reached (clientStep plainClient) reloads {} world ∧
      world.state.producerState.mappings = [noteAt 2 5, noteAt 1 5] ∧
      ¬ UniqueMappings world.state.producerState.mappings := by
  have hruns : (run (clientStep plainClient) {} retakenPath).any (fun world =>
      world.state.producerState.mappings = [noteAt 2 5, noteAt 1 5]) = true := by decide +kernel
  obtain ⟨world, hrun, hworld⟩ := (Option.any_eq_true _ _).mp hruns
  have hplain : ∀ action ∈ retakenPath, ∀ world, reloads world action := by
    intro action hmem world
    simp only [retakenPath, mem_cons, not_mem_nil, or_false] at hmem
    rcases hmem with rfl | rfl | rfl | rfl | rfl | rfl | rfl | rfl <;> exact trivial
  have hmappings := of_decide_eq_true hworld
  refine ⟨world, Reached.start.run (allowed_of_mem hplain {}) hrun, hmappings, fun hunique => ?_⟩
  rw [hmappings] at hunique
  exact absurd hunique.keys (by decide)

end Havemind.ProducerIndex
