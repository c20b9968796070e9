import Havemind.ApplyJournal

/-!
The rollback of an interrupted apply. The files of its entry get back what they had at
the start. Other files keep what they have, unless one of them took over a path the
entry restores.
-/
namespace Havemind.ApplyRollback

open JsObject RevisionSchema AwaitCode Runs DurableState PersistedBlob DurableLoad List
  DurableOperations DurableSections DurableReload DurableRuns ApplyJournal
open VaultPayload (Path)

variable {options : SyncStateOptions} {now : Timestamp} {record entry : ProducerRecovery}
  {s s' start before after : PersistedSyncState}

/-- The record was taken of the producer's files and heads as they are. -/
structure Snapshots (record : ProducerRecovery) (s : PersistedSyncState) : Prop where
  kind : record.kind = .apply
  mappings : record.state.mappings.map JournalMapping.mappingMetadata =
    s.producerState.mappings.filter fun mapping => concerns record mapping.fileId
  heads : record.state.heads =
    s.producerState.heads.filterEntries fun head => concerns record head.1

section
variable {world₁ world₂ : SyncWorld}

/-- The two documents agree on these files. -/
structure AgreeOn (files : Id → Prop) [DecidablePred files] (s s' : PersistedSyncState) :
    Prop where
  mappings : (s'.producerState.mappings.filter fun mapping => files mapping.fileId) =
    s.producerState.mappings.filter fun mapping => files mapping.fileId
  heads : ∀ fileId, files fileId →
    s'.producerState.heads.get fileId = s.producerState.heads.get fileId
  pathOwners : ∀ path fileId, files fileId →
    (s'.pathOwners.get path = some fileId ↔ s.pathOwners.get path = some fileId)
  baseHashes : ∀ fileId, files fileId → s'.baseHashes.get fileId = s.baseHashes.get fileId
  baseContents : ∀ fileId, files fileId → s'.baseContents.get fileId = s.baseContents.get fileId

/-- What no file of the record has a part in. -/
structure SameRest (record : ProducerRecovery) (s s' : PersistedSyncState) : Prop where
  outbox : (s'.outbox.filter fun envelope => envelope.fileId ∉ record.fileIds) =
    s.outbox.filter fun envelope => envelope.fileId ∉ record.fileIds
  stash : s'.quarantinedEnvelopes = s.quarantinedEnvelopes
  quarantine : s'.quarantine = s.quarantine
  deferred : s'.deferred = s.deferred
  cursor : s'.cursor = s.cursor
  authored : s'.locallyAuthored = s.locallyAuthored
  conflictArtifacts : s'.conflictArtifacts = s.conflictArtifacts
  conflictCopies : s'.conflictCopyFileIds = s.conflictCopyFileIds
  journal : s'.journal = s.journal.filter fun r => r.id ≠ record.id

/-- The record's files are as at the start and its merges gone, and the other files
as they were before. -/
structure RolledBackExactly (record : ProducerRecovery) (merged : Id → Prop)
    (start before after : PersistedSyncState) : Prop where
  recorded : AgreeOn (· ∈ record.fileIds) start after
  others : AgreeOn (· ∉ record.fileIds) before after
  merges : ∀ id, merged id → ∀ envelope ∈ after.envelopes, envelope.revisionId ≠ id
  rest : SameRest record before after

/-- An apply that was started and rolled back, with any calls, failures and restarts
in between. The record is of the files as they are, under an id of its own. -/
structure Rollback (options : SyncStateOptions) (record : ProducerRecovery)
    (world₁ world₂ : SyncWorld) (start before after : PersistedSyncState) : Prop where
  started : ∃ world₀ replacement now choices,
    runCode (perform options now (.startProducerRecovery record replacement)) world₀ choices =
      (.returned true world₁.memory, world₁.disk)
  cachedStart : world₁.memory.cache = some start
  snapshots : Snapshots record start
  fresh : (start.journal.filter fun r => r.id = record.id).length ≤ 1
  between : Reached (syncStep options) (calling (leavesOpen record.id)) world₁ world₂
  cachedBefore : world₂.memory.cache = some before
  recovered : ∃ now choices memory disk,
    runCode (perform options now (.recoverProducerQueue record.id)) world₂ choices =
      (.returned true memory, disk) ∧ memory.cache = some after

/-- A merge of one of the record's files was queued on the way. -/
def MergedBetween (options : SyncStateOptions) (record : ProducerRecovery)
    (world₁ world₂ : SyncWorld) (revisionId : Id) : Prop :=
  ∃ envelope world now choices world',
    envelope.revisionId = revisionId ∧ envelope.fileId ∈ record.fileIds ∧
      Reached (syncStep options) (calling (leavesOpen record.id)) world₁ world ∧
      runCode (perform options now (.enqueueAutomaticMerge envelope)) world choices =
        (.returned true world'.memory, world'.disk) ∧
      Reached (syncStep options) (calling (leavesOpen record.id)) world' world₂

/-- The revisions the entry with this id takes back from the queue. -/
def discarded (s : PersistedSyncState) (id : Id) : List Id :=
  ((s.journal.find? fun r => r.id = id).map ProducerRecovery.discardRevisionIds).getD []

/-- The state an apply was started on, and what the start made of it. -/
structure StartedOn (options : SyncStateOptions) (record : ProducerRecovery)
    (s₀ start : PersistedSyncState) : Prop where
  producer : start.producer = s₀.producer
  pathOwners : start.pathOwners = s₀.pathOwners
  baseHashes : start.baseHashes = s₀.baseHashes
  baseContents : start.baseContents = if options.keepBaseContents then s₀.baseContents else ∅
  opened : Open (journalled s₀ record) [] start

/-- A started apply is open, with nothing to take back yet. -/
theorem startedOn_of_run {replacement : Option OutboxEnvelope} {world₀ : SyncWorld}
    {choices : List (Choice SyncStateError)}
    (hrun : runCode (perform options now (.startProducerRecovery record replacement)) world₀
      choices = (.returned true world₁.memory, world₁.disk))
    (hstart : world₁.memory.cache = some start)
    (hfresh : (start.journal.filter fun r => r.id = record.id).length ≤ 1) :
    ∃ s₀, StartedOn options record s₀ start ∧ ∃ w, SavedRecord start w world₁.disk := by
  obtain ⟨s₀, loaded, rest, -, hsection⟩ := perform_returned rfl hrun
  cases hnext : nextState options now (.startProducerRecovery record replacement) s₀ with
  | none => exact absurd hsection (startProducerRecovery_idle hnext)
  | some next =>
    obtain ⟨hcache, hsaved⟩ := section_returned hnext hsection
    rw [hstart] at hcache
    cases hcache
    simp only [nextState] at hnext
    split_ifs at hnext with hrefused
    cases hnext
    refine ⟨s₀, ?_, loaded.disk, hsaved⟩
    rw [trimmed_eq] at hfresh ⊢
    refine ⟨rfl, rfl, rfl, rfl, open_journalled (fun hbusy => hrefused ?_) rfl hfresh⟩
    rw [hbusy]
    rfl

/-- The entry holds what there was of the record's files at the start. -/
structure Undoes (options : SyncStateOptions) (record r : ProducerRecovery)
    (start : PersistedSyncState) (contents : JsObject Id JsText.JsString) : Prop where
  kind : r.kind = .apply
  fileIds : r.fileIds = record.fileIds
  mappings : r.state.mappings.map JournalMapping.mappingMetadata =
    start.producerState.mappings.filter fun mapping => concerns record mapping.fileId
  heads : r.state.heads =
    start.producerState.heads.filterEntries fun head => concerns record head.1
  applyState : r.applyState = some
    { pathOwners := start.pathOwners.filterEntries fun owner => concerns record owner.2
      baseHashes := start.baseHashes.filterEntries fun base => concerns record base.1
      baseContents := contents.filterEntries fun base => concerns record base.1 }
  contents : start.baseContents = if options.keepBaseContents then contents else ∅

theorem Undoes.of_grown {s₀ : PersistedSyncState} {r : ProducerRecovery}
    (hstarted : StartedOn options record s₀ start) (hsnapshots : Snapshots record start)
    (hgrown : Grown (journalled s₀ record) r) : Undoes options record r start s₀.baseContents := by
  obtain ⟨hkind, hmappings, hheads⟩ := hsnapshots
  have hentry : journalled s₀ record = { record with
      applyState := some
        { pathOwners := s₀.pathOwners.filterEntries fun entry => concerns record entry.2
          baseHashes := s₀.baseHashes.filterEntries fun entry => concerns record entry.1
          baseContents := s₀.baseContents.filterEntries fun entry => concerns record entry.1 } } := by
    unfold journalled
    rw [hkind]
  rw [hentry] at hgrown
  refine ⟨hgrown.kind.trans hkind, hgrown.fileIds, ?_, ?_, ?_, hstarted.baseContents⟩
  · rw [hgrown.state]
    exact hmappings
  · rw [hgrown.state]
    exact hheads
  · rw [hgrown.applyState, hstarted.pathOwners, hstarted.baseHashes]

section
variable {r : ProducerRecovery} {contents : JsObject Id JsText.JsString}

theorem get_restored {V : Type} (object saved : JsObject Id V) (record : ProducerRecovery)
    (fileId : Id) :
    ((object.filterEntries fun entry => !concerns record entry.1).assign
      (saved.filterEntries fun entry => concerns record entry.1)).get fileId =
      if fileId ∈ record.fileIds then saved.get fileId else object.get fileId := by
  rw [get_assign, get_filterEntries, get_filterEntries]
  by_cases hmem : fileId ∈ record.fileIds
  · rw [if_pos hmem]
    cases saved.get fileId <;> cases object.get fileId <;> simp [concerns, hmem]
  · rw [if_neg hmem]
    cases saved.get fileId <;> cases object.get fileId <;> simp [concerns, hmem]

theorem get_owner_restored (object saved : JsObject Path Id) (record : ProducerRecovery)
    (path : Path) :
    ((object.filterEntries fun entry => !concerns record entry.2).assign
      (saved.filterEntries fun entry => concerns record entry.2)).get path =
      ((saved.get path).filter fun owner => concerns record owner).or
        ((object.get path).filter fun owner => !concerns record owner) := by
  rw [get_assign, get_filterEntries, get_filterEntries]

variable (h : Undoes options record r start contents)
include h

theorem mappings_restored :
    (withProducerFiles before.producerState r).mappings =
      (before.producerState.mappings.filter fun mapping => mapping.fileId ∉ record.fileIds) ++
        start.producerState.mappings.filter fun mapping => mapping.fileId ∈ record.fileIds := by
  have hothers : (fun mapping : LocalFileMapping => !concerns r mapping.fileId) =
      fun mapping => decide (mapping.fileId ∉ record.fileIds) := by
    funext mapping
    unfold concerns
    rw [h.fileIds, decide_not]
  unfold withProducerFiles
  rw [h.mappings, hothers]
  rfl

theorem heads_restored (fileId : Id) :
    (withProducerFiles before.producerState r).heads.get fileId =
      if fileId ∈ record.fileIds then start.producerState.heads.get fileId
      else before.producerState.heads.get fileId := by
  unfold withProducerFiles
  rw [h.heads, ← get_restored]
  unfold concerns
  rw [h.fileIds]

/-- What the rollback leaves of the owners and bases. -/
theorem bases_restored (now : Timestamp) :
    (rolledBack before now r).pathOwners =
        (before.pathOwners.filterEntries fun entry => !concerns record entry.2).assign
          (start.pathOwners.filterEntries fun entry => concerns record entry.2) ∧
      (rolledBack before now r).baseHashes =
        (before.baseHashes.filterEntries fun entry => !concerns record entry.1).assign
          (start.baseHashes.filterEntries fun entry => concerns record entry.1) ∧
      (rolledBack before now r).baseContents =
        (before.baseContents.filterEntries fun entry => !concerns record entry.1).assign
          (contents.filterEntries fun entry => concerns record entry.1) := by
  have hsame : concerns r = concerns record := by
    funext fileId
    unfold concerns
    rw [h.fileIds]
  unfold rolledBack
  rw [h.applyState, hsame]
  exact ⟨rfl, rfl, rfl⟩

/-- The base contents after the rollback, kept or not. -/
theorem contents_restored (hkeeps : KeepsBases options before) (fileId : Id) :
    (trimmed options (rolledBack before now r)).baseContents.get fileId =
      if fileId ∈ record.fileIds then start.baseContents.get fileId
      else before.baseContents.get fileId := by
  rw [trimmed_eq, h.contents]
  dsimp only
  by_cases hkeep : options.keepBaseContents = true
  · rw [if_pos hkeep, if_pos hkeep, (bases_restored h now).2.2, get_restored]
  · rw [if_neg hkeep, if_neg hkeep, hkeeps.resolve_left hkeep]
    simp

theorem hashes_restored (now : Timestamp) (fileId : Id) :
    (rolledBack before now r).baseHashes.get fileId =
      if fileId ∈ record.fileIds then start.baseHashes.get fileId
      else before.baseHashes.get fileId := by
  rw [(bases_restored h now).2.1, get_restored]

theorem owner_recorded (now : Timestamp) (path : Path) {fileId : Id}
    (hmem : fileId ∈ record.fileIds) :
    (rolledBack before now r).pathOwners.get path = some fileId ↔
      start.pathOwners.get path = some fileId := by
  rw [(bases_restored h now).1, get_owner_restored, Option.or_eq_some_iff]
  simp only [Option.filter_eq_some_iff, concerns]
  constructor
  · rintro (⟨hget, -⟩ | ⟨-, -, hother⟩)
    · exact hget
    · simp [hmem] at hother
  · intro hget
    exact .inl ⟨hget, decide_eq_true hmem⟩

theorem owner_other (now : Timestamp) (path : Path) {fileId : Id} (hmem : fileId ∉ record.fileIds) :
    (rolledBack before now r).pathOwners.get path = some fileId ↔
      before.pathOwners.get path = some fileId ∧
        ∀ owner, start.pathOwners.get path = some owner → owner ∉ record.fileIds := by
  rw [(bases_restored h now).1, get_owner_restored, Option.or_eq_some_iff]
  simp only [Option.filter_eq_some_iff, Option.filter_eq_none_iff, concerns]
  constructor
  · rintro (⟨-, hin⟩ | ⟨hnone, hget, -⟩)
    · exact absurd (of_decide_eq_true hin) hmem
    · exact ⟨hget, fun owner hown hin => hnone owner hown (decide_eq_true hin)⟩
  · rintro ⟨hget, hnone⟩
    refine .inr ⟨fun owner hown hin => hnone owner hown (of_decide_eq_true hin), hget, ?_⟩
    rw [decide_eq_false hmem]
    rfl

theorem recorded_restored (hkeeps : KeepsBases options before) :
    AgreeOn (· ∈ record.fileIds) start (trimmed options (rolledBack before now r)) where
  mappings := by
    rw [trimmed_eq]
    refine (congrArg _ (mappings_restored h)).trans ?_
    rw [filter_append, filter_filter, filter_filter]
    simp
  heads := by
    intro fileId hmem
    rw [trimmed_eq]
    exact (heads_restored h fileId).trans (if_pos hmem)
  pathOwners := by
    intro path fileId hmem
    rw [trimmed_eq]
    exact owner_recorded h now path hmem
  baseHashes := by
    intro fileId hmem
    rw [trimmed_eq]
    exact (hashes_restored h now fileId).trans (if_pos hmem)
  baseContents := fun fileId hmem => (contents_restored h hkeeps fileId).trans (if_pos hmem)

/-- The other files keep what they have unless a path goes back to its old owner. -/
theorem others_restored_iff (hkeeps : KeepsBases options before) :
    AgreeOn (· ∉ record.fileIds) before (trimmed options (rolledBack before now r)) ↔
      ∀ path owner other, start.pathOwners.get path = some owner → owner ∈ record.fileIds →
        before.pathOwners.get path = some other → other ∈ record.fileIds := by
  constructor
  · intro hagree path owner other hstart howner hbefore
    by_contra hother
    have hafter := (hagree.pathOwners path other hother).mpr hbefore
    rw [trimmed_eq] at hafter
    exact ((owner_other h now path hother).mp hafter).2 owner hstart howner
  · intro hfree
    refine ⟨?_, ?_, ?_, ?_, ?_⟩
    · rw [trimmed_eq]
      refine (congrArg _ (mappings_restored h)).trans ?_
      rw [filter_append, filter_filter, filter_filter]
      simp
    · intro fileId hmem
      rw [trimmed_eq]
      exact (heads_restored h fileId).trans (if_neg hmem)
    · intro path fileId hmem
      rw [trimmed_eq]
      refine (owner_other h now path hmem).trans (and_iff_left_of_imp fun hget owner hown hin => ?_)
      exact hmem (hfree path owner fileId hown hin hget)
    · intro fileId hmem
      rw [trimmed_eq]
      exact (hashes_restored h now fileId).trans (if_neg hmem)
    · exact fun fileId hmem => (contents_restored h hkeeps fileId).trans (if_neg hmem)

omit h in
theorem filter_filter_eq_iff {α : Type} {p q : α → Bool} {l : List α} :
    (l.filter q).filter p = l.filter p ↔ ∀ a ∈ l, p a = true → q a = true := by
  constructor
  · intro h a hmem hp
    have hin : a ∈ (l.filter q).filter p := h ▸ mem_filter.mpr ⟨hmem, hp⟩
    exact (mem_filter.mp (mem_filter.mp hin).1).2
  · intro h
    rw [filter_filter]
    refine filter_congr fun a hmem => ?_
    by_cases hp : p a = true
    · simp [hp, h a hmem hp]
    · simp [hp]

omit h in
/-- The rest is as it was unless a revision of another file is taken back. -/
theorem rest_restored_iff (hid : r.id = record.id) :
    SameRest record before (trimmed options (rolledBack before now r)) ↔
      ∀ envelope ∈ before.outbox, envelope.revisionId ∈ r.discardRevisionIds →
        envelope.fileId ∈ record.fileIds := by
  have hqueue : ((trimmed options (rolledBack before now r)).outbox.filter
      fun envelope => envelope.fileId ∉ record.fileIds) =
        (before.outbox.filter fun envelope => envelope.fileId ∉ record.fileIds) ↔
      ∀ envelope ∈ before.outbox, envelope.revisionId ∈ r.discardRevisionIds →
        envelope.fileId ∈ record.fileIds := by
    rw [trimmed_eq]
    refine filter_filter_eq_iff.trans (forall₂_congr fun envelope _ => ?_)
    simp only [decide_eq_true_eq]
    exact not_imp_not
  constructor
  · exact fun hrest => hqueue.mp hrest.outbox
  · intro hclean
    rw [trimmed_eq] at hqueue ⊢
    unfold rolledBack at hqueue ⊢
    cases hundo : r.applyState with
    | none => exact ⟨hqueue.mpr hclean, rfl, rfl, rfl, rfl, rfl, rfl, rfl, hid ▸ rfl⟩
    | some undo => exact ⟨hqueue.mpr hclean, rfl, rfl, rfl, rfl, rfl, rfl, rfl, hid ▸ rfl⟩

omit h in
/-- The merges the entry lists are gone unless one is in the stash. -/
theorem merges_restored_iff {merged : Id → Prop}
    (hlisted : ∀ id, merged id → id ∈ r.discardRevisionIds) :
    (∀ id, merged id → ∀ envelope ∈ (trimmed options (rolledBack before now r)).envelopes,
      envelope.revisionId ≠ id) ↔
      ∀ id, merged id → ∀ envelope ∈ before.quarantinedEnvelopes.values,
        envelope.revisionId ≠ id := by
  have hqueued : (trimmed options (rolledBack before now r)).outbox =
      before.outbox.filter fun envelope => envelope.revisionId ∉ r.discardRevisionIds := by
    rw [trimmed_eq]
    rfl
  have hstash : (trimmed options (rolledBack before now r)).quarantinedEnvelopes =
      before.quarantinedEnvelopes := by
    rw [trimmed_eq]
    unfold rolledBack
    cases r.applyState <;> rfl
  unfold PersistedSyncState.envelopes
  rw [hqueued, hstash]
  refine forall₂_congr fun id hmerged => ?_
  constructor
  · exact fun h envelope hmem => h envelope (mem_append_right _ hmem)
  · intro h envelope hmem
    rcases mem_append.mp hmem with hleft | hstashed
    · intro heq
      have hkept := of_decide_eq_true (mem_filter.mp hleft).2
      exact hkept (heq ▸ hlisted id hmerged)
    · exact h envelope hstashed

end

/-- The merges queued on the way are listed in the entry. -/
theorem merged_open {id : Id} (hfiles : entry.fileIds = record.fileIds)
    (hid : entry.id = record.id)
    (hholds : Holds (Kept options entry []) False world₁.memory world₁.disk)
    (hmerged : MergedBetween options record world₁ world₂ id)
    (hbefore : world₂.memory.cache = some before) : Open entry [id] before := by
  have hkept := kept_durably options entry
  rw [hid] at hkept
  obtain ⟨envelope, world, now, choices, world', rfl, hfile, hreach, hrun, hafter⟩ := hmerged
  obtain ⟨s, loaded, rest, hload, hsection⟩ := perform_returned rfl hrun
  obtain ⟨hs, -⟩ := loaded_holds (hkept []) (reached_holds (hkept []) hholds hreach) hload
  cases hnext : nextState options now (.enqueueAutomaticMerge envelope) s with
  | none => exact absurd hsection (enqueueAutomaticMerge_idle hnext)
  | some next =>
    obtain ⟨hcache, hsaved⟩ := section_returned hnext hsection
    have hopen := hs.1.merged (hfiles ▸ hfile) hnext
    have hholds' := holds_saved (hkept [envelope.revisionId])
      ⟨hopen.trimmed, keepsBases_trimmed next⟩ (fun _ hopened => hopened.1.journal_ne) hcache hsaved
    exact ((reached_holds (hkept _) hholds' hafter).1.cached before hbefore).1

/-- An interrupted apply is rolled back exactly when no path of its files went over to
another file, none of its merges went to the stash and it takes back no revision of
another file. -/
theorem rolled_back_exactly_iff (h : Rollback options record world₁ world₂ start before after) :
    RolledBackExactly record (MergedBetween options record world₁ world₂) start before after ↔
      (∀ path owner other, start.pathOwners.get path = some owner → owner ∈ record.fileIds →
        before.pathOwners.get path = some other → other ∈ record.fileIds) ∧
      (∀ id, MergedBetween options record world₁ world₂ id →
        ∀ envelope ∈ before.quarantinedEnvelopes.values, envelope.revisionId ≠ id) ∧
      ∀ envelope ∈ before.outbox, envelope.revisionId ∈ discarded before record.id →
        envelope.fileId ∈ record.fileIds := by
  obtain ⟨world₀, replacement, now₀, choices₀, hrun⟩ := h.started
  obtain ⟨s₀, hstarted, w, hsaved⟩ := startedOn_of_run hrun h.cachedStart h.fresh
  obtain ⟨hfiles, hid⟩ := concerns_journalled s₀ record
  have hbases : KeepsBases options start := by
    unfold KeepsBases
    rw [hstarted.baseContents]
    by_cases hkeep : options.keepBaseContents = true
    · exact .inl hkeep
    · exact .inr (if_neg hkeep)
  have hkept := kept_durably options (journalled s₀ record) []
  have hholds := holds_saved hkept ⟨hstarted.opened, hbases⟩
    (fun _ hopened => hopened.1.journal_ne) h.cachedStart hsaved
  rw [hid] at hkept
  have hbefore := (reached_holds hkept hholds h.between).1.cached before h.cachedBefore
  obtain ⟨r, hfind, hgrown, -⟩ := hbefore.1.find
  rw [hid] at hfind
  have hundoes := Undoes.of_grown hstarted h.snapshots hgrown
  have hlisted : ∀ id, MergedBetween options record world₁ world₂ id →
      id ∈ r.discardRevisionIds := by
    intro id hmerged
    obtain ⟨r', hfind', -, hin⟩ :=
      (merged_open hfiles hid hholds hmerged h.cachedBefore).find
    rw [hid, hfind] at hfind'
    cases hfind'
    exact hin id (mem_singleton.mpr rfl)
  have hdiscarded : discarded before record.id = r.discardRevisionIds := by
    unfold discarded
    rw [hfind]
    rfl
  obtain ⟨now, choices, memory, disk, hrecover, hafter⟩ := h.recovered
  obtain ⟨state, loaded, rest, hload, hsection⟩ := perform_returned rfl hrecover
  obtain ⟨rfl, -, -⟩ := ensureLoaded_warm h.cachedBefore hload
  cases hnext : nextState options now (.recoverProducerQueue record.id) state with
  | none => exact absurd hsection (recoverProducerQueue_idle hfind hundoes.kind hnext)
  | some next =>
    obtain ⟨hcache, -⟩ := section_returned hnext hsection
    rw [hafter] at hcache
    cases hcache
    simp only [nextState, hfind, Option.bind_some, hundoes.kind] at hnext
    split_ifs at hnext
    cases hnext
    rw [hdiscarded, ← others_restored_iff hundoes hbefore.2, ← merges_restored_iff hlisted,
      ← rest_restored_iff (hgrown.id.trans hid)]
    constructor
    · exact fun hexact => ⟨hexact.others, hexact.merges, hexact.rest⟩
    · rintro ⟨hothers, hmerges, hrest⟩
      exact ⟨recorded_restored hundoes hbefore.2, hothers, hmerges, hrest⟩

end

/-- The undo record of an apply to file 1, which has no mapping and no head yet. -/
def plainRecord : ProducerRecovery where
  id := 5
  kind := .apply
  fileIds := [1]
  state := ⟨[], ∅⟩
  discardRevisionIds := []

def ownedWorld : SyncWorld := callAll plainOptions {} [.recordPathOwner 1 10]

/-- A device that knows path 10 as file 1's and has started an apply to the file. -/
def startedWorld : SyncWorld :=
  callAll plainOptions ownedWorld [.startProducerRecovery plainRecord none]

/-- The rollback of the apply after calls that all went well. -/
theorem rollback_plain (operations : List Operation) (world : SyncWorld)
    (hworld : callAll plainOptions startedWorld operations = world)
    (hcalls : ∀ operation ∈ operations, leavesOpen 5 operation)
    (hcached : world.memory.cache = some (cached world))
    (hanswer : answer (runCode (perform plainOptions 1 (.recoverProducerQueue 5)) world []) =
      some true)
    (hafter : (callAll plainOptions world [.recoverProducerQueue 5]).memory.cache =
      some (cached (callAll plainOptions world [.recoverProducerQueue 5]))) :
    Rollback plainOptions plainRecord startedWorld world (cached startedWorld) (cached world)
      (cached (callAll plainOptions world [.recoverProducerQueue 5])) where
  started := ⟨ownedWorld, none, 1, [], eq_of_answer (by decide +kernel)⟩
  cachedStart := by decide +kernel
  snapshots := ⟨rfl, by decide +kernel, by decide +kernel⟩
  fresh := by decide +kernel
  between := hworld ▸ reached_callAll startedWorld operations hcalls
  cachedBefore := hcached
  recovered := ⟨1, [], _, _, eq_of_answer hanswer, hafter⟩

/-- File 2 has come to own path 10. -/
def takenWorld : SyncWorld := callAll plainOptions startedWorld [.recordPathOwner 2 10]

/-- File 2 has come to own path 11, and a merge of file 1 is queued. -/
def mergedWorld : SyncWorld :=
  callAll plainOptions startedWorld
    [.recordPathOwner 2 11, .enqueueAutomaticMerge (plainEnvelope 7 1 [] [65])]

theorem rolled_back_exactly_merged :
    RolledBackExactly plainRecord
      (MergedBetween plainOptions plainRecord startedWorld mergedWorld)
      (cached startedWorld) (cached mergedWorld)
      (cached (callAll plainOptions mergedWorld [.recoverProducerQueue 5])) := by
  have hrollback := rollback_plain [.recordPathOwner 2 11,
      .enqueueAutomaticMerge (plainEnvelope 7 1 [] [65])] mergedWorld rfl
    (by simp [leavesOpen]) (by decide +kernel) (by decide +kernel) (by decide +kernel)
  have howners : (cached startedWorld).pathOwners.entries = [(10, 1)] := by decide +kernel
  have hstash : (cached mergedWorld).quarantinedEnvelopes.values = [] := by decide +kernel
  refine (rolled_back_exactly_iff hrollback).mpr ⟨?_, ?_, by decide +kernel⟩
  · intro path owner other hstart _ hbefore
    have hentry := get_eq_some.mp hstart
    rw [howners, mem_singleton, Prod.mk.injEq] at hentry
    rw [hentry.1, show (cached mergedWorld).pathOwners.get 10 = some 1 by decide +kernel] at hbefore
    cases hbefore
    decide
  · intro id _ envelope hmem
    rw [hstash] at hmem
    cases hmem

/-- The path file 2 had taken is file 1's again. -/
theorem rolled_back_over_taken_path :
    ∃ world₁ world₂ start before after,
      Rollback plainOptions plainRecord world₁ world₂ start before after ∧
        ¬ RolledBackExactly plainRecord (MergedBetween plainOptions plainRecord world₁ world₂)
          start before after := by
  refine ⟨startedWorld, takenWorld, _, _, _,
    rollback_plain [.recordPathOwner 2 10] takenWorld rfl (by simp [leavesOpen])
      (by decide +kernel) (by decide +kernel) (by decide +kernel), fun hexact => ?_⟩
  have howner := (hexact.others.pathOwners 10 2 (by decide)).mpr (by decide +kernel)
  exact absurd howner (by decide +kernel)

end Havemind.ApplyRollback
