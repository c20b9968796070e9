import Havemind.OutboxRepository

/-!
What each of the producer's methods does: which journal entries it finishes, when its
transaction goes through and the document it leaves.
-/
namespace Havemind.RepositoryMethods

open RevisionSchema VaultPayload RevisionEnvelope DurableState DurableSections OutboxRepository
  Option List

section
variable {options : SyncStateOptions} {now : Timestamp} {activeApplies : List Id}
  {state next : PersistedSyncState} {record : ProducerRecovery}

theorem journal_trimmed (state : PersistedSyncState) :
    (trimmed options state).journal = state.journal := by
  rw [trimmed_eq]
  rfl

theorem journal_rolledForward (state : PersistedSyncState) (record : ProducerRecovery) :
    (rolledForward state record).journal = state.journal.filter fun r => r.id ≠ record.id := rfl

theorem journal_rolledBack (state : PersistedSyncState) (record : ProducerRecovery) :
    (rolledBack state now record).journal = state.journal.filter fun r => r.id ≠ record.id := rfl

/-- A recovery takes its entry out of the journal. -/
theorem journal_recoverRecord (h : recoverRecord options now state record = some next) :
    next.journal = state.journal.filter fun r => r.id ≠ record.id := by
  unfold recoverRecord at h
  split_ifs at h with hgone
  · have hnext : state = next := by simpa using h
    rw [← hnext]
    refine (filter_eq_self.mpr fun r hr => ?_).symm
    exact all_eq_true.mp hgone r hr
  · obtain ⟨saved, hsaved, rfl⟩ := map_eq_some_iff.mp h
    rw [journal_trimmed]
    obtain ⟨found, hfound, hsaved⟩ := bind_eq_some_iff.mp hsaved
    have hid : found.id = record.id := by simpa using List.find?_some hfound
    rw [← hid]
    cases hkind : found.kind with
    | resolution =>
      simp only [hkind] at hsaved
      have heq : rolledForward state found = saved := by simpa using hsaved
      rw [← heq, journal_rolledForward]
    | apply =>
      simp only [hkind] at hsaved
      split_ifs at hsaved
      have heq : rolledBack state now found = saved := by simpa using hsaved
      rw [← heq, journal_rolledBack]

/-- Only running applies are left in the journal. -/
def Settled (activeApplies : List Id) (state : PersistedSyncState) : Prop :=
  ∀ record ∈ state.journal, record.id ∈ activeApplies

theorem journal_foldlM (records : List ProducerRecovery)
    (h : records.foldlM (recoverRecord options now) state = some next) :
    ∀ record ∈ next.journal, record ∈ state.journal ∧ ∀ r ∈ records, record.id ≠ r.id := by
  induction records generalizing state with
  | nil =>
    have hsame : state = next := by simpa using h
    rw [← hsame]
    exact fun record hmem => ⟨hmem, by simp⟩
  | cons first rest ih =>
    rw [foldlM_cons] at h
    obtain ⟨middle, hmiddle, hrest⟩ := bind_eq_some_iff.mp h
    intro record hmem
    obtain ⟨hin, hothers⟩ := ih hrest record hmem
    rw [journal_recoverRecord hmiddle, mem_filter] at hin
    refine ⟨hin.1, fun r hr => ?_⟩
    rcases mem_cons.mp hr with rfl | hlater
    · exact of_decide_eq_true hin.2
    · exact hothers r hlater

theorem recoverLocked_settled (h : recoverLocked options now activeApplies state = some next) :
    Settled activeApplies next := by
  intro record hmem
  obtain ⟨hbefore, hothers⟩ := journal_foldlM _ h record hmem
  by_contra hinactive
  refine hothers record ?_ rfl
  exact mem_filter.mpr ⟨hbefore, decide_eq_true hinactive⟩

/-- There is nothing to recover in a settled journal. -/
theorem recoverLocked_of_settled (h : Settled activeApplies state) :
    recoverLocked options now activeApplies state = some state := by
  have hnone : state.journal.filter (fun record => record.id ∉ activeApplies) = [] := by
    refine filter_eq_nil_iff.mpr fun record hmem => ?_
    simpa using h record hmem
  rw [recoverLocked, hnone]
  rfl

end

variable {options : SyncStateOptions} {builder : EnvelopeBuilder} {now : Timestamp}
  {activeApplies : List Id} {revisionId recordId : Id} {input : ResolutionInput}
  {state next after : PersistedSyncState} {record : ProducerRecovery}
  {replacement : Option OutboxEnvelope}

/-- A transaction in one write goes through when its files are in no other one and the swap
of the queue is sound. -/
theorem performed_commit :
    performed options now (.commitProducerChange record replacement) state = some after ↔
      (inTransaction state record = false ∧ swapRefused state record replacement = false) ∧
        after = trimmed options (rolledForward (swapped state now record replacement) record) := by
  simp only [performed, nextState]
  by_cases hrefused : (inTransaction state record || swapRefused state record replacement) = true
  · have hnot : ¬ (inTransaction state record = false ∧
        swapRefused state record replacement = false) := by
      rintro ⟨hfree, hswap⟩
      simp [hfree, hswap] at hrefused
    simp [hrefused, hnot]
  · have hboth : inTransaction state record = false ∧
        swapRefused state record replacement = false := by
      simpa using hrefused
    simp [hboth, eq_comm]

theorem swapRefused_of_nil (h : record.discardRevisionIds = []) :
    swapRefused state record replacement = false := by
  simp [swapRefused, hasUncoveredChildren, h]

/-- A queued revision without children makes room for one that does not follow it. -/
theorem swapRefused_of_leaf {id : Id} {envelope : OutboxEnvelope}
    (hids : record.discardRevisionIds = [id])
    (hqueued : (state.outbox.filter fun entry => entry.revisionId ∈ [id]).length = 1)
    (hcovered : hasUncoveredChildren state [id] = false) (hnew : envelope.revisionId ≠ id)
    (hparents : id ∉ envelope.parents) : swapRefused state record (some envelope) = false := by
  have hone : [id].dedup.length = 1 := rfl
  simp only [swapRefused, hids, hqueued, hone, hcovered, Option.any_some]
  simpa [hnew] using hparents

theorem resolutionEnvelope_spec
    (h : resolutionEnvelope builder input revisionId = .ok replacement) :
    (replacement = none ∧ ∃ id, input.existingRevisionId = some id) ∨
      ∃ envelope, replacement = some envelope ∧ input.existingRevisionId = none ∧
        buildEnvelope builder
          { fileId := input.mapping.fileId
            revisionId
            parentRevisionIds := input.parents
            operation := .update
            path := input.mapping.path
            content := some input.content
            idempotencyKey := builder.idText revisionId } revisionId = some envelope := by
  unfold resolutionEnvelope at h
  split at h
  · rename_i id hid
    have hnone : none = replacement := by simpa using h
    exact Or.inl ⟨hnone.symm, id, hid⟩
  · rename_i hid
    split at h
    · simp at h
    · rename_i envelope hbuilt
      have hsome : some envelope = replacement := by simpa using h
      exact Or.inr ⟨envelope, hsome.symm, hid, hbuilt⟩

theorem buildEnvelope_spec {input : BuildRevisionEnvelopeInput}
    {operationId : Id} {envelope : OutboxEnvelope}
    (h : buildEnvelope builder input operationId = some envelope) :
    envelope.revisionId = input.revisionId ∧
      envelope.parents = headerParents input.parentRevisionIds := by
  unfold buildEnvelope at h
  split_ifs at h
  obtain ⟨encoded, -, rfl⟩ := map_eq_some_iff.mp h
  exact ⟨rfl, rfl⟩

/-- A head resolution that was committed. -/
structure Resolved (options : SyncStateOptions) (builder : EnvelopeBuilder) (now : Timestamp)
    (revisionId recordId : Id) (input : ResolutionInput) (transaction : Transaction) : Prop where
  expected : transaction.before.producerState.heads.get input.mapping.fileId =
    some input.expectedHead
  envelope : resolutionEnvelope builder input revisionId = .ok transaction.replacement
  record : transaction.record = resolutionRecord recordId input.mapping input.content
    (input.existingRevisionId.getD revisionId) input.pendingIds
  swap : swapRefused transaction.before transaction.record transaction.replacement = false
  after : transaction.after = trimmed options
    (rolledForward (swapped transaction.before now transaction.record transaction.replacement)
      transaction.record)

/-- A head resolution of a settled document: it does nothing, or it is committed. -/
theorem commitHeadResolution_spec {found : Option Transaction}
    (hsettled : Settled activeApplies state)
    (h : commitHeadResolution options builder now activeApplies revisionId recordId state input =
      .ok (next, found)) :
    Settled activeApplies next ∧ ∀ transaction ∈ found,
      Resolved options builder now revisionId recordId input transaction ∧
        transaction.before = state := by
  unfold commitHeadResolution at h
  rw [recoverLocked_of_settled hsettled] at h
  dsimp only at h
  by_cases hhead : state.producerState.heads.get input.mapping.fileId ≠ some input.expectedHead
  · rw [if_pos hhead] at h
    obtain ⟨rfl, rfl⟩ : state = next ∧ none = found := by simpa using h
    exact ⟨hsettled, by simp⟩
  · rw [if_neg hhead] at h
    rcases henvelope : resolutionEnvelope builder input revisionId with error | replacement
    · simp [henvelope] at h
    simp only [henvelope] at h
    split_ifs at h with hbusy
    cases hsaved : performed options now (.commitProducerChange
        (resolutionRecord recordId input.mapping input.content
          (input.existingRevisionId.getD revisionId) input.pendingIds) replacement) state with
    | none =>
      obtain ⟨rfl, rfl⟩ : state = next ∧ none = found := by simpa [hsaved] using h
      exact ⟨hsettled, by simp⟩
    | some after =>
      obtain ⟨rfl, rfl⟩ : after = next ∧ some (Transaction.mk state _ replacement after) =
        found := by simpa [hsaved] using h
      obtain ⟨⟨-, hswap⟩, hafter⟩ := performed_commit.mp hsaved
      constructor
      · intro entry hmem
        rw [hafter, journal_trimmed, journal_rolledForward] at hmem
        exact hsettled entry (mem_filter.mp hmem).1
      · rintro _ ⟨⟩
        exact ⟨⟨not_not.mp hhead, henvelope, rfl, hswap, hafter⟩, rfl⟩

/-- When a head resolution goes through. -/
theorem commitHeadResolution_of (hsettled : Settled activeApplies state)
    (hhead : state.producerState.heads.get input.mapping.fileId = some input.expectedHead)
    (henvelope : resolutionEnvelope builder input revisionId = .ok replacement)
    (hrecord : record = resolutionRecord recordId input.mapping input.content
      (input.existingRevisionId.getD revisionId) input.pendingIds)
    (hfree : inTransaction state record = false)
    (hswap : swapRefused state record replacement = false) :
    ∃ transaction, commitHeadResolution options builder now activeApplies revisionId recordId state
      input = .ok (transaction.after, some transaction) ∧ transaction.before = state := by
  have hsaved : performed options now (.commitProducerChange record replacement) state =
      some (trimmed options (rolledForward (swapped state now record replacement) record)) :=
    performed_commit.mpr ⟨⟨hfree, hswap⟩, rfl⟩
  refine ⟨⟨state, record, replacement,
    trimmed options (rolledForward (swapped state now record replacement) record)⟩, ?_, rfl⟩
  subst hrecord
  simp [commitHeadResolution, recoverLocked_of_settled hsettled, hhead, henvelope, hfree, hsaved]

/-- A local change that was committed. -/
structure Locally (options : SyncStateOptions) (builder : EnvelopeBuilder) (now : Timestamp)
    (revisionId recordId : Id) (state : PersistedSyncState) (commit : LocalChangeCommit)
    (transaction : Transaction) : Prop where
  envelope : localEnvelope builder state commit.operation revisionId =
    .ok transaction.replacement
  record : transaction.record = commitRecord recordId state.producerState
    (applyCommit state.producerState commit
      (transaction.replacement.map OutboxEnvelope.revisionId)) commit.operation
  free : inTransaction state transaction.record = false
  after : transaction.after = trimmed options
    (rolledForward (swapped state now transaction.record transaction.replacement)
      transaction.record)

theorem localTransaction_spec {commit : LocalChangeCommit} {transaction : Transaction}
    (h : localTransaction options builder now revisionId recordId state commit =
      .ok transaction) :
    Locally options builder now revisionId recordId state commit transaction := by
  unfold localTransaction at h
  rcases henvelope : localEnvelope builder state commit.operation revisionId with
    error | replacement
  · simp [henvelope] at h
  simp only [henvelope] at h
  split at h
  · simp at h
  · rename_i after hsaved
    obtain ⟨⟨hfree, -⟩, hafter⟩ := performed_commit.mp hsaved
    have htransaction := (Except.ok.inj h).symm
    subst htransaction
    exact ⟨henvelope, rfl, hfree, hafter⟩

theorem checkpointApply_spec {fileId : Id} {paths : List Path}
    (hsettled : Settled activeApplies state)
    (h : checkpointApply options now activeApplies recordId fileId paths state = .ok after) :
    ∃ next, nextState options now (.startProducerRecovery
        (checkpointRecord recordId state.producerState fileId paths) none) state = some next ∧
      after = trimmed options next := by
  unfold checkpointApply at h
  rw [recoverLocked_of_settled hsettled] at h
  dsimp only at h
  split at h
  · simp at h
  · rename_i saved hsaved
    obtain ⟨next, hnext, rfl⟩ := map_eq_some_iff.mp hsaved
    exact ⟨next, hnext, (Except.ok.inj h).symm⟩

end Havemind.RepositoryMethods
