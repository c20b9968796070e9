import Havemind.DurableReload
import Havemind.HeadReconciliation
import Havemind.RepositoryMethods
import Havemind.Runs

/-!
Runs of one device: local commits, remote applies with their checkpoints, adoptions and
merges, rollbacks, head resolutions, the bookkeeping of pushes and pulls, and restarts. A
step is one write of the durable document, so that whatever the methods of the producer wait
for in between, every order of their writes is a run. What fails to be written is no step.
-/
namespace Havemind.ClientRuns

open RevisionSchema VaultPayload DurableState DurableOperations DurableSections DurableReload Option
  OutboxRepository RepositoryMethods

structure ClientOptions where
  document : SyncStateOptions
  builder : EnvelopeBuilder

/-- The document as it is saved and cached, the record before the last save, and the journal
entries of the applies that are running. -/
structure ClientWorld where
  state : PersistedSyncState := emptyState
  backup : PersistedSyncState := emptyState
  activeApplies : List Id := []
  deriving DecidableEq

inductive ClientAction
  | commitLocalChange (commit : LocalChangeCommit) (revisionId recordId : Id) (now : Timestamp)
  | checkpointApply (recordId fileId : Id) (paths : List Path) (now : Timestamp)
  | enqueueMerge (input : MergedChange) (revisionId : Id) (now : Timestamp)
  | adoptRemoteMapping (mapping : LocalFileMapping) (headRevisionId : Id)
  | forgetRemoteMapping (collisionKey : ℕ) (fileId : Id)
  | completeApply (recordId : Id)
  | endApply (recordId : Id)
  | recoverRecord (recordId : Id) (now : Timestamp)
  | commitHeadResolution (input : ResolutionInput) (revisionId recordId : Id) (now : Timestamp)
  | recordStats (entries : List StatEntry)
  | document (operation : Operation) (now : Timestamp)
  | reload (next backup : PersistedSyncState)

/-- The operations that touch neither the producer nor its journal. -/
def isBookkeeping : Operation → Bool
  | .startProducerRecovery .. | .commitProducerChange .. | .saveProducer _ |
    .recoverProducerQueue _ | .completeProducerRecovery _ | .enqueueAutomaticMerge _ => false
  | _ => true

section
variable (options : ClientOptions) (world : ClientWorld)

/-- Nothing is left to recover but the entries of running applies. -/
def isSettled : Bool := world.state.journal.all fun record => record.id ∈ world.activeApplies

def ClientWorld.saved (next : PersistedSyncState) : ClientWorld :=
  { world with state := next, backup := world.state }

def performing (now : Timestamp) (operation : Operation) : Option ClientWorld :=
  (performed options.document now operation world.state).map world.saved

/-- The first write of a merge; its second is an adoption of the merge. -/
def mergeQueuedStep (input : MergedChange) (revisionId : Id) (now : Timestamp) :
    Option ClientWorld :=
  match mergedEnvelope options.builder world.state input revisionId with
  | .ok (some envelope) => performing options world now (.enqueueAutomaticMerge envelope)
  | _ => none

def clientStep : ClientAction → Option ClientWorld
  | .commitLocalChange commit revisionId recordId now =>
    if isSettled world then
      match localTransaction options.document options.builder now revisionId recordId world.state
          commit with
      | .ok transaction => some (world.saved transaction.after)
      | .error _ => none
    else none
  | .checkpointApply recordId fileId paths now =>
    if isSettled world then
      match checkpointApply options.document now world.activeApplies recordId fileId paths
          world.state with
      | .ok after =>
        some { world.saved after with activeApplies := recordId :: world.activeApplies }
      | .error _ => none
    else none
  | .enqueueMerge input revisionId now => mergeQueuedStep options world input revisionId now
  | .adoptRemoteMapping mapping headRevisionId =>
    performing options world 0
      (.saveProducer (adopted world.state.producerState mapping headRevisionId))
  | .forgetRemoteMapping collisionKey fileId =>
    performing options world 0
      (.saveProducer (forgotten world.state.producerState collisionKey fileId))
  | .completeApply recordId =>
    if recordId ∈ world.activeApplies then
      (performing options world 0 (.completeProducerRecovery recordId)).map fun next =>
        { next with activeApplies := world.activeApplies.filter fun id => id ≠ recordId }
    else none
  | .endApply recordId =>
    if recordId ∈ world.activeApplies then
      some { world with activeApplies := world.activeApplies.filter fun id => id ≠ recordId }
    else none
  | .recoverRecord recordId now =>
    if recordId ∈ world.activeApplies then none
    else performing options world now (.recoverProducerQueue recordId)
  | .commitHeadResolution input revisionId recordId now =>
    if isSettled world then
      match commitHeadResolution options.document options.builder now world.activeApplies
          revisionId recordId world.state input with
      | .ok (_, some transaction) => some (world.saved transaction.after)
      | _ => none
    else none
  | .recordStats entries =>
    performing options world 0 (.saveProducer (statsRecorded world.state.producerState entries))
  | .document operation now =>
    if isBookkeeping operation then performing options world now operation else none
  | .reload next backup => some ⟨next, backup, []⟩

/-- A load reads the saved record or, when that is unreadable, the one before it. It takes a
missing producer from the saved record, or starts with an empty one. -/
def Loads (next : PersistedSyncState) : Prop :=
  ∃ stored, (stored = world.state ∨ stored = world.backup) ∧ Reloaded stored next ∧
    (stored.producer = none → next.producer = none ∨ next.producer = some emptyProducer ∨
      next.producer = world.state.producer)

/-- A restart loads what was saved. -/
def reloads : ClientAction → Prop
  | .reload next backup => Loads world next ∧ Loads world backup
  | _ => True

end

variable {options : ClientOptions} {world world' : ClientWorld}

theorem isSettled_iff : isSettled world = true ↔ Settled world.activeApplies
    world.state := by
  simp [isSettled, Settled]

theorem performing_eq_some {now : Timestamp} {operation : Operation}
    (h : performing options world now operation = some world') :
    ∃ next, nextState options.document now operation world.state = some next ∧
      world' = world.saved (trimmed options.document next) := by
  obtain ⟨saved, hsaved, rfl⟩ := map_eq_some_iff.mp h
  obtain ⟨next, hnext, rfl⟩ := map_eq_some_iff.mp hsaved
  exact ⟨next, hnext, rfl⟩

section
variable {recordId revisionId fileId : Id} {now : Timestamp}

theorem commitLocalChange_step {commit : LocalChangeCommit}
    (h : clientStep options world (.commitLocalChange commit revisionId recordId now) =
      some world') :
    ∃ transaction, Locally options.document options.builder now revisionId
        recordId world.state commit transaction ∧ world' = world.saved transaction.after := by
  simp only [clientStep] at h
  split_ifs at h with hsettled
  split at h
  · rename_i transaction hcommitted
    exact ⟨transaction, localTransaction_spec hcommitted,
      (some.inj h).symm⟩
  · cases h

theorem checkpointApply_step {paths : List Path}
    (h : clientStep options world (.checkpointApply recordId fileId paths now) = some world') :
    ∃ next, nextState options.document now (.startProducerRecovery
        (checkpointRecord recordId world.state.producerState fileId paths) none) world.state =
          some next ∧
      world' = { world.saved (trimmed options.document next) with
        activeApplies := recordId :: world.activeApplies } := by
  simp only [clientStep] at h
  split_ifs at h with hsettled
  split at h
  · rename_i after hstarted
    obtain ⟨next, hnext, rfl⟩ :=
      checkpointApply_spec (isSettled_iff.mp hsettled) hstarted
    exact ⟨next, hnext, (some.inj h).symm⟩
  · cases h

theorem enqueueMerge_step {input : MergedChange}
    (h : clientStep options world (.enqueueMerge input revisionId now) = some world') :
    ∃ envelope, mergedEnvelope options.builder world.state input revisionId = .ok (some envelope) ∧
      performing options world now (.enqueueAutomaticMerge envelope) = some world' := by
  simp only [clientStep, mergeQueuedStep] at h
  split at h
  · rename_i envelope henvelope
    exact ⟨envelope, henvelope, h⟩
  · cases h

theorem completeApply_step
    (h : clientStep options world (.completeApply recordId) = some world') :
    recordId ∈ world.activeApplies ∧ ∃ next,
      performing options world 0 (.completeProducerRecovery recordId) = some next ∧
      world' = { next with activeApplies := world.activeApplies.filter fun id => id ≠ recordId } := by
  simp only [clientStep] at h
  split_ifs at h with hactive
  obtain ⟨next, hnext, rfl⟩ := map_eq_some_iff.mp h
  exact ⟨hactive, next, hnext, rfl⟩

theorem endApply_step (h : clientStep options world (.endApply recordId) = some world') :
    recordId ∈ world.activeApplies ∧
      world' = { world with
        activeApplies := world.activeApplies.filter fun id => id ≠ recordId } := by
  simp only [clientStep] at h
  split_ifs at h with hactive
  exact ⟨hactive, (some.inj h).symm⟩

theorem recoverRecord_step
    (h : clientStep options world (.recoverRecord recordId now) = some world') :
    recordId ∉ world.activeApplies ∧
      performing options world now (.recoverProducerQueue recordId) = some world' := by
  simp only [clientStep] at h
  split_ifs at h with hactive
  exact ⟨hactive, h⟩

theorem commitHeadResolution_step {input : ResolutionInput}
    (h : clientStep options world (.commitHeadResolution input revisionId recordId now) =
      some world') :
    ∃ transaction, Resolved options.document options.builder now revisionId
        recordId input transaction ∧ transaction.before = world.state ∧
      world' = world.saved transaction.after := by
  simp only [clientStep] at h
  split_ifs at h with hsettled
  split at h
  · rename_i next transaction hcommitted
    obtain ⟨-, hfound⟩ :=
      commitHeadResolution_spec (isSettled_iff.mp hsettled) hcommitted
    obtain ⟨hresolved, hbefore⟩ := hfound transaction rfl
    exact ⟨transaction, hresolved, hbefore, (some.inj h).symm⟩
  · cases h

theorem document_step {operation : Operation}
    (h : clientStep options world (.document operation now) = some world') :
    isBookkeeping operation = true ∧ performing options world now operation = some world' := by
  simp only [clientStep] at h
  split_ifs at h with hkind
  exact ⟨hkind, h⟩

end

/-- Bookkeeping leaves the producer and its journal alone. -/
theorem nextState_bookkeeping {now : Timestamp} {operation : Operation}
    {state next : PersistedSyncState} (hkind : isBookkeeping operation = true)
    (h : nextState options.document now operation state = some next) :
    next.producer = state.producer ∧ next.producerRecovery = state.producerRecovery := by
  cases operation
  case startProducerRecovery | commitProducerChange | saveProducer | recoverProducerQueue |
      completeProducerRecovery | enqueueAutomaticMerge => cases hkind
  case requeueQuarantined revisionId =>
    obtain ⟨stashed, -, rfl⟩ := map_eq_some_iff.mp h
    exact ⟨rfl, rfl⟩
  case retireEquivalentMerges event =>
    simp only [nextState] at h
    split_ifs at h
    cases h
    exact ⟨rfl, rfl⟩
  case forgetPath | forgetBaseHash | forgetBaseContent | discardQuarantined =>
    simp only [nextState] at h
    split_ifs at h
    cases h
    exact ⟨rfl, rfl⟩
  all_goals
    cases h
    exact ⟨rfl, rfl⟩

end Havemind.ClientRuns
