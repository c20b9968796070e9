import Havemind.SyncState
import Mathlib.Algebra.Order.BigOperators.Group.List
import Mathlib.Algebra.Order.Ring.Nat

/-!
One push of the sync runner: the outbox in batches, the answers of the transport
read item by item, and the quarantine of a dead revision with everything queued
that descends from it. The transport and the durable state are ports; what they
answer may depend on everything they were asked before.
-/
namespace Havemind.PushCycle

open RevisionSchema SyncRunner SyncState List

def parentQuarantinedReason : String := "parent-quarantined"

def missingParentReason : String := "missing-parent"

def serverRejectedReason : String := "server-rejected"

def permanentReason (failure : SyncFailure) : String :=
  match failure.message with
  | some message => if message.length > 0 then message else "permanent-http-error"
  | none => "permanent-http-error"

/-- What a push asks of its ports, one entry a call. -/
inductive PortCall
  | push (revisions : List PushRevision)
  | recordPushReceipt (receipt : PushReceipt)
  | quarantineOutboxItem (revisionId : Id) (reason : String)
  | isLocallyAuthored (revisionId : Id)
  deriving DecidableEq

/-- The answers of the ports, given the calls made before. -/
structure Ports where
  push : List PortCall → List PushRevision → Except SyncFailure (List PushItemResult)
  isLocallyAuthored : List PortCall → Id → Bool

structure PushLimits where
  maxPushBatchBytes : ℕ := 512 * 1024
  maxPushBatchItems : ℕ := 64

/-- Parents and children among the queued revisions. -/
structure LineageIndex where
  parentsOf : Id → List Id
  childrenOf : Id → List Id

def itemParents (item : PushRevision) : List Id := item.parentRevisionIds.getD []

def addChild (childrenOf : Id → List Id) (parentId child : Id) : Id → List Id :=
  fun id => if id = parentId then childrenOf id ++ [child] else childrenOf id

def addLineage (index : LineageIndex) (item : PushRevision) : LineageIndex where
  parentsOf := fun id => if id = item.revisionId then itemParents item else index.parentsOf id
  childrenOf := (itemParents item).foldl
    (fun childrenOf parentId => addChild childrenOf parentId item.revisionId) index.childrenOf

def buildLineageIndex (outbox : List PushRevision) : LineageIndex :=
  outbox.foldl addLineage ⟨fun _ => [], fun _ => []⟩

section
variable (limits : PushLimits)

/-- The batches of the rest of the outbox, with the one being filled. -/
def planFrom (current : List PushRevision) (currentBytes : ℕ) :
    List PushRevision → List (List PushRevision)
  | [] => if current.length > 0 then [current] else []
  | item :: rest =>
    let bytes := item.payloadBytes
    if current.length > 0 ∧ (limits.maxPushBatchItems ≤ current.length ∨
        limits.maxPushBatchBytes < currentBytes + bytes) then
      current :: planFrom [item] bytes rest
    else planFrom (current ++ [item]) (currentBytes + bytes) rest

def planPushBatches (outbox : List PushRevision) : List (List PushRevision) :=
  planFrom limits [] 0 outbox

end

/-- What a push keeps track of, and the calls it has made. -/
structure PushState where
  pending : List Id
  accepted : List Id
  quarantinedIds : List Id
  pushed : ℕ
  calls : List PortCall
  deriving DecidableEq

def PushState.call (state : PushState) (call : PortCall) : PushState :=
  { state with calls := state.calls ++ [call] }

/-- Takes the revision off the pending ones and dead-letters it. -/
def PushState.quarantine (state : PushState) (revisionId : Id) (reason : String) : PushState :=
  { state with
    pending := state.pending.filter fun id => id ≠ revisionId
    quarantinedIds := state.quarantinedIds ++ [revisionId]
    calls := state.calls ++ [.quarantineOutboxItem revisionId reason] }

def PushState.accept (state : PushState) (revisionId : Id) (receipt : PushReceipt) : PushState :=
  { state with
    pending := state.pending.filter fun id => id ≠ revisionId
    accepted := state.accepted ++ [revisionId]
    pushed := state.pushed + 1
    calls := state.calls ++ [.recordPushReceipt receipt] }

/-- The children the revisions still pending can add to the work list. -/
def childCount (lineage : LineageIndex) (pending : List Id) : ℕ :=
  (pending.map fun id => (lineage.childrenOf id).length).sum

theorem childCount_filter_add_le (lineage : LineageIndex) {pending : List Id} {id : Id}
    (h : id ∈ pending) :
    childCount lineage (pending.filter fun other => other ≠ id) + (lineage.childrenOf id).length ≤
      childCount lineage pending := by
  unfold childCount
  induction pending with
  | nil => cases h
  | cons head rest ih =>
    have hrest : ((rest.filter fun other => other ≠ id).map
        fun other => (lineage.childrenOf other).length).sum ≤
        (rest.map fun other => (lineage.childrenOf other).length).sum :=
      List.Sublist.sum_le_sum (filter_sublist.map _) fun _ _ => Nat.zero_le _
    by_cases hhead : head = id
    · simp only [hhead, filter_cons, ne_eq, not_true_eq_false, decide_false,
        Bool.false_eq_true, ↓reduceIte, map_cons, sum_cons]
      simp only [ne_eq] at hrest
      omega
    · have hmem : id ∈ rest := (mem_cons.mp h).resolve_left (Ne.symm hhead)
      have := ih hmem
      simp only [filter_cons, ne_eq, hhead, not_false_eq_true, decide_true, ↓reduceIte,
        map_cons, sum_cons] at this ⊢
      omega

section
variable (ports : Ports) (lineage : LineageIndex) {batch : List PushRevision}
  {split : List (List PushRevision)}

/-- The children of a dead-lettered revision, as they join the work list. -/
def childWork (revisionId : Id) : List (Id × String) :=
  (lineage.childrenOf revisionId).map fun childId => (childId, parentQuarantinedReason)

/-- Dead-letters the revisions of the work list and all that descends from them,
breadth first. What was accepted or dead-lettered before is passed over. -/
def quarantineLineage (state : PushState) : List (Id × String) → PushState
  | [] => state
  | next :: work =>
    if next.1 ∉ state.pending then quarantineLineage state work
    else
      quarantineLineage (state.quarantine next.1 next.2) (work ++ childWork lineage next.1)
termination_by work => work.length + childCount lineage state.pending
decreasing_by
  · simp
  · rename_i hpending
    have := childCount_filter_add_le lineage (not_not.mp hpending)
    simp only [PushState.quarantine, childWork, length_append, length_map,
      length_cons]
    omega

/-- Whether a child refused for want of a parent can still land. -/
def parentStillViable (state : PushState) : List Id → Bool × PushState
  | [] => (false, state)
  | parentId :: rest =>
    if parentId ∈ state.pending ∨ parentId ∈ state.accepted then (true, state)
    else
      let asked := state.call (.isLocallyAuthored parentId)
      if ports.isLocallyAuthored state.calls parentId then (true, asked)
      else parentStillViable asked rest

/-- One result of a batch. -/
def readResult (state : PushState) (result : PushItemResult) : PushState :=
  if result.revisionId ∈ state.quarantinedIds then state
  else
    match result.outcome, result.receipt with
    | .accepted, some receipt => state.accept result.revisionId receipt
    | .accepted, none => state
    | .rejected, _ =>
      if result.permanent then
        quarantineLineage lineage state [(result.revisionId, serverRejectedReason)]
      else if result.missingParent then
        let (viable, state) :=
          parentStillViable ports state (lineage.parentsOf result.revisionId)
        if viable then state
        else quarantineLineage lineage state [(result.revisionId, missingParentReason)]
      else state

/-- How the turn of a batch ends: with batches to add to the queue, or by throwing. -/
inductive Turn
  | next (state : PushState) (split : List (List PushRevision))
  | throw (state : PushState) (failure : SyncFailure)

/-- What of a batch is still pending. -/
def liveItems (state : PushState) (batch : List PushRevision) : List PushRevision :=
  batch.filter fun item => item.revisionId ∈ state.pending

/-- One batch: what is still pending of it is sent. -/
def pushBatch (state : PushState) (batch : List PushRevision) : Turn :=
  let live := liveItems state batch
  if live.length = 0 then .next state []
  else
    let sent := state.call (.push live)
    match ports.push state.calls live with
    | .ok results => .next (results.foldl (readResult ports lineage) sent) []
    | .error failure =>
      if failure.authDenied then .throw sent failure
      else if failure.permanent then
        match live with
        | [item] =>
          .next (quarantineLineage lineage sent [(item.revisionId, permanentReason failure)]) []
        | _ => .next sent (live.map fun item => [item])
      else .throw sent failure

/-- A batch of several counts for itself and for the single ones it may leave. -/
def batchWeight (batch : List PushRevision) : ℕ :=
  if batch.length ≤ 1 then 1 else batch.length + 1

def queueWeight (queue : List (List PushRevision)) : ℕ := (queue.map batchWeight).sum

theorem queueWeight_singles (live : List PushRevision) :
    queueWeight (live.map fun item => [item]) = live.length := by
  simp [queueWeight, batchWeight, Function.comp_def]

/-- A batch leaves nothing, or the single batches of what it sent, if that was several. -/
def Leaves (live : List PushRevision) (split : List (List PushRevision)) : Prop :=
  split = [] ∨ (2 ≤ live.length ∧ split = live.map fun item => [item])

theorem Leaves.weight_lt {live : List PushRevision} (h : Leaves live split)
    (hlength : live.length ≤ batch.length) : queueWeight split < batchWeight batch := by
  unfold batchWeight
  rcases h with rfl | ⟨hseveral, rfl⟩
  · simp only [queueWeight, map_nil, sum_nil]
    split_ifs <;> omega
  · rw [queueWeight_singles]
    split_ifs <;> omega

theorem pushBatch_leaves {state state' : PushState}
    (h : pushBatch ports lineage state batch = .next state' split) :
    Leaves (liveItems state batch) split := by
  unfold pushBatch at h
  dsimp only at h
  by_cases hempty : (liveItems state batch).length = 0
  · rw [if_pos hempty] at h
    cases h
    exact .inl rfl
  · rw [if_neg hempty] at h
    split at h
    · cases h
      exact .inl rfl
    · split at h
      · cases h
      · split at h
        · split at h
          · cases h
            exact .inl rfl
          · rename_i hmany
            cases h
            refine .inr ⟨?_, rfl⟩
            rcases hitems : liveItems state batch with _ | ⟨item, _ | ⟨other, rest⟩⟩
            · exact absurd (by rw [hitems]; rfl) hempty
            · exact absurd hitems (hmany item)
            · simp
        · cases h

theorem queueWeight_append (queue rest : List (List PushRevision)) :
    queueWeight (queue ++ rest) = queueWeight queue + queueWeight rest := by
  simp [queueWeight]

/-- The queue of batches, to which a batch may add single ones. -/
def pushQueue (state : PushState) : List (List PushRevision) → PushState × Option SyncFailure
  | [] => (state, none)
  | batch :: queue =>
    match _hturn : pushBatch ports lineage state batch with
    | .next next split => pushQueue next (queue ++ split)
    | .throw state failure => (state, some failure)
termination_by queue => queueWeight queue
decreasing_by
  have := (pushBatch_leaves ports lineage _hturn).weight_lt (length_filter_le _ _)
  rw [queueWeight_append]
  simp only [queueWeight, map_cons, sum_cons] at this ⊢
  omega

end

structure PushCounts where
  pushed : ℕ
  quarantined : ℕ
  deriving DecidableEq

/-- The state a push starts with. -/
def startPush (outbox : List PushRevision) : PushState :=
  ⟨outbox.map PushRevision.revisionId, [], [], 0, []⟩

def runPush (ports : Ports) (limits : PushLimits) (outbox : List PushRevision) :
    PushState × Except SyncFailure PushCounts :=
  if outbox.length = 0 then (startPush outbox, .ok ⟨0, 0⟩)
  else
    match pushQueue ports (buildLineageIndex outbox) (startPush outbox)
        (planPushBatches limits outbox) with
    | (state, none) => (state, .ok ⟨state.pushed, state.quarantinedIds.length⟩)
    | (state, some failure) => (state, .error failure)

end Havemind.PushCycle
