import Havemind.PushCycle

/-!
A push is safe whatever the transport answers: a revision is sent at most twice,
an accepted one is not dead-lettered, a dead-lettered one is not sent again, and
no child of a dead-lettered revision is left in the queue.
-/
namespace Havemind.PushSafety

open RevisionSchema SyncRunner SyncState PushCycle List

def sentBy : PortCall → List Id
  | .push revisions => revisions.map PushRevision.revisionId
  | _ => []

def recordedBy : PortCall → List Id
  | .recordPushReceipt receipt => [receipt.revisionId]
  | _ => []

def deadLetteredBy : PortCall → List Id
  | .quarantineOutboxItem revisionId _ => [revisionId]
  | _ => []

def isRequest : PortCall → Bool
  | .push _ => true
  | _ => false

/-- The revisions sent, one entry each time. -/
def sent (calls : List PortCall) : List Id := calls.flatMap sentBy

/-- The revisions recorded as accepted. -/
def recorded (calls : List PortCall) : List Id := calls.flatMap recordedBy

/-- The revisions dead-lettered. -/
def deadLettered (calls : List PortCall) : List Id := calls.flatMap deadLetteredBy

def requests (calls : List PortCall) : ℕ := calls.countP isRequest

/-- A receipt carries the id of the revision it is for. -/
def ReceiptsOwn (ports : Ports) : Prop :=
  ∀ calls revisions results, ports.push calls revisions = .ok results →
    ∀ result ∈ results, ∀ receipt ∈ result.receipt, receipt.revisionId = result.revisionId

/-- No call sends a revision dead-lettered before it. -/
def NeverResent (calls : List PortCall) : Prop :=
  ∀ before revisions after, calls = before ++ .push revisions :: after →
    ∀ item ∈ revisions, item.revisionId ∉ deadLettered before

/-- What the calls of a push keep to. -/
structure PushSafe (outbox : List PushRevision) (calls : List PortCall) : Prop where
  bounded : requests calls ≤ 2 * outbox.length
  sent_twice : ∀ id, (sent calls).count id ≤ 2
  accepted_kept : ∀ id ∈ recorded calls, id ∉ deadLettered calls
  never_resent : NeverResent calls
  children_settled : ∀ item ∈ outbox, ∀ parentId ∈ itemParents item,
    parentId ∈ deadLettered calls →
      item.revisionId ∈ deadLettered calls ∨ item.revisionId ∈ recorded calls

section
variable {id other : Id}

theorem mem_addChild {childrenOf : Id → List Id} {parentId child : Id} :
    other ∈ addChild childrenOf parentId child id ↔
      other ∈ childrenOf id ∨ (id = parentId ∧ other = child) := by
  unfold addChild
  split_ifs with h <;> simp [h]

theorem mem_childrenOf_addLineage {index : LineageIndex} {item : PushRevision} :
    other ∈ (addLineage index item).childrenOf id ↔
      other ∈ index.childrenOf id ∨ (id ∈ itemParents item ∧ other = item.revisionId) := by
  unfold addLineage
  dsimp only
  generalize index.childrenOf = childrenOf
  induction itemParents item generalizing childrenOf with
  | nil => simp
  | cons parentId rest ih =>
    rw [foldl_cons, ih, mem_addChild, mem_cons]
    tauto

theorem mem_childrenOf {outbox : List PushRevision} :
    other ∈ (buildLineageIndex outbox).childrenOf id ↔
      ∃ item ∈ outbox, id ∈ itemParents item ∧ other = item.revisionId := by
  have hfold : ∀ (index : LineageIndex), other ∈ (outbox.foldl addLineage index).childrenOf id ↔
      other ∈ index.childrenOf id ∨
        ∃ item ∈ outbox, id ∈ itemParents item ∧ other = item.revisionId := by
    induction outbox with
    | nil => simp
    | cons item rest ih =>
      intro index
      rw [foldl_cons, ih, mem_childrenOf_addLineage]
      simp only [mem_cons, exists_eq_or_imp]
      tauto
  exact (hfold _).trans (by simp)

end

section
variable (limits : PushLimits)

theorem flatten_planFrom (current : List PushRevision) (currentBytes : ℕ)
    (rest : List PushRevision) :
    (planFrom limits current currentBytes rest).flatten = current ++ rest := by
  induction rest generalizing current currentBytes with
  | nil =>
    unfold planFrom
    split_ifs with h
    · simp
    · have hnil : current = [] := length_eq_zero_iff.mp (Nat.eq_zero_of_not_pos h)
      simp [hnil]
  | cons item rest ih =>
    unfold planFrom
    dsimp only
    split_ifs with h
    · rw [flatten_cons, ih, singleton_append]
    · rw [ih, append_assoc, singleton_append]

theorem planFrom_nonempty (current : List PushRevision) (currentBytes : ℕ)
    (rest : List PushRevision) : [] ∉ planFrom limits current currentBytes rest := by
  induction rest generalizing current currentBytes with
  | nil =>
    unfold planFrom
    split_ifs with h
    · intro hmem
      rw [← mem_singleton.mp hmem] at h
      simp at h
    · exact not_mem_nil
  | cons item rest ih =>
    unfold planFrom
    dsimp only
    split_ifs with h
    · intro hmem
      rcases mem_cons.mp hmem with hnil | hrest
      · rw [← hnil] at h
        exact Nat.lt_irrefl 0 (by simpa using h.1)
      · exact ih _ _ hrest
    · exact ih _ _

def batchBytes (batch : List PushRevision) : ℕ := (batch.map PushRevision.payloadBytes).sum

/-- What a batch may hold. One item may be over the byte budget by itself. -/
structure InBudget (batch : List PushRevision) : Prop where
  items : batch.length ≤ limits.maxPushBatchItems
  bytes : batch.length ≤ 1 ∨ batchBytes batch ≤ limits.maxPushBatchBytes

variable {limits} in
theorem InBudget.single (hitems : 0 < limits.maxPushBatchItems) (item : PushRevision) :
    InBudget limits [item] := ⟨hitems, .inl (Nat.le_refl 1)⟩

theorem batchBytes_append (current : List PushRevision) (item : PushRevision) :
    batchBytes (current ++ [item]) = batchBytes current + item.payloadBytes := by
  unfold batchBytes
  rw [map_append, sum_append, map_singleton, sum_singleton]

/-- An item that does not overflow the batch being filled keeps it in budget. -/
theorem inBudget_push (hitems : 0 < limits.maxPushBatchItems) {current : List PushRevision}
    {item : PushRevision}
    (hfits : ¬ (current.length > 0 ∧ (limits.maxPushBatchItems ≤ current.length ∨
      limits.maxPushBatchBytes < batchBytes current + item.payloadBytes))) :
    InBudget limits (current ++ [item]) := by
  by_cases hempty : current.length > 0
  · have hroom : ¬ (limits.maxPushBatchItems ≤ current.length ∨
        limits.maxPushBatchBytes < batchBytes current + item.payloadBytes) :=
      fun h => hfits ⟨hempty, h⟩
    rw [not_or] at hroom
    constructor
    · rw [length_append, length_singleton]
      omega
    · right
      rw [batchBytes_append]
      omega
  · have hnil : current = [] := length_eq_zero_iff.mp (Nat.eq_zero_of_not_pos hempty)
    rw [hnil, nil_append]
    exact InBudget.single hitems item

theorem planFrom_inBudget (hitems : 0 < limits.maxPushBatchItems) (rest : List PushRevision)
    {current : List PushRevision} (hcurrent : InBudget limits current) :
    ∀ batch ∈ planFrom limits current (batchBytes current) rest, InBudget limits batch := by
  induction rest generalizing current with
  | nil =>
    intro batch hmem
    unfold planFrom at hmem
    split_ifs at hmem
    · rw [mem_singleton.mp hmem]
      exact hcurrent
    · exact absurd hmem not_mem_nil
  | cons item rest ih =>
    intro batch hmem
    unfold planFrom at hmem
    dsimp only at hmem
    split_ifs at hmem with hoverflow
    · rcases mem_cons.mp hmem with rfl | hlater
      · exact hcurrent
      · have hbytes : batchBytes [item] = item.payloadBytes := Nat.add_zero _
        rw [← hbytes] at hlater
        exact ih (InBudget.single hitems item) batch hlater
    · rw [← batchBytes_append] at hmem
      exact ih (inBudget_push limits hitems hoverflow) batch hmem

/-- The batches are the outbox cut in order, each of them in budget. -/
theorem planPushBatches_partition (outbox : List PushRevision)
    (hitems : 0 < limits.maxPushBatchItems) :
    (planPushBatches limits outbox).flatten = outbox ∧
      ∀ batch ∈ planPushBatches limits outbox, batch ≠ [] ∧
        batch.length ≤ limits.maxPushBatchItems ∧
          (limits.maxPushBatchBytes < (batch.map PushRevision.payloadBytes).sum →
            ∃ item, batch = [item]) := by
  refine ⟨flatten_planFrom limits [] 0 outbox, fun batch hmem => ?_⟩
  have hnonempty : batch ≠ [] := by
    intro hnil
    rw [hnil] at hmem
    exact planFrom_nonempty limits [] 0 outbox hmem
  have hstart : InBudget limits [] := ⟨Nat.zero_le _, .inl (Nat.zero_le 1)⟩
  have hbudget := planFrom_inBudget limits hitems outbox hstart batch hmem
  refine ⟨hnonempty, hbudget.items, fun hover => ?_⟩
  rcases hbudget.bytes with hone | hbytes
  · have hlength := length_pos_iff.mpr hnonempty
    exact length_eq_one_iff.mp (Nat.le_antisymm hone hlength)
  · exact absurd hover (Nat.not_lt.mpr hbytes)

/-- An oversized revision between two small ones is sent alone. -/
theorem planPushBatches_partition_oversized :
    planPushBatches ⟨10, 2⟩ [⟨1, 1, 0, 4, none⟩, ⟨2, 2, 0, 25, none⟩, ⟨3, 3, 0, 6, none⟩] =
        [[⟨1, 1, 0, 4, none⟩], [⟨2, 2, 0, 25, none⟩], [⟨3, 3, 0, 6, none⟩]] ∧
      ∀ batch ∈ planPushBatches ⟨10, 2⟩
          [⟨1, 1, 0, 4, none⟩, ⟨2, 2, 0, 25, none⟩, ⟨3, 3, 0, 6, none⟩],
        batch.length ≤ 2 :=
  ⟨rfl, fun batch hmem => ((planPushBatches_partition ⟨10, 2⟩ _ Nat.two_pos).2 batch hmem).2.1⟩

theorem queueWeight_le (queue : List (List PushRevision)) (hnonempty : [] ∉ queue) :
    queueWeight queue ≤ 2 * queue.flatten.length := by
  induction queue with
  | nil => simp [queueWeight]
  | cons batch rest ih =>
    have hbatch : batch ≠ [] := fun h => hnonempty (h ▸ mem_cons_self)
    have hlength : 0 < batch.length := length_pos_iff.mpr hbatch
    have hrest := ih fun h => hnonempty (mem_cons_of_mem _ h)
    have hweight : batchWeight batch ≤ 2 * batch.length := by
      unfold batchWeight
      split_ifs <;> omega
    simp only [queueWeight, map_cons, sum_cons, flatten_cons,
      length_append] at hrest ⊢
    omega

end

section
variable {calls : List PortCall}

theorem deadLettered_append (calls more : List PortCall) :
    deadLettered (calls ++ more) = deadLettered calls ++ deadLettered more :=
  flatMap_append

theorem recorded_append (calls more : List PortCall) :
    recorded (calls ++ more) = recorded calls ++ recorded more := flatMap_append

theorem sent_append (calls more : List PortCall) : sent (calls ++ more) = sent calls ++ sent more :=
  flatMap_append

/-- A call added at the end resends nothing if it sends nothing dead-lettered. -/
theorem NeverResent.concat {call : PortCall} (h : NeverResent calls)
    (hcall : ∀ id ∈ sentBy call, id ∉ deadLettered calls) : NeverResent (calls ++ [call]) := by
  intro before revisions after hsplit item hitem
  rcases eq_nil_or_concat after with rfl | ⟨rest, last, rfl⟩
  · obtain ⟨rfl, hlast⟩ := append_inj' hsplit rfl
    cases hlast
    exact hcall _ (mem_map_of_mem hitem)
  · rw [concat_eq_append, ← cons_append, ← append_assoc] at hsplit
    exact h before revisions rest (append_inj' hsplit rfl).1 item hitem

end

section
variable {outbox : List PushRevision} {lineage : LineageIndex} {ports : Ports} {state : PushState}
  {state' : PushState} {id : Id}

/-- Every listed revision is in one of three places, and the calls tell which. -/
structure Tracked (outbox : List PushRevision) (state : PushState) : Prop where
  listed : ∀ item ∈ outbox, item.revisionId ∈ state.pending ∨
    item.revisionId ∈ state.accepted ∨ item.revisionId ∈ state.quarantinedIds
  pending_not_accepted : ∀ id ∈ state.pending, id ∉ state.accepted
  pending_not_quarantined : ∀ id ∈ state.pending, id ∉ state.quarantinedIds
  accepted_kept : ∀ id ∈ state.accepted, id ∉ state.quarantinedIds
  accepted_recorded : state.accepted = recorded state.calls
  quarantined_calls : state.quarantinedIds = deadLettered state.calls
  never_resent : NeverResent state.calls

/-- The children of what is dead-lettered are not pending, or wait in the work list. -/
def Covered (lineage : LineageIndex) (state : PushState) (work : List Id) : Prop :=
  ∀ id ∈ state.quarantinedIds, ∀ childId ∈ lineage.childrenOf id,
    childId ∉ state.pending ∨ childId ∈ work

/-- What the results of a batch leave alone: nothing is sent, nothing is pending again. -/
structure Quiet (state state' : PushState) : Prop where
  sent_same : sent state'.calls = sent state.calls
  requests_same : requests state'.calls = requests state.calls

theorem Quiet.refl (state : PushState) : Quiet state state := ⟨rfl, rfl⟩

theorem Quiet.trans {state'' : PushState} (h : Quiet state state') (h' : Quiet state' state'') :
    Quiet state state'' :=
  ⟨h'.sent_same.trans h.sent_same, h'.requests_same.trans h.requests_same⟩

theorem quiet_concat {call : PortCall} (hcalls : state'.calls = state.calls ++ [call])
    (hsent : sentBy call = []) (hrequest : isRequest call = false) : Quiet state state' := by
  constructor
  · rw [hcalls, sent_append]
    simp [sent, hsent]
  · rw [hcalls]
    simp [requests, countP_append, hrequest]

theorem Tracked.quarantine (h : Tracked outbox state) (hpending : id ∈ state.pending)
    (reason : String) : Tracked outbox (state.quarantine id reason) where
  listed := by
    intro item hitem
    simp only [PushState.quarantine, mem_filter, decide_eq_true_eq, mem_append,
      mem_singleton]
    rcases h.listed item hitem with hstill | haccepted | hdead
    · by_cases heq : item.revisionId = id
      · exact .inr (.inr (.inr heq))
      · exact .inl ⟨hstill, heq⟩
    · exact .inr (.inl haccepted)
    · exact .inr (.inr (.inl hdead))
  pending_not_accepted := fun other hother =>
    h.pending_not_accepted other (mem_filter.mp hother).1
  pending_not_quarantined := by
    intro other hother hdead
    obtain ⟨hstill, hne⟩ := mem_filter.mp hother
    rcases mem_append.mp hdead with hbefore | hnow
    · exact h.pending_not_quarantined other hstill hbefore
    · exact of_decide_eq_true hne (mem_singleton.mp hnow)
  accepted_kept := by
    intro other haccepted hdead
    rcases mem_append.mp hdead with hbefore | hnow
    · exact h.accepted_kept other haccepted hbefore
    · rw [mem_singleton.mp hnow] at haccepted
      exact h.pending_not_accepted id hpending haccepted
  accepted_recorded := by
    show state.accepted = recorded (state.calls ++ [_])
    rw [recorded_append, ← h.accepted_recorded]
    exact (append_nil _).symm
  quarantined_calls := by
    show state.quarantinedIds ++ [id] = deadLettered (state.calls ++ [_])
    rw [deadLettered_append, ← h.quarantined_calls]
    rfl
  never_resent := h.never_resent.concat fun _ hnone => nomatch hnone

theorem Tracked.accept (h : Tracked outbox state) (halive : id ∉ state.quarantinedIds)
    {receipt : PushReceipt} (hreceipt : receipt.revisionId = id) :
    Tracked outbox (state.accept id receipt) where
  listed := by
    intro item hitem
    simp only [PushState.accept, mem_filter, decide_eq_true_eq, mem_append,
      mem_singleton]
    rcases h.listed item hitem with hstill | haccepted | hdead
    · by_cases heq : item.revisionId = id
      · exact .inr (.inl (.inr heq))
      · exact .inl ⟨hstill, heq⟩
    · exact .inr (.inl (.inl haccepted))
    · exact .inr (.inr hdead)
  pending_not_accepted := by
    intro other hother haccepted
    obtain ⟨hstill, hne⟩ := mem_filter.mp hother
    rcases mem_append.mp haccepted with hbefore | hnow
    · exact h.pending_not_accepted other hstill hbefore
    · exact of_decide_eq_true hne (mem_singleton.mp hnow)
  pending_not_quarantined := fun other hother =>
    h.pending_not_quarantined other (mem_filter.mp hother).1
  accepted_kept := by
    intro other haccepted
    rcases mem_append.mp haccepted with hbefore | hnow
    · exact h.accepted_kept other hbefore
    · rw [mem_singleton.mp hnow]
      exact halive
  accepted_recorded := by
    show state.accepted ++ [id] = recorded (state.calls ++ [_])
    rw [recorded_append, ← h.accepted_recorded, ← hreceipt]
    rfl
  quarantined_calls := by
    show state.quarantinedIds = deadLettered (state.calls ++ [_])
    rw [deadLettered_append, ← h.quarantined_calls]
    exact (append_nil _).symm
  never_resent := h.never_resent.concat fun _ hnone => nomatch hnone

/-- A call that neither records nor dead-letters keeps the account. -/
theorem Tracked.call (h : Tracked outbox state) {call : PortCall} (hrecorded : recordedBy call = [])
    (hdead : deadLetteredBy call = [])
    (hsent : ∀ id ∈ sentBy call, id ∉ state.quarantinedIds) : Tracked outbox (state.call call) where
  listed := h.listed
  pending_not_accepted := h.pending_not_accepted
  pending_not_quarantined := h.pending_not_quarantined
  accepted_kept := h.accepted_kept
  accepted_recorded := by
    show state.accepted = recorded (state.calls ++ [call])
    rw [recorded_append, ← h.accepted_recorded]
    simp [recorded, hrecorded]
  quarantined_calls := by
    show state.quarantinedIds = deadLettered (state.calls ++ [call])
    rw [deadLettered_append, ← h.quarantined_calls]
    simp [deadLettered, hdead]
  never_resent := by
    refine h.never_resent.concat fun id hid => ?_
    rw [← h.quarantined_calls]
    exact hsent id hid

/-- The cascade dead-letters until nothing in the work list can be missed. -/
theorem quarantineLineage_spec (h : Tracked outbox state) {work : List (Id × String)}
    (hcovered : Covered lineage state (work.map Prod.fst)) :
    Tracked outbox (quarantineLineage lineage state work) ∧
      Covered lineage (quarantineLineage lineage state work) [] ∧
      Quiet state (quarantineLineage lineage state work) := by
  fun_induction quarantineLineage lineage state work with
  | case1 state => exact ⟨h, hcovered, Quiet.refl state⟩
  | case2 state next work hpending ih =>
    refine ih h fun id hid childId hchild => ?_
    rcases hcovered id hid childId hchild with hdone | hwork
    · exact .inl hdone
    · rcases mem_cons.mp hwork with heq | hrest
      · exact .inl (heq ▸ hpending)
      · exact .inr hrest
  | case3 state next work hpending ih =>
    have hpending : next.1 ∈ state.pending := not_not.mp hpending
    obtain ⟨htracked, hclosed, hquiet⟩ := ih (h.quarantine hpending next.2) (by
      intro id hid childId hchild
      by_cases hgone : childId ∈ (state.quarantine next.1 next.2).pending
      · obtain ⟨hstill, hne⟩ := mem_filter.mp hgone
        right
        rw [map_append, mem_append]
        rcases mem_append.mp hid with hbefore | hnow
        · left
          rcases hcovered id hbefore childId hchild with hdone | hwork
          · exact absurd hstill hdone
          · exact (mem_cons.mp hwork).resolve_left (of_decide_eq_true hne)
        · right
          rw [mem_singleton.mp hnow] at hchild
          simpa [childWork] using hchild
      · exact .inl hgone)
    exact ⟨htracked, hclosed, (quiet_concat rfl rfl rfl).trans hquiet⟩

theorem parentStillViable_spec (ports : Ports) (h : Tracked outbox state)
    (hcovered : Covered lineage state []) (parents : List Id) :
    Tracked outbox (parentStillViable ports state parents).2 ∧
      Covered lineage (parentStillViable ports state parents).2 [] ∧
      Quiet state (parentStillViable ports state parents).2 := by
  induction parents generalizing state with
  | nil => exact ⟨h, hcovered, Quiet.refl state⟩
  | cons parentId rest ih =>
    have hasked : Tracked outbox (state.call (.isLocallyAuthored parentId)) :=
      h.call rfl rfl fun _ hnone => nomatch hnone
    have hquiet : Quiet state (state.call (.isLocallyAuthored parentId)) :=
      quiet_concat rfl rfl rfl
    unfold parentStillViable
    dsimp only
    split_ifs
    · exact ⟨h, hcovered, Quiet.refl state⟩
    · exact ⟨hasked, hcovered, hquiet⟩
    · obtain ⟨htracked, hclosed, hsilent⟩ := ih hasked hcovered
      exact ⟨htracked, hclosed, hquiet.trans hsilent⟩

/-- A settled state stays settled through the quarantine of one more lineage. -/
theorem quarantineLineage_settled (h : Tracked outbox state) (hcovered : Covered lineage state [])
    (root : Id × String) :
    Tracked outbox (quarantineLineage lineage state [root]) ∧
      Covered lineage (quarantineLineage lineage state [root]) [] ∧
      Quiet state (quarantineLineage lineage state [root]) :=
  quarantineLineage_spec h fun id hid childId hchild =>
    .inl ((hcovered id hid childId hchild).resolve_right not_mem_nil)

theorem readResult_spec (ports : Ports) (h : Tracked outbox state) (hcovered : Covered lineage state [])
    {result : PushItemResult}
    (hreceipt : ∀ receipt ∈ result.receipt, receipt.revisionId = result.revisionId) :
    Tracked outbox (readResult ports lineage state result) ∧
      Covered lineage (readResult ports lineage state result) [] ∧
      Quiet state (readResult ports lineage state result) := by
  unfold readResult
  by_cases hdead : result.revisionId ∈ state.quarantinedIds
  · rw [if_pos hdead]
    exact ⟨h, hcovered, Quiet.refl state⟩
  rw [if_neg hdead]
  split
  · rename_i receipt _ hsome
    refine ⟨h.accept hdead (hreceipt receipt hsome), ?_, quiet_concat rfl rfl rfl⟩
    intro id hid childId hchild
    left
    intro hstill
    rcases hcovered id hid childId hchild with hdone | hnone
    · exact hdone (mem_filter.mp hstill).1
    · cases hnone
  · exact ⟨h, hcovered, Quiet.refl state⟩
  · by_cases hpermanent : result.permanent
    · rw [if_pos hpermanent]
      exact quarantineLineage_settled h hcovered _
    rw [if_neg hpermanent]
    by_cases hmissing : result.missingParent
    · rw [if_pos hmissing]
      obtain ⟨htracked, hclosed, hquiet⟩ := parentStillViable_spec ports h hcovered
        (lineage.parentsOf result.revisionId)
      generalize parentStillViable ports state (lineage.parentsOf result.revisionId) = asked at *
      obtain ⟨viable, after⟩ := asked
      dsimp only at *
      by_cases hviable : viable
      · rw [if_pos hviable]
        exact ⟨htracked, hclosed, hquiet⟩
      · rw [if_neg hviable]
        obtain ⟨hdone, hsettled, hsilent⟩ := quarantineLineage_settled htracked hclosed _
        exact ⟨hdone, hsettled, hquiet.trans hsilent⟩
    · rw [if_neg hmissing]
      exact ⟨h, hcovered, Quiet.refl state⟩

theorem readResults_spec (ports : Ports) (h : Tracked outbox state) (hcovered : Covered lineage state [])
    {results : List PushItemResult} (hreceipts : ∀ result ∈ results,
      ∀ receipt ∈ result.receipt, receipt.revisionId = result.revisionId) :
    Tracked outbox (results.foldl (readResult ports lineage) state) ∧
      Covered lineage (results.foldl (readResult ports lineage) state) [] ∧
      Quiet state (results.foldl (readResult ports lineage) state) := by
  induction results generalizing state with
  | nil => exact ⟨h, hcovered, Quiet.refl state⟩
  | cons result rest ih =>
    obtain ⟨htracked, hclosed, hquiet⟩ :=
      readResult_spec ports h hcovered (hreceipts result mem_cons_self)
    obtain ⟨hdone, hsettled, hsilent⟩ := ih htracked hclosed fun later hlater =>
      hreceipts later (mem_cons_of_mem _ hlater)
    exact ⟨hdone, hsettled, hquiet.trans hsilent⟩

end

section
variable {outbox : List PushRevision} {lineage : LineageIndex} {ports : Ports}
  {state state' : PushState} {queue : List (List PushRevision)} {batch : List PushRevision}
  {split : List (List PushRevision)}

/-- How often the batches of a queue can still send a revision: a batch of several
may be sent again item by item. -/
def sendsLeft (queue : List (List PushRevision)) (id : Id) : ℕ :=
  (queue.map fun batch => (if batch.length ≤ 1 then 1 else 2) *
    (batch.map PushRevision.revisionId).count id).sum

theorem sendsLeft_append (queue rest : List (List PushRevision)) (id : Id) :
    sendsLeft (queue ++ rest) id = sendsLeft queue id + sendsLeft rest id := by
  simp [sendsLeft]

theorem sendsLeft_singles (live : List PushRevision) (id : Id) :
    sendsLeft (live.map fun item => [item]) id =
      (live.map PushRevision.revisionId).count id := by
  induction live with
  | nil => rfl
  | cons item rest ih =>
    simp only [sendsLeft, map_cons, sum_cons, count_cons] at ih ⊢
    rw [ih]
    simp [Nat.add_comm]

theorem sendsLeft_le (queue : List (List PushRevision)) (id : Id) :
    sendsLeft queue id ≤ 2 * (queue.flatten.map PushRevision.revisionId).count id := by
  induction queue with
  | nil => simp [sendsLeft]
  | cons batch rest ih =>
    have hbatch : (if batch.length ≤ 1 then 1 else 2) *
        (batch.map PushRevision.revisionId).count id ≤
        2 * (batch.map PushRevision.revisionId).count id :=
      Nat.mul_le_mul_right _ (by split_ifs <;> omega)
    simp only [sendsLeft, map_cons, sum_cons, flatten_cons, map_append,
      count_append] at ih ⊢
    omega

/-- What a push keeps from one batch of its queue to the next. -/
structure Kept (outbox : List PushRevision) (lineage : LineageIndex)
    (queue : List (List PushRevision)) (state : PushState) : Prop where
  tracked : Tracked outbox state
  covered : Covered lineage state []
  sends : ∀ id, (sent state.calls).count id + sendsLeft queue id ≤ 2
  requested : requests state.calls + queueWeight queue ≤ 2 * outbox.length

theorem Kept.quiet (h : Kept outbox lineage queue state) (htracked : Tracked outbox state')
    (hcovered : Covered lineage state' []) (hquiet : Quiet state state') :
    Kept outbox lineage queue state' where
  tracked := htracked
  covered := hcovered
  sends := by
    rw [hquiet.sent_same]
    exact h.sends
  requested := by
    rw [hquiet.requests_same]
    exact h.requested

theorem Kept.drop (h : Kept outbox lineage (batch :: queue) state) :
    Kept outbox lineage queue state where
  tracked := h.tracked
  covered := h.covered
  sends := by
    intro id
    have := h.sends id
    simp only [sendsLeft, map_cons, sum_cons] at this ⊢
    omega
  requested := by
    have := h.requested
    simp only [queueWeight, map_cons, sum_cons] at this ⊢
    omega

/-- The request for what is still pending of a batch, with what it may leave to the queue. -/
theorem Kept.send (h : Kept outbox lineage (batch :: queue) state)
    (hsplit : Leaves (liveItems state batch) split) :
    Kept outbox lineage (queue ++ split) (state.call (.push (liveItems state batch))) where
  tracked := by
    refine h.tracked.call rfl rfl fun id hid => ?_
    obtain ⟨item, hitem, rfl⟩ := mem_map.mp hid
    exact h.tracked.pending_not_quarantined _ (of_decide_eq_true (mem_filter.mp hitem).2)
  covered := h.covered
  sends := by
    intro id
    have hbefore := h.sends id
    have hcount : ((liveItems state batch).map PushRevision.revisionId).count id ≤
        (batch.map PushRevision.revisionId).count id :=
      (filter_sublist.map _).count_le id
    have hlength : (liveItems state batch).length ≤ batch.length := length_filter_le _ _
    have hsent : sent (state.call (.push (liveItems state batch))).calls =
        sent state.calls ++ (liveItems state batch).map PushRevision.revisionId := by
      show sent (state.calls ++ [_]) = _
      rw [sent_append]
      simp [sent, sentBy]
    rw [hsent, count_append, sendsLeft_append]
    simp only [sendsLeft, map_cons, sum_cons] at hbefore
    rcases hsplit with rfl | ⟨hseveral, rfl⟩
    · have hfactor : (batch.map PushRevision.revisionId).count id ≤
          (if batch.length ≤ 1 then 1 else 2) * (batch.map PushRevision.revisionId).count id :=
        Nat.le_mul_of_pos_left _ (by split_ifs <;> omega)
      simp only [sendsLeft, map_nil, sum_nil] at hbefore ⊢
      omega
    · rw [sendsLeft_singles]
      rw [if_neg (by omega)] at hbefore
      unfold sendsLeft
      omega
  requested := by
    have hbefore := h.requested
    have hweight : queueWeight split < batchWeight batch :=
      hsplit.weight_lt (length_filter_le _ _)
    have hrequests : requests (state.call (.push (liveItems state batch))).calls =
        requests state.calls + 1 := by
      show requests (state.calls ++ [_]) = _
      simp [requests, countP_append, isRequest]
    rw [hrequests, queueWeight_append]
    simp only [queueWeight, map_cons, sum_cons] at hbefore hweight ⊢
    omega

theorem kept_of_next (hreceipts : ReceiptsOwn ports)
    (h : Kept outbox lineage (batch :: queue) state)
    (hturn : pushBatch ports lineage state batch = .next state' split) :
    Kept outbox lineage (queue ++ split) state' := by
  have hleaves := pushBatch_leaves ports lineage hturn
  unfold pushBatch at hturn
  dsimp only at hturn
  by_cases hempty : (liveItems state batch).length = 0
  · rw [if_pos hempty] at hturn
    cases hturn
    rw [append_nil]
    exact h.drop
  rw [if_neg hempty] at hturn
  have hsent := h.send hleaves
  split at hturn
  · rename_i results hanswer
    cases hturn
    obtain ⟨htracked, hclosed, hquiet⟩ := readResults_spec ports hsent.tracked hsent.covered
      (hreceipts _ _ results hanswer)
    exact hsent.quiet htracked hclosed hquiet
  · split at hturn
    · cases hturn
    · split at hturn
      · split at hturn
        · cases hturn
          obtain ⟨htracked, hclosed, hquiet⟩ :=
            quarantineLineage_settled hsent.tracked hsent.covered _
          exact hsent.quiet htracked hclosed hquiet
        · cases hturn
          exact hsent
      · cases hturn

theorem kept_of_throw {failure : SyncFailure} (h : Kept outbox lineage (batch :: queue) state)
    (hturn : pushBatch ports lineage state batch = .throw state' failure) :
    Kept outbox lineage queue state' := by
  have hsent := h.send (.inl rfl)
  rw [append_nil] at hsent
  unfold pushBatch at hturn
  dsimp only at hturn
  split at hturn
  · cases hturn
  · split at hturn
    · cases hturn
    · split at hturn
      · cases hturn
        exact hsent
      · split at hturn
        · split at hturn
          · cases hturn
          · cases hturn
        · cases hturn
          exact hsent

/-- The account is kept through the whole queue, however it ends. -/
theorem pushQueue_kept (hreceipts : ReceiptsOwn ports) (h : Kept outbox lineage queue state) :
    ∃ rest, Kept outbox lineage rest (pushQueue ports lineage state queue).1 := by
  fun_induction pushQueue ports lineage state queue with
  | case1 state => exact ⟨[], h⟩
  | case2 state batch queue next split hturn ih => exact ih (kept_of_next hreceipts h hturn)
  | case3 state batch queue after failure hturn => exact ⟨queue, kept_of_throw h hturn⟩

theorem kept_start {limits : PushLimits}
    (hdistinct : (outbox.map PushRevision.revisionId).Nodup) :
    Kept outbox lineage (planPushBatches limits outbox) (startPush outbox) where
  tracked :=
    { listed := fun item hitem => .inl (mem_map_of_mem hitem)
      pending_not_accepted := fun _ _ hnone => nomatch hnone
      pending_not_quarantined := fun _ _ hnone => nomatch hnone
      accepted_kept := fun _ hnone => nomatch hnone
      accepted_recorded := rfl
      quarantined_calls := rfl
      never_resent := fun before revisions after hnil => by simp [startPush] at hnil }
  covered := fun _ hnone => nomatch hnone
  sends := by
    intro id
    have hplan := sendsLeft_le (planPushBatches limits outbox) id
    have honce := nodup_iff_count_le_one.mp hdistinct id
    have hflat : (planPushBatches limits outbox).flatten = outbox :=
      flatten_planFrom limits [] 0 outbox
    rw [hflat] at hplan
    show 0 + sendsLeft _ id ≤ 2
    omega
  requested := by
    have hweight := queueWeight_le (planPushBatches limits outbox)
      (planFrom_nonempty limits [] 0 outbox)
    have hflat : (planPushBatches limits outbox).flatten = outbox :=
      flatten_planFrom limits [] 0 outbox
    rw [hflat] at hweight
    show 0 + queueWeight _ ≤ 2 * outbox.length
    omega

theorem Kept.safe (h : Kept outbox (buildLineageIndex outbox) queue state) :
    PushSafe outbox state.calls where
  bounded := Nat.le_of_add_right_le h.requested
  sent_twice := fun id => Nat.le_of_add_right_le (h.sends id)
  accepted_kept := by
    rw [← h.tracked.accepted_recorded, ← h.tracked.quarantined_calls]
    exact h.tracked.accepted_kept
  never_resent := h.tracked.never_resent
  children_settled := by
    intro item hitem parentId hparent hdead
    rw [← h.tracked.accepted_recorded, ← h.tracked.quarantined_calls]
    rw [← h.tracked.quarantined_calls] at hdead
    have hgone := (h.covered parentId hdead item.revisionId
      (mem_childrenOf.mpr ⟨item, hitem, hparent, rfl⟩)).resolve_right not_mem_nil
    exact ((h.tracked.listed item hitem).resolve_left hgone).symm

end

/-- Every push ends, after at most two requests a revision, and keeps its account. -/
theorem push_safe (ports : Ports) (limits : PushLimits) (outbox : List PushRevision)
    (hdistinct : (outbox.map PushRevision.revisionId).Nodup) (hreceipts : ReceiptsOwn ports) :
    PushSafe outbox (runPush ports limits outbox).1.calls := by
  have hstart : Kept outbox (buildLineageIndex outbox) (planPushBatches limits outbox)
      (startPush outbox) := kept_start hdistinct
  unfold runPush
  split_ifs
  · exact hstart.safe
  · obtain ⟨rest, hkept⟩ := pushQueue_kept hreceipts hstart
    split
    · rename_i state hrun
      rw [hrun] at hkept
      exact hkept.safe
    · rename_i state failure hrun
      rw [hrun] at hkept
      exact hkept.safe

/-- Three revisions in a row, and one of another file. -/
def chainOutbox : List PushRevision :=
  [⟨3, 20, 0, 5, some [2]⟩, ⟨1, 20, 0, 5, none⟩, ⟨2, 20, 0, 5, some [1]⟩, ⟨4, 21, 0, 5, none⟩]

/-- A transport that takes one revision at a time, and not the first of the row. -/
def pickyPorts : Ports where
  push := fun _ revisions =>
    match revisions with
    | [item] =>
      if item.revisionId = 1 then .ok [⟨1, .rejected, none, true, false⟩]
      else if item.revisionId = 3 then .ok [⟨3, .rejected, none, false, true⟩]
      else .ok [⟨item.revisionId, .accepted, some ⟨item.revisionId, 9⟩, false, false⟩]
    | _ => .error { permanent := true }
  isLocallyAuthored := fun _ _ => false

theorem push_safe_chain :
    PushSafe chainOutbox (runPush pickyPorts {} chainOutbox).1.calls ∧
      deadLettered (runPush pickyPorts {} chainOutbox).1.calls = [1, 2, 3] ∧
      recorded (runPush pickyPorts {} chainOutbox).1.calls = [4] := by
  have hreceipts : ReceiptsOwn pickyPorts := by
    intro calls revisions results hanswer
    simp only [pickyPorts] at hanswer
    split at hanswer
    · split_ifs at hanswer <;> cases hanswer <;> simp
    · cases hanswer
  exact ⟨push_safe pickyPorts {} chainOutbox (by decide) hreceipts, by decide +kernel,
    by decide +kernel⟩

end Havemind.PushSafety
