import Havemind.PushSafety

/-!
What becomes of the revisions the server refuses for want of a parent. The server
refuses when one parent is missing, the client keeps the revision when one parent
can be hoped for. The two agree on an outbox in which no revision has a parent that
can never arrive beside one that is queued or was authored here.
-/
namespace Havemind.MissingParents

open RevisionSchema SyncRunner SyncState PushCycle PushSafety List

def isMissing (result : PushItemResult) : Bool :=
  result.outcome = .rejected ∧ result.permanent = false ∧ result.missingParent = true

/-- The revisions some results refuse for want of a parent. -/
def missingIn (results : List PushItemResult) : List Id :=
  (results.filter isMissing).map PushItemResult.revisionId

/-- What the answer to one call refuses so, given the calls before. -/
def refusedBy (ports : Ports) (before : List PortCall) : PortCall → List Id
  | .push revisions =>
    match ports.push before revisions with
    | .ok results => missingIn results
    | .error _ => []
  | _ => []

def refusedFrom (ports : Ports) (before : List PortCall) : List PortCall → List Id
  | [] => []
  | call :: rest => refusedBy ports before call ++ refusedFrom ports (before ++ [call]) rest

/-- The revisions that were answered MISSING_PARENT in the course of these calls. -/
def answeredMissing (ports : Ports) (calls : List PortCall) : List Id := refusedFrom ports [] calls

theorem refusedFrom_append (ports : Ports) (before calls more : List PortCall) :
    refusedFrom ports before (calls ++ more) =
      refusedFrom ports before calls ++ refusedFrom ports (before ++ calls) more := by
  induction calls generalizing before with
  | nil => rw [append_nil]; rfl
  | cons call rest ih =>
    have hstep := ih (before ++ [call])
    rw [append_assoc, singleton_append] at hstep
    simp only [cons_append, refusedFrom, hstep, append_assoc]

theorem answeredMissing_concat (ports : Ports) (calls : List PortCall) (call : PortCall) :
    answeredMissing ports (calls ++ [call]) =
      answeredMissing ports calls ++ refusedBy ports calls call := by
  have happend := refusedFrom_append ports [] calls [call]
  simpa [answeredMissing, refusedFrom] using happend

/-- What the client asks for is queued, recorded or dead. -/
def queuedIds (outbox : List PushRevision) : List Id := outbox.map PushRevision.revisionId

/-- A server that has these revisions to begin with answers for what it is sent: it
accepts a revision whose parents it has, and misses a parent it does not have. What
this client authored before or got accepted it knows as its own. -/
structure Serves (known : Id → Prop) (authored : Id → Bool) (ports : Ports) : Prop where
  receipts : ReceiptsOwn ports
  asked : ∀ calls id, ports.isLocallyAuthored calls id = true →
    authored id = true ∨ id ∈ recorded calls
  own : ∀ calls revisions results, ports.push calls revisions = .ok results →
    ∀ result ∈ results, ∃ item ∈ revisions, item.revisionId = result.revisionId ∧
      (result.outcome = .accepted → ∀ parentId ∈ itemParents item,
        known parentId ∨ parentId ∈ recorded calls ∨
          ∃ other ∈ results, other.outcome = .accepted ∧ other.revisionId = parentId) ∧
      (isMissing result = true → ∃ parentId ∈ itemParents item,
        ¬ known parentId ∧ parentId ∉ recorded calls)

/-- A revision answered MISSING_PARENT is still queued after these calls only with
parents that are queued as well, or on the server. -/
def MissingSettled (known : Id → Prop) (ports : Ports) (outbox : List PushRevision)
    (calls : List PortCall) : Prop :=
  ∀ item ∈ outbox, item.revisionId ∈ answeredMissing ports calls →
    item.revisionId ∉ recorded calls → item.revisionId ∉ deadLettered calls →
      ∀ parentId ∈ itemParents item, known parentId ∨ parentId ∈ recorded calls ∨
        (parentId ∈ queuedIds outbox ∧ parentId ∉ deadLettered calls)

/-- No queued revision has a parent that can never arrive beside a parent, or as the
same parent, that is queued or was authored here. -/
def NoneStranded (outbox : List PushRevision) (known : Id → Prop) (authored : Id → Bool) : Prop :=
  ∀ item ∈ outbox, ∀ dead ∈ itemParents item, dead ∉ queuedIds outbox → ¬ known dead →
    ∀ parentId ∈ itemParents item, parentId ∉ queuedIds outbox ∧ authored parentId = false

section
variable {outbox : List PushRevision} {known : Id → Prop} {authored : Id → Bool} {ports : Ports}
  {lineage : LineageIndex} {state : PushState} {state' : PushState}

theorem parentsOf_buildLineageIndex (hdistinct : (queuedIds outbox).Nodup) {item : PushRevision}
    (hitem : item ∈ outbox) :
    (buildLineageIndex outbox).parentsOf item.revisionId = itemParents item := by
  have hfold : ∀ index : LineageIndex, (queuedIds outbox).Nodup →
      (item ∈ outbox → (outbox.foldl addLineage index).parentsOf item.revisionId =
        itemParents item) ∧
      (item.revisionId ∉ queuedIds outbox →
        (outbox.foldl addLineage index).parentsOf item.revisionId =
          index.parentsOf item.revisionId) := by
    clear hdistinct hitem
    induction outbox with
    | nil => exact fun index _ => ⟨fun hnone => (not_mem_nil hnone).elim, fun _ => rfl⟩
    | cons head rest ih =>
      intro index hnodup
      obtain ⟨hhead, hrest⟩ := nodup_cons.mp hnodup
      obtain ⟨hmember, hother⟩ := ih (addLineage index head) hrest
      refine ⟨fun hitem => ?_, fun hnone => ?_⟩
      · rcases mem_cons.mp hitem with rfl | hlater
        · exact (hother hhead).trans (if_pos rfl)
        · exact hmember hlater
      · obtain ⟨hne, hlater⟩ := not_or.mp (mt mem_cons.mpr hnone)
        exact (hother hlater).trans (if_neg hne)
  exact (hfold _ hdistinct).1 hitem

/-- Calls that put nothing to the server are answered with no refusal. -/
theorem answeredMissing_quiet {calls more : List PortCall}
    (hmore : ∀ call ∈ more, isRequest call = false) :
    answeredMissing ports (calls ++ more) = answeredMissing ports calls := by
  induction more using List.reverseRecOn with
  | nil => rw [append_nil]
  | append_singleton more call ih =>
    have hcall := hmore call (mem_append_right _ (mem_singleton_self call))
    have hrefused : refusedBy ports (calls ++ more) call = [] := by
      cases call with
      | push revisions => cases hcall
      | recordPushReceipt receipt => rfl
      | quarantineOutboxItem revisionId reason => rfl
      | isLocallyAuthored revisionId => rfl
    rw [← append_assoc, answeredMissing_concat, hrefused, append_nil]
    exact ih fun other hother => hmore other (mem_append_left _ hother)

/-- What reading the answers of a batch may do: ask and record, and take revisions
off the pending ones. -/
structure Reads (state state' : PushState) : Prop where
  calls : ∃ more, state'.calls = state.calls ++ more ∧ ∀ call ∈ more, isRequest call = false
  pending : ∀ id ∈ state'.pending, id ∈ state.pending

theorem Reads.refl (state : PushState) : Reads state state :=
  ⟨⟨[], (append_nil _).symm, fun _ hnone => (not_mem_nil hnone).elim⟩, fun _ hid => hid⟩

theorem Reads.trans {state'' : PushState} (h : Reads state state') (h' : Reads state' state'') :
    Reads state state'' := by
  obtain ⟨more, hcalls, hmore⟩ := h.calls
  obtain ⟨later, hcalls', hlater⟩ := h'.calls
  refine ⟨⟨more ++ later, ?_, fun call hcall => ?_⟩, fun id hid => h.pending id (h'.pending id hid)⟩
  · rw [hcalls', hcalls, append_assoc]
  · exact (mem_append.mp hcall).elim (hmore call) (hlater call)

theorem reads_concat {call : PortCall} (hcalls : state'.calls = state.calls ++ [call])
    (hcall : isRequest call = false) (hpending : ∀ id ∈ state'.pending, id ∈ state.pending) :
    Reads state state' := by
  refine ⟨⟨[call], hcalls, fun other hother => ?_⟩, hpending⟩
  rw [mem_singleton.mp hother]
  exact hcall

theorem Reads.answered (h : Reads state state') :
    answeredMissing ports state'.calls = answeredMissing ports state.calls := by
  obtain ⟨more, hcalls, hmore⟩ := h.calls
  rw [hcalls]
  exact answeredMissing_quiet hmore

theorem quarantineLineage_reads (work : List (Id × String)) :
    Reads state (quarantineLineage lineage state work) ∧
      (quarantineLineage lineage state work).accepted = state.accepted := by
  fun_induction quarantineLineage lineage state work with
  | case1 state => exact ⟨Reads.refl state, rfl⟩
  | case2 state next work hpending ih => exact ih
  | case3 state next work hpending ih =>
    refine ⟨(reads_concat rfl rfl fun id hid => ?_).trans ih.1, ih.2⟩
    exact (mem_filter.mp hid).1

theorem quarantineLineage_root (root : Id × String) :
    root.1 ∉ (quarantineLineage lineage state [root]).pending := by
  by_cases hpending : root.1 ∉ state.pending
  · exact fun hroot => hpending ((quarantineLineage_reads _).1.pending _ hroot)
  · unfold quarantineLineage
    rw [if_neg hpending]
    intro hroot
    have hfiltered : root.1 ∈ (state.quarantine root.1 root.2).pending :=
      (quarantineLineage_reads _).1.pending _ hroot
    exact of_decide_eq_true (mem_filter.mp hfiltered).2 rfl

/-- The parents are asked about one after another, up to the first that can be hoped for. -/
theorem parentStillViable_reads (hserves : Serves known authored ports) (parents : List Id)
    (haccepted : state.accepted = recorded state.calls) :
    Reads state (parentStillViable ports state parents).2 ∧
      (parentStillViable ports state parents).2.accepted = state.accepted ∧
      ((parentStillViable ports state parents).1 = true → ∃ parentId ∈ parents,
        parentId ∈ state.pending ∨ parentId ∈ state.accepted ∨ authored parentId = true) := by
  induction parents generalizing state with
  | nil => exact ⟨Reads.refl state, rfl, fun hnone => by cases hnone⟩
  | cons parentId rest ih =>
    have hasked : Reads state (state.call (.isLocallyAuthored parentId)) :=
      reads_concat rfl rfl fun _ hid => hid
    unfold parentStillViable
    dsimp only
    by_cases hhere : parentId ∈ state.pending ∨ parentId ∈ state.accepted
    · rw [if_pos hhere]
      refine ⟨Reads.refl state, rfl, fun _ => ⟨parentId, mem_cons_self, ?_⟩⟩
      exact hhere.imp_right Or.inl
    rw [if_neg hhere]
    by_cases hown : ports.isLocallyAuthored state.calls parentId = true
    · rw [if_pos hown]
      refine ⟨hasked, rfl, fun _ => ⟨parentId, mem_cons_self, ?_⟩⟩
      rcases hserves.asked _ _ hown with hauthored | hrecorded
      · exact Or.inr (Or.inr hauthored)
      · rw [haccepted]
        exact Or.inr (Or.inl hrecorded)
    rw [if_neg hown]
    have hrecorded : recorded (state.calls ++ [.isLocallyAuthored parentId]) =
        recorded state.calls := by
      rw [recorded_append]
      exact append_nil _
    have hcalled : (state.call (.isLocallyAuthored parentId)).accepted =
        recorded (state.call (.isLocallyAuthored parentId)).calls :=
      haccepted.trans hrecorded.symm
    obtain ⟨hreads, hsame, hviable⟩ := ih hcalled
    refine ⟨hasked.trans hreads, hsame, fun htrue => ?_⟩
    obtain ⟨other, hother, hhope⟩ := hviable htrue
    exact ⟨other, mem_cons_of_mem _ hother, hhope⟩

end

/-- The state a turn ends with. -/
def afterTurn : PushCycle.Turn → PushState
  | .next state _ => state
  | .throw state _ => state

section
variable {outbox : List PushRevision} {known : Id → Prop} {authored : Id → Bool} {ports : Ports}
  {state state' : PushState} {answered : List Id} {result : PushItemResult}

/-- What is pending after a refusal for want of a parent has a parent that was listed
or authored; `answered` are the refusals read so far. -/
structure Waiting (outbox : List PushRevision) (authored : Id → Bool) (answered : List Id)
    (state : PushState) : Prop where
  tracked : Tracked outbox state
  covered : Covered (buildLineageIndex outbox) state []
  pending_listed : ∀ id ∈ state.pending, id ∈ queuedIds outbox
  accepted_listed : ∀ id ∈ state.accepted, id ∈ queuedIds outbox
  waits : ∀ item ∈ outbox, item.revisionId ∈ answered → item.revisionId ∈ state.pending →
    ∃ parentId ∈ itemParents item, parentId ∈ queuedIds outbox ∨ authored parentId = true

theorem Waiting.reads (h : Waiting outbox authored answered state) (hreads : Reads state state')
    (htracked : Tracked outbox state') (hcovered : Covered (buildLineageIndex outbox) state' [])
    (haccepted : ∀ id ∈ state'.accepted, id ∈ queuedIds outbox) :
    Waiting outbox authored answered state' where
  tracked := htracked
  covered := hcovered
  pending_listed id hid := h.pending_listed id (hreads.pending id hid)
  accepted_listed := haccepted
  waits item hitem hanswered hpending := h.waits item hitem hanswered (hreads.pending _ hpending)

theorem Waiting.answer (h : Waiting outbox authored answered state) {id : Id}
    (hid : ∀ item ∈ outbox, item.revisionId = id → id ∈ state.pending →
      ∃ parentId ∈ itemParents item, parentId ∈ queuedIds outbox ∨ authored parentId = true) :
    Waiting outbox authored (answered ++ [id]) state :=
  { h with
    waits := fun item hitem hanswered hpending => by
      rcases mem_append.mp hanswered with hbefore | hnow
      · exact h.waits item hitem hbefore hpending
      · have hsame := mem_singleton.mp hnow
        rw [hsame] at hpending
        exact hid item hitem hsame hpending }

theorem missingIn_of_missing (h : isMissing result = true) :
    missingIn [result] = [result.revisionId] := by
  simp [missingIn, h]

theorem missingIn_of_not (h : isMissing result = false) : missingIn [result] = [] := by
  simp [missingIn, h]

/-- The quarantine of a lineage takes its root off the pending ones. -/
theorem Waiting.deadLetter (h : Waiting outbox authored answered state) (root : Id × String) :
    Reads state (quarantineLineage (buildLineageIndex outbox) state [root]) ∧
      Waiting outbox authored answered
        (quarantineLineage (buildLineageIndex outbox) state [root]) := by
  obtain ⟨htracked, hcovered, -⟩ := quarantineLineage_settled h.tracked h.covered root
  have hends : Reads state (quarantineLineage (buildLineageIndex outbox) state [root]) ∧
      (quarantineLineage (buildLineageIndex outbox) state [root]).accepted = state.accepted :=
    quarantineLineage_reads [root]
  refine ⟨hends.1, h.reads hends.1 htracked hcovered ?_⟩
  rw [hends.2]
  exact h.accepted_listed

variable (hserves : Serves known authored ports)
include hserves

/-- A refusal for want of a parent leaves the revision queued with a parent that was
listed or authored, or takes it off. -/
theorem Waiting.refuse (h : Waiting outbox authored answered state)
    (hdistinct : (queuedIds outbox).Nodup) (id : Id) {viable : Bool} {asked : PushState}
    (hasked : parentStillViable ports state ((buildLineageIndex outbox).parentsOf id) =
      (viable, asked)) :
    Reads state asked ∧ Waiting outbox authored answered asked ∧
      (viable = true → Waiting outbox authored (answered ++ [id]) asked) := by
  obtain ⟨htracked, hcovered, -⟩ := parentStillViable_spec ports h.tracked h.covered
    ((buildLineageIndex outbox).parentsOf id)
  obtain ⟨hreads, hsame, hviable⟩ := parentStillViable_reads hserves
    ((buildLineageIndex outbox).parentsOf id) h.tracked.accepted_recorded
  rw [hasked] at htracked hcovered hreads hsame hviable
  have hkept : Waiting outbox authored answered asked := by
    refine h.reads hreads htracked hcovered ?_
    rw [hsame]
    exact h.accepted_listed
  refine ⟨hreads, hkept, fun htrue => hkept.answer fun item hitem hid _ => ?_⟩
  obtain ⟨parentId, hparent, hhope⟩ := hviable htrue
  rw [← hid, parentsOf_buildLineageIndex hdistinct hitem] at hparent
  refine ⟨parentId, hparent, ?_⟩
  rcases hhope with hpending | haccepted | hauthored
  · exact Or.inl (h.pending_listed parentId hpending)
  · exact Or.inl (h.accepted_listed parentId haccepted)
  · exact Or.inr hauthored

theorem readResult_reads (h : Waiting outbox authored answered state)
    (hdistinct : (queuedIds outbox).Nodup) (hlisted : result.revisionId ∈ queuedIds outbox)
    (hreceipt : ∀ receipt ∈ result.receipt, receipt.revisionId = result.revisionId) :
    Reads state (readResult ports (buildLineageIndex outbox) state result) ∧
      Waiting outbox authored (answered ++ missingIn [result])
        (readResult ports (buildLineageIndex outbox) state result) := by
  obtain ⟨htracked, hcovered, -⟩ := readResult_spec ports h.tracked h.covered hreceipt
  revert htracked hcovered
  unfold readResult
  by_cases hdead : result.revisionId ∈ state.quarantinedIds
  · rw [if_pos hdead]
    refine fun _ _ => ⟨Reads.refl state, ?_⟩
    by_cases hmissing : isMissing result = true
    · rw [missingIn_of_missing hmissing]
      refine h.answer fun item _ _ hpending => ?_
      exact absurd hdead (h.tracked.pending_not_quarantined _ hpending)
    · rw [missingIn_of_not (Bool.eq_false_of_not_eq_true hmissing), append_nil]
      exact h
  rw [if_neg hdead]
  split
  · rename_i receipt houtcome hsome
    intro htracked hcovered
    have hnone : isMissing result = false := by
      simp [isMissing, houtcome]
    rw [missingIn_of_not hnone, append_nil]
    have hreads : Reads state (state.accept result.revisionId receipt) :=
      reads_concat rfl rfl fun id hid => (mem_filter.mp hid).1
    refine ⟨hreads, h.reads hreads htracked hcovered fun id hid => ?_⟩
    rcases mem_append.mp hid with hbefore | hnow
    · exact h.accepted_listed id hbefore
    · rw [mem_singleton.mp hnow]
      exact hlisted
  · rename_i houtcome _
    intro _ _
    have hnone : isMissing result = false := by
      simp [isMissing, houtcome]
    rw [missingIn_of_not hnone, append_nil]
    exact ⟨Reads.refl state, h⟩
  · rename_i houtcome
    by_cases hpermanent : result.permanent
    · rw [if_pos hpermanent]
      intro _ _
      have hnone : isMissing result = false := by
        simp [isMissing, hpermanent]
      rw [missingIn_of_not hnone, append_nil]
      exact h.deadLetter _
    rw [if_neg hpermanent]
    intro _ _
    by_cases hmissing : result.missingParent
    · rw [if_pos hmissing]
      have hrefused : isMissing result = true := by
        simp [isMissing, houtcome, hpermanent, hmissing]
      rw [missingIn_of_missing hrefused]
      obtain ⟨⟨viable, asked⟩, hasked⟩ : ∃ pair, parentStillViable ports state
        ((buildLineageIndex outbox).parentsOf result.revisionId) = pair := ⟨_, rfl⟩
      obtain ⟨hreads, hkept, hviable⟩ := h.refuse hserves hdistinct result.revisionId hasked
      rw [hasked]
      dsimp only
      cases viable with
      | true => exact ⟨hreads, hviable rfl⟩
      | false =>
        obtain ⟨hdone, hgone⟩ := hkept.deadLetter (result.revisionId, missingParentReason)
        refine ⟨hreads.trans hdone, hgone.answer fun item _ _ hpending => ?_⟩
        exact absurd hpending (quarantineLineage_root (result.revisionId, missingParentReason))
    · rw [if_neg hmissing]
      have hnone : isMissing result = false := by
        simp [isMissing, hmissing]
      rw [missingIn_of_not hnone, append_nil]
      exact ⟨Reads.refl state, h⟩

theorem readResults_reads (h : Waiting outbox authored answered state)
    (hdistinct : (queuedIds outbox).Nodup) {results : List PushItemResult}
    (hlisted : ∀ result ∈ results, result.revisionId ∈ queuedIds outbox)
    (hreceipts : ∀ result ∈ results,
      ∀ receipt ∈ result.receipt, receipt.revisionId = result.revisionId) :
    Reads state (results.foldl (readResult ports (buildLineageIndex outbox)) state) ∧
      Waiting outbox authored (answered ++ missingIn results)
        (results.foldl (readResult ports (buildLineageIndex outbox)) state) := by
  induction results generalizing state answered with
  | nil =>
    have hnone : missingIn [] = [] := rfl
    rw [hnone, append_nil]
    exact ⟨Reads.refl state, h⟩
  | cons result rest ih =>
    obtain ⟨hreads, hread⟩ := readResult_reads hserves h hdistinct
      (hlisted result mem_cons_self) (hreceipts result mem_cons_self)
    obtain ⟨hlater, hdone⟩ := ih hread
      (fun other hother => hlisted other (mem_cons_of_mem _ hother))
      fun other hother => hreceipts other (mem_cons_of_mem _ hother)
    refine ⟨hreads.trans hlater, ?_⟩
    have hsplit : missingIn (result :: rest) = missingIn [result] ++ missingIn rest := by
      unfold missingIn
      rw [← map_append, ← filter_append, singleton_append]
    rw [hsplit, ← append_assoc]
    exact hdone

omit hserves in
/-- The request for what is pending of a batch. -/
theorem Waiting.send (h : Waiting outbox authored answered state) (batch : List PushRevision) :
    Waiting outbox authored answered (state.call (.push (liveItems state batch))) := by
  refine { h with tracked := h.tracked.call rfl rfl fun id hid => ?_ }
  obtain ⟨item, hitem, rfl⟩ := mem_map.mp hid
  exact h.tracked.pending_not_quarantined _ (of_decide_eq_true (mem_filter.mp hitem).2)

/-- A turn keeps the account of all refusals answered so far. -/
theorem pushBatch_waiting (h : Waiting outbox authored (answeredMissing ports state.calls) state)
    (hdistinct : (queuedIds outbox).Nodup) {batch : List PushRevision}
    (hbatch : ∀ item ∈ batch, item ∈ outbox) {turn : PushCycle.Turn}
    (hturn : pushBatch ports (buildLineageIndex outbox) state batch = turn) :
    Waiting outbox authored (answeredMissing ports (afterTurn turn).calls) (afterTurn turn) := by
  subst hturn
  have hsent := h.send batch
  have hanswered : answeredMissing ports (state.call (.push (liveItems state batch))).calls =
      answeredMissing ports state.calls ++
        refusedBy ports state.calls (.push (liveItems state batch)) :=
    answeredMissing_concat ports state.calls _
  unfold pushBatch
  dsimp only
  by_cases hempty : (liveItems state batch).length = 0
  · rw [if_pos hempty]
    exact h
  rw [if_neg hempty]
  obtain ⟨answer, hanswer⟩ : ∃ answer, ports.push state.calls (liveItems state batch) = answer :=
    ⟨_, rfl⟩
  unfold refusedBy at hanswered
  dsimp only at hanswered
  rw [hanswer] at hanswered ⊢
  cases answer with
  | ok results =>
    dsimp only at hanswered ⊢
    obtain ⟨hreads, hdone⟩ := readResults_reads hserves hsent hdistinct (fun result hresult => by
      obtain ⟨item, hitem, hid, -⟩ := hserves.own _ _ results hanswer result hresult
      rw [← hid]
      exact mem_map_of_mem (hbatch item (mem_filter.mp hitem).1))
      (hserves.receipts _ _ results hanswer)
    rw [← hanswered, ← hreads.answered] at hdone
    exact hdone
  | error failure =>
    dsimp only at hanswered ⊢
    rw [append_nil] at hanswered
    rw [← hanswered] at hsent
    split_ifs
    · exact hsent
    · split
      · obtain ⟨hreads, hdone⟩ := hsent.deadLetter (_, permanentReason failure)
        rw [← hreads.answered] at hdone
        exact hdone
      · exact hsent
    · exact hsent

theorem pushQueue_waiting (hdistinct : (queuedIds outbox).Nodup)
    {queue : List (List PushRevision)} (hqueue : ∀ batch ∈ queue, ∀ item ∈ batch, item ∈ outbox)
    (h : Waiting outbox authored (answeredMissing ports state.calls) state) :
    Waiting outbox authored
      (answeredMissing ports (pushQueue ports (buildLineageIndex outbox) state queue).1.calls)
      (pushQueue ports (buildLineageIndex outbox) state queue).1 := by
  fun_induction pushQueue ports (buildLineageIndex outbox) state queue with
  | case1 state => exact h
  | case2 state batch queue next split hturn ih =>
    have hbatch := hqueue batch mem_cons_self
    refine ih (fun later hlater item hitem => ?_) (pushBatch_waiting hserves h hdistinct hbatch hturn)
    rcases mem_append.mp hlater with hrest | hsplit
    · exact hqueue later (mem_cons_of_mem _ hrest) item hitem
    · rcases pushBatch_leaves ports _ hturn with hnone | ⟨-, hsingles⟩
      · rw [hnone] at hsplit
        cases hsplit
      · rw [hsingles] at hsplit
        obtain ⟨single, hsingle, rfl⟩ := mem_map.mp hsplit
        rw [mem_singleton.mp hitem]
        exact hbatch single (mem_filter.mp hsingle).1
  | case3 state batch queue after failure hturn =>
    exact pushBatch_waiting hserves h hdistinct (hqueue batch mem_cons_self) hturn

omit hserves in
theorem waiting_start (limits : PushLimits) (hdistinct : (queuedIds outbox).Nodup) :
    Waiting outbox authored (answeredMissing ports (startPush outbox).calls)
      (startPush outbox) := by
  have hstart : Kept outbox (buildLineageIndex outbox) (planPushBatches limits outbox)
      (startPush outbox) := kept_start hdistinct
  exact
    { tracked := hstart.tracked
      covered := hstart.covered
      pending_listed := fun _ hid => hid
      accepted_listed := fun _ hid => (not_mem_nil hid).elim
      waits := fun _ _ hanswered => (not_mem_nil hanswered).elim }

theorem runPush_waiting (limits : PushLimits) (hdistinct : (queuedIds outbox).Nodup) :
    Waiting outbox authored (answeredMissing ports (runPush ports limits outbox).1.calls)
      (runPush ports limits outbox).1 := by
  have hflat : (planPushBatches limits outbox).flatten = outbox :=
    flatten_planFrom limits [] 0 outbox
  have hqueue : ∀ batch ∈ planPushBatches limits outbox, ∀ item ∈ batch, item ∈ outbox := by
    intro batch hbatch item hitem
    rw [← hflat]
    exact mem_flatten_of_mem hbatch hitem
  have hend := pushQueue_waiting hserves hdistinct hqueue (waiting_start limits hdistinct)
  unfold runPush
  split_ifs
  · exact waiting_start limits hdistinct
  · split
    · rename_i after hrun
      rw [hrun] at hend
      exact hend
    · rename_i after failure hrun
      rw [hrun] at hend
      exact hend

omit hserves in
/-- With no stranded revision in the outbox, what still waits after a refusal waits
for parents that are queued or on the server. -/
theorem Waiting.settled (h : Waiting outbox authored (answeredMissing ports state.calls) state)
    (hnone : NoneStranded outbox known authored) :
    MissingSettled known ports outbox state.calls := by
  intro item hitem hanswered hrecorded hdead parentId hparent
  rw [← h.tracked.accepted_recorded] at hrecorded ⊢
  rw [← h.tracked.quarantined_calls] at hdead ⊢
  have hpending : item.revisionId ∈ state.pending := by
    rcases h.tracked.listed item hitem with hstill | haccepted | hgone
    · exact hstill
    · exact absurd haccepted hrecorded
    · exact absurd hgone hdead
  by_cases hlisted : parentId ∈ queuedIds outbox
  · refine Or.inr (Or.inr ⟨hlisted, fun hgone => ?_⟩)
    have hchild := h.covered parentId hgone item.revisionId
      (mem_childrenOf.mpr ⟨item, hitem, hparent, rfl⟩)
    exact hchild.elim (fun hoff => hoff hpending) not_mem_nil
  · by_cases hknown : known parentId
    · exact Or.inl hknown
    · obtain ⟨other, hother, hhope⟩ := h.waits item hitem hanswered hpending
      obtain ⟨hunlisted, hforeign⟩ := hnone item hitem parentId hparent hlisted hknown other hother
      rcases hhope with hlistedOther | hauthored
      · exact absurd hlistedOther hunlisted
      · rw [hforeign] at hauthored
        cases hauthored

end

section
variable {outbox : List PushRevision} {known : Id → Prop} {authored : Id → Bool}
  {state : PushState}

def stalledResults (child dead : Id) (calls : List PortCall) (revisions : List PushRevision) :
    List PushItemResult :=
  revisions.map fun item =>
    { revisionId := item.revisionId
      outcome := .rejected
      missingParent := item.revisionId = child ∧ dead ∈ itemParents item ∧ dead ∉ recorded calls }

/-- A server without the revision `dead`: it refuses `child` for want of it, and
everything else for the time being. -/
def stallingPorts (authored : Id → Bool) (child dead : Id) : Ports where
  push calls revisions := .ok (stalledResults child dead calls revisions)
  isLocallyAuthored calls id := authored id ∨ id ∈ recorded calls

theorem serves_stallingPorts {child dead : Id} (hdead : ¬ known dead) :
    Serves known authored (stallingPorts authored child dead) where
  receipts := by
    intro calls revisions results hanswer result hresult receipt hreceipt
    cases hanswer
    obtain ⟨item, -, rfl⟩ := mem_map.mp hresult
    cases hreceipt
  asked calls id hasked := of_decide_eq_true hasked
  own := by
    intro calls revisions results hanswer result hresult
    cases hanswer
    obtain ⟨item, hitem, rfl⟩ := mem_map.mp hresult
    refine ⟨item, hitem, rfl, fun haccepted => ?_, fun hmissing => ?_⟩
    · cases haccepted
    · have hlacks := (of_decide_eq_true hmissing).2.2
      obtain ⟨-, hparent, hrecorded⟩ := of_decide_eq_true hlacks
      exact ⟨dead, hparent, hdead, hrecorded⟩

/-- Nothing was accepted and nothing dead-lettered. -/
structure Stalled (outbox : List PushRevision) (state : PushState) : Prop where
  all_pending : state.pending = queuedIds outbox
  none_accepted : state.accepted = []
  none_quarantined : state.quarantinedIds = []
  none_recorded : recorded state.calls = []
  none_dead : deadLettered state.calls = []

theorem Stalled.call (h : Stalled outbox state) {call : PortCall} (hrecorded : recordedBy call = [])
    (hdead : deadLetteredBy call = []) : Stalled outbox (state.call call) where
  all_pending := h.all_pending
  none_accepted := h.none_accepted
  none_quarantined := h.none_quarantined
  none_recorded := by
    show recorded (state.calls ++ [call]) = []
    rw [recorded_append, h.none_recorded, nil_append]
    simp [recorded, hrecorded]
  none_dead := by
    show deadLettered (state.calls ++ [call]) = []
    rw [deadLettered_append, h.none_dead, nil_append]
    simp [deadLettered, hdead]

variable {ports : Ports}

/-- A parent that is queued or authored is found, whatever comes before it. -/
theorem parentStillViable_stalled (h : Stalled outbox state) {parents : List Id} {hope : Id}
    (hmem : hope ∈ parents)
    (hhope : hope ∈ queuedIds outbox ∨ ∀ calls, ports.isLocallyAuthored calls hope = true) :
    (parentStillViable ports state parents).1 = true ∧
      Stalled outbox (parentStillViable ports state parents).2 ∧
      Reads state (parentStillViable ports state parents).2 := by
  induction parents generalizing state with
  | nil => exact (not_mem_nil hmem).elim
  | cons parentId rest ih =>
    have hasked : Stalled outbox (state.call (.isLocallyAuthored parentId)) := h.call rfl rfl
    have hreads : Reads state (state.call (.isLocallyAuthored parentId)) :=
      reads_concat rfl rfl fun _ hid => hid
    unfold parentStillViable
    dsimp only
    by_cases hhere : parentId ∈ state.pending ∨ parentId ∈ state.accepted
    · rw [if_pos hhere]
      exact ⟨rfl, h, Reads.refl state⟩
    rw [if_neg hhere]
    by_cases hown : ports.isLocallyAuthored state.calls parentId = true
    · rw [if_pos hown]
      exact ⟨rfl, hasked, hreads⟩
    rw [if_neg hown]
    have hlater : hope ∈ rest := by
      refine (mem_cons.mp hmem).resolve_left fun hsame => ?_
      subst hsame
      rcases hhope with hlisted | hauthored
      · exact hhere (Or.inl (h.all_pending ▸ hlisted))
      · exact hown (hauthored state.calls)
    obtain ⟨htrue, hstalled, hlaterReads⟩ := ih hasked hlater
    exact ⟨htrue, hstalled, hreads.trans hlaterReads⟩

/-- Refusals that do not dead-letter leave everything pending. -/
theorem readResults_stalled {lineage : LineageIndex} (h : Stalled outbox state)
    {results : List PushItemResult}
    (hrefused : ∀ result ∈ results, result.outcome = .rejected ∧ result.permanent = false)
    (hhope : ∀ result ∈ results, result.missingParent = true →
      ∃ hope ∈ lineage.parentsOf result.revisionId,
        hope ∈ queuedIds outbox ∨ ∀ calls, ports.isLocallyAuthored calls hope = true) :
    Stalled outbox (results.foldl (readResult ports lineage) state) ∧
      Reads state (results.foldl (readResult ports lineage) state) := by
  induction results generalizing state with
  | nil => exact ⟨h, Reads.refl state⟩
  | cons result rest ih =>
    obtain ⟨houtcome, hpermanent⟩ := hrefused result mem_cons_self
    have hread : Stalled outbox (readResult ports lineage state result) ∧
        Reads state (readResult ports lineage state result) := by
      unfold readResult
      rw [h.none_quarantined, if_neg not_mem_nil, houtcome]
      dsimp only
      rw [hpermanent, if_neg Bool.false_ne_true]
      by_cases hmissing : result.missingParent = true
      · rw [if_pos hmissing]
        obtain ⟨hope, hmem, hkind⟩ := hhope result mem_cons_self hmissing
        obtain ⟨htrue, hstalled, hreads⟩ := parentStillViable_stalled h hmem hkind
        rw [if_pos htrue]
        exact ⟨hstalled, hreads⟩
      · rw [if_neg hmissing]
        exact ⟨h, Reads.refl state⟩
    obtain ⟨hdone, hlater⟩ := ih hread.1
      (fun other hother => hrefused other (mem_cons_of_mem _ hother))
      fun other hother => hhope other (mem_cons_of_mem _ hother)
    exact ⟨hdone, hread.2.trans hlater⟩

/-- The server refuses a child that is sent to it. -/
theorem refused_stallingPorts {child : PushRevision} {dead : Id} {calls : List PortCall}
    {revisions : List PushRevision} (hrecorded : recorded calls = [])
    (hchild : child ∈ revisions) (hparent : dead ∈ itemParents child) :
    child.revisionId ∈
      refusedBy (stallingPorts authored child.revisionId dead) calls (.push revisions) := by
  have hunrecorded : dead ∉ recorded calls := by
    rw [hrecorded]
    exact not_mem_nil
  refine mem_map.mpr ⟨_, mem_filter.mpr ⟨mem_map_of_mem hchild, ?_⟩, rfl⟩
  exact decide_eq_true ⟨rfl, rfl, decide_eq_true ⟨rfl, hparent, hunrecorded⟩⟩

/-- A batch is sent whole, and stays queued. -/
theorem pushBatch_stalled (hdistinct : (queuedIds outbox).Nodup) {child : PushRevision}
    {dead hope : Id} (hchild : child ∈ outbox)
    (hmem : hope ∈ itemParents child) (hhope : hope ∈ queuedIds outbox ∨ authored hope = true)
    {batch : List PushRevision} (hbatch : batch ≠ []) (hlisted : ∀ item ∈ batch, item ∈ outbox)
    (h : Stalled outbox state) :
    ∃ next, pushBatch (stallingPorts authored child.revisionId dead) (buildLineageIndex outbox)
        state batch = .next next [] ∧ Stalled outbox next ∧
      answeredMissing (stallingPorts authored child.revisionId dead) next.calls =
        answeredMissing (stallingPorts authored child.revisionId dead) state.calls ++
          refusedBy (stallingPorts authored child.revisionId dead) state.calls (.push batch) := by
  have hlive : liveItems state batch = batch := by
    refine filter_eq_self.mpr fun item hitem => decide_eq_true ?_
    rw [h.all_pending]
    exact mem_map_of_mem (hlisted item hitem)
  have hlength : batch.length ≠ 0 := mt length_eq_zero_iff.mp hbatch
  have hsent : Stalled outbox (state.call (.push batch)) := h.call rfl rfl
  have hasks : hope ∈ queuedIds outbox ∨
      ∀ calls, (stallingPorts authored child.revisionId dead).isLocallyAuthored calls hope = true :=
    hhope.imp_right fun hauthored _ => decide_eq_true (Or.inl hauthored)
  have hrefused : ∀ result ∈ stalledResults child.revisionId dead state.calls batch,
      result.outcome = .rejected ∧ result.permanent = false := by
    intro result hresult
    obtain ⟨item, -, rfl⟩ := mem_map.mp hresult
    exact ⟨rfl, rfl⟩
  have hfound : ∀ result ∈ stalledResults child.revisionId dead state.calls batch,
      result.missingParent = true →
        ∃ parentId ∈ (buildLineageIndex outbox).parentsOf result.revisionId,
          parentId ∈ queuedIds outbox ∨ ∀ calls,
            (stallingPorts authored child.revisionId dead).isLocallyAuthored calls parentId =
              true := by
    intro result hresult hmissing
    obtain ⟨item, hitem, rfl⟩ := mem_map.mp hresult
    obtain ⟨hsame, -⟩ := of_decide_eq_true hmissing
    refine ⟨hope, ?_, hasks⟩
    rw [hsame, parentsOf_buildLineageIndex hdistinct hchild]
    exact hmem
  obtain ⟨hstalled, hreads⟩ := readResults_stalled hsent hrefused hfound
  unfold pushBatch
  rw [hlive]
  dsimp only
  rw [if_neg hlength]
  exact ⟨_, rfl, hstalled, hreads.answered.trans (answeredMissing_concat _ _ _)⟩

/-- All that is queued is sent, batch after batch, and stays queued. -/
theorem pushQueue_stalled (hdistinct : (queuedIds outbox).Nodup) {child : PushRevision}
    {dead hope : Id} (hchild : child ∈ outbox) (hparent : dead ∈ itemParents child)
    (hmem : hope ∈ itemParents child) (hhope : hope ∈ queuedIds outbox ∨ authored hope = true)
    {queue : List (List PushRevision)} (hnonempty : [] ∉ queue)
    (hqueue : ∀ batch ∈ queue, ∀ item ∈ batch, item ∈ outbox) (h : Stalled outbox state) :
    ∃ after, pushQueue (stallingPorts authored child.revisionId dead) (buildLineageIndex outbox)
        state queue = (after, none) ∧ Stalled outbox after ∧
      (child.revisionId ∈ answeredMissing (stallingPorts authored child.revisionId dead) state.calls ∨
          child ∈ queue.flatten →
        child.revisionId ∈
          answeredMissing (stallingPorts authored child.revisionId dead) after.calls) := by
  induction queue generalizing state with
  | nil =>
    refine ⟨state, ?_, h, fun hwhere => ?_⟩
    · unfold pushQueue
      rfl
    · exact hwhere.resolve_right not_mem_nil
  | cons batch rest ih =>
    have hbatch : batch ≠ [] := fun hnil => hnonempty (hnil ▸ mem_cons_self)
    obtain ⟨next, hturn, hnext, hanswered⟩ := pushBatch_stalled hdistinct hchild hmem hhope
      hbatch (hqueue batch mem_cons_self) h
    obtain ⟨after, hrun, hdone, hrefused⟩ := ih (fun hnil => hnonempty (mem_cons_of_mem _ hnil))
      (fun later hlater => hqueue later (mem_cons_of_mem _ hlater)) hnext
    refine ⟨after, ?_, hdone, fun hwhere => hrefused ?_⟩
    · unfold pushQueue
      split
      · rename_i other split hother
        rw [hturn] at hother
        cases hother
        rw [append_nil]
        exact hrun
      · rename_i other failure hother
        rw [hturn] at hother
        cases hother
    · rw [hanswered]
      rcases hwhere with hbefore | hlater
      · exact Or.inl (mem_append_left _ hbefore)
      · rcases mem_append.mp hlater with hnow | hrest
        · exact Or.inl (mem_append_right _ (refused_stallingPorts h.none_recorded hnow hparent))
        · exact Or.inr hrest

end

/-- Whatever else the server answers, a revision refused for want of a parent is kept
only for parents that can still come, if and only if no queued revision has a parent
that cannot beside one that is queued or authored. -/
theorem missing_parents_settled (outbox : List PushRevision) (known : Id → Prop)
    (authored : Id → Bool) (limits : PushLimits) (hdistinct : (queuedIds outbox).Nodup) :
    (∀ ports, Serves known authored ports →
      MissingSettled known ports outbox (runPush ports limits outbox).1.calls) ↔
      NoneStranded outbox known authored := by
  refine ⟨fun hsettled item hitem dead hparent hlisted hdead hope hmem => ?_, fun hnone ports hserves => ?_⟩
  · by_contra hstranded
    have hhope : hope ∈ queuedIds outbox ∨ authored hope = true := by
      rw [not_and_or, not_not, Bool.not_eq_false] at hstranded
      exact hstranded
    have hflat : (planPushBatches limits outbox).flatten = outbox :=
      flatten_planFrom limits [] 0 outbox
    have hstart : Stalled outbox (startPush outbox) := ⟨rfl, rfl, rfl, rfl, rfl⟩
    obtain ⟨after, hrun, hafter, hrefused⟩ := pushQueue_stalled hdistinct hitem hparent hmem hhope
      (planFrom_nonempty limits [] 0 outbox)
      (fun batch hbatch other hother => hflat ▸ mem_flatten_of_mem hbatch hother) hstart
    have hanswered := hrefused (Or.inr (hflat.symm ▸ hitem))
    have hend : (runPush (stallingPorts authored item.revisionId dead) limits outbox).1 = after := by
      unfold runPush
      have hlength : outbox.length ≠ 0 := by
        intro hzero
        rw [length_eq_zero_iff.mp hzero] at hitem
        cases hitem
      rw [if_neg hlength]
      split
      · rename_i other hother
        rw [planPushBatches, hrun] at hother
        cases hother
        rfl
      · rename_i other failure hother
        rw [planPushBatches, hrun] at hother
        cases hother
    have hserves : Serves known authored (stallingPorts authored item.revisionId dead) :=
      serves_stallingPorts hdead
    have hkept := hsettled _ hserves
    rw [hend] at hkept
    have hnone := hkept item hitem hanswered (hafter.none_recorded ▸ not_mem_nil)
      (hafter.none_dead ▸ not_mem_nil) dead hparent
    rcases hnone with hknown | hrecorded | hqueued
    · exact hdead hknown
    · rw [hafter.none_recorded] at hrecorded
      cases hrecorded
    · exact hlisted hqueued.1
  · exact (runPush_waiting hserves limits hdistinct).settled hnone

/-- A child whose parent is nowhere, and its own child. -/
def orphanOutbox : List PushRevision := [⟨2, 20, 0, 5, some [9]⟩, ⟨3, 20, 0, 5, some [2]⟩]

theorem missing_parents_settled_orphan :
    MissingSettled (fun _ => False) (stallingPorts (fun _ => false) 2 9) orphanOutbox
        (runPush (stallingPorts (fun _ => false) 2 9) {} orphanOutbox).1.calls ∧
      deadLettered (runPush (stallingPorts (fun _ => false) 2 9) {} orphanOutbox).1.calls =
        [2, 3] := by
  have hnone : NoneStranded orphanOutbox (fun _ => False) fun _ => false := by
    intro item hitem dead hparent hlisted _
    revert dead
    revert item
    decide
  exact ⟨(missing_parents_settled orphanOutbox (fun _ => False) (fun _ => false) {} (by decide)).mpr
    hnone _ (serves_stallingPorts not_false), by decide +kernel⟩

/-- A merge of a revision this device authored and of one that was dead-lettered
before is refused in every cycle, and kept. -/
theorem missing_parents_unsettled :
    Serves (fun id => id = 10) (fun id => id = 10) (stallingPorts (fun id => id = 10) 12 11) ∧
      ¬ MissingSettled (fun id => id = 10) (stallingPorts (fun id => id = 10) 12 11)
        [⟨12, 20, 0, 5, some [10, 11]⟩]
        (runPush (stallingPorts (fun id => id = 10) 12 11) {}
          [⟨12, 20, 0, 5, some [10, 11]⟩]).1.calls := by
  refine ⟨serves_stallingPorts (by decide), fun hsettled => ?_⟩
  have hkept := hsettled _ mem_cons_self (by decide +kernel) (by decide +kernel)
    (by decide +kernel) 11 (by decide)
  revert hkept
  decide +kernel

end Havemind.MissingParents
