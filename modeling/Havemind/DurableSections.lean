import Havemind.DurableOperations

/-!
What the section of an operation does, whatever fails in it and wherever it stops:
it saves the state it is for and caches it, or it leaves the saved record and the
cache alone. Payloads aside, there is nothing in between.
-/
namespace Havemind.DurableSections

open RevisionSchema AwaitCode DurableState PersistedBlob DurableLoad DurableOperations

variable {options : SyncStateOptions} {now : Timestamp} {state next : PersistedSyncState}
  {m m' : Memory} {w w' : Disk}

/-- The state the section of an operation saves; `none` when it saves nothing. -/
def nextState (options : SyncStateOptions) (now : Timestamp) :
    Operation → PersistedSyncState → Option PersistedSyncState
  | .startProducerRecovery record replacement, state =>
    if inTransaction state record || swapRefused state record replacement then none
    else
      some
        { swapped state now record replacement with
          producerRecovery := some (state.journal ++ [journalled state record]) }
  | .commitProducerChange record replacement, state =>
    if inTransaction state record || swapRefused state record replacement then none
    else some (rolledForward (swapped state now record replacement) record)
  | .saveProducer producer, state => some { state with producer := some producer }
  | .recoverProducerQueue id, state =>
    (state.journal.find? fun r => r.id = id).bind fun record =>
      match record.kind with
      | .resolution => some (rolledForward state record)
      | .apply =>
        if hasUncoveredChildren state record.discardRevisionIds then none
        else some (rolledBack state now record)
  | .completeProducerRecovery id, state =>
    some { state with producerRecovery := some (state.journal.filter fun r => r.id ≠ id) }
  | .enqueueAutomaticMerge envelope, state =>
    (applyRecord state envelope.fileId).map fun record => mergeQueued now state record envelope
  | .saveCursor sequence, state => some { state with cursor := sequence }
  | .retireEquivalentMerges event, state =>
    let retired :=
      (state.outbox.filter (equivalentMerge state event)).map OutboxEnvelope.revisionId
    if retired.length = 0 then none
    else some { state with outbox := state.outbox.filter fun entry => entry.revisionId ∉ retired }
  | .recordPushReceipt receipt, state => some (receiptRecorded options receipt state)
  | .quarantineOutboxItem revisionId reason, state =>
    some (quarantined options revisionId reason state)
  | .recordFailedToQueue path, state =>
    some { state with
      quarantine := withRow state.quarantine
        ⟨options.failedToQueueRevisionId path, path, failedToQueueReason, none⟩ }
  | .recordApplied fileId path baseHash content, state =>
    some { state with
      pathOwners := state.pathOwners.set path fileId
      baseHashes := state.baseHashes.set fileId baseHash
      baseContents := match content with
        | none => state.baseContents
        | some content => state.baseContents.set fileId content }
  | .recordPathOwner fileId path, state =>
    some { state with pathOwners := state.pathOwners.set path fileId }
  | .forgetPath path, state =>
    if state.pathOwners.get path = none then none
    else some { state with pathOwners := state.pathOwners.erase path }
  | .recordBaseHash fileId baseHash, state =>
    some { state with baseHashes := state.baseHashes.set fileId baseHash }
  | .forgetBaseHash fileId, state =>
    if state.baseHashes.get fileId = none then none
    else some { state with baseHashes := state.baseHashes.erase fileId }
  | .recordBaseContent fileId content, state =>
    some { state with baseContents := state.baseContents.set fileId content }
  | .forgetBaseContent fileId, state =>
    if state.baseContents.get fileId = none then none
    else some { state with baseContents := state.baseContents.erase fileId }
  | .recordConflictArtifactPath revisionId path fileId, state =>
    some { state with
      conflictArtifacts := state.conflictArtifacts.set revisionId path
      conflictCopyFileIds := match fileId with
        | none => state.conflictCopyFileIds
        | some fileId => some ((state.conflictCopyFileIds.getD ∅).set path fileId) }
  | .enqueue envelope, state =>
    some { state with
      outbox := (state.outbox.filter fun entry => entry.revisionId ≠ envelope.revisionId) ++
        [{ envelope with enqueuedAt := envelope.enqueuedAt <|> some now }] }
  | .requeueQuarantined revisionId, state =>
    (state.quarantinedEnvelopes.get revisionId).map fun stashed =>
      { state with
        outbox := (state.outbox.filter fun entry => entry.revisionId ≠ revisionId) ++
          [{ stashed with enqueuedAt := some now }]
        quarantine := state.quarantine.filter fun item => item.revisionId ≠ revisionId
        quarantinedEnvelopes := state.quarantinedEnvelopes.erase revisionId }
  | .discardQuarantined revisionId, state =>
    if (state.quarantine.all fun item => item.revisionId ≠ revisionId) ∧
        state.quarantinedEnvelopes.get revisionId = none then none
    else some { state with
      quarantine := state.quarantine.filter fun item => item.revisionId ≠ revisionId
      quarantinedEnvelopes := state.quarantinedEnvelopes.erase revisionId }
  | .parkRemote event, state =>
    some { state with
      deferred := withoutParked state.deferred event.revision.revisionId ++ [event] }
  | .unparkRemote revisionId, state =>
    some { state with deferred := withoutParked state.deferred revisionId }

/-- Both disks hold the same record; their payloads may differ. -/
structure SameRecord (w w' : Disk) : Prop where
  primary : w'.primary = w.primary
  backup : w'.backup = w.backup
  legacyProducer : w'.legacyProducer = w.legacyProducer
  preserved : w'.preserved = w.preserved

theorem SameRecord.refl (w : Disk) : SameRecord w w := ⟨rfl, rfl, rfl, rfl⟩

theorem SameRecord.trans {w'' : Disk} (h : SameRecord w w') (h' : SameRecord w' w'') :
    SameRecord w w'' :=
  ⟨h'.primary.trans h.primary, h'.backup.trans h.backup,
    h'.legacyProducer.trans h.legacyProducer, h'.preserved.trans h.preserved⟩

/-- The disk after the state was saved with some of its payloads outside. -/
structure SavedRecord (next : PersistedSyncState) (w w' : Disk) : Prop where
  primary : ∃ externalized, w'.primary = .record (written (toDiskForm externalized next))
  backup : w'.backup = w.primary
  legacyProducer : w'.legacyProducer = w.legacyProducer
  preserved : w'.preserved = w.preserved

theorem SavedRecord.after {w'' : Disk} (h : SavedRecord next w w') (h' : SameRecord w' w'') :
    SavedRecord next w w'' :=
  ⟨h'.primary ▸ h.primary, h'.backup.trans h.backup, h'.legacyProducer.trans h.legacyProducer,
    h'.preserved.trans h.preserved⟩

/-- What a stop inside a section leaves. -/
def Stops (saved : Option PersistedSyncState) (w w' : Disk) : Prop :=
  SameRecord w w' ∨ ∃ next ∈ saved, SavedRecord next w w'

/-- What the end of a section leaves: the old state when it failed or had nothing to
save, else the new one. -/
def Finishes (saved : Option PersistedSyncState) (m : Memory) (w : Disk)
    (result : Except SyncStateError Bool) (m' : Memory) (w' : Disk) : Prop :=
  (m'.cache = m.cache ∧ SameRecord w w' ∧ (saved = none ∨ ∃ error, result = .error error)) ∨
    ∃ next ∈ saved, m'.cache = some next ∧ SavedRecord next w w' ∧ ∃ value, result = .ok value

section
variable {P : Disk → Prop} {α : Type} {Q : Except SyncStateError α → Memory → Disk → Prop}

theorem visits_mutate {f : Unit → Durable α} :
    Visits respond P Q (mutate options next >>= f) m w ↔
      P w ∧ Visits respond P Q (f ()) { m with cache := some (trimmed options next) }
        { w with
          primary := .record (written (toDiskForm m.externalized (trimmed options next)))
          backup := w.primary } ∧ ∀ error, Q (.error error) m w := Iff.rfl

/-- What changes payloads only and never throws. -/
def PayloadsOnly (code : Durable α) : Prop :=
  ∀ (m : Memory) (w : Disk), Visits (S := syncState) respond (SameRecord w)
    (fun result (m' : Memory) w' =>
      m'.cache = m.cache ∧ SameRecord w w' ∧ ∃ value, result = .ok value) code m w

theorem PayloadsOnly.bind {β : Type} {code : Durable β} {f : β → Durable α}
    (h : PayloadsOnly code) (hstop : ∀ w', SameRecord w w' → P w')
    (hnext : ∀ value m' w', m'.cache = m.cache → SameRecord w w' →
      Visits respond P Q (f value) m' w') : Visits respond P Q (code >>= f) m w := by
  refine visits_bind.mpr ((h m w).mono hstop fun result m' w' hend => ?_)
  obtain ⟨hcache, hsame, value, rfl⟩ := hend
  exact hnext value m' w' hcache hsame

theorem PayloadsOnly.ret (value : α) : PayloadsOnly (pure value) :=
  fun _ w => ⟨rfl, SameRecord.refl w, value, rfl⟩

theorem PayloadsOnly.then {β : Type} {code : Durable β} {f : β → Durable α}
    (h : PayloadsOnly code) (hnext : ∀ value, PayloadsOnly (f value)) :
    PayloadsOnly (code >>= f) := by
  intro m w
  refine h.bind (fun _ hsame => hsame) fun value m' w' hcache hsame => ?_
  refine (hnext value m' w').mono (fun _ => hsame.trans) fun result m'' w'' hend => ?_
  obtain ⟨hcache', hsame', hvalue⟩ := hend
  exact ⟨hcache'.trans hcache, hsame.trans hsame', hvalue⟩

theorem safePutPayload_payloads (revisionId : Id) (payload : JsText.JsString) :
    PayloadsOnly (safePutPayload options revisionId payload) := by
  intro m w
  unfold safePutPayload
  split_ifs
  · exact ⟨rfl, SameRecord.refl w, false, rfl⟩
  · exact ⟨SameRecord.refl w, ⟨rfl, ⟨rfl, rfl, rfl, rfl⟩, true, rfl⟩,
      fun _ => ⟨rfl, SameRecord.refl w, false, rfl⟩⟩

theorem addExternalized_payloads (revisionId : Id) : PayloadsOnly (addExternalized revisionId) :=
  fun _ w => ⟨rfl, SameRecord.refl w, (), rfl⟩

theorem deleteExternalized_payloads (revisionId : Id) :
    PayloadsOnly (deleteExternalized revisionId) :=
  fun _ w => ⟨rfl, SameRecord.refl w, (), rfl⟩

theorem externalize_payloads (envelope : OutboxEnvelope) :
    PayloadsOnly (externalize options envelope) := by
  refine (safePutPayload_payloads _ _).then fun stored => ?_
  split_ifs
  · exact addExternalized_payloads _
  · exact deleteExternalized_payloads _

theorem dropPayload_payloads (revisionId : Id) : PayloadsOnly (dropPayload options revisionId) := by
  intro m w
  unfold dropPayload
  refine visits_memory.mpr ?_
  split_ifs
  · exact ⟨SameRecord.refl w, ⟨rfl, ⟨rfl, rfl, rfl, rfl⟩, (), rfl⟩,
      fun _ => ⟨rfl, SameRecord.refl w, (), rfl⟩⟩
  · exact ⟨rfl, SameRecord.refl w, (), rfl⟩
  · exact ⟨rfl, SameRecord.refl w, (), rfl⟩

theorem dropPayloads_payloads (revisionIds : List Id) :
    PayloadsOnly (dropPayloads options revisionIds) := by
  induction revisionIds with
  | nil => exact PayloadsOnly.ret ()
  | cons revisionId rest ih => exact (dropPayload_payloads revisionId).then fun _ => ih

end

variable {saved : Option PersistedSyncState}

/-- A section that saves one state, then at most frees payloads. -/
theorem mutate_spec {w₀ : Disk} {m₀ : Memory} {f : Unit → Durable Bool} (hf : PayloadsOnly (f ()))
    (hsaved : saved = some (trimmed options next)) (hcache : m.cache = m₀.cache)
    (hsame : SameRecord w₀ w) :
    Visits (S := syncState) respond (Stops saved w₀) (Finishes saved m₀ w₀)
      (mutate options next >>= f) m w := by
  subst hsaved
  refine visits_mutate.mpr ⟨.inl hsame, ?_, fun error => .inl ⟨hcache, hsame, .inr ⟨error, rfl⟩⟩⟩
  have hrecord : SavedRecord (trimmed options next) w₀
      { w with
        primary := .record (written (toDiskForm m.externalized (trimmed options next)))
        backup := w.primary } :=
    ⟨⟨m.externalized, rfl⟩, hsame.primary, hsame.legacyProducer, hsame.preserved⟩
  refine (hf _ _).mono (fun w' hafter => .inr ⟨_, rfl, hrecord.after hafter⟩)
    fun result m' w' hend => ?_
  obtain ⟨hcache', hafter, value, hvalue⟩ := hend
  exact .inr ⟨_, rfl, hcache', hrecord.after hafter, value, hvalue⟩

/-- A section that returns at once. -/
theorem idle_spec (hsaved : saved = none) (value : Bool) :
    Visits (S := syncState) respond (Stops saved w) (Finishes saved m w)
      (pure value : Durable Bool) m w :=
  .inl ⟨rfl, SameRecord.refl w, .inl hsaved⟩

theorem throw_spec (error : SyncStateError) :
    Visits (S := syncState) respond (Stops saved w) (Finishes saved m w)
      (Code.throw (S := syncState) error : Durable Bool) m w :=
  .inl ⟨rfl, SameRecord.refl w, .inr ⟨error, rfl⟩⟩

theorem swapQueue_spec {record : ProducerRecovery} {replacement : Option OutboxEnvelope}
    {finish : PersistedSyncState → PersistedSyncState}
    (hsaved : saved = if inTransaction state record || swapRefused state record replacement
      then none else some (trimmed options (finish (swapped state now record replacement)))) :
    Visits (S := syncState) respond (Stops saved w) (Finishes saved m w)
      (swapQueue options now state record replacement >>= fun
        | none => pure false
        | some swapped => do
          mutate options (finish swapped)
          return true) m w := by
  unfold swapQueue
  by_cases hbusy : inTransaction state record
  · rw [if_pos hbusy]
    exact throw_spec _
  rw [if_neg hbusy]
  by_cases hrefused : swapRefused state record replacement
  · rw [if_pos hrefused]
    refine idle_spec ?_ false
    rw [hsaved, if_pos (by simp [hrefused])]
  rw [if_neg hrefused]
  rw [if_neg (by simp [hbusy, hrefused])] at hsaved
  cases replacement with
  | none => exact mutate_spec (PayloadsOnly.ret true) hsaved rfl (SameRecord.refl w)
  | some envelope =>
    refine visits_bind.mpr ?_
    refine (externalize_payloads envelope).bind (fun w' hsame => .inl hsame) ?_
    intro _ m' w' hcache hsame
    exact mutate_spec (PayloadsOnly.ret true) hsaved hcache hsame

/-- A section that saves the state if there is one. -/
theorem saves_spec (hsaved : saved = some (trimmed options next)) :
    Visits (S := syncState) respond (Stops saved w) (Finishes saved m w)
      (mutate options next >>= fun _ => (pure true : Durable Bool)) m w :=
  mutate_spec (PayloadsOnly.ret true) hsaved rfl (SameRecord.refl w)

/-- Every section saves the state it is for, or nothing. -/
theorem operationSection_spec (operation : Operation) :
    Visits (S := syncState) respond
      (Stops ((nextState options now operation state).map (trimmed options)) w)
      (Finishes ((nextState options now operation state).map (trimmed options)) m w)
      (operationSection options now operation state) m w := by
  cases operation with
  | startProducerRecovery record replacement =>
    refine swapQueue_spec ?_
    simp only [nextState]
    split_ifs <;> rfl
  | commitProducerChange record replacement =>
    refine swapQueue_spec ?_
    simp only [nextState]
    split_ifs <;> rfl
  | saveProducer producer => exact saves_spec rfl
  | recoverProducerQueue id =>
    simp only [nextState, operationSection, recoverProducerQueue]
    cases state.journal.find? fun r => r.id = id with
    | none => exact idle_spec rfl true
    | some record =>
      cases hkind : record.kind with
      | resolution =>
        simp only [Option.bind_some, hkind]
        exact saves_spec rfl
      | apply =>
        simp only [Option.bind_some, hkind]
        split_ifs
        · exact throw_spec _
        · exact saves_spec rfl
  | completeProducerRecovery id => exact saves_spec rfl
  | enqueueAutomaticMerge envelope =>
    simp only [nextState, operationSection, enqueueAutomaticMerge]
    cases applyRecord state envelope.fileId with
    | none => exact throw_spec _
    | some record => exact saves_spec rfl
  | saveCursor sequence => exact saves_spec rfl
  | retireEquivalentMerges event =>
    simp only [nextState, operationSection, retireEquivalentMerges]
    split_ifs
    · exact idle_spec rfl true
    · exact saves_spec rfl
  | recordPushReceipt receipt =>
    exact mutate_spec ((dropPayload_payloads _).then fun _ => PayloadsOnly.ret true) rfl rfl
      (SameRecord.refl w)
  | quarantineOutboxItem revisionId reason =>
    refine (dropPayloads_payloads _).bind (fun w' hsame => .inl hsame) ?_
    intro _ m' w' hcache hsame
    exact mutate_spec (PayloadsOnly.ret true) rfl hcache hsame
  | recordFailedToQueue path => exact saves_spec rfl
  | recordApplied fileId path baseHash content => exact saves_spec rfl
  | recordPathOwner fileId path => exact saves_spec rfl
  | forgetPath path =>
    simp only [nextState, operationSection, forgetPath]
    split_ifs
    · exact idle_spec rfl true
    · exact saves_spec rfl
  | recordBaseHash fileId baseHash => exact saves_spec rfl
  | forgetBaseHash fileId =>
    simp only [nextState, operationSection, forgetBaseHash]
    split_ifs
    · exact idle_spec rfl true
    · exact saves_spec rfl
  | recordBaseContent fileId content => exact saves_spec rfl
  | forgetBaseContent fileId =>
    simp only [nextState, operationSection, forgetBaseContent]
    split_ifs
    · exact idle_spec rfl true
    · exact saves_spec rfl
  | recordConflictArtifactPath revisionId path fileId => exact saves_spec rfl
  | enqueue envelope =>
    refine (externalize_payloads _).bind (fun w' hsame => .inl hsame) ?_
    intro _ m' w' hcache hsame
    exact mutate_spec (PayloadsOnly.ret true) rfl hcache hsame
  | requeueQuarantined revisionId =>
    simp only [nextState, operationSection, requeueQuarantined]
    cases state.quarantinedEnvelopes.get revisionId with
    | none => exact idle_spec rfl false
    | some stashed => exact saves_spec rfl
  | discardQuarantined revisionId =>
    simp only [nextState, operationSection, discardQuarantined]
    split_ifs
    · exact idle_spec rfl true
    · exact mutate_spec ((dropPayload_payloads _).then fun _ => PayloadsOnly.ret true) rfl rfl
        (SameRecord.refl w)
  | parkRemote event => exact saves_spec rfl
  | unparkRemote revisionId => exact saves_spec rfl

end Havemind.DurableSections
