import Havemind.DurableRuns

/-!
The journal of interrupted applies. The entry of a started apply stays in the journal
with what it may have to undo, whatever other calls, failures and restarts come, and
lists every merge that is queued for its files.
-/
namespace Havemind.ApplyJournal

open RevisionSchema AwaitCode DurableState DurableLoad DurableOperations List DurableSections
  DurableReload DurableRuns Option

variable {options : SyncStateOptions} {now : Timestamp} {record entry : ProducerRecovery}
  {s s' start : PersistedSyncState} {merges : List Id} {world : SyncWorld}
  {choices : List (Choice SyncStateError)} {m : Memory} {w : Disk} {id : Id}
  {found : ProducerRecovery} {envelope : OutboxEnvelope} {value : Bool}

/-- The calls that end the entry or reuse its id. -/
def leavesOpen (id : Id) : Operation → Prop
  | .startProducerRecovery record _ | .commitProducerChange record _ => record.id ≠ id
  | .recoverProducerQueue other | .completeProducerRecovery other => other ≠ id
  | _ => True

/-- The second entry is the first with more revisions to discard. -/
structure Grown (entry entry' : ProducerRecovery) : Prop where
  id : entry'.id = entry.id
  kind : entry'.kind = entry.kind
  applyState : entry'.applyState = entry.applyState
  fileIds : entry'.fileIds = entry.fileIds
  state : entry'.state = entry.state

/-- The entry is in the journal, alone on its files and under its id, and lists the
revisions. -/
structure Open (entry : ProducerRecovery) (merges : List Id) (s : PersistedSyncState) : Prop where
  present : ∃ entry' ∈ s.journal, Grown entry entry' ∧ ∀ id ∈ merges, id ∈ entry'.discardRevisionIds
  alone : ∀ r ∈ s.journal, ∀ r' ∈ s.journal, r.id = entry.id → r'.id = entry.id → r = r'
  disjoint : ∀ r ∈ s.journal, r.id ≠ entry.id → ∀ id ∈ r.fileIds, id ∉ entry.fileIds

theorem Open.of_journal (h : Open entry merges s) (hjournal : s'.journal = s.journal) :
    Open entry merges s' := by
  obtain ⟨hpresent, halone, hdisjoint⟩ := h
  rw [← hjournal] at hpresent halone hdisjoint
  exact ⟨hpresent, halone, hdisjoint⟩

theorem Open.drop (h : Open entry merges s) (hne : id ≠ entry.id)
    (hjournal : s'.journal = s.journal.filter fun r => r.id ≠ id) : Open entry merges s' := by
  obtain ⟨entry', hmem, hgrown, hlisted⟩ := h.present
  have hkept : ∀ r ∈ s'.journal, r ∈ s.journal := by
    rw [hjournal]
    exact fun r hr => (mem_filter.mp hr).1
  refine ⟨⟨entry', ?_, hgrown, hlisted⟩, ?_, ?_⟩
  · rw [hjournal]
    exact mem_filter.mpr ⟨hmem, decide_eq_true (hgrown.id.trans_ne hne.symm)⟩
  · exact fun r hr r' hr' => h.alone r (hkept r hr) r' (hkept r' hr')
  · exact fun r hr => h.disjoint r (hkept r hr)

theorem concerns_journalled (s : PersistedSyncState) (record : ProducerRecovery) :
    (journalled s record).fileIds = record.fileIds ∧ (journalled s record).id = record.id := by
  unfold journalled
  cases record.kind <;> exact ⟨rfl, rfl⟩

/-- A new transaction shares no file with an open one. -/
theorem free_of_not_inTransaction (h : ¬ inTransaction s record = true) {r : ProducerRecovery}
    (hr : r ∈ s.journal) (hid : id ∈ r.fileIds) : id ∉ record.fileIds := by
  intro hmem
  refine h (any_eq_true.mpr ⟨r, hr, any_eq_true.mpr ⟨id, hid, ?_⟩⟩)
  exact decide_eq_true hmem

theorem Open.push (h : Open entry merges s) (hne : record.id ≠ entry.id)
    (hfree : ¬ inTransaction s record = true)
    (hjournal : s'.journal = s.journal ++ [journalled s record]) : Open entry merges s' := by
  obtain ⟨entry', hmem, hgrown, hlisted⟩ := h.present
  obtain ⟨hfiles, hid⟩ := concerns_journalled s record
  have hcases : ∀ r ∈ s'.journal, r.id = entry.id → r ∈ s.journal := by
    rw [hjournal]
    intro r hr heq
    rcases mem_append.mp hr with hbefore | hnow
    · exact hbefore
    · rw [mem_singleton.mp hnow, hid] at heq
      exact absurd heq hne
  refine ⟨⟨entry', ?_, hgrown, hlisted⟩, ?_, ?_⟩
  · rw [hjournal]
    exact mem_append_left _ hmem
  · exact fun r hr r' hr' heq heq' => h.alone r (hcases r hr heq) r' (hcases r' hr' heq') heq heq'
  · rw [hjournal]
    intro r hr hother id hmem'
    rcases mem_append.mp hr with hbefore | hnow
    · exact h.disjoint r hbefore hother id hmem'
    · rw [mem_singleton.mp hnow, hfiles] at hmem'
      rw [← hgrown.fileIds]
      exact fun hin => free_of_not_inTransaction hfree hmem hin hmem'

/-- A merge is listed in the one entry of its file. -/
theorem Open.merge (h : Open entry merges s) {revisionId : Id}
    (hjournal : s'.journal = s.journal.map fun r =>
      if r.id = found.id then
        { r with discardRevisionIds := r.discardRevisionIds ++ [revisionId] }
      else r) : Open entry merges s' := by
  obtain ⟨entry', hmem, hgrown, hlisted⟩ := h.present
  have hsame : ∀ r : ProducerRecovery, (if r.id = found.id then
      { r with discardRevisionIds := r.discardRevisionIds ++ [revisionId] } else r).id = r.id ∧
      (if r.id = found.id then
      { r with discardRevisionIds := r.discardRevisionIds ++ [revisionId] } else r).fileIds =
        r.fileIds := by
    intro r
    split_ifs <;> exact ⟨rfl, rfl⟩
  refine ⟨?_, ?_, ?_⟩
  · rw [hjournal]
    refine ⟨_, mem_map_of_mem hmem, ?_, ?_⟩
    · split_ifs
      · exact ⟨hgrown.id, hgrown.kind, hgrown.applyState, hgrown.fileIds, hgrown.state⟩
      · exact hgrown
    · intro id hid
      split_ifs
      · exact mem_append_left _ (hlisted id hid)
      · exact hlisted id hid
  · rw [hjournal]
    intro r hr r' hr' heq heq'
    obtain ⟨old, hold, rfl⟩ := mem_map.mp hr
    obtain ⟨old', hold', rfl⟩ := mem_map.mp hr'
    rw [h.alone old hold old' hold' ((hsame old).1.symm.trans heq) ((hsame old').1.symm.trans heq')]
  · rw [hjournal]
    intro r hr hother id hmem'
    obtain ⟨old, hold, rfl⟩ := mem_map.mp hr
    rw [(hsame old).1] at hother
    rw [(hsame old).2] at hmem'
    exact h.disjoint old hold hother id hmem'

theorem open_durably (merges : List Id) :
    Durably options (leavesOpen entry.id) (Open entry merges) := by
  refine Durably.of_next ?_ (fun s producer h _ => h.of_journal rfl) ?_
  · intro s s' h hreload
    exact h.of_journal (congrArg (fun journal => journal.getD []) hreload.journal)
  · intro now operation s s' h hallowed hnext
    cases operation with
    | startProducerRecovery record replacement =>
      simp only [nextState] at hnext
      split_ifs at hnext with hrefused
      cases hnext
      refine h.push hallowed (fun hbusy => hrefused ?_) rfl
      rw [hbusy]
      rfl
    | commitProducerChange record replacement =>
      simp only [nextState] at hnext
      split_ifs at hnext
      cases hnext
      exact h.drop hallowed rfl
    | recoverProducerQueue id =>
      obtain ⟨record, hfind, hnext⟩ := bind_eq_some_iff.mp hnext
      have hid : record.id = id := of_decide_eq_true (List.find?_some hfind :)
      split at hnext
      · cases hnext
        exact h.drop (hid.trans_ne hallowed) rfl
      · split_ifs at hnext
        cases hnext
        exact h.drop (hid.trans_ne hallowed) rfl
    | completeProducerRecovery id =>
      cases hnext
      exact h.drop hallowed rfl
    | enqueueAutomaticMerge envelope =>
      obtain ⟨record, -, rfl⟩ := map_eq_some_iff.mp hnext
      exact h.merge rfl
    | retireEquivalentMerges event =>
      simp only [nextState] at hnext
      split_ifs at hnext
      cases hnext
      exact h.of_journal rfl
    | forgetPath path =>
      simp only [nextState] at hnext
      split_ifs at hnext
      cases hnext
      exact h.of_journal rfl
    | forgetBaseHash fileId =>
      simp only [nextState] at hnext
      split_ifs at hnext
      cases hnext
      exact h.of_journal rfl
    | forgetBaseContent fileId =>
      simp only [nextState] at hnext
      split_ifs at hnext
      cases hnext
      exact h.of_journal rfl
    | requeueQuarantined revisionId =>
      obtain ⟨stashed, -, rfl⟩ := map_eq_some_iff.mp hnext
      exact h.of_journal rfl
    | discardQuarantined revisionId =>
      simp only [nextState] at hnext
      split_ifs at hnext
      cases hnext
      exact h.of_journal rfl
    | _ =>
      cases hnext
      exact h.of_journal rfl

/-- The base contents a device without them keeps. -/
def KeepsBases (options : SyncStateOptions) (s : PersistedSyncState) : Prop :=
  options.keepBaseContents = true ∨ s.baseContents = ∅

theorem keepsBases_trimmed (s : PersistedSyncState) : KeepsBases options (trimmed options s) := by
  rw [trimmed_eq]
  unfold KeepsBases
  by_cases hkeep : options.keepBaseContents = true
  · exact .inl hkeep
  · exact .inr (if_neg hkeep)

theorem keepsBases_durably {allowed : Operation → Prop} :
    Durably options allowed (KeepsBases options) where
  reload := by
    intro s s' h hreload
    rcases h with hkeep | hempty
    · exact .inl hkeep
    · exact .inr (hreload.baseContents.elim (fun hsame => hsame.trans hempty) fun hnone => hnone)
  producer := fun s producer h _ => h
  next := fun _ _ _ s' _ _ _ => keepsBases_trimmed s'

/-- What the document keeps while the entry is open. -/
abbrev Kept (options : SyncStateOptions) (entry : ProducerRecovery) (merges : List Id)
    (s : PersistedSyncState) : Prop :=
  Open entry merges s ∧ KeepsBases options s

theorem kept_durably (options : SyncStateOptions) (entry : ProducerRecovery) (merges : List Id) :
    Durably options (leavesOpen entry.id) (Kept options entry merges) :=
  (open_durably merges).and keepsBases_durably

theorem Open.journal_ne (h : Open entry merges s) : s.producerRecovery ≠ none := by
  intro hnone
  obtain ⟨entry', hmem, -⟩ := h.present
  rw [PersistedSyncState.journal, hnone] at hmem
  cases hmem

theorem Open.trimmed (h : Open entry merges s) : Open entry merges (trimmed options s) := by
  have hopen : Durably options (leavesOpen entry.id) (Open entry merges) := open_durably merges
  exact hopen.reload _ _ h (reloaded_trimmed s)

/-- A refused swap returns `false`, and one in the way of a transaction throws. -/
theorem startProducerRecovery_idle {replacement : Option OutboxEnvelope}
    (hnone : nextState options now (.startProducerRecovery record replacement) s = none) :
    runCode (operationSection options now (.startProducerRecovery record replacement) s) world
      choices ≠ (.returned true m, w) := by
  intro h
  simp only [nextState, operationSection, startProducerRecovery, swapQueue] at hnone h
  by_cases hbusy : inTransaction s record
  · rw [if_pos hbusy] at h
    cases h
  · rw [if_neg hbusy] at h
    by_cases hrefused : swapRefused s record replacement
    · rw [if_pos hrefused] at h
      cases h
    · rw [if_neg (by simp [hbusy, hrefused])] at hnone
      cases hnone

theorem enqueueAutomaticMerge_idle
    (hnone : nextState options now (.enqueueAutomaticMerge envelope) s = none) :
    runCode (operationSection options now (.enqueueAutomaticMerge envelope) s) world
      choices ≠ (.returned value m, w) := by
  intro h
  simp only [nextState, operationSection, enqueueAutomaticMerge] at hnone h
  rw [map_eq_none_iff.mp hnone] at h
  cases h

/-- The rollback runs on the state there is, or throws. -/
theorem recoverProducerQueue_idle
    (hfind : (s.journal.find? fun r => r.id = record.id) = some found)
    (hkind : found.kind = .apply)
    (hnone : nextState options now (.recoverProducerQueue record.id) s = none) :
    runCode (operationSection options now (.recoverProducerQueue record.id) s) world
      choices ≠ (.returned value m, w) := by
  intro h
  simp only [nextState, operationSection, recoverProducerQueue, hfind, bind_some,
    hkind] at hnone h
  split_ifs at hnone with huncovered
  rw [if_pos huncovered] at h
  cases h

theorem eq_of_filter_length {α : Type} {p : α → Bool} {l : List α} {a b : α}
    (h : (l.filter p).length ≤ 1) (ha : a ∈ l) (hb : b ∈ l) (hpa : p a = true)
    (hpb : p b = true) : a = b := by
  have ha' := mem_filter.mpr ⟨ha, hpa⟩
  have hb' := mem_filter.mpr ⟨hb, hpb⟩
  rcases hfilter : l.filter p with _ | ⟨first, _ | ⟨second, rest⟩⟩
  · rw [hfilter] at ha'
    cases ha'
  · rw [hfilter] at ha' hb'
    rw [mem_singleton.mp ha', mem_singleton.mp hb']
  · rw [hfilter] at h
    simp at h

/-- The entry of an apply that was just started. -/
theorem open_journalled {s₀ : PersistedSyncState} (hfree : ¬ inTransaction s₀ record = true)
    (hjournal : start.journal = s₀.journal ++ [journalled s₀ record])
    (hfresh : (start.journal.filter fun r => r.id = record.id).length ≤ 1) :
    Open (journalled s₀ record) [] start := by
  obtain ⟨hfiles, hid⟩ := concerns_journalled s₀ record
  have hlast : journalled s₀ record ∈ start.journal := by
    rw [hjournal]
    exact mem_append_right _ (mem_singleton.mpr rfl)
  refine ⟨⟨_, hlast, ⟨rfl, rfl, rfl, rfl, rfl⟩, fun _ h => nomatch h⟩, ?_, ?_⟩
  · rw [hid]
    exact fun r hr r' hr' heq heq' =>
      eq_of_filter_length hfresh hr hr' (decide_eq_true heq) (decide_eq_true heq')
  · intro r hr hother id hmem
    rw [hjournal] at hr
    rw [hfiles]
    rcases mem_append.mp hr with hbefore | hnow
    · exact free_of_not_inTransaction hfree hbefore hmem
    · exact absurd (congrArg ProducerRecovery.id (mem_singleton.mp hnow)) hother

/-- A merge of one of the entry's files is listed in it. -/
theorem Open.merged (h : Open entry [] s) (hfile : envelope.fileId ∈ entry.fileIds)
    (hnext : nextState options now (.enqueueAutomaticMerge envelope) s = some s') :
    Open entry [envelope.revisionId] s' := by
  obtain ⟨found, hfound, rfl⟩ := map_eq_some_iff.mp hnext
  have hmem : found ∈ s.journal := mem_of_find?_eq_some hfound
  have hfinds : found.kind = .apply ∧ concerns found envelope.fileId = true :=
    of_decide_eq_true (List.find?_some hfound :)
  obtain ⟨entry', hentry, hgrown, -⟩ := h.present
  have hid : found.id = entry.id := by
    by_contra hother
    exact h.disjoint found hmem hother envelope.fileId (of_decide_eq_true hfinds.2) hfile
  have hsame : found = entry' := h.alone found hmem entry' hentry hid hgrown.id
  subst hsame
  have hmerge : Open entry [] (mergeQueued now s found envelope) := h.merge rfl
  obtain ⟨-, halone, hdisjoint⟩ := hmerge
  refine ⟨⟨{ found with
    discardRevisionIds := found.discardRevisionIds ++ [envelope.revisionId] }, ?_, ?_, ?_⟩,
    halone, hdisjoint⟩
  · exact mem_map.mpr ⟨found, hmem, if_pos rfl⟩
  · exact ⟨hgrown.id, hgrown.kind, hgrown.applyState, hgrown.fileIds, hgrown.state⟩
  · intro id hmem'
    rw [mem_singleton.mp hmem']
    exact mem_append_right _ (mem_singleton.mpr rfl)

/-- The entry of an open apply is found under its id. -/
theorem Open.find (h : Open entry merges s) :
    ∃ r, (s.journal.find? fun r => r.id = entry.id) = some r ∧ Grown entry r ∧
      ∀ id ∈ merges, id ∈ r.discardRevisionIds := by
  obtain ⟨entry', hmem, hgrown, hlisted⟩ := h.present
  cases hfind : s.journal.find? fun r => r.id = entry.id with
  | none => exact absurd (decide_eq_true hgrown.id) (List.find?_eq_none.mp hfind _ hmem)
  | some r =>
    have hid : r.id = entry.id := of_decide_eq_true (List.find?_some hfind :)
    have hsame := h.alone r (mem_of_find?_eq_some hfind) entry' hmem hid hgrown.id
    exact ⟨r, rfl, hsame ▸ hgrown, hsame ▸ hlisted⟩

end Havemind.ApplyJournal
