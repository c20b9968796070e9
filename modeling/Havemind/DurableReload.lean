import Havemind.DurableSections

/-!
What a load may change of a saved state: it brings payloads back and takes none of
the bookkeeping away. A property that allows for these changes and for those of the
operations holds after every run, with any failures and restarts in it.
-/
namespace Havemind.DurableReload

open JsObject RevisionSchema SyncRunner AwaitCode DurableState PersistedBlob DurableLoad List Option
  DurableOperations DurableSections

variable {options : SyncStateOptions} {now : Timestamp} {s s' : PersistedSyncState}
  {m : Memory} {w : Disk}

/-- An envelope without what a load and a save change of it. -/
def core (envelope : OutboxEnvelope) : OutboxEnvelope :=
  { envelope with payloadBase64 := [], payloadExternalized := none, backedUpAt := none }

/-- The second state is the first after a save and a load. -/
structure Reloaded (s s' : PersistedSyncState) : Prop where
  producer : s.producer ≠ none → s'.producer = s.producer
  journal : s'.producerRecovery = s.producerRecovery
  authored : s'.locallyAuthored = s.locallyAuthored
  pathOwners : s'.pathOwners = s.pathOwners
  baseHashes : s'.baseHashes = s.baseHashes
  baseContents : s'.baseContents = s.baseContents ∨ s'.baseContents = ∅
  outbox : (s'.outbox.map core).Sublist (s.outbox.map core)
  stash : ∀ key envelope', s'.quarantinedEnvelopes.get key = some envelope' →
    ∃ envelope, s.quarantinedEnvelopes.get key = some envelope ∧ core envelope' = core envelope
  quarantine : ∃ rows, s'.quarantine = s.quarantine ++ rows ∧
    ∀ row ∈ rows, ∃ envelope ∈ s.outbox, row = missingPayloadRow envelope

theorem Reloaded.refl (s : PersistedSyncState) : Reloaded s s where
  producer := fun _ => rfl
  journal := rfl
  authored := rfl
  pathOwners := rfl
  baseHashes := rfl
  baseContents := .inl rfl
  outbox := List.Sublist.refl _
  stash := fun _ envelope h => ⟨envelope, h, rfl⟩
  quarantine := ⟨[], (append_nil _).symm, fun _ h => nomatch h⟩

section
variable {found found' : Reconciled} {envelope : OutboxEnvelope} {key : Id}
  {queued : List OutboxEnvelope} {kept : OutboxEnvelope}

theorem reloaded_trimmed (s : PersistedSyncState) : Reloaded s (trimmed options s) := by
  unfold trimmed
  split_ifs
  · exact Reloaded.refl s
  · exact { Reloaded.refl s with baseContents := .inr rfl }

theorem core_strip (externalized : List Id) (envelope : OutboxEnvelope) :
    core (strip externalized envelope) = core envelope := by
  unfold strip
  split_ifs <;> rfl

theorem reloaded_toDiskForm (externalized : List Id) (s : PersistedSyncState) :
    Reloaded s (toDiskForm externalized s) := by
  unfold toDiskForm
  split_ifs
  · exact Reloaded.refl s
  · refine { Reloaded.refl s with outbox := ?_, stash := ?_ }
    · have hsame : core ∘ strip externalized = core := funext (core_strip externalized)
      rw [List.map_map, hsame]
    · intro key envelope' hget
      dsimp only at hget
      rw [get_mapValues] at hget
      obtain ⟨envelope, hstored, rfl⟩ := map_eq_some_iff.mp hget
      exact ⟨envelope, hstored, core_strip externalized envelope⟩

/-- What a reader makes of a queue that was saved. -/
theorem parseOutboxEntries_written (options : SyncStateOptions) (outbox : List OutboxEnvelope) :
    parseOutboxEntries options (outbox.map .readable) = (outbox.map parseEnvelope, []) := by
  unfold parseOutboxEntries
  rw [Prod.mk.injEq]
  constructor
  · rw [filterMap_map]
    exact congrFun (filterMap_eq_map (f := parseEnvelope)) outbox
  · rw [zipIdx_map, filterMap_map]
    exact filterMap_eq_nil_iff.mpr fun _ _ => rfl

theorem stash_parsed {envelope' : OutboxEnvelope}
    (h : (parseEnvelopeMap s.quarantinedEnvelopes).get key = some envelope') :
    ∃ envelope, s.quarantinedEnvelopes.get key = some envelope ∧
      core envelope' = core envelope := by
  unfold parseEnvelopeMap at h
  rw [get_mapValues] at h
  obtain ⟨envelope, hget, rfl⟩ := map_eq_some_iff.mp h
  exact ⟨envelope, hget, rfl⟩

theorem outbox_parsed (outbox : List OutboxEnvelope) :
    ((outbox.map parseEnvelope).map core).Sublist (outbox.map core) := by
  rw [List.map_map]
  exact List.Sublist.refl _

theorem producer_parsed (producer : ProducerState) :
    parseProducerField (.readable ⟨producer.mappings.map some, producer.heads⟩) =
      some producer := by
  simp [parseProducerField, filterMap_map]

theorem producer_written (hsome : s.producer ≠ none) :
    parseProducerField (written s).producer = s.producer := by
  cases hproducer : s.producer with
  | none => exact absurd hproducer hsome
  | some producer =>
    simp only [written, hproducer, map_some, Field.ofOption]
    exact producer_parsed producer

theorem toOption_ofOption {α : Type} (value : Option α) :
    (Field.ofOption value).toOption = value := by
  cases value <;> rfl

theorem reloaded_fields (s : PersistedSyncState) : Reloaded s
    { s with
      producer := parseProducerField (written s).producer
      producerRecovery := (written s).producerRecovery.toOption
      outbox := s.outbox.map parseEnvelope
      quarantine := s.quarantine ++ []
      quarantinedEnvelopes := parseEnvelopeMap s.quarantinedEnvelopes } where
  producer := producer_written
  journal := toOption_ofOption _
  authored := rfl
  pathOwners := rfl
  baseHashes := rfl
  baseContents := .inl rfl
  outbox := outbox_parsed s.outbox
  stash _ _ := stash_parsed
  quarantine := ⟨[], rfl, fun _ hnone => nomatch hnone⟩

theorem reloaded_strictParse (h : strictParse options (written s) = some s') : Reloaded s s' := by
  unfold strictParse at h
  split_ifs at h
  have hentries := parseOutboxEntries_written options s.outbox
  split at h
  · rename_i cursor outbox locallyAuthored deferred hcursor houtbox hauthored hdeferred
    obtain ⟨parsed, -, rfl⟩ := map_eq_some_iff.mp h
    cases houtbox
    cases hauthored
    rw [hentries]
    exact { reloaded_fields s with }
  · cases h

theorem reloaded_salvageState (h : salvageState options (written s) = some s') : Reloaded s s' := by
  have hentries := parseOutboxEntries_written options s.outbox
  unfold salvageState at h
  obtain ⟨outbox, houtbox, rfl⟩ := map_eq_some_iff.mp h
  cases houtbox
  rw [hentries]
  exact { reloaded_fields s with }

/-- What the loops of a reconciliation have found of a list of envelopes. -/
structure Found (queued : List OutboxEnvelope) (found : Reconciled) : Prop where
  outbox : (found.outbox.map core).Sublist (queued.map core)
  missing : ∀ row ∈ found.missing, ∃ envelope ∈ queued, row = missingPayloadRow envelope

theorem Found.keep (h : Found queued found) (hcore : core kept = core envelope)
    (houtbox : found'.outbox = found.outbox ++ [kept]) (hmissing : found'.missing = found.missing) :
    Found (queued ++ [envelope]) found' where
  outbox := by
    rw [houtbox, map_append, map_append]
    refine h.outbox.append ?_
    simp only [map_cons, map_nil, hcore]
    exact List.Sublist.refl _
  missing := by
    rw [hmissing]
    intro row hrow
    obtain ⟨envelope', hmem, heq⟩ := h.missing row hrow
    exact ⟨envelope', mem_append_left _ hmem, heq⟩

theorem Found.lose (h : Found queued found) (houtbox : found'.outbox = found.outbox)
    (hmissing : found'.missing = found.missing ++ [missingPayloadRow envelope]) :
    Found (queued ++ [envelope]) found' where
  outbox := by
    rw [houtbox, map_append]
    exact h.outbox.trans (sublist_append_left _ _)
  missing := by
    rw [hmissing]
    intro row hrow
    rcases mem_append.mp hrow with hbefore | hnow
    · obtain ⟨envelope', hmem, heq⟩ := h.missing row hbefore
      exact ⟨envelope', mem_append_left _ hmem, heq⟩
    · exact ⟨envelope, mem_append_right _ (mem_singleton.mpr rfl),
        mem_singleton.mp hnow⟩

/-- The stash found so far holds what was stashed. -/
def StashFound (entries : List (Id × OutboxEnvelope)) (found : Reconciled) : Prop :=
  ∀ key envelope', found.stash.get key = some envelope' →
    ∃ envelope, (key, envelope) ∈ entries ∧ core envelope' = core envelope

theorem StashFound.set {entries : List (Id × OutboxEnvelope)} (h : StashFound entries found)
    (hmem : (key, envelope) ∈ entries) (hcore : core kept = core envelope)
    (hstash : found'.stash = found.stash.set key kept) : StashFound entries found' := by
  intro other envelope' hget
  rw [hstash, get_set] at hget
  split_ifs at hget with hkey
  · cases hget
    exact ⟨envelope, hkey ▸ hmem, hcore⟩
  · exact h other envelope' hget

theorem reloaded_reconciled (hfound : Found s.outbox found)
    (hstash : StashFound s.quarantinedEnvelopes.entries found)
    (backups : Option (JsObject Id (List OutboxEnvelope))) :
    Reloaded s (reconciledState s backups found) where
  producer := fun _ => rfl
  journal := rfl
  authored := rfl
  pathOwners := rfl
  baseHashes := rfl
  baseContents := .inl rfl
  outbox := hfound.outbox
  stash := by
    intro key envelope' hget
    obtain ⟨envelope, hmem, hcore⟩ := hstash key envelope' hget
    exact ⟨envelope, get_eq_some.mpr hmem, hcore⟩
  quarantine := ⟨found.missing, rfl, hfound.missing⟩

end

/-- A property of the saved states that the operations and the loads keep. -/
structure Durably (options : SyncStateOptions) (allowed : Operation → Prop)
    (P : PersistedSyncState → Prop) : Prop where
  reload : ∀ s s', P s → Reloaded s s' → P s'
  producer : ∀ s producer, P s → s.producer = none → P { s with producer := some producer }
  next : ∀ now operation s s', P s → allowed operation →
    nextState options now operation s = some s' → P (trimmed options s')

variable {P P' : PersistedSyncState → Prop} {allowed : Operation → Prop}

theorem Durably.of_next (reload : ∀ s s', P s → Reloaded s s' → P s')
    (producer : ∀ s producer, P s → s.producer = none → P { s with producer := some producer })
    (next : ∀ now operation s s', P s → allowed operation →
      nextState options now operation s = some s' → P s') : Durably options allowed P where
  reload := reload
  producer := producer
  next := fun now operation s s' h hallowed hnext =>
    reload _ _ (next now operation s s' h hallowed hnext) (reloaded_trimmed _)

theorem Durably.and (h : Durably options allowed P) (h' : Durably options allowed P') :
    Durably options allowed fun s => P s ∧ P' s where
  reload := fun s s' hs hreload => ⟨h.reload s s' hs.1 hreload, h'.reload s s' hs.2 hreload⟩
  producer := fun s producer hs hnone => ⟨h.producer s producer hs.1 hnone,
    h'.producer s producer hs.2 hnone⟩
  next := fun now operation s s' hs hallowed hnext =>
    ⟨h.next now operation s s' hs.1 hallowed hnext, h'.next now operation s s' hs.2 hallowed hnext⟩

/-- What is on disk was saved of a state with the property, or nothing is there yet. -/
def RawHolds (P : PersistedSyncState → Prop) : Raw → Prop
  | .null => P emptyState
  | .scalar => False
  | .record sections => ∃ s, P s ∧ sections = written s

/-- The backup is read only when the primary carries no journal. -/
structure DiskHolds (P : PersistedSyncState → Prop) (w : Disk) : Prop where
  primary : RawHolds P w.primary
  backup : RawHolds P w.backup ∨ ∀ s, P s → s.producerRecovery ≠ none

structure MemoryHolds (P : PersistedSyncState → Prop) (loaded : Prop) (m : Memory) : Prop where
  cached : ∀ s, m.cache = some s → P s
  filled : loaded → m.cache ≠ none

def Holds (P : PersistedSyncState → Prop) (loaded : Prop) (m : Memory) (w : Disk) : Prop :=
  MemoryHolds P loaded m ∧ DiskHolds P w

/-- The code keeps the property, whatever fails in it and wherever it stops. -/
abbrev KeepsState (P : PersistedSyncState → Prop) (loaded : Prop) {α : Type} (V : α → Prop)
    (code : Durable α) : Prop :=
  Keeps (S := syncState) respond (DiskHolds P) (Holds P loaded) V code

variable {α : Type} {loaded : Prop}

theorem DiskHolds.save (h : DiskHolds P w) (hs : P s) : DiskHolds P
    { w with primary := .record (written s), backup := w.primary } :=
  ⟨⟨s, hs, rfl⟩, .inl h.primary⟩

theorem keeps_call {c : PersistCall} {V : c.Answer → Prop}
    (hsame : ∀ w, SameRecord w (respond c w).2)
    (hv : ∀ w, DiskHolds P w → V (respond c w).1) :
    KeepsState P loaded V (Code.call (S := syncState) c) := by
  refine Keeps.call (fun _ _ hgood => hgood.2) fun m w hgood => ⟨⟨hgood.1, ?_⟩, hv w hgood.2⟩
  exact ⟨(hsame w).primary ▸ hgood.2.primary, (hsame w).backup ▸ hgood.2.backup⟩

theorem keeps_readMemory : KeepsState P loaded (MemoryHolds P loaded) readMemory :=
  Keeps.memory fun _ _ hgood => hgood.1

theorem keeps_setCache (hs : P s) : KeepsState P loaded (fun _ => True) (setCache s) := by
  refine keeps_readMemory.bind fun memory _ => Keeps.setMemory (fun m w hgood => ?_) trivial
  refine ⟨⟨fun other hother => ?_, fun _ hnone => nomatch hnone⟩, hgood.2⟩
  cases hother
  exact hs

theorem keeps_memory_same {update : Memory → Memory}
    (hsame : ∀ memory, (update memory).cache = memory.cache) :
    KeepsState P loaded (fun _ => True)
      (readMemory >>= fun memory => Code.setMemory (S := syncState) (update memory)) :=
  keeps_readMemory.bind fun memory hmemory => Keeps.setMemory
    (fun _ _ hgood => ⟨⟨fun s hs => hmemory.cached s ((hsame memory).symm.trans hs),
      fun hloaded => (hsame memory).symm ▸ hmemory.filled hloaded⟩, hgood.2⟩) trivial

theorem keeps_addExternalized (id : Id) : KeepsState P loaded (fun _ => True) (addExternalized id) :=
  keeps_memory_same fun _ => rfl

theorem keeps_requireRecovery : KeepsState P loaded (fun _ => True) requireRecovery :=
  keeps_memory_same fun _ => rfl

theorem keeps_save (hp : Durably options allowed P) (hs : P s) :
    KeepsState P loaded (fun _ => True) (save s) := by
  refine keeps_readMemory.bind fun memory _ => Keeps.call (fun _ _ hgood => hgood.2) ?_
  intro m w hgood
  exact ⟨⟨hgood.1, hgood.2.save (hp.reload _ _ hs (reloaded_toDiskForm _ s))⟩, trivial⟩

theorem keeps_safeGetPayload (id : Id) :
    KeepsState P loaded (fun _ => True) (safeGetPayload options id) := by
  unfold safeGetPayload
  split_ifs
  · exact Keeps.pure trivial
  · refine Keeps.bind (V := fun _ => True) (Keeps.attempt (fun _ _ hgood => hgood.2)
      (fun _ _ hgood => ⟨hgood, trivial⟩) fun _ => trivial) fun answer _ => ?_
    cases answer <;> exact Keeps.pure trivial

theorem keeps_safePutPayload (id : Id) (payload : JsText.JsString) :
    KeepsState P loaded (fun _ => True) (safePutPayload options id payload) := by
  unfold safePutPayload
  split_ifs
  · exact Keeps.pure trivial
  · refine Keeps.bind (V := fun _ => True) (Keeps.attempt (fun _ _ hgood => hgood.2)
      (fun _ w hgood => ⟨⟨hgood.1, hgood.2.primary, hgood.2.backup⟩, trivial⟩) fun _ => trivial)
      fun answer _ => ?_
    cases answer <;> exact Keeps.pure trivial

theorem keeps_migratePayload (envelope : OutboxEnvelope) :
    KeepsState P loaded (fun _ => True) (migratePayload options envelope) := by
  refine (keeps_safePutPayload _ _).bind fun stored _ => ?_
  cases stored with
  | false => exact Keeps.pure trivial
  | true => exact (keeps_addExternalized _).bind fun _ _ => Keeps.pure trivial

theorem keeps_reconcileOutbox {queued : List OutboxEnvelope} {found : Reconciled}
    {stash : JsObject Id OutboxEnvelope} (hfound : Found queued found)
    (hstash : found.stash = stash) (rest : List OutboxEnvelope) :
    KeepsState P loaded (fun after => Found (queued ++ rest) after ∧ after.stash = stash)
      (reconcileOutbox options found rest) := by
  induction rest generalizing queued found with
  | nil => exact Keeps.pure ⟨by rwa [append_nil], hstash⟩
  | cons envelope rest ih =>
    have hsplit : queued ++ envelope :: rest = (queued ++ [envelope]) ++ rest := by simp
    rw [hsplit]
    unfold reconcileOutbox
    split_ifs
    · refine (keeps_safeGetPayload _).bind fun payload _ => ?_
      cases payload with
      | some payload =>
        have hcore : core { envelope with payloadBase64 := payload } = core envelope := rfl
        exact (keeps_addExternalized _).bind fun _ _ => ih (hfound.keep hcore rfl rfl) hstash
      | none => exact ih (hfound.lose rfl rfl) hstash
    · exact (keeps_migratePayload _).bind fun _ _ => ih (hfound.keep rfl rfl rfl) hstash

theorem keeps_reconcileStash {entries : List (Id × OutboxEnvelope)} {queued : List OutboxEnvelope}
    {found : Reconciled} (hfound : Found queued found) (hstash : StashFound entries found)
    (rest : List (Id × OutboxEnvelope)) (hrest : ∀ entry ∈ rest, entry ∈ entries) :
    KeepsState P loaded (fun after => Found queued after ∧ StashFound entries after)
      (reconcileStash options found rest) := by
  induction rest generalizing found with
  | nil => exact Keeps.pure ⟨hfound, hstash⟩
  | cons entry rest ih =>
    obtain ⟨key, envelope⟩ := entry
    have hmem := hrest _ mem_cons_self
    have hlater : ∀ entry ∈ rest, entry ∈ entries := fun entry hentry =>
      hrest entry (mem_cons_of_mem _ hentry)
    unfold reconcileStash
    split_ifs
    · refine (keeps_safeGetPayload _).bind fun payload _ => ?_
      cases payload with
      | some payload =>
        have hcore : core { envelope with payloadBase64 := payload } = core envelope := rfl
        exact (keeps_addExternalized _).bind fun _ _ =>
          ih ⟨hfound.outbox, hfound.missing⟩ (hstash.set hmem hcore rfl) hlater
      | none => exact ih ⟨hfound.outbox, hfound.missing⟩ hstash hlater
    · exact (keeps_migratePayload _).bind fun _ _ =>
        ih ⟨hfound.outbox, hfound.missing⟩ (hstash.set hmem rfl rfl) hlater

theorem keeps_deleteUnreferenced (live revisionIds : List Id) :
    KeepsState P loaded (fun _ => True) (deleteUnreferenced live revisionIds) := by
  induction revisionIds with
  | nil => exact Keeps.pure trivial
  | cons revisionId rest ih =>
    unfold deleteUnreferenced
    split_ifs
    · exact ih
    · refine Keeps.bind (V := fun _ => True) (Keeps.attempt (fun _ _ hgood => hgood.2)
        (fun _ w hgood => ⟨⟨hgood.1, hgood.2.primary, hgood.2.backup⟩, trivial⟩) fun _ => trivial)
        fun answer _ => ?_
      cases answer with
      | ok _ => exact ih
      | error _ => exact Keeps.pure trivial

theorem keeps_sweepPayloads (s : PersistedSyncState) :
    KeepsState P loaded (fun _ => True) (sweepPayloads options s) := by
  unfold sweepPayloads
  split_ifs
  · exact Keeps.pure trivial
  · refine Keeps.bind (V := fun _ => True) (Keeps.attempt (fun _ _ hgood => hgood.2)
      (fun _ _ hgood => ⟨hgood, trivial⟩) fun _ => trivial) fun answer _ => ?_
    cases answer with
    | ok revisionIds => exact keeps_deleteUnreferenced _ revisionIds
    | error _ => exact Keeps.pure trivial

theorem keeps_reconcilePayloads (hp : Durably options allowed P) (sweep : Bool) :
    KeepsState P loaded (fun _ => True) (reconcilePayloads options now sweep) := by
  refine keeps_readMemory.bind fun memory hmemory => ?_
  cases hcache : memory.cache with
  | none => exact Keeps.pure trivial
  | some s =>
    have hs : P s := hmemory.cached s hcache
    have hnone : Found [] {} := ⟨List.Sublist.refl _, fun _ h => nomatch h⟩
    refine (keeps_reconcileOutbox hnone rfl s.outbox).bind fun queued hqueued => ?_
    have hempty : StashFound s.quarantinedEnvelopes.entries queued := by
      intro key envelope' hget
      rw [hqueued.2] at hget
      cases hget
    refine (keeps_reconcileStash hqueued.1 hempty _ fun _ h => h).bind fun found hfound => ?_
    have hnext : P (reconciledState s (withoutExpiredBackups s.reconciliationBackups now) found) :=
      hp.reload _ _ hs (reloaded_reconciled hfound.1 hfound.2 _)
    have hlast : KeepsState P loaded (fun _ => True) (do
        if (found.cacheChanged || found.persistNeeded ||
            withoutExpiredBackups s.reconciliationBackups now ≠ s.reconciliationBackups) = false then
          return ()
        else do
          setCache (reconciledState s (withoutExpiredBackups s.reconciliationBackups now) found)
          if found.persistNeeded ||
              withoutExpiredBackups s.reconciliationBackups now ≠ s.reconciliationBackups then
            save (reconciledState s (withoutExpiredBackups s.reconciliationBackups now) found) :
        Durable Unit) := by
      split_ifs
      · exact Keeps.pure trivial
      · exact (keeps_setCache hnext).bind fun _ _ => keeps_save hp hnext
      · exact (keeps_setCache hnext).bind fun _ _ => Keeps.pure trivial
    cases sweep with
    | false => exact hlast
    | true => exact (keeps_sweepPayloads _).bind fun _ _ => hlast

theorem keeps_preserveCorrupt (raw : Raw) :
    KeepsState P loaded (fun _ => True) (preserveCorrupt raw) := by
  refine Keeps.call (fun _ _ hgood => hgood.2) fun m w hgood => ⟨⟨hgood.1, ?_⟩, trivial⟩
  exact ⟨hgood.2.primary, hgood.2.backup⟩

theorem keeps_settleProducer (hp : Durably options allowed P) (raw : Raw) :
    KeepsState P loaded (fun _ => True) (settleProducer options raw) := by
  have hpreserve : KeepsState P loaded (fun _ => True) (preserveProducer (storedProducer raw)
      (parseProducerStateResult (storedProducer raw))) := by
    unfold preserveProducer
    split
    · exact keeps_preserveCorrupt _
    · exact keeps_preserveCorrupt _
    · exact Keeps.pure trivial
  refine hpreserve.bind fun _ _ => keeps_readMemory.bind fun memory hmemory => ?_
  cases hcache : memory.cache with
  | none => exact Keeps.pure trivial
  | some s =>
    have hs : P s := hmemory.cached s hcache
    dsimp only
    split_ifs with hproducer
    · exact Keeps.pure trivial
    · have hmissing : KeepsState P loaded (fun _ => True)
          (missingProducer options (parseProducerStateResult (storedProducer raw))) := by
        unfold missingProducer
        split
        · exact Keeps.pure trivial
        · split_ifs
          · exact Keeps.pure trivial
          · exact (keeps_call (c := .loadLegacyProducer) (V := fun _ => True)
              (fun w => SameRecord.refl w) fun _ _ => trivial).bind fun _ _ => Keeps.pure trivial
      refine hmissing.bind fun producer _ => ?_
      cases producer with
      | none => exact Keeps.pure trivial
      | some producer =>
        have hnext := hp.producer s producer hs (not_not.mp hproducer)
        exact (keeps_save hp hnext).bind fun _ _ => keeps_setCache hnext

/-- The property holds at every end, and the cache is filled if the code returned. -/
def Fills (P : PersistedSyncState → Prop) (result : Except SyncStateError α) (m : Memory)
    (w : Disk) : Prop :=
  Holds P False m w ∧ ∀ value, result = .ok value → Holds P True m w

theorem Holds.weaken (h : Holds P True m w) : Holds P False m w :=
  ⟨⟨h.1.cached, False.elim⟩, h.2⟩

/-- Filling the cache, and what comes after. -/
theorem fills_setCache {f : Unit → Durable α} (hs : P s)
    (hf : KeepsState P True (fun _ => True) (f ())) (hdisk : DiskHolds P w) :
    Visits (S := syncState) respond (DiskHolds P) (Fills P) (setCache s >>= f) m w := by
  have hfilled : Holds P True { m with cache := some s } w := by
    refine ⟨⟨fun other hother => ?_, fun _ hnone => nomatch hnone⟩, hdisk⟩
    cases hother
    exact hs
  exact (hf _ w hfilled).mono (fun _ hstop => hstop) fun _ _ _ hend =>
    ⟨hend.1.weaken, fun _ _ => hend.1⟩

theorem fills_error (hcold : m.cache = none) (hdisk : DiskHolds P w) (error : SyncStateError) :
    Fills P (.error error : Except SyncStateError α) m w :=
  ⟨⟨⟨fun _ hs => (nomatch hcold.symm.trans hs), False.elim⟩, hdisk⟩, nofun⟩

theorem DiskHolds.preserve (hdisk : DiskHolds P w) (raw : Raw) :
    DiskHolds P { w with preserved := w.preserved ++ [raw] } := ⟨hdisk.primary, hdisk.backup⟩

theorem recoverCorrupt_fills (hp : Durably options allowed P) (hcold : m.cache = none)
    (hdisk : DiskHolds P w) (hfree : ¬ ∀ s, P s → s.producerRecovery ≠ none) {raw : Raw}
    {salvage : PersistedSyncState} (hsalvage : P salvage) (atRisk : Bool) :
    Visits (S := syncState) respond (DiskHolds P) (Fills P)
      (recoverCorrupt options raw (some salvage) atRisk) m w := by
  have hbackup : RawHolds P w.backup := hdisk.backup.resolve_right hfree
  unfold recoverCorrupt
  refine visits_call.mpr ⟨hdisk, ?_, fun error => fills_error hcold hdisk error⟩
  refine visits_memory.mpr ?_
  rw [if_neg (not_not.mpr hcold)]
  have hsalvaged : Visits (S := syncState) respond (DiskHolds P) (Fills P) (do
      preserveCorrupt raw
      if (← readMemory).cache ≠ none then return false
      setCache (trimmed options salvage)
      if (some salvage : Option PersistedSyncState) = none ∧ atRisk then requireRecovery
      save (trimmed options salvage)
      return false) m w := by
    refine visits_call.mpr ⟨hdisk, ?_, fun error => fills_error hcold hdisk error⟩
    refine visits_memory.mpr ?_
    rw [if_neg (not_not.mpr hcold)]
    have htrimmed : P (trimmed options salvage) := hp.reload _ _ hsalvage (reloaded_trimmed _)
    refine fills_setCache htrimmed ?_ (hdisk.preserve raw)
    rw [if_neg (by simp)]
    exact (keeps_save hp htrimmed).bind fun _ _ => Keeps.pure trivial
  rw [show (respond PersistCall.loadBackup w).1 = w.backup from rfl]
  cases hparse : parsePersistedState options w.backup with
  | absent => exact hsalvaged
  | corrupt _ _ => exact hsalvaged
  | ok state =>
    have hstate : P state := by
      cases hraw : w.backup with
      | null =>
        rw [hraw] at hparse
        cases hparse
      | scalar =>
        rw [hraw] at hparse
        cases hparse
      | record sections =>
        rw [hraw] at hbackup hparse
        obtain ⟨saved, hsaved, rfl⟩ := hbackup
        simp only [parsePersistedState] at hparse
        split at hparse
        · rename_i parsed hstrict
          cases hparse
          exact hp.reload _ _ hsaved (reloaded_strictParse hstrict)
        · cases hparse
    refine visits_call.mpr ⟨hdisk, ?_, fun error => fills_error hcold hdisk error⟩
    refine visits_memory.mpr ?_
    rw [if_pos hcold]
    have htrimmed : P (trimmed options state) := hp.reload _ _ hstate (reloaded_trimmed _)
    refine fills_setCache htrimmed ?_ (hdisk.preserve raw)
    split_ifs
    · exact keeps_requireRecovery.bind fun _ _ => Keeps.pure trivial
    · exact Keeps.pure trivial

theorem hydrate_fills (hp : Durably options allowed P) (hcold : m.cache = none)
    (hdisk : DiskHolds P w) {raw : Raw} (hraw : RawHolds P raw) :
    Visits (S := syncState) respond (DiskHolds P) (Fills P) (hydrate options raw) m w := by
  unfold hydrate
  refine visits_memory.mpr ?_
  rw [if_neg (not_not.mpr hcold)]
  cases raw with
  | null =>
    exact fills_setCache (hp.reload _ _ hraw (reloaded_trimmed _)) (Keeps.pure trivial) hdisk
  | scalar => exact hraw.elim
  | record sections =>
    obtain ⟨saved, hsaved, rfl⟩ := hraw
    have hrefused (error : SyncStateError) : Visits (S := syncState) respond (DiskHolds P)
        (Fills P) (do
          preserveCorrupt (.record (written saved))
          Code.throw (S := syncState) (α := Bool) error) m w :=
      visits_call.mpr ⟨hdisk, fills_error hcold (hdisk.preserve _) error,
        fun error => fills_error hcold hdisk error⟩
    dsimp only
    by_cases hvalid : validRecoveryFields (written saved) = false
    · rw [if_pos hvalid]
      exact hrefused _
    · rw [if_neg hvalid]
      cases hstrict : strictParse options (written saved) with
      | some state =>
        refine fills_setCache ?_ (Keeps.pure trivial) hdisk
        exact hp.reload _ _ (hp.reload _ _ hsaved (reloaded_strictParse hstrict))
          (reloaded_trimmed _)
      | none =>
        dsimp only
        by_cases hcarries : carriesRecovery (written saved)
        · rw [if_pos hcarries]
          exact hrefused _
        · rw [if_neg hcarries]
          have hfree : ¬ ∀ s, P s → s.producerRecovery ≠ none := by
            intro hall
            apply hcarries
            unfold carriesRecovery
            refine decide_eq_true (.inl fun habsent => ?_)
            cases hjournal : saved.producerRecovery with
            | none => exact hall saved hsaved hjournal
            | some records =>
              rw [show (written saved).producerRecovery = Field.ofOption (some records) from
                congrArg Field.ofOption hjournal] at habsent
              cases habsent
          exact recoverCorrupt_fills hp hcold hdisk hfree
            (hp.reload _ _ hsaved (reloaded_salvageState rfl)) _

theorem load_fills (hp : Durably options allowed P) (hcold : m.cache = none)
    (hdisk : DiskHolds P w) :
    Visits (S := syncState) respond (DiskHolds P) (Fills P) (load options now) m w := by
  refine visits_call.mpr ⟨hdisk, ?_, fun error => fills_error hcold hdisk error⟩
  refine visits_bind.mpr ((hydrate_fills hp hcold hdisk hdisk.primary).mono
    (fun _ hstop => hstop) fun result m' w' hend => ?_)
  cases result with
  | error error => exact ⟨hend.1, nofun⟩
  | ok clean =>
    have hsettled : KeepsState P True (fun _ => True) (do
        settleProducer options w.primary
        reconcilePayloads options now clean) :=
      (keeps_settleProducer hp _).bind fun _ _ => keeps_reconcilePayloads hp clean
    exact (hsettled m' w' (hend.2 clean rfl)).mono (fun _ hstop => hstop)
      fun _ _ _ hlast => ⟨hlast.1.weaken, fun _ _ => hlast.1⟩

/-- The loaded state has the property. -/
theorem ensureLoaded_keeps (hp : Durably options allowed P) :
    KeepsState P False P (ensureLoaded options now) := by
  intro m w hgood
  unfold ensureLoaded
  refine visits_memory.mpr ?_
  cases hcache : m.cache with
  | some state =>
    refine ⟨hgood, fun value hvalue => ?_⟩
    cases hvalue
    exact hgood.1.cached _ hcache
  | none =>
    refine visits_bind.mpr ((load_fills hp hcache hgood.2).mono (fun _ hstop => hstop)
      fun result m' w' hend => ?_)
    cases result with
    | error error => exact ⟨hend.1, nofun⟩
    | ok _ =>
      refine visits_memory.mpr ?_
      cases hloaded : m'.cache with
      | none => exact absurd hloaded ((hend.2 _ rfl).1.filled trivial)
      | some state =>
        refine ⟨hend.1, fun value hvalue => ?_⟩
        cases hvalue
        exact hend.1.1.cached _ hloaded

end Havemind.DurableReload
