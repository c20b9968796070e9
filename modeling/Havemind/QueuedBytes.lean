import Havemind.DurableRuns
import Havemind.QueuedPayloads

/-!
What is pushed of the queue. A load that goes through puts back the bytes of every
revision it leaves in the queue; a load that throws after the document is in the
cache leaves revisions there without theirs, and no later call loads again.
-/
namespace Havemind.QueuedBytes

open JsObject JsText RevisionSchema SyncRunner AwaitCode Runs DurableState PersistedBlob List Option
  DurableLoad DurableOperations DurableSections DurableReload DurableRuns QueuedPayloads

structure TransportEnvelope where
  header : ProtectedRevisionHeader
  idempotencyKey : JsString
  payloadBase64 : JsString
  deriving DecidableEq

def peekEnvelope (memory : Memory) (revisionId : Id) : Option TransportEnvelope :=
  (memory.cache.bind fun state => queuedEnvelope state revisionId).map fun found =>
    { header := found.header
      idempotencyKey := found.idempotencyKey
      payloadBase64 := found.payloadBase64 }

def getEnvelope (options : SyncStateOptions) (now : Timestamp) (revisionId : Id) :
    Durable (Option TransportEnvelope) := do
  let _ ← ensureLoaded options now
  return peekEnvelope (← readMemory) revisionId

variable {options : SyncStateOptions} {now : Timestamp} {s : PersistedSyncState} {m : Memory}
  {w : Disk} {bytes : Id → JsString}

section
variable (bytes)

/-- The calls whose failure is passed over. -/
def passedOver : PersistCall → Bool
  | .putPayload _ _ | .getPayload _ | .deletePayload _ | .listPayloadIds => true
  | _ => false

/-- A call may throw while the cache holds no envelope that is without its bytes. -/
def MayThrow (m : Memory) (call : PersistCall) : Prop :=
  passedOver call = true ∨ ∀ s, m.cache = some s → Every (Exact bytes) s

structure Guarded (C : Option PersistedSyncState → Prop) (m : Memory) (w : Disk) : Prop where
  cache : C m.cache
  disk : DiskCarried bytes w

def Cached (P : OutboxEnvelope → Prop) (cache : Option PersistedSyncState) : Prop :=
  ∀ s, cache = some s → Every P s

abbrev KeepsGuarded (may : Memory → PersistCall → Prop) (C : Option PersistedSyncState → Prop)
    {α : Type} (R : Except SyncStateError α → Prop) (code : Durable α) : Prop :=
  KeepsWhen (S := syncState) respond may (Guarded bytes C) R code

/-- The code returns a value that is as `V` says. -/
abbrev Settles (may : Memory → PersistCall → Prop) (C : Option PersistedSyncState → Prop)
    {α : Type} (V : α → Prop) (code : Durable α) : Prop :=
  KeepsGuarded bytes may C (Returns (S := syncState) V) code

end

section
variable {may : Memory → PersistCall → Prop} {C : Option PersistedSyncState → Prop}

theorem settles_readMemory : Settles bytes may C (fun memory => C memory.cache) readMemory :=
  KeepsWhen.memory fun _ _ hgood => hgood.cache

theorem settles_setCache (hs : C (some s)) : Settles bytes may C (fun _ => True) (setCache s) :=
  settles_readMemory.andThen fun _ _ => KeepsWhen.setMemory fun _ _ hgood => ⟨hs, hgood.disk⟩

theorem settles_memory_same {update : Memory → Memory}
    (hsame : ∀ memory, (update memory).cache = memory.cache) :
    Settles bytes may C (fun _ => True)
      (readMemory >>= fun memory => Code.setMemory (S := syncState) (update memory)) := by
  refine settles_readMemory.andThen fun memory hmemory => KeepsWhen.setMemory ?_
  exact fun _ _ hgood => ⟨(hsame memory).symm ▸ hmemory, hgood.disk⟩

theorem settles_addExternalized (id : Id) :
    Settles bytes may C (fun _ => True) (addExternalized id) := settles_memory_same fun _ => rfl

theorem settles_deleteExternalized (id : Id) :
    Settles bytes may C (fun _ => True) (deleteExternalized id) := settles_memory_same fun _ => rfl

theorem diskCarried_saved (h : DiskCarried bytes w) {externalized : List Id}
    (hs : Every (Carried bytes) s) :
    DiskCarried bytes
      { w with primary := .record (written (toDiskForm externalized s)), backup := w.primary } :=
  ⟨rawCarried_written (every_toDiskForm hs), h.primary, h.payloads⟩

theorem keeps_save (hs : Every (Carried bytes) s) :
    KeepsGuarded bytes may C (fun _ => True) (save s) := by
  refine settles_readMemory.andThen fun memory _ => KeepsWhen.call ?_
  exact fun _ _ hgood => ⟨hgood.cache, diskCarried_saved hgood.disk hs⟩

theorem diskCarried_preserve (h : DiskCarried bytes w) (raw : Raw) :
    DiskCarried bytes { w with preserved := w.preserved ++ [raw] } :=
  ⟨h.primary, h.backup, h.payloads⟩

/-- What the payload store answers for a revision are its bytes. -/
def AnswersBytes (bytes : Id → JsString) (id : Id)
    (reply : Except SyncStateError (Option JsString)) : Prop :=
  ∀ text, reply = .ok (some text) → text = bytes id

theorem settles_safeGetPayload (id : Id) :
    Settles bytes may C (fun payload => ∀ text, payload = some text → text = bytes id)
      (safeGetPayload options id) := by
  unfold safeGetPayload
  split_ifs
  · exact KeepsWhen.pure fun _ hnone => nomatch hnone
  · have hattempt : Settles bytes may C (AnswersBytes bytes id)
        (Code.attempt (S := syncState) (.getPayload id)) := by
      refine KeepsWhen.attempt (fun _ w hgood => ⟨hgood, fun text htext => ?_⟩)
        fun _ text herror => nomatch herror
      exact hgood.disk.payloads id text (Except.ok.inj htext)
    refine hattempt.andThen fun reply hreply => ?_
    cases reply with
    | ok payload => exact KeepsWhen.pure fun text htext => hreply text (congrArg Except.ok htext)
    | error _ => exact KeepsWhen.pure fun _ hnone => nomatch hnone

theorem diskCarried_put (h : DiskCarried bytes w) (id : Id) :
    DiskCarried bytes { w with payloads := w.payloads.set id (bytes id) } := by
  refine ⟨h.primary, h.backup, fun other payload hget => ?_⟩
  replace hget : (w.payloads.set id (bytes id)).get other = some payload := hget
  rw [get_set] at hget
  split_ifs at hget with hsame
  · cases hget
    rw [hsame]
  · exact h.payloads other payload hget

theorem diskCarried_delete (h : DiskCarried bytes w) (id : Id) :
    DiskCarried bytes { w with payloads := w.payloads.erase id } := by
  refine ⟨h.primary, h.backup, fun other payload hget => ?_⟩
  replace hget : (w.payloads.erase id).get other = some payload := hget
  rw [get_erase] at hget
  split_ifs at hget
  exact h.payloads other payload hget

theorem settles_safePutPayload {id : Id} {payload : JsString} (h : payload = bytes id) :
    Settles bytes may C (fun _ => True) (safePutPayload options id payload) := by
  subst h
  unfold safePutPayload
  split_ifs
  · exact KeepsWhen.pure trivial
  · have hattempt : Settles bytes may C (fun _ => True)
        (Code.attempt (S := syncState) (.putPayload id (bytes id))) :=
      KeepsWhen.attempt (fun _ _ hgood =>
        ⟨⟨hgood.cache, diskCarried_put hgood.disk id⟩, trivial⟩) fun _ => trivial
    refine hattempt.andThen fun reply _ => ?_
    cases reply <;> exact KeepsWhen.pure trivial

theorem settles_deletePayload (id : Id) :
    Settles bytes may C (fun _ => True) (Code.attempt (S := syncState) (.deletePayload id)) :=
  KeepsWhen.attempt (fun _ _ hgood =>
    ⟨⟨hgood.cache, diskCarried_delete hgood.disk id⟩, trivial⟩) fun _ => trivial

end

section
variable {may : Memory → PersistCall → Prop} {C : Option PersistedSyncState → Prop}

/-- What the loops of a reconciliation leave of the envelopes they have seen. -/
structure Rejoined (bytes : Id → JsString) (seen : List OutboxEnvelope) (found : Reconciled) :
    Prop where
  outbox : ∀ envelope ∈ found.outbox, Exact bytes envelope
  stash : ∀ key envelope, found.stash.get key = some envelope → Exact bytes envelope
  unchanged : found.cacheChanged = false → found.persistNeeded = false →
    ∀ envelope ∈ seen, envelope.payloadExternalized ≠ some true

theorem rejoined_empty : Rejoined bytes [] {} :=
  ⟨fun _ hmem => (nomatch hmem), fun _ _ hget => (nomatch hget), fun _ _ _ hmem => nomatch hmem⟩

theorem exact_of_inside {envelope : OutboxEnvelope} (h : Carried bytes envelope)
    (hinside : envelope.payloadExternalized ≠ some true) : Exact bytes envelope :=
  h.resolve_right hinside

variable {seen : List OutboxEnvelope} {found found' : Reconciled} {envelope : OutboxEnvelope}

theorem unchanged_append (h : Rejoined bytes seen found)
    (hcache : found'.cacheChanged = found.cacheChanged)
    (hpersist : found'.persistNeeded = false → found.persistNeeded = false)
    (hinside : envelope.payloadExternalized ≠ some true) :
    found'.cacheChanged = false → found'.persistNeeded = false →
      ∀ other ∈ seen ++ [envelope], other.payloadExternalized ≠ some true := by
  intro hsame hkept other hmem
  rcases mem_append.mp hmem with hold | hnew
  · exact h.unchanged (hcache ▸ hsame) (hpersist hkept) other hold
  · rw [mem_singleton.mp hnew]
    exact hinside

theorem settles_migratePayload (h : Exact bytes envelope) :
    Settles bytes may C (fun _ => True) (migratePayload options envelope) := by
  refine (settles_safePutPayload h).andThen fun stored _ => ?_
  cases stored with
  | false => exact KeepsWhen.pure trivial
  | true => exact (settles_addExternalized _).andThen fun _ _ => KeepsWhen.pure trivial

theorem settles_reconcileOutbox (h : Rejoined bytes seen found) (rest : List OutboxEnvelope)
    (hrest : ∀ envelope ∈ rest, Carried bytes envelope) :
    Settles bytes may C (Rejoined bytes (seen ++ rest)) (reconcileOutbox options found rest) := by
  induction rest generalizing seen found with
  | nil => exact KeepsWhen.pure (by rwa [append_nil])
  | cons envelope rest ih =>
    have hsplit : seen ++ envelope :: rest = (seen ++ [envelope]) ++ rest := by simp
    obtain ⟨hcarried, hlater⟩ := forall_mem_cons.mp hrest
    rw [hsplit]
    unfold reconcileOutbox
    split_ifs with houtside
    · refine (settles_safeGetPayload _).andThen fun payload hpayload => ?_
      cases payload with
      | some payload =>
        have hexact : Exact bytes { envelope with payloadBase64 := payload } := hpayload payload rfl
        refine (settles_addExternalized _).andThen fun _ _ => ih ⟨?_, h.stash, ?_⟩ hlater
        · exact outbox_concat h.outbox hexact
        · intro hsame
          cases hsame
      | none =>
        refine ih ⟨h.outbox, h.stash, ?_⟩ hlater
        intro hsame
        cases hsame
    · have hexact := exact_of_inside hcarried houtside
      refine (settles_migratePayload hexact).andThen fun migrated _ => ih ⟨?_, h.stash, ?_⟩ hlater
      · exact outbox_concat h.outbox hexact
      · exact unchanged_append h rfl (fun hkept => (Bool.or_eq_false_iff.mp hkept).1) houtside

theorem settles_reconcileStash (h : Rejoined bytes seen found) (rest : List (Id × OutboxEnvelope))
    (hrest : ∀ entry ∈ rest, Carried bytes entry.2) :
    Settles bytes may C (Rejoined bytes (seen ++ rest.map Prod.snd))
      (reconcileStash options found rest) := by
  induction rest generalizing seen found with
  | nil => exact KeepsWhen.pure (by rwa [map_nil, append_nil])
  | cons entry rest ih =>
    obtain ⟨key, envelope⟩ := entry
    have hsplit : seen ++ ((key, envelope) :: rest).map Prod.snd =
        (seen ++ [envelope]) ++ rest.map Prod.snd := by simp
    obtain ⟨hcarried, hlater⟩ := forall_mem_cons.mp hrest
    rw [hsplit]
    unfold reconcileStash
    split_ifs with houtside
    · refine (settles_safeGetPayload _).andThen fun payload hpayload => ?_
      cases payload with
      | some payload =>
        have hexact : Exact bytes { envelope with payloadBase64 := payload } := hpayload payload rfl
        refine (settles_addExternalized _).andThen fun _ _ => ih ⟨h.outbox, ?_, ?_⟩ hlater
        · exact stash_set h.stash hexact
        · intro hsame
          cases hsame
      | none =>
        refine ih ⟨h.outbox, h.stash, ?_⟩ hlater
        intro _ hkept
        cases hkept
    · have hexact := exact_of_inside hcarried houtside
      refine (settles_migratePayload hexact).andThen fun migrated _ => ih ⟨h.outbox, ?_, ?_⟩ hlater
      · exact stash_set h.stash hexact
      · exact unchanged_append h rfl (fun hkept => (Bool.or_eq_false_iff.mp hkept).1) houtside

theorem settles_deleteUnreferenced (live revisionIds : List Id) :
    Settles bytes may C (fun _ => True) (deleteUnreferenced live revisionIds) := by
  induction revisionIds with
  | nil => exact KeepsWhen.pure trivial
  | cons revisionId rest ih =>
    unfold deleteUnreferenced
    split_ifs
    · exact ih
    · refine (settles_deletePayload revisionId).andThen fun reply _ => ?_
      cases reply with
      | ok _ => exact ih
      | error _ => exact KeepsWhen.pure trivial

theorem settles_sweepPayloads (s : PersistedSyncState) :
    Settles bytes may C (fun _ => True) (sweepPayloads options s) := by
  unfold sweepPayloads
  split_ifs
  · exact KeepsWhen.pure trivial
  · have hattempt : Settles bytes may C (fun _ => True)
        (Code.attempt (S := syncState) .listPayloadIds) :=
      KeepsWhen.attempt (fun _ _ hgood => ⟨hgood, trivial⟩) fun _ => trivial
    refine hattempt.andThen fun reply _ => ?_
    cases reply with
    | ok revisionIds => exact settles_deleteUnreferenced _ revisionIds
    | error _ => exact KeepsWhen.pure trivial

/-- The rows of a queue whose bytes are all there. -/
theorem exact_unchanged (h : Rejoined bytes (s.outbox ++ s.quarantinedEnvelopes.entries.map Prod.snd)
      found) (hs : Every (Carried bytes) s)
    (hsame : (found.cacheChanged || found.persistNeeded) = false) : Every (Exact bytes) s := by
  obtain ⟨hcache, hpersist⟩ := Bool.or_eq_false_iff.mp hsame
  have hinside := h.unchanged hcache hpersist
  refine ⟨fun envelope hmem => ?_, fun key envelope hget => ?_⟩
  · exact exact_of_inside (hs.outbox envelope hmem) (hinside envelope (mem_append_left _ hmem))
  · refine exact_of_inside (hs.stash key envelope hget) (hinside envelope ?_)
    exact mem_append_right _ (mem_map_of_mem (get_eq_some.mp hget))

/-- At every await of a load the disk is carried, and its ends are as `Q` says. -/
abbrev LoadVisits (bytes : Id → JsString) {α : Type}
    (Q : Except SyncStateError α → Memory → Disk → Prop) (code : Durable α) (m : Memory)
    (w : Disk) : Prop :=
  VisitsWhen (S := syncState) respond (MayThrow bytes) (fun _ => DiskCarried bytes) Q code m w

/-- A load rejoins the payloads of the cached document, whatever fails in it. -/
theorem reconcilePayloads_visits {sweep : Bool}
    (hgood : Guarded bytes (Cached (Carried bytes)) m w) :
    LoadVisits bytes (fun _ => Guarded bytes (Cached (Exact bytes)))
      (reconcilePayloads options now sweep) m w := by
  have hread : Settles bytes (MayThrow bytes) (fun cache => cache = m.cache)
      (fun memory => memory.cache = m.cache) readMemory := settles_readMemory
  refine hread.visits ⟨rfl, hgood.disk⟩ (fun _ _ hkept => hkept.disk)
    fun memory m₁ w₁ hkept hmemory => ?_
  rw [hmemory]
  cases hcache : m.cache with
  | none => exact ⟨fun s hs => (nomatch hcache.symm.trans (hkept.cache.symm.trans hs)), hkept.disk⟩
  | some s =>
    have hs : Every (Carried bytes) s := hgood.cache s hcache
    have hstash : ∀ entry ∈ s.quarantinedEnvelopes.entries, Carried bytes entry.2 :=
      fun entry hentry => hs.stash entry.1 entry.2 (get_eq_some.mpr hentry)
    refine (settles_reconcileOutbox rejoined_empty s.outbox hs.outbox).visits hkept
      (fun _ _ hkept => hkept.disk) fun queued m₂ w₂ hkept hqueued => ?_
    refine (settles_reconcileStash hqueued _ hstash).visits hkept
      (fun _ _ hkept => hkept.disk) fun found m₃ w₃ hkept hfound => ?_
    let next := reconciledState s (withoutExpiredBackups s.reconciliationBackups now) found
    have hnext : Every (Exact bytes) next := ⟨hfound.outbox, hfound.stash⟩
    have hcarried : Every (Carried bytes) next := hnext.mono fun _ hexact => .inl hexact
    have hcached : Cached (Exact bytes) (some next) := by
      intro other hother
      cases hother
      exact hnext
    have hlast : ∀ m w, Guarded bytes (fun cache => cache = some s) m w →
        LoadVisits bytes (fun _ => Guarded bytes (Cached (Exact bytes))) (do
            if (found.cacheChanged || found.persistNeeded ||
                withoutExpiredBackups s.reconciliationBackups now ≠ s.reconciliationBackups) =
                  false then
              return ()
            else do
              setCache next
              if found.persistNeeded ||
                  withoutExpiredBackups s.reconciliationBackups now ≠ s.reconciliationBackups then
                save next : Durable Unit) m w := by
      intro m w hkept
      split_ifs with hsame hpersist
      · refine ⟨fun other hother => ?_, hkept.disk⟩
        cases hkept.cache.symm.trans hother
        exact exact_unchanged hfound hs (Bool.or_eq_false_iff.mp hsame).1
      · have hsave : KeepsGuarded bytes (MayThrow bytes) (Cached (Exact bytes)) (fun _ => True) (save next) :=
          keeps_save hcarried
        exact (hsave { m with cache := some next } w ⟨hcached, hkept.disk⟩).mono
          (fun _ _ hstop => hstop.disk) fun _ _ _ hend => hend.1
      · exact ⟨hcached, hkept.disk⟩
    rw [hcache] at hkept
    cases sweep with
    | false => exact hlast m₃ w₃ hkept
    | true =>
      exact (settles_sweepPayloads _).visits hkept (fun _ _ hkept => hkept.disk)
        fun _ m₄ w₄ hkept _ => hlast m₄ w₄ hkept

/-- How a part of the load before that ends: when it threw, no revision of the cache
is without its bytes. -/
def Loads (bytes : Id → JsString) {α : Type} (result : Except SyncStateError α) (m : Memory)
    (w : Disk) : Prop :=
  Guarded bytes (Cached (Carried bytes)) m w ∧
    ∀ error, result = .error error → Cached (Exact bytes) m.cache

section
variable {α β : Type} {raw : Raw} {f : Unit → Durable β} {P : OutboxEnvelope → Prop}
  {parsed : ProducerParse}

theorem loads_call {c : PersistCall} {f : c.Answer → Durable β} (hloud : passedOver c = false)
    (hgood : Guarded bytes (Cached (Carried bytes)) m w)
    (hnext : LoadVisits bytes (Loads bytes) (f (respond c w).1) m (respond c w).2) :
    LoadVisits bytes (Loads bytes) (Code.call (S := syncState) c >>= f) m w := by
  refine visitsWhen_call.mpr ⟨hgood.disk, hnext, fun hmay error => ⟨hgood, fun _ _ => ?_⟩⟩
  rcases hmay with hquiet | hexact
  · cases hloud.symm.trans hquiet
  · exact hexact

theorem loads_pure {value : α} (hgood : Guarded bytes (Cached (Carried bytes)) m w) :
    Loads bytes (.ok value) m w := ⟨hgood, fun _ herror => nomatch herror⟩

theorem cached_none (hcold : m.cache = none) : Cached P m.cache := by
  intro s hs
  cases hcold.symm.trans hs

/-- With nothing cached, any call may throw. -/
theorem loads_cold (hcold : m.cache = none) (hdisk : DiskCarried bytes w)
    (result : Except SyncStateError α) : Loads bytes result m w :=
  ⟨⟨cached_none hcold, hdisk⟩, fun _ _ => cached_none hcold⟩

theorem loads_save (hgood : Guarded bytes (Cached (Carried bytes)) m w)
    (hs : Every (Carried bytes) s)
    (hnext : ∀ w, Guarded bytes (Cached (Carried bytes)) m w →
      LoadVisits bytes (Loads bytes) (f ()) m w) :
    LoadVisits bytes (Loads bytes) (save s >>= f) m w :=
  loads_call rfl hgood (hnext _ ⟨hgood.cache, diskCarried_saved hgood.disk hs⟩)

theorem loads_preserve (hgood : Guarded bytes (Cached (Carried bytes)) m w)
    (hnext : ∀ w, Guarded bytes (Cached (Carried bytes)) m w →
      LoadVisits bytes (Loads bytes) (f ()) m w) :
    LoadVisits bytes (Loads bytes) (preserveCorrupt raw >>= f) m w :=
  loads_call rfl hgood (hnext _ ⟨hgood.cache, diskCarried_preserve hgood.disk raw⟩)

theorem cached_some (hs : Every P s) : Cached P (some s) := by
  intro other hother
  cases hother
  exact hs

theorem loads_preserveProducer {stored : PersistedBlob.Field RawProducer}
    (hgood : Guarded bytes (Cached (Carried bytes)) m w)
    (hnext : ∀ w, Guarded bytes (Cached (Carried bytes)) m w →
      LoadVisits bytes (Loads bytes) (f ()) m w) :
    LoadVisits bytes (Loads bytes) (preserveProducer stored parsed >>= f) m w := by
  unfold preserveProducer
  split
  · exact loads_preserve hgood hnext
  · exact loads_preserve hgood hnext
  · exact hnext w hgood

theorem loads_missingProducer {f : Option ProducerState → Durable β}
    (hgood : Guarded bytes (Cached (Carried bytes)) m w)
    (hnext : ∀ producer, LoadVisits bytes (Loads bytes) (f producer) m w) :
    LoadVisits bytes (Loads bytes) (missingProducer options parsed >>= f) m w := by
  unfold missingProducer
  split
  · exact hnext _
  · split_ifs
    · exact hnext _
    · exact loads_call (c := .loadLegacyProducer)
        (f := fun legacy => f (some (legacy.getD emptyProducer))) rfl hgood (hnext _)

theorem settleProducer_visits (hgood : Guarded bytes (Cached (Carried bytes)) m w) :
    LoadVisits bytes (Loads bytes) (settleProducer options raw) m w := by
  unfold settleProducer
  refine loads_preserveProducer hgood fun w hgood => ?_
  obtain ⟨cache, externalized, recoveryRequired⟩ := m
  cases cache with
  | none => exact loads_pure hgood
  | some s =>
    show LoadVisits bytes (Loads bytes) (if s.producer ≠ none then return () else _) _ w
    split_ifs
    · exact loads_pure hgood
    · refine loads_missingProducer hgood fun producer => ?_
      cases producer with
      | none => exact loads_pure hgood
      | some producer =>
        have hnext : Every (Carried bytes) { s with producer := some producer } :=
          (hgood.cache s rfl).same rfl rfl
        refine loads_save hgood hnext fun w hgood => ?_
        exact loads_pure ⟨cached_some hnext, hgood.disk⟩

/-- A state the load caches. -/
theorem loads_setCache (hdisk : DiskCarried bytes w) (hs : Every (Carried bytes) s)
    (hnext : Guarded bytes (Cached (Carried bytes)) { m with cache := some s } w →
      LoadVisits bytes (Loads bytes) (f ()) { m with cache := some s } w) :
    LoadVisits bytes (Loads bytes) (setCache s >>= f) m w := hnext ⟨cached_some hs, hdisk⟩

theorem carried_backup {state : PersistedSyncState} (h : RawCarried bytes raw)
    (hparse : parsePersistedState options raw = .ok state) : Every (Carried bytes) state := by
  cases raw with
  | null | scalar => cases hparse
  | record sections =>
    simp only [parsePersistedState] at hparse
    split at hparse
    · rename_i parsed hstrict
      cases hparse
      exact carried_strictParse h hstrict
    · cases hparse

/-- What is left of a damaged document goes into the cache and is saved again. -/
theorem salvaged_visits {recovered : PersistedSyncState} {atRisk : Prop} [Decidable atRisk]
    (hcold : m.cache = none) (hdisk : DiskCarried bytes w)
    (hrecovered : Every (Carried bytes) recovered) :
    LoadVisits bytes (Loads bytes) (do
      preserveCorrupt raw
      if (← readMemory).cache ≠ none then return false
      setCache recovered
      if atRisk then requireRecovery
      save recovered
      return false) m w := by
  refine loads_preserve ⟨cached_none hcold, hdisk⟩ fun w hgood => ?_
  show LoadVisits bytes (Loads bytes) (if m.cache ≠ none then return false else _) m w
  rw [if_neg (not_not.mpr hcold)]
  refine loads_setCache hgood.disk hrecovered fun hgood => ?_
  split_ifs
  · exact loads_save (m := { m with cache := some recovered, recoveryRequired := true })
      ⟨hgood.cache, hgood.disk⟩ hrecovered fun w hgood => loads_pure hgood
  · exact loads_save hgood hrecovered fun w hgood => loads_pure hgood

theorem recoverCorrupt_visits {salvage : Option PersistedSyncState} {atRisk : Bool}
    (hcold : m.cache = none) (hdisk : DiskCarried bytes w)
    (hsalvage : ∀ s, salvage = some s → Every (Carried bytes) s) :
    LoadVisits bytes (Loads bytes) (recoverCorrupt options raw salvage atRisk) m w := by
  unfold recoverCorrupt
  refine loads_call rfl ⟨cached_none hcold, hdisk⟩ ?_
  show LoadVisits bytes (Loads bytes) (if m.cache ≠ none then return false else _) m w
  rw [if_neg (not_not.mpr hcold)]
  rw [show (respond PersistCall.loadBackup w).1 = w.backup from rfl]
  cases hparse : parsePersistedState options w.backup with
  | absent | corrupt _ _ =>
    cases salvage with
    | none => exact salvaged_visits hcold hdisk every_empty
    | some state => exact salvaged_visits hcold hdisk (every_trimmed (hsalvage state rfl))
  | ok state =>
    have hstate : Every (Carried bytes) (trimmed options state) :=
      every_trimmed (carried_backup hdisk.backup hparse)
    refine loads_preserve ⟨cached_none hcold, hdisk⟩ fun w hgood => ?_
    show LoadVisits bytes (Loads bytes) (if m.cache = none then _ else _) m w
    rw [if_pos hcold]
    refine loads_setCache hgood.disk hstate fun hgood => ?_
    split_ifs
    · exact loads_pure ⟨hgood.cache, hgood.disk⟩
    · exact loads_pure hgood

theorem refused_visits {error : SyncStateError} (hcold : m.cache = none)
    (hdisk : DiskCarried bytes w) :
    LoadVisits bytes (Loads bytes) (do
      preserveCorrupt raw
      Code.throw (S := syncState) (α := Bool) error) m w :=
  loads_preserve ⟨cached_none hcold, hdisk⟩ fun _ hgood => loads_cold hcold hgood.disk _

theorem hydrate_visits (hcold : m.cache = none) (hdisk : DiskCarried bytes w)
    (hraw : RawCarried bytes raw) :
    LoadVisits bytes (Loads bytes) (hydrate options raw) m w := by
  unfold hydrate
  show LoadVisits bytes (Loads bytes) (if m.cache ≠ none then return false else _) m w
  rw [if_neg (not_not.mpr hcold)]
  cases raw with
  | null =>
    have hempty : Every (Carried bytes) (trimmed options emptyState) := every_trimmed every_empty
    exact loads_setCache hdisk hempty loads_pure
  | scalar => exact recoverCorrupt_visits hcold hdisk fun _ hnone => nomatch hnone
  | record sections =>
    dsimp only
    by_cases hvalid : validRecoveryFields sections = false
    · rw [if_pos hvalid]
      exact refused_visits hcold hdisk
    · rw [if_neg hvalid]
      cases hstrict : strictParse options sections with
      | some state =>
        have hstate : Every (Carried bytes) (trimmed options state) :=
          every_trimmed (carried_strictParse hraw hstrict)
        exact loads_setCache hdisk hstate loads_pure
      | none =>
        dsimp only
        by_cases hcarries : carriesRecovery sections
        · rw [if_pos hcarries]
          exact refused_visits hcold hdisk
        · rw [if_neg hcarries]
          exact recoverCorrupt_visits hcold hdisk fun s hs => carried_salvageState hraw hs

/-- A load whose calls throw only where they may leaves no revision without its bytes. -/
theorem load_visits (hcold : m.cache = none) (hdisk : DiskCarried bytes w) :
    LoadVisits bytes (fun _ => Guarded bytes (Cached (Exact bytes))) (load options now) m w := by
  refine visitsWhen_call.mpr ⟨hdisk, ?_, fun _ error => ⟨cached_none hcold, hdisk⟩⟩
  refine visitsWhen_bind.mpr ((hydrate_visits hcold hdisk hdisk.primary).mono
    (fun _ _ hstop => hstop) fun result m₁ w₁ hend => ?_)
  cases result with
  | error error => exact ⟨hend.2 error rfl, hend.1.disk⟩
  | ok clean =>
    refine visitsWhen_bind.mpr ((settleProducer_visits hend.1).mono (fun _ _ hstop => hstop)
      fun result m₂ w₂ hend => ?_)
    cases result with
    | error error => exact ⟨hend.2 error rfl, hend.1.disk⟩
    | ok _ => exact reconcilePayloads_visits hend.1

/-- What any call finds when it has awaited the load. -/
theorem ensureLoaded_visits (hgood : Guarded bytes (Cached (Exact bytes)) m w) :
    LoadVisits bytes (fun result m w => Guarded bytes (Cached (Exact bytes)) m w ∧
      ∀ state, result = .ok state → Every (Exact bytes) state) (ensureLoaded options now) m w := by
  obtain ⟨cache, externalized, recoveryRequired⟩ := m
  cases cache with
  | some state =>
    refine ⟨hgood, fun other hother => ?_⟩
    cases hother
    exact hgood.cache state rfl
  | none =>
    show LoadVisits bytes _ (load options now >>= fun _ => _) _ w
    refine visitsWhen_bind.mpr ((load_visits rfl hgood.disk).mono (fun _ _ hstop => hstop)
      fun result m₁ w₁ hend => ?_)
    cases result with
    | error error =>
      refine ⟨hend, ?_⟩
      intro _ herror
      cases herror
    | ok _ =>
      obtain ⟨loaded, externalized, recoveryRequired⟩ := m₁
      cases loaded with
      | some state =>
        refine ⟨hend, fun other hother => ?_⟩
        cases hother
        exact hend.cache state rfl
      | none =>
        have hempty : Every (Exact bytes) emptyState := every_empty
        refine ⟨⟨cached_some hempty, hend.disk⟩, fun other hother => ?_⟩
        cases hother
        exact hempty

end

end

section

/-- A section keeps every revision of the cache with its bytes. -/
abbrev KeepsExact (bytes : Id → JsString) (may : Memory → PersistCall → Prop) {α : Type}
    (code : Durable α) : Prop :=
  KeepsGuarded bytes may (Cached (Exact bytes)) (fun _ => True) code

variable {may : Memory → PersistCall → Prop} {α : Type} {next : PersistedSyncState}

theorem keeps_pure {value : α} : KeepsExact bytes may (pure value) :=
  fun _ _ hgood => ⟨hgood, trivial⟩

theorem keeps_throw {error : SyncStateError} :
    KeepsExact bytes may (Code.throw (S := syncState) error : Durable α) :=
  fun _ _ hgood => ⟨hgood, trivial⟩

theorem keeps_mutate {f : Unit → Durable α} (hnext : Every (Exact bytes) next)
    (hf : KeepsExact bytes may (f ())) : KeepsExact bytes may (mutate options next >>= f) := by
  have hkept : Every (Exact bytes) (trimmed options next) := every_trimmed hnext
  have hmutate : KeepsExact bytes may (mutate options next) := by
    refine (keeps_save (hkept.mono fun _ hexact => .inl hexact)).bind (fun _ _ => ?_)
      fun _ _ => trivial
    exact (settles_setCache (cached_some hkept)).mono fun _ _ => trivial
  exact hmutate.bind (fun _ _ => hf) fun _ _ => trivial

theorem settles_externalize {envelope : OutboxEnvelope} (h : Exact bytes envelope) :
    Settles bytes may (Cached (Exact bytes)) (fun _ => True) (externalize options envelope) := by
  refine (settles_safePutPayload h).andThen fun stored _ => ?_
  split_ifs
  · exact settles_addExternalized _
  · exact settles_deleteExternalized _

theorem settles_dropPayload (revisionId : Id) :
    Settles bytes may (Cached (Exact bytes)) (fun _ => True) (dropPayload options revisionId) := by
  refine settles_readMemory.andThen fun memory _ => ?_
  split_ifs
  · exact (settles_deletePayload revisionId).andThen fun _ _ => settles_deleteExternalized _
  · exact settles_deleteExternalized _
  · exact KeepsWhen.pure trivial

theorem settles_dropPayloads (revisionIds : List Id) :
    Settles bytes may (Cached (Exact bytes)) (fun _ => True) (dropPayloads options revisionIds) := by
  induction revisionIds with
  | nil => exact KeepsWhen.pure trivial
  | cons revisionId rest ih => exact (settles_dropPayload revisionId).andThen fun _ _ => ih

theorem keeps_swapQueue {record : ProducerRecovery} {replacement : Option OutboxEnvelope}
    {finish : PersistedSyncState → PersistedSyncState} (hs : Every (Exact bytes) s)
    (hnew : ∀ envelope ∈ replacement, Exact bytes envelope)
    (hfinish : ∀ state, Every (Exact bytes) state → Every (Exact bytes) (finish state)) :
    KeepsExact bytes may (swapQueue options now s record replacement >>= fun
      | none => pure false
      | some swapped => do
        mutate options (finish swapped)
        return true) := by
  have hswapped : Every (Exact bytes) (finish (swapped s now record replacement)) :=
    hfinish _ (every_swapped hs hnew)
  unfold swapQueue
  split_ifs
  · exact keeps_throw
  · exact keeps_pure
  · cases replacement with
    | none => exact keeps_mutate hswapped keeps_pure
    | some envelope =>
      have hstored : Settles bytes may (Cached (Exact bytes))
          (fun result => result = some (swapped s now record (some envelope))) (do
            externalize options envelope
            return some (swapped s now record (some envelope))) :=
        (settles_externalize (hnew envelope rfl)).andThen fun _ _ => KeepsWhen.pure rfl
      refine hstored.andThen fun result hresult => ?_
      subst hresult
      exact keeps_mutate hswapped keeps_pure

theorem operationSection_keeps {operation : Operation} (hs : Every (Exact bytes) s)
    (henqueues : Enqueues bytes operation) :
    KeepsExact bytes may (operationSection options now operation s) := by
  have hnext : ∀ next, nextState options now operation s = some next → Every (Exact bytes) next :=
    fun next => nextState_exact hs henqueues
  cases operation
  case startProducerRecovery record replacement =>
    exact keeps_swapQueue hs henqueues fun state hstate => hstate.same rfl rfl
  case commitProducerChange record replacement =>
    exact keeps_swapQueue hs henqueues fun state hstate => hstate.same rfl rfl
  case recoverProducerQueue id =>
    simp only [nextState] at hnext
    simp only [operationSection, recoverProducerQueue]
    cases hfind : s.journal.find? fun r => r.id = id with
    | none => exact keeps_pure
    | some record =>
      simp only [hfind, bind_some] at hnext
      cases hkind : record.kind with
      | resolution =>
        simp only [hkind] at hnext ⊢
        exact keeps_mutate (hnext _ rfl) keeps_pure
      | apply =>
        simp only [hkind] at hnext ⊢
        split_ifs at hnext ⊢
        · exact keeps_throw
        · exact keeps_mutate (hnext _ rfl) keeps_pure
  case enqueueAutomaticMerge envelope =>
    simp only [nextState] at hnext
    simp only [operationSection, enqueueAutomaticMerge]
    cases happly : applyRecord s envelope.fileId with
    | none => exact keeps_throw
    | some record =>
      rw [happly] at hnext
      exact keeps_mutate (hnext _ rfl) keeps_pure
  case retireEquivalentMerges event =>
    simp only [nextState] at hnext
    simp only [operationSection, retireEquivalentMerges]
    split_ifs at hnext ⊢
    · exact keeps_pure
    · exact keeps_mutate (hnext _ rfl) keeps_pure
  case recordPushReceipt receipt =>
    exact keeps_mutate (hnext _ rfl) ((settles_dropPayload _).andThen fun _ _ => keeps_pure)
  case quarantineOutboxItem revisionId reason =>
    exact (settles_dropPayloads _).andThen fun _ _ => keeps_mutate (hnext _ rfl) keeps_pure
  case enqueue envelope =>
    have hexact : Exact bytes { envelope with enqueuedAt := envelope.enqueuedAt <|> some now } :=
      henqueues envelope rfl
    exact (settles_externalize hexact).andThen fun _ _ => keeps_mutate (hnext _ rfl) keeps_pure
  case requeueQuarantined revisionId =>
    simp only [nextState] at hnext
    simp only [operationSection, requeueQuarantined]
    cases hstash : s.quarantinedEnvelopes.get revisionId with
    | none => exact keeps_pure
    | some stashed =>
      rw [hstash] at hnext
      exact keeps_mutate (hnext _ rfl) keeps_pure
  case discardQuarantined revisionId =>
    simp only [nextState] at hnext
    simp only [operationSection, discardQuarantined]
    split_ifs at hnext ⊢
    · exact keeps_pure
    · exact keeps_mutate (hnext _ rfl) ((settles_dropPayload _).andThen fun _ _ => keeps_pure)
  case forgetPath path =>
    simp only [nextState] at hnext
    simp only [operationSection, forgetPath]
    split_ifs at hnext ⊢
    · exact keeps_pure
    · exact keeps_mutate (hnext _ rfl) keeps_pure
  case forgetBaseHash fileId =>
    simp only [nextState] at hnext
    simp only [operationSection, forgetBaseHash]
    split_ifs at hnext ⊢
    · exact keeps_pure
    · exact keeps_mutate (hnext _ rfl) keeps_pure
  case forgetBaseContent fileId =>
    simp only [nextState] at hnext
    simp only [operationSection, forgetBaseContent]
    split_ifs at hnext ⊢
    · exact keeps_pure
    · exact keeps_mutate (hnext _ rfl) keeps_pure
  all_goals exact keeps_mutate (hnext _ rfl) keeps_pure

end

variable {α : Type} {world world' : SyncWorld} {revisionId : Id} {envelope : TransportEnvelope}
  {choices : List (Choice SyncStateError)}

/-- No call of the run throws while the cache holds a revision that is without its
bytes, and calls enqueue revisions with the bytes that are theirs. -/
def Undisturbed (options : SyncStateOptions) (bytes : Id → JsString) (world : SyncWorld) :
    SyncAction → Prop
  | .call operation now choices =>
    Enqueues bytes operation ∧
      ThrowsOnly (S := syncState) respond (MayThrow bytes) (perform options now operation)
        world.memory world.disk choices
  | .read now choices =>
    ThrowsOnly (S := syncState) respond (MayThrow bytes) (ensureLoaded options now)
      world.memory world.disk choices
  | .restart => True

theorem perform_visits {operation : Operation} (henqueues : Enqueues bytes operation)
    (hgood : Guarded bytes (Cached (Exact bytes)) m w) :
    LoadVisits bytes (fun _ => Guarded bytes (Cached (Exact bytes)))
      (perform options now operation) m w := by
  unfold perform
  split_ifs
  · exact hgood
  · refine visitsWhen_bind.mpr ((ensureLoaded_visits hgood).mono (fun _ _ hstop => hstop)
      fun result m₁ w₁ hend => ?_)
    cases result with
    | error error => exact hend.1
    | ok state =>
      have hsection : KeepsExact bytes (MayThrow bytes)
          (operationSection options now operation state) :=
        operationSection_keeps (hend.2 state rfl) henqueues
      exact (hsection m₁ w₁ hend.1).mono (fun _ _ hstop => hstop.disk) fun _ _ _ hlast => hlast.1

theorem settle_guarded {code : Durable α} {Q : Except SyncStateError α → Memory → Disk → Prop}
    (h : LoadVisits bytes Q code world.memory world.disk)
    (hq : ∀ result m w, Q result m w → Guarded bytes (Cached (Exact bytes)) m w)
    (hthrows : ThrowsOnly (S := syncState) respond (MayThrow bytes) code world.memory world.disk
      choices) :
    Guarded bytes (Cached (Exact bytes)) (settle (runCode code world choices)).memory
      (settle (runCode code world choices)).disk := by
  have hend := h.exec hthrows
  unfold runCode
  generalize exec (S := syncState) respond code world.memory world.disk choices = ending at hend
  obtain ⟨ending, disk⟩ := ending
  cases ending with
  | returned value memory => exact hq _ _ _ hend
  | threw error memory => exact hq _ _ _ hend
  | stopped =>
    obtain ⟨_, hdisk⟩ := hend
    exact ⟨fun _ hs => (nomatch hs), hdisk⟩

theorem step_guarded {action : SyncAction}
    (hgood : Guarded bytes (Cached (Exact bytes)) world.memory world.disk)
    (hundisturbed : Undisturbed options bytes world action)
    (hstep : syncStep options world action = some world') :
    Guarded bytes (Cached (Exact bytes)) world'.memory world'.disk := by
  cases action with
  | call operation now choices =>
    cases hstep
    exact settle_guarded (perform_visits hundisturbed.1 hgood) (fun _ _ _ hend => hend)
      hundisturbed.2
  | read now choices =>
    cases hstep
    exact settle_guarded (ensureLoaded_visits hgood) (fun _ _ _ hend => hend.1) hundisturbed
  | restart =>
    cases hstep
    exact ⟨fun _ hs => (nomatch hs), hgood.disk⟩

/-- What a peek returns of a cache whose revisions have their bytes. -/
theorem peek_exact (h : Cached (Exact bytes) m.cache)
    (hpeek : peekEnvelope m revisionId = some envelope) :
    envelope.payloadBase64 = bytes revisionId := by
  unfold peekEnvelope at hpeek
  obtain ⟨found, hfound, rfl⟩ := map_eq_some_iff.mp hpeek
  obtain ⟨state, hstate, hqueued⟩ := bind_eq_some_iff.mp hfound
  have hexact : Exact bytes found :=
    (h state hstate).outbox found (mem_of_find?_eq_some hqueued)
  unfold queuedEnvelope at hqueued
  have hid : found.revisionId = revisionId := by simpa using List.find?_some hqueued
  rw [← hid]
  exact hexact

/-- What the load returns in an undisturbed run, and what it leaves. -/
theorem loaded_exact (hgood : Guarded bytes (Cached (Exact bytes)) world.memory world.disk)
    (hthrows : ThrowsOnly (S := syncState) respond (MayThrow bytes) (ensureLoaded options now)
      world.memory world.disk choices)
    (hload : runCode (ensureLoaded options now) world choices = (.returned s m, w)) :
    Every (Exact bytes) s ∧ Guarded bytes (Cached (Exact bytes)) m w := by
  have hvisits : LoadVisits bytes (fun result m w => Guarded bytes (Cached (Exact bytes)) m w ∧
      ∀ state, result = .ok state → Every (Exact bytes) state) (ensureLoaded options now)
      world.memory world.disk := ensureLoaded_visits hgood
  have hend := hvisits.exec hthrows
  unfold runCode at hload
  rw [hload] at hend
  exact ⟨hend.2 s rfl, hend.1⟩

theorem reached_guarded (hdisk : DiskCarried bytes world.disk) (hcold : world.memory.cache = none)
    (reached : Reached (syncStep options) (Undisturbed options bytes) world world') :
    Guarded bytes (Cached (Exact bytes)) world'.memory world'.disk :=
  reached.invariant (P := fun world => Guarded bytes (Cached (Exact bytes)) world.memory world.disk)
    ⟨cached_none hcold, hdisk⟩ fun _ _ _ hgood hundisturbed hstep =>
      step_guarded hgood hundisturbed hstep

/-- In every undisturbed run, what is returned of a queued revision carries the bytes
it was enqueued with: by a peek between two calls, by a read, and by a peek while a
call that has awaited the load awaits something else. -/
theorem queued_bytes_exact (hdisk : DiskCarried bytes world.disk)
    (hcold : world.memory.cache = none)
    (reached : Reached (syncStep options) (Undisturbed options bytes) world world') :
    (∀ revisionId envelope, peekEnvelope world'.memory revisionId = some envelope →
        envelope.payloadBase64 = bytes revisionId) ∧
      (∀ now revisionId choices envelope m w,
        ThrowsOnly (S := syncState) respond (MayThrow bytes) (ensureLoaded options now)
          world'.memory world'.disk choices →
        runCode (getEnvelope options now revisionId) world' choices =
          (.returned (some envelope) m, w) → envelope.payloadBase64 = bytes revisionId) ∧
      ∀ now operation choices state m w later, Enqueues bytes operation →
        ThrowsOnly (S := syncState) respond (MayThrow bytes) (ensureLoaded options now)
          world'.memory world'.disk choices →
        runCode (ensureLoaded options now) world' choices = (.returned state m, w) →
        ∀ seen ∈ awaited (S := syncState) respond (operationSection options now operation state) m w
          later, ∀ revisionId envelope, peekEnvelope seen revisionId = some envelope →
          envelope.payloadBase64 = bytes revisionId := by
  have hgood := reached_guarded hdisk hcold reached
  refine ⟨fun revisionId envelope => peek_exact hgood.cache, ?_, ?_⟩
  · intro now revisionId choices envelope m w hthrows hget
    obtain ⟨state, m₁, w₁, rest, hload, hpeek⟩ := exec_bind_returned hget
    obtain ⟨-, hloaded⟩ := loaded_exact hgood hthrows hload
    have hreturned := Ending.returned.inj (congrArg Prod.fst hpeek)
    exact peek_exact hloaded.cache hreturned.1
  · intro now operation choices state m w later henqueues hthrows hload seen hseen revisionId
      envelope hpeek
    obtain ⟨hstate, hloaded⟩ := loaded_exact hgood hthrows hload
    have hsection : KeepsExact bytes (fun _ _ => True)
        (operationSection options now operation state) := operationSection_keeps hstate henqueues
    obtain ⟨w', hawaited⟩ := (hsection m w hloaded).awaited
      (throwsOnly_of_all fun _ _ => trivial) seen hseen
    exact peek_exact hawaited.cache hpeek

/-- A device that still has the old key of the producer. -/
def upgradedOptions : SyncStateOptions := { plainOptions with readsLegacyProducer := true }

/-- The text `note`. -/
def note : JsString := [0x6E, 0x6F, 0x74, 0x65]

/-- A document without a producer, whose queued revision has its bytes in the store. -/
def upgradedWorld : SyncWorld where
  disk :=
    { primary := .record (written
        { emptyState with
          outbox := [{ plainEnvelope 5 7 [] [] with payloadExternalized := some true }] })
      payloads := JsObject.empty.set 5 note }

theorem upgradedWorld_carried : DiskCarried (fun _ => note) upgradedWorld.disk := by
  refine ⟨rawCarried_written ⟨fun envelope hmem => ?_, fun _ _ hget => nomatch hget⟩, trivial,
    fun revisionId payload hget => ?_⟩
  · rw [mem_singleton.mp hmem]
    exact .inr rfl
  · replace hget : ((JsObject.empty : JsObject Id JsString).set 5 note).get revisionId =
        some payload := hget
    rw [get_set] at hget
    split_ifs at hget
    · exact (some.inj hget).symm
    · cases hget

/-- The world after a load that throws at its first call, while nothing is cached, and one
that goes well. -/
def readWorld : SyncWorld :=
  (run (syncStep upgradedOptions) upgradedWorld [.read 1 [.thrown .port], .read 2 []]).getD
    upgradedWorld

theorem queued_bytes_exact_read : ∃ envelope,
    peekEnvelope readWorld.memory 5 = some envelope ∧ envelope.payloadBase64 = note := by
  have hpeek : (peekEnvelope readWorld.memory 5).isSome = true := rfl
  have hfailed : Undisturbed upgradedOptions (fun _ => note) upgradedWorld
      (.read 1 [.thrown .port]) :=
    ⟨.inr fun _ hcached => (nomatch hcached), throwsOnly_nil⟩
  have hread : ∀ world, Undisturbed upgradedOptions (fun _ => note) world (.read 2 []) :=
    fun _ => throwsOnly_nil
  have hreached : Reached (syncStep upgradedOptions) (Undisturbed upgradedOptions fun _ => note)
      upgradedWorld readWorld := .step (.step .start hfailed rfl) (hread _) rfl
  obtain ⟨envelope, henvelope⟩ := isSome_iff_exists.mp hpeek
  have hexact := (queued_bytes_exact upgradedWorld_carried rfl hreached).1 5 envelope henvelope
  exact ⟨envelope, henvelope, hexact⟩

/-- The producer's old key cannot be read at the first load, which throws; a second
call finds the document loaded. -/
def readAgain : List SyncAction := [.read 1 [.done, .thrown .port], .read 2 []]

def emptyWorld : SyncWorld :=
  (run (syncStep upgradedOptions) upgradedWorld readAgain).getD upgradedWorld

/-- The envelope of the queued revision is then returned without its bytes, which are in
the payload store. -/
theorem queued_bytes_empty :
    DiskCarried (fun _ => note) upgradedWorld.disk ∧ upgradedWorld.memory.cache = none ∧
      run (syncStep upgradedOptions) upgradedWorld readAgain = some emptyWorld ∧
      emptyWorld.disk.payloads.get 5 = some note ∧
      (∃ memory disk envelope,
        runCode (getEnvelope upgradedOptions 2 5) emptyWorld [] =
          (.returned (some envelope) memory, disk) ∧ envelope.payloadBase64 ≠ note) ∧
      ∃ envelope, peekEnvelope emptyWorld.memory 5 = some envelope ∧
        envelope.payloadBase64 ≠ note := by
  have hempty : ([] : JsString) ≠ note := by decide
  exact ⟨upgradedWorld_carried, rfl, rfl, rfl, ⟨_, _, _, rfl, hempty⟩, ⟨_, rfl, hempty⟩⟩

end Havemind.QueuedBytes
