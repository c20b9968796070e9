import Havemind.DurableRuns

/-!
What a load does for queued work. A damaged primary is recovered from the
backup, or from what is left of it, and a queued revision then comes back into
the queue, is listed as one whose payload is gone, or the recovery signal is
set.
-/
namespace Havemind.QueueRecovery

open RevisionSchema SyncRunner AwaitCode DurableState PersistedBlob DurableLoad List
open DurableRuns (plainOptions plainEnvelope)

/-- The envelopes that can be parsed, of an outbox that can be read. -/
def readableOutbox : Raw → Option (List OutboxEnvelope)
  | .record sections => sections.outbox.toOption.map fun entries => entries.filterMap fun
      | .readable envelope => some envelope
      | .unreadable _ _ => none
  | _ => none

/-- A blob that loads as it was saved. -/
def usable (options : SyncStateOptions) (raw : Raw) : Bool :=
  match parsePersistedState options raw with
  | .ok _ => true
  | _ => false

/-- What a load owes the queue. The primary's envelopes come first; the backup
counts where it is used in place of a queue that cannot be read. -/
structure Recovered (options : SyncStateOptions) (primary backup : Raw) (kept : Id → Prop)
    (signal : Bool) : Prop where
  readable : ∀ envelopes, readableOutbox primary = some envelopes →
    (∀ envelope ∈ envelopes, kept envelope.revisionId) ∨ signal = true
  unreadable : ∀ sections, primary = .record sections → sections.outbox = .unreadable →
    usable options backup = false → signal = true
  backup : primary ≠ .null → readableOutbox primary = none → usable options backup = true →
    ∀ envelopes, readableOutbox backup = some envelopes →
      ∀ envelope ∈ envelopes, kept envelope.revisionId

theorem Recovered.mono {options : SyncStateOptions} {primary backup : Raw} {kept kept' : Id → Prop}
    {signal : Bool} (h : Recovered options primary backup kept signal)
    (hkept : ∀ id, kept id → kept' id) : Recovered options primary backup kept' signal where
  readable envelopes henvelopes := by
    rcases h.readable envelopes henvelopes with hall | hsignal
    · exact Or.inl fun envelope henvelope => hkept _ (hall envelope henvelope)
    · exact Or.inr hsignal
  unreadable := h.unreadable
  backup hnull hnone husable envelopes henvelopes envelope henvelope :=
    hkept _ (h.backup hnull hnone husable envelopes henvelopes envelope henvelope)

def QueuedIn (state : PersistedSyncState) (revisionId : Id) : Prop :=
  ∃ envelope ∈ state.outbox, envelope.revisionId = revisionId

/-- Queued, or in the quarantine for want of its payload. -/
def AccountedIn (state : PersistedSyncState) (revisionId : Id) : Prop :=
  QueuedIn state revisionId ∨
    ∃ row ∈ state.quarantine, row.revisionId = revisionId ∧ row.reason = payloadMissingReason

section
variable {options : SyncStateOptions} {sections : RawState} {state : PersistedSyncState}
  {envelopes : List OutboxEnvelope} {raw : Raw}

theorem trimmed_outbox (options : SyncStateOptions) (state : PersistedSyncState) :
    (trimmed options state).outbox = state.outbox := by
  rw [trimmed_eq]

theorem readableOutbox_eq_some (options : SyncStateOptions)
    (h : readableOutbox (.record sections) = some envelopes) :
    ∃ entries, sections.outbox = .readable entries ∧
      ∀ envelope ∈ envelopes, ∃ parsed ∈ (parseOutboxEntries options entries).1,
        parsed.revisionId = envelope.revisionId := by
  obtain ⟨entries, hentries, rfl⟩ := Option.map_eq_some_iff.mp h
  refine ⟨entries, ?_, ?_⟩
  · cases houtbox : sections.outbox with
    | absent => rw [houtbox] at hentries; cases hentries
    | unreadable => rw [houtbox] at hentries; cases hentries
    | readable value => rw [houtbox] at hentries; cases hentries; rfl
  · intro envelope henvelope
    obtain ⟨entry, hentry, hsome⟩ := mem_filterMap.mp henvelope
    cases entry with
    | unreadable revisionId fileId => cases hsome
    | readable value =>
      cases hsome
      refine ⟨parseEnvelope envelope, ?_, rfl⟩
      exact mem_filterMap.mpr ⟨.readable envelope, hentry, rfl⟩

theorem strictParse_outbox (h : strictParse options sections = some state) :
    ∃ entries, sections.outbox = .readable entries ∧
      state.outbox = (parseOutboxEntries options entries).1 := by
  unfold strictParse at h
  split at h
  · cases h
  · split at h
    · rename_i cursor outbox locallyAuthored deferred _ houtbox _ _
      obtain ⟨parsed, _, rfl⟩ := Option.map_eq_some_iff.mp h
      refine ⟨outbox, ?_, rfl⟩
      cases hfield : sections.outbox with
      | absent => rw [hfield] at houtbox; cases houtbox
      | unreadable => rw [hfield] at houtbox; cases houtbox
      | readable value => rw [hfield] at houtbox; cases houtbox; rfl
    · cases h

/-- A blob that parses has a queue that can be read, and the parsed queue is it. -/
theorem queued_of_strictParse (h : strictParse options sections = some state)
    (henvelopes : readableOutbox (.record sections) = some envelopes) :
    ∀ envelope ∈ envelopes, QueuedIn state envelope.revisionId := by
  obtain ⟨entries, hentries, hstate⟩ := strictParse_outbox h
  obtain ⟨entries', hentries', hall⟩ := readableOutbox_eq_some options henvelopes
  rw [hentries] at hentries'
  cases hentries'
  intro envelope henvelope
  obtain ⟨parsed, hparsed, hid⟩ := hall envelope henvelope
  exact ⟨parsed, hstate ▸ hparsed, hid⟩

theorem parsed_ok (h : parsePersistedState options raw = .ok state) :
    ∃ sections, raw = .record sections ∧ strictParse options sections = some state := by
  cases raw with
  | null => cases h
  | scalar => cases h
  | record sections =>
    simp only [parsePersistedState] at h
    split at h
    · rename_i parsed hparsed
      cases h
      exact ⟨sections, rfl, hparsed⟩
    · cases h

/-- What a corrupt primary leaves to recover from. -/
theorem corrupt_spec {salvage : Option PersistedSyncState} {atRisk : Bool}
    (h : parsePersistedState options raw = .corrupt salvage atRisk) :
    (∀ envelopes, readableOutbox raw = some envelopes → ∃ rest, salvage = some rest ∧
      ∀ envelope ∈ envelopes, QueuedIn rest envelope.revisionId) ∧
    ∀ sections, raw = .record sections → sections.outbox = .unreadable →
      salvage = none ∧ atRisk = true := by
  cases raw with
  | null => cases h
  | scalar =>
    constructor
    · intro envelopes henvelopes
      cases henvelopes
    · intro sections hraw
      cases hraw
  | record sections =>
    simp only [parsePersistedState] at h
    split at h
    · cases h
    · cases h
      constructor
      · intro envelopes henvelopes
        obtain ⟨entries, hentries, hall⟩ := readableOutbox_eq_some options henvelopes
        refine ⟨_, by rw [salvageState, hentries]; rfl, ?_⟩
        intro envelope henvelope
        obtain ⟨parsed, hparsed, hid⟩ := hall envelope henvelope
        exact ⟨parsed, hparsed, hid⟩
      · intro sections' hraw hunreadable
        cases hraw
        constructor
        · rw [salvageState, hunreadable]
          rfl
        · rw [outboxAtRisk, hunreadable]
          rfl

end

/-- If the code returns, it leaves the memory so. -/
abbrev Leaves {α : Type} (Q : Memory → Prop) (code : Durable α) (m : Memory) (w : Disk) : Prop :=
  Visits (S := syncState) respond (fun _ => True)
    (fun result m' _ => ∀ value, result = .ok value → Q m') code m w

/-- The loaded queue answers for the blobs it was loaded from. -/
def Loaded (options : SyncStateOptions) (primary backup : Raw) (m : Memory) : Prop :=
  ∃ state, m.cache = some state ∧
    Recovered options primary backup (QueuedIn state) m.recoveryRequired

section
variable {options : SyncStateOptions} {m : Memory} {w : Disk} {raw : Raw}
  {state : PersistedSyncState} {salvage : Option PersistedSyncState} {atRisk : Bool} {backup : Raw}
  {memory : Memory}

theorem queuedIn_trimmed {id : Id} (h : QueuedIn state id) :
    QueuedIn (trimmed options state) id := by
  obtain ⟨envelope, henvelope, hid⟩ := h
  exact ⟨envelope, (trimmed_outbox options state).symm ▸ henvelope, hid⟩

variable (hraw : parsePersistedState options raw = .corrupt salvage atRisk)
include hraw

/-- Taking the backup over the primary: what it lacks of the primary's queue is signalled. -/
theorem loaded_backup (hbackup : parsePersistedState options backup = .ok state)
    (hcache : memory.cache = some (trimmed options state))
    (hsignal : salvageHasOutboxEntriesMissingFrom salvage state.outbox = true →
      memory.recoveryRequired = true) : Loaded options raw backup memory := by
  have husable : usable options backup = true := by rw [usable, hbackup]
  obtain ⟨sections, rfl, hstrict⟩ := parsed_ok hbackup
  refine ⟨_, hcache, ?_, ?_, ?_⟩
  · intro envelopes henvelopes
    obtain ⟨rest, rfl, hqueued⟩ := (corrupt_spec hraw).1 envelopes henvelopes
    by_cases hmissing : salvageHasOutboxEntriesMissingFrom (some rest) state.outbox = true
    · exact Or.inr (hsignal hmissing)
    · left
      intro envelope henvelope
      obtain ⟨entry, hentry, hid⟩ := hqueued envelope henvelope
      apply queuedIn_trimmed
      by_contra hlost
      apply hmissing
      have hall : (state.outbox.all fun kept => kept.revisionId ≠ entry.revisionId) = true := by
        refine all_eq_true.mpr fun kept hkept => decide_eq_true fun hsame => ?_
        exact hlost ⟨kept, hkept, hsame.trans hid⟩
      exact any_eq_true.mpr ⟨entry, hentry, hall⟩
  · intro _ _ _ hnot
    rw [husable] at hnot
    cases hnot
  · intro _ _ _ envelopes henvelopes envelope henvelope
    exact queuedIn_trimmed (queued_of_strictParse hstrict henvelopes envelope henvelope)

/-- Going on without a backup, with the salvaged queue or an empty one. -/
theorem loaded_salvage (hstate : ∀ rest, salvage = some rest → state = trimmed options rest)
    (hbackup : usable options backup = false) (hcache : memory.cache = some state)
    (hsignal : salvage = none ∧ atRisk = true → memory.recoveryRequired = true) :
    Loaded options raw backup memory := by
  refine ⟨_, hcache, ?_, ?_, ?_⟩
  · intro envelopes henvelopes
    obtain ⟨rest, hrest, hqueued⟩ := (corrupt_spec hraw).1 envelopes henvelopes
    rw [hstate rest hrest]
    exact Or.inl fun envelope henvelope => queuedIn_trimmed (hqueued envelope henvelope)
  · intro sections hrecord hunreadable _
    exact hsignal ((corrupt_spec hraw).2 sections hrecord hunreadable)
  · intro _ _ husable
    rw [hbackup] at husable
    cases husable

theorem recoverCorrupt_loaded (hcold : m.cache = none) :
    Leaves (Loaded options raw w.backup) (recoverCorrupt options raw salvage atRisk) m w := by
  have hfail : ∀ (error : SyncStateError) (m' : Memory), ∀ value : Bool,
      (.error error : Except SyncStateError Bool) = .ok value → Loaded options raw w.backup m' :=
    fun _ _ _ h => by cases h
  unfold recoverCorrupt
  refine visits_call.mpr ⟨trivial, ?_, fun error => hfail error _⟩
  refine visits_memory.mpr ?_
  rw [if_neg (not_not.mpr hcold)]
  rw [show (respond PersistCall.loadBackup w).1 = w.backup from rfl]
  have hgoOn (state : PersistedSyncState)
      (hstate : ∀ rest, salvage = some rest → state = trimmed options rest)
      (hbackup : usable options w.backup = false) :
      Leaves (Loaded options raw w.backup) (do
        preserveCorrupt raw
        if (← readMemory).cache ≠ none then return false
        setCache state
        if salvage = none ∧ atRisk then requireRecovery
        save state
        return false) m w := by
    refine visits_call.mpr ⟨trivial, ?_, fun error => hfail error _⟩
    refine visits_memory.mpr ?_
    rw [if_neg (not_not.mpr hcold)]
    by_cases hrisk : salvage = none ∧ atRisk = true
    · have hloaded : Loaded options raw w.backup
          { m with cache := some state, recoveryRequired := true } :=
        loaded_salvage hraw hstate hbackup rfl fun _ => rfl
      rw [if_pos hrisk]
      exact ⟨trivial, fun _ _ => hloaded, fun error => hfail error _⟩
    · have hloaded : Loaded options raw w.backup { m with cache := some state } :=
        loaded_salvage hraw hstate hbackup rfl fun h => absurd h hrisk
      rw [if_neg hrisk]
      exact ⟨trivial, fun _ _ => hloaded, fun error => hfail error _⟩
  cases hparse : parsePersistedState options w.backup with
  | absent =>
    have hnot : usable options w.backup = false := by rw [usable, hparse]
    cases salvage with
    | none => exact hgoOn emptyState (fun rest h => by cases h) hnot
    | some rest => exact hgoOn (trimmed options rest) (fun rest' h => by cases h; rfl) hnot
  | corrupt _ _ =>
    have hnot : usable options w.backup = false := by rw [usable, hparse]
    cases salvage with
    | none => exact hgoOn emptyState (fun rest h => by cases h) hnot
    | some rest => exact hgoOn (trimmed options rest) (fun rest' h => by cases h; rfl) hnot
  | ok state =>
    refine visits_call.mpr ⟨trivial, ?_, fun error => hfail error _⟩
    refine visits_memory.mpr ?_
    rw [if_pos hcold]
    by_cases hmissing : salvageHasOutboxEntriesMissingFrom salvage state.outbox = true
    · have hloaded : Loaded options raw w.backup
          { m with cache := some (trimmed options state), recoveryRequired := true } :=
        loaded_backup hraw hparse rfl fun _ => rfl
      rw [if_pos hmissing]
      exact fun _ _ => hloaded
    · have hloaded : Loaded options raw w.backup
          { m with cache := some (trimmed options state) } :=
        loaded_backup hraw hparse rfl fun h => absurd h hmissing
      rw [if_neg hmissing]
      exact fun _ _ => hloaded

omit hraw in
theorem hydrate_loaded (hcold : m.cache = none) :
    Leaves (Loaded options raw w.backup) (hydrate options raw) m w := by
  have hfail : ∀ (error : SyncStateError) (m' : Memory), ∀ value : Bool,
      (.error error : Except SyncStateError Bool) = .ok value → Loaded options raw w.backup m' :=
    fun _ _ _ h => by cases h
  unfold hydrate
  refine visits_memory.mpr ?_
  rw [if_neg (not_not.mpr hcold)]
  cases raw with
  | null =>
    have hloaded : Loaded options .null w.backup
        { m with cache := some (trimmed options emptyState) } := by
      refine ⟨_, rfl, ?_, ?_, ?_⟩
      · intro envelopes henvelopes
        cases henvelopes
      · intro sections hrecord
        cases hrecord
      · intro hnull
        exact absurd rfl hnull
    exact fun _ _ => hloaded
  | scalar => exact recoverCorrupt_loaded rfl hcold
  | record sections =>
    have hrefused (error : SyncStateError) : Leaves (Loaded options (.record sections) w.backup) (do
        preserveCorrupt (.record sections)
        Code.throw (S := syncState) (α := Bool) error) m w :=
      visits_call.mpr ⟨trivial, hfail error _, fun error => hfail error _⟩
    dsimp only
    by_cases hvalid : validRecoveryFields sections = false
    · rw [if_pos hvalid]
      exact hrefused _
    · rw [if_neg hvalid]
      cases hstrict : strictParse options sections with
      | some state =>
        have hloaded : Loaded options (.record sections) w.backup
            { m with cache := some (trimmed options state) } := by
          refine ⟨_, rfl, ?_, ?_, ?_⟩
          · intro envelopes henvelopes
            exact Or.inl fun envelope henvelope =>
              queuedIn_trimmed (queued_of_strictParse hstrict henvelopes envelope henvelope)
          · intro sections' hrecord hunreadable
            obtain ⟨entries, hentries, _⟩ := strictParse_outbox hstrict
            cases hrecord
            rw [hentries] at hunreadable
            cases hunreadable
          · intro _ hnone
            obtain ⟨entries, hentries, _⟩ := strictParse_outbox hstrict
            rw [readableOutbox, hentries] at hnone
            cases hnone
        exact fun _ _ => hloaded
      | none =>
        dsimp only
        by_cases hcarries : carriesRecovery sections
        · rw [if_pos hcarries]
          exact hrefused _
        · rw [if_neg hcarries]
          apply recoverCorrupt_loaded _ hcold
          simp only [parsePersistedState, hstrict]

end

section
variable {options : SyncStateOptions} {G : Memory → Prop} {α : Type} {found : Reconciled}
  {envelopes : List OutboxEnvelope} {after : Reconciled} {envelope : OutboxEnvelope}

/-- The code keeps what is said of the memory. -/
abbrev KeepsMemory (G : Memory → Prop) {α : Type} (V : α → Prop) (code : Durable α) : Prop :=
  Keeps (S := syncState) respond (fun _ => True) (fun m _ => G m) V code

/-- What is said does not depend on which payloads are known to be stored. -/
def FreeOfStore (G : Memory → Prop) : Prop :=
  ∀ m externalized, G m → G { m with externalized := externalized }

theorem keeps_anyCall (c : PersistCall) :
    KeepsMemory G (fun _ => True) (Code.call (S := syncState) c) :=
  Keeps.call (fun _ _ _ => trivial) fun _ _ hgood => ⟨hgood, trivial⟩

theorem keeps_anyAttempt (c : PersistCall) :
    KeepsMemory G (fun _ => True) (Code.attempt (S := syncState) c) :=
  Keeps.attempt (fun _ _ _ => trivial) (fun _ _ hgood => ⟨hgood, trivial⟩) fun _ => trivial

theorem keeps_read : KeepsMemory G G readMemory := Keeps.memory fun _ _ hgood => hgood

theorem keeps_added (hfree : FreeOfStore G) (id : Id) :
    KeepsMemory G (fun _ => True) (addExternalized id) :=
  keeps_read.bind fun memory hmemory =>
    Keeps.setMemory (fun _ _ _ => hfree memory _ hmemory) trivial

theorem keeps_saved (state : PersistedSyncState) : KeepsMemory G (fun _ => True) (save state) :=
  keeps_read.bind fun memory _ =>
    keeps_anyCall (.save (toDiskForm memory.externalized state))

theorem keeps_payloadRead (id : Id) :
    KeepsMemory G (fun _ => True) (safeGetPayload options id) := by
  unfold safeGetPayload
  split_ifs
  · exact Keeps.pure trivial
  · refine (keeps_anyAttempt _).bind fun answer _ => ?_
    cases answer <;> exact Keeps.pure trivial

theorem keeps_migrated (hfree : FreeOfStore G) (envelope : OutboxEnvelope) :
    KeepsMemory G (fun _ => True) (migratePayload options envelope) := by
  have hput : KeepsMemory G (fun _ => True)
      (safePutPayload options envelope.revisionId envelope.payloadBase64) := by
    unfold safePutPayload
    split_ifs
    · exact Keeps.pure trivial
    · refine (keeps_anyAttempt _).bind fun answer _ => ?_
      cases answer <;> exact Keeps.pure trivial
  refine hput.bind fun stored _ => ?_
  cases stored with
  | false => exact Keeps.pure trivial
  | true => exact (keeps_added hfree _).bind fun _ _ => Keeps.pure trivial

theorem keeps_deleted (live revisionIds : List Id) :
    KeepsMemory G (fun _ => True) (deleteUnreferenced live revisionIds) := by
  induction revisionIds with
  | nil => exact Keeps.pure trivial
  | cons revisionId rest ih =>
    unfold deleteUnreferenced
    split_ifs
    · exact ih
    · refine (keeps_anyAttempt _).bind fun answer _ => ?_
      cases answer with
      | ok _ => exact ih
      | error _ => exact Keeps.pure trivial

theorem keeps_swept (state : PersistedSyncState) :
    KeepsMemory G (fun _ => True) (sweepPayloads options state) := by
  unfold sweepPayloads
  split_ifs
  · exact Keeps.pure trivial
  · refine (keeps_anyAttempt _).bind fun answer _ => ?_
    cases answer with
    | ok revisionIds => exact keeps_deleted _ revisionIds
    | error _ => exact Keeps.pure trivial

/-- Every one of the envelopes is among those kept or those whose payload is missing. -/
def Covers (envelopes : List OutboxEnvelope) (found : Reconciled) : Prop :=
  ∀ envelope ∈ envelopes,
    (∃ kept ∈ found.outbox, kept.revisionId = envelope.revisionId) ∨
      ∃ row ∈ found.missing, row.revisionId = envelope.revisionId ∧
        row.reason = payloadMissingReason

theorem Covers.keep {kept : OutboxEnvelope} (h : Covers envelopes found)
    (hid : kept.revisionId = envelope.revisionId)
    (houtbox : after.outbox = found.outbox ++ [kept]) (hmissing : after.missing = found.missing) :
    Covers (envelopes ++ [envelope]) after := by
  intro other hother
  rw [houtbox, hmissing]
  rcases mem_append.mp hother with hold | hnew
  · rcases h other hold with ⟨old, hmem, hsame⟩ | hrow
    · exact Or.inl ⟨old, mem_append_left _ hmem, hsame⟩
    · exact Or.inr hrow
  · obtain rfl := mem_singleton.mp hnew
    exact Or.inl ⟨kept, mem_append_right _ (mem_singleton_self _), hid⟩

theorem Covers.lose (h : Covers envelopes found) (houtbox : after.outbox = found.outbox)
    (hmissing : after.missing = found.missing ++ [missingPayloadRow envelope]) :
    Covers (envelopes ++ [envelope]) after := by
  intro other hother
  rw [houtbox, hmissing]
  rcases mem_append.mp hother with hold | hnew
  · rcases h other hold with hkept | ⟨row, hmem, hrow⟩
    · exact Or.inl hkept
    · exact Or.inr ⟨row, mem_append_left _ hmem, hrow⟩
  · obtain rfl := mem_singleton.mp hnew
    exact Or.inr ⟨_, mem_append_right _ (mem_singleton_self _), rfl, rfl⟩

theorem keeps_outboxCovered (hfree : FreeOfStore G) {done : List OutboxEnvelope}
    (hfound : Covers done found) (rest : List OutboxEnvelope) :
    KeepsMemory G (Covers (done ++ rest)) (reconcileOutbox options found rest) := by
  induction rest generalizing done found with
  | nil =>
    rw [append_nil]
    exact Keeps.pure hfound
  | cons envelope rest ih =>
    have hsplit : done ++ envelope :: rest = (done ++ [envelope]) ++ rest := by simp
    rw [hsplit]
    unfold reconcileOutbox
    split_ifs
    · refine (keeps_payloadRead _).bind fun payload _ => ?_
      cases payload with
      | some payload =>
        have hid : { envelope with payloadBase64 := payload }.revisionId = envelope.revisionId := rfl
        exact (keeps_added hfree _).bind fun _ _ => ih (hfound.keep hid rfl rfl)
      | none => exact ih (hfound.lose rfl rfl)
    · exact (keeps_migrated hfree _).bind fun _ _ => ih (hfound.keep rfl rfl rfl)

theorem keeps_stashCovered (hfree : FreeOfStore G) {queued : List OutboxEnvelope}
    (hfound : Covers queued found) (rest : List (Id × OutboxEnvelope)) :
    KeepsMemory G (Covers queued) (reconcileStash options found rest) := by
  induction rest generalizing found with
  | nil => exact Keeps.pure hfound
  | cons entry rest ih =>
    obtain ⟨key, envelope⟩ := entry
    unfold reconcileStash
    split_ifs
    · refine (keeps_payloadRead _).bind fun payload _ => ?_
      cases payload with
      | some payload => exact (keeps_added hfree _).bind fun _ _ => ih hfound
      | none => exact ih hfound
    · exact (keeps_migrated hfree _).bind fun _ _ => ih hfound

end

section
variable {options : SyncStateOptions} {m : Memory} {w : Disk} {now : Timestamp}

/-- A loaded queue and signal. -/
def Holding (queue : List OutboxEnvelope) (signal : Bool) (m : Memory) : Prop :=
  (∃ state, m.cache = some state ∧ state.outbox = queue) ∧ m.recoveryRequired = signal

theorem holding_free (queue : List OutboxEnvelope) (signal : Bool) :
    FreeOfStore (Holding queue signal) := fun _ _ h => h

theorem keeps_settled (queue : List OutboxEnvelope) (signal : Bool) (raw : Raw) :
    KeepsMemory (Holding queue signal) (fun _ => True) (settleProducer options raw) := by
  have hpreserve : KeepsMemory (Holding queue signal) (fun _ => True)
      (preserveProducer (storedProducer raw)
        (parseProducerStateResult (storedProducer raw))) := by
    unfold preserveProducer
    split
    · exact keeps_anyCall (.preserveCorrupt _)
    · exact keeps_anyCall (.preserveCorrupt _)
    · exact Keeps.pure trivial
  refine hpreserve.bind fun _ _ => keeps_read.bind fun memory hmemory => ?_
  obtain ⟨⟨state, hcache, hqueue⟩, _⟩ := hmemory
  rw [hcache]
  dsimp only
  split_ifs
  · exact Keeps.pure trivial
  · have hmissing : KeepsMemory (Holding queue signal) (fun _ => True)
        (missingProducer options (parseProducerStateResult (storedProducer raw))) := by
      unfold missingProducer
      split
      · exact Keeps.pure trivial
      · split_ifs
        · exact Keeps.pure trivial
        · exact (keeps_anyCall .loadLegacyProducer).bind fun _ _ => Keeps.pure trivial
    refine hmissing.bind fun producer _ => ?_
    cases producer with
    | none => exact Keeps.pure trivial
    | some producer =>
      refine (keeps_saved _).bind fun _ _ => keeps_read.bind fun memory' hmemory' => ?_
      exact Keeps.setMemory (fun _ _ _ => ⟨⟨_, rfl, hqueue⟩, hmemory'.2⟩) trivial

/-- The end of a reconciliation, once every queued revision is covered. -/
theorem accounted_of_covers {state : PersistedSyncState} {found : Reconciled}
    (hcovers : Covers state.outbox found)
    (backups : Option (JsObject Id (List OutboxEnvelope))) :
    ∀ envelope ∈ state.outbox,
      AccountedIn (reconciledState state backups found) envelope.revisionId := by
  intro envelope henvelope
  rcases hcovers envelope henvelope with hkept | ⟨row, hrow, hid, hreason⟩
  · exact Or.inl hkept
  · exact Or.inr ⟨row, mem_append_right _ hrow, hid, hreason⟩

/-- The memory holds a state that accounts for the queue. -/
def Accounts (queue : List OutboxEnvelope) (signal : Bool) (m : Memory) : Prop :=
  (∃ state, m.cache = some state ∧
    ∀ envelope ∈ queue, AccountedIn state envelope.revisionId) ∧ m.recoveryRequired = signal

theorem reconcilePayloads_accounts {queue : List OutboxEnvelope} {signal : Bool} {sweep : Bool}
    (h : Holding queue signal m) :
    Leaves (Accounts queue signal) (reconcilePayloads options now sweep) m w := by
  have hfail : ∀ (error : SyncStateError) (m' : Memory), ∀ value : Unit,
      (.error error : Except SyncStateError Unit) = .ok value → Accounts queue signal m' :=
    fun _ _ _ h => by cases h
  have hfree := holding_free queue signal
  unfold reconcilePayloads
  refine visits_memory.mpr ?_
  obtain ⟨⟨state, hcache, rfl⟩, hsignal⟩ := id h
  rw [hcache]
  have hnone : Covers [] {} := fun _ henvelope => absurd henvelope not_mem_nil
  refine visits_bind.mpr ((keeps_outboxCovered hfree hnone state.outbox m w h).mono
    (fun _ hstop => hstop) fun result m₁ w₁ hend => ?_)
  cases result with
  | error error => exact hfail error m₁
  | ok queued =>
    obtain ⟨hheld, hcovers⟩ := hend
    refine visits_bind.mpr ((keeps_stashCovered hfree (hcovers queued rfl) _ m₁ w₁ hheld).mono
      (fun _ hstop => hstop) fun result m₂ w₂ hend => ?_)
    cases result with
    | error error => exact hfail error m₂
    | ok found =>
      obtain ⟨hheld, hcovers⟩ := hend
      have haccounted := accounted_of_covers (hcovers found rfl)
        (withoutExpiredBackups state.reconciliationBackups now)
      have hlast : ∀ m₃ w₃, Holding state.outbox signal m₃ →
          Leaves (Accounts state.outbox signal) (do
            if (found.cacheChanged || found.persistNeeded ||
                withoutExpiredBackups state.reconciliationBackups now ≠
                  state.reconciliationBackups) = false then
              return ()
            else do
              setCache (reconciledState state
                (withoutExpiredBackups state.reconciliationBackups now) found)
              if found.persistNeeded ||
                  withoutExpiredBackups state.reconciliationBackups now ≠
                    state.reconciliationBackups then
                save (reconciledState state
                  (withoutExpiredBackups state.reconciliationBackups now) found) :
            Durable Unit) m₃ w₃ := by
        intro m₃ w₃ hheld
        have hnext : Accounts state.outbox signal { m₃ with cache := some (reconciledState state
            (withoutExpiredBackups state.reconciliationBackups now) found) } :=
          ⟨⟨_, rfl, haccounted⟩, hheld.2⟩
        split_ifs
        · obtain ⟨⟨state', hcache', hqueue⟩, hsignal'⟩ := hheld
          have hsame : Accounts state.outbox signal m₃ := by
            refine ⟨⟨state', hcache', fun envelope henvelope => Or.inl ?_⟩, hsignal'⟩
            exact ⟨envelope, hqueue.symm ▸ henvelope, rfl⟩
          exact fun _ _ => hsame
        · exact ⟨trivial, fun _ _ => hnext, fun error => hfail error _⟩
        · exact fun _ _ => hnext
      cases sweep with
      | false => exact hlast m₂ w₂ hheld
      | true =>
        refine visits_bind.mpr ((keeps_swept _ m₂ w₂ hheld).mono (fun _ hstop => hstop)
          fun result m₃ w₃ hend => ?_)
        cases result with
        | error error => exact hfail error m₃
        | ok _ => exact hlast m₃ w₃ hend.1

/-- The memory answers for the queue of the primary, or of the backup used in
its place. -/
def Answers (options : SyncStateOptions) (primary backup : Raw) (m : Memory) : Prop :=
  ∃ state, m.cache = some state ∧
    Recovered options primary backup (AccountedIn state) m.recoveryRequired

theorem load_answers (hcold : m.cache = none) :
    Leaves (Answers options w.primary w.backup) (load options now) m w := by
  have hfail : ∀ (error : SyncStateError) (m' : Memory), ∀ value : Unit,
      (.error error : Except SyncStateError Unit) = .ok value →
        Answers options w.primary w.backup m' :=
    fun _ _ _ h => by cases h
  have hhydrated : Leaves (Loaded options w.primary w.backup) (hydrate options w.primary) m w :=
    hydrate_loaded hcold
  refine visits_call.mpr ⟨trivial, ?_, fun error => hfail error _⟩
  refine visits_bind.mpr (hhydrated.mono (fun _ hstop => hstop) fun result m₁ w₁ hend => ?_)
  cases result with
  | error error => exact hfail error m₁
  | ok clean =>
    obtain ⟨state, hcache, hrecovered⟩ := hend clean rfl
    have hheld : Holding state.outbox m₁.recoveryRequired m₁ := ⟨⟨state, hcache, rfl⟩, rfl⟩
    refine visits_bind.mpr ((keeps_settled _ _ w.primary m₁ w₁ hheld).mono (fun _ hstop => hstop)
      fun result m₂ w₂ hend => ?_)
    cases result with
    | error error => exact hfail error m₂
    | ok _ =>
      refine (reconcilePayloads_accounts hend.1).mono (fun _ hstop => hstop)
        fun result m₃ w₃ hend value hvalue => ?_
      obtain ⟨⟨state', hcache', haccounted⟩, hsignal⟩ := hend value hvalue
      refine ⟨state', hcache', hsignal.symm ▸ hrecovered.mono ?_⟩
      rintro id ⟨envelope, henvelope, rfl⟩
      exact haccounted envelope henvelope

end

/-- Whatever the two blobs are and whichever calls fail, a load that returns
answers for the queued work. -/
theorem load_recovered (options : SyncStateOptions) (now : Timestamp) (m : Memory) (w : Disk)
    (choices : List (Choice SyncStateError)) (m' : Memory) (w' : Disk) (hcold : m.cache = none)
    (hload : exec respond (load options now) m w choices = (.returned () m', w')) :
    ∃ state, m'.cache = some state ∧
      Recovered options w.primary w.backup (AccountedIn state) m'.recoveryRequired := by
  have hleaves : Leaves (Answers options w.primary w.backup) (load options now) m w :=
    load_answers hcold
  have hends := hleaves.exec choices
  rw [hload] at hends
  exact hends () rfl

/-- A primary whose cursor is damaged, over a saved state without the queued revision. -/
def rewoundDisk : Disk where
  primary := .record
    { cursor := .unreadable
      outbox := .readable [.readable (plainEnvelope 7 3 [] [])]
      locallyAuthored := .readable []
      deferred := .readable [] }
  backup := .record (written emptyState)

theorem load_recovered_rewound :
    ∃ m' w' state,
      exec respond (load plainOptions 1) {} rewoundDisk [] = (.returned () m', w') ∧
      m'.cache = some state ∧ Recovered plainOptions rewoundDisk.primary rewoundDisk.backup
        (AccountedIn state) m'.recoveryRequired := by
  obtain ⟨m', w', hload⟩ : ∃ m' w',
      exec respond (load plainOptions 1) {} rewoundDisk [] = (.returned () m', w') :=
    ⟨_, _, rfl⟩
  obtain ⟨state, hstate⟩ := load_recovered plainOptions 1 {} rewoundDisk [] m' w' rfl hload
  exact ⟨m', w', state, hload, hstate⟩

/-- No queued revision left out without the signal, whatever the blobs. -/
structure NeverSilent (primary backup : Raw) (state : PersistedSyncState) (signal : Bool) :
    Prop where
  queued : (∀ envelopes, (readableOutbox primary <|> readableOutbox backup) = some envelopes →
    ∀ envelope ∈ envelopes, QueuedIn state envelope.revisionId) ∨ signal = true
  unreadable : ∀ sections, primary = .record sections → sections.outbox = .unreadable →
    signal = true

/-- No primary, but a backup with one queued revision. -/
def absentDisk : Disk where
  backup := .record (written { emptyState with outbox := [plainEnvelope 7 3 [] []] })

/-- A sound primary with one queued revision, whose stored payload is gone. -/
def payloadGoneDisk : Disk where
  primary := .record (written
    { emptyState with
      outbox := [{ plainEnvelope 7 3 [] [] with payloadExternalized := some true }] })

/-- An outbox that is no list, over a sound backup. -/
def unreadDisk : Disk where
  primary := .record
    { cursor := .readable 0
      outbox := .unreadable
      locallyAuthored := .readable []
      deferred := .readable [] }
  backup := .record (written emptyState)

def SilentAt (w : Disk) : Prop :=
  ∃ m' w' state, exec respond (load plainOptions 1) {} w [] = (.returned () m', w') ∧
    m'.cache = some state ∧ ¬ NeverSilent w.primary w.backup state m'.recoveryRequired

/-- The absent primary is a first run, the revision without its payload is in
the quarantine, and of a queue that cannot be read the sound backup says nothing. -/
theorem load_silent : SilentAt absentDisk ∧ SilentAt payloadGoneDisk ∧ SilentAt unreadDisk := by
  have hlost : ∀ {state : PersistedSyncState} {id : Id}, state.outbox = [] → ¬ QueuedIn state id := by
    rintro state id hempty ⟨envelope, henvelope, _⟩
    rw [hempty] at henvelope
    cases henvelope
  refine ⟨⟨_, _, _, rfl, rfl, fun h => ?_⟩, ⟨_, _, _, rfl, rfl, fun h => ?_⟩,
    ⟨_, _, _, rfl, rfl, fun h => ?_⟩⟩
  · rcases h.queued with hqueued | hsignal
    · exact hlost rfl (hqueued _ rfl _ mem_cons_self)
    · cases hsignal
  · rcases h.queued with hqueued | hsignal
    · exact hlost rfl (hqueued _ rfl _ mem_cons_self)
    · cases hsignal
  · cases h.unreadable _ rfl rfl

end Havemind.QueueRecovery
