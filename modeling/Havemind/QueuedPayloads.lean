import Havemind.DurableReload

/-!
The bytes the queued revisions were enqueued with, through the operations of the
durable document and through a save and a load of it. A saved envelope holds its
bytes or says that the payload store does; the store holds no other bytes for a
revision than those.
-/
namespace Havemind.QueuedPayloads

open JsObject JsText RevisionSchema SyncRunner DurableState PersistedBlob DurableLoad
  DurableOperations DurableSections DurableReload Option List

variable {options : SyncStateOptions} {now : Timestamp} {s s' : PersistedSyncState}

section

/-- Every envelope that is queued or stashed is as `P` says. -/
structure Every (P : OutboxEnvelope → Prop) (s : PersistedSyncState) : Prop where
  outbox : ∀ envelope ∈ s.outbox, P envelope
  stash : ∀ key envelope, s.quarantinedEnvelopes.get key = some envelope → P envelope

variable {P Q : OutboxEnvelope → Prop} {stash : JsObject Id OutboxEnvelope} {key : Id}

theorem Every.mono (h : Every P s) (hpq : ∀ envelope, P envelope → Q envelope) : Every Q s :=
  ⟨fun envelope hmem => hpq envelope (h.outbox envelope hmem),
    fun key envelope hget => hpq envelope (h.stash key envelope hget)⟩

theorem every_empty : Every P emptyState :=
  ⟨fun _ hmem => (nomatch hmem), fun _ _ hget => nomatch hget⟩

/-- The queue and the stash are as they were. -/
theorem Every.same (h : Every P s) (houtbox : s'.outbox = s.outbox)
    (hstash : s'.quarantinedEnvelopes = s.quarantinedEnvelopes) : Every P s' := by
  refine ⟨?_, ?_⟩
  · rw [houtbox]
    exact h.outbox
  · rw [hstash]
    exact h.stash

theorem every_trimmed (h : Every P s) : Every P (trimmed options s) := by
  unfold trimmed
  split_ifs
  · exact h
  · exact h.same rfl rfl

theorem stash_evictFrom {budget total : ℤ}
    (h : ∀ key envelope, stash.get key = some envelope → P envelope)
    (entries : List (Id × OutboxEnvelope)) :
    ∀ key envelope, (evictFrom budget total stash entries).get key = some envelope →
      P envelope := by
  induction entries generalizing total stash with
  | nil => exact h
  | cons entry rest ih =>
    obtain ⟨evicted, _⟩ := entry
    unfold evictFrom
    split_ifs
    · exact h
    · refine ih fun key envelope hget => ?_
      rw [get_erase] at hget
      split_ifs at hget
      exact h key envelope hget

theorem stash_set {envelope : OutboxEnvelope}
    (h : ∀ key envelope, stash.get key = some envelope → P envelope) (hset : P envelope) :
    ∀ other stored, (stash.set key envelope).get other = some stored → P stored := by
  intro other stored hget
  rw [get_set] at hget
  split_ifs at hget with hkey
  · cases hget
    exact hset
  · exact h other stored hget

theorem stash_erase (h : ∀ key envelope, stash.get key = some envelope → P envelope) :
    ∀ other stored, (stash.erase key).get other = some stored → P stored := by
  intro other stored hget
  rw [get_erase] at hget
  split_ifs at hget
  exact h other stored hget

theorem outbox_filter (h : ∀ envelope ∈ s.outbox, P envelope) (keep : OutboxEnvelope → Bool) :
    ∀ envelope ∈ s.outbox.filter keep, P envelope :=
  fun envelope hmem => h envelope (mem_of_mem_filter hmem)

theorem outbox_concat {outbox : List OutboxEnvelope} {added : OutboxEnvelope}
    (h : ∀ envelope ∈ outbox, P envelope) (hadded : P added) :
    ∀ envelope ∈ outbox ++ [added], P envelope := by
  intro envelope hmem
  rcases mem_append.mp hmem with hold | hnew
  · exact h envelope hold
  · rw [mem_singleton.mp hnew]
    exact hadded

end

variable (bytes : Id → JsString)

def Exact (envelope : OutboxEnvelope) : Prop :=
  envelope.payloadBase64 = bytes envelope.revisionId

/-- The bytes are there, or said to be in the store. -/
def Carried (envelope : OutboxEnvelope) : Prop :=
  Exact bytes envelope ∨ envelope.payloadExternalized = some true

/-- The envelope a call enqueues. -/
def enqueued : Operation → Option OutboxEnvelope
  | .startProducerRecovery _ replacement => replacement
  | .commitProducerChange _ replacement => replacement
  | .enqueueAutomaticMerge envelope => some envelope
  | .enqueue envelope => some envelope
  | _ => none

/-- `bytes` says what the call enqueues its revision with. -/
def Enqueues (operation : Operation) : Prop :=
  ∀ envelope ∈ enqueued operation, Exact bytes envelope

/-- What is saved is carried. -/
def RawCarried : Raw → Prop
  | .record sections =>
    (∀ outbox, sections.outbox = .readable outbox →
      ∀ envelope, RawEnvelope.readable envelope ∈ outbox → Carried bytes envelope) ∧
    ∀ stash, sections.quarantinedEnvelopes = .readable stash →
      ∀ key envelope, stash.get key = some envelope → Carried bytes envelope
  | _ => True

structure DiskCarried (w : Disk) : Prop where
  primary : RawCarried bytes w.primary
  backup : RawCarried bytes w.backup
  payloads : ∀ revisionId payload, w.payloads.get revisionId = some payload →
    payload = bytes revisionId

variable {bytes} {sections : RawState} {record : ProducerRecovery} {externalized : List Id}
  {envelope : OutboxEnvelope}

theorem every_swapped (h : Every (Exact bytes) s) {replacement : Option OutboxEnvelope}
    (hnew : ∀ envelope ∈ replacement, Exact bytes envelope) :
    Every (Exact bytes) (swapped s now record replacement) := by
  refine ⟨fun envelope hmem => ?_, h.stash⟩
  rcases mem_append.mp hmem with hold | hadded
  · exact h.outbox envelope (mem_of_mem_filter hold)
  · obtain ⟨added, hreplacement, rfl⟩ := mem_map.mp hadded
    exact hnew added (Option.mem_toList.mp hreplacement)

theorem every_rolledBack (h : Every P s) : Every P (rolledBack s now record) := by
  unfold rolledBack
  refine ⟨outbox_filter h.outbox _, ?_⟩
  cases record.applyState with
  | none => exact h.stash
  | some undo => exact h.stash

theorem every_quarantined (h : Every P s) {revisionId : Id} {reason : String} :
    Every P (quarantined options revisionId reason s) := by
  refine ⟨outbox_filter h.outbox _, ?_⟩
  have hstash : ∀ key envelope, (stashWith s revisionId).get key = some envelope →
      P envelope := by
    unfold stashWith
    split
    · exact h.stash
    · rename_i failed hqueued
      exact stash_set h.stash (h.outbox failed (mem_of_find?_eq_some hqueued))
  exact stash_evictFrom hstash _

/-- An operation queues and stashes what was, and what it enqueues. -/
theorem nextState_exact {operation : Operation} (h : Every (Exact bytes) s)
    (henqueues : Enqueues bytes operation) (hnext : nextState options now operation s = some s') :
    Every (Exact bytes) s' := by
  cases operation
  case startProducerRecovery record replacement =>
    simp only [nextState] at hnext
    split_ifs at hnext
    cases hnext
    exact (every_swapped h henqueues).same rfl rfl
  case commitProducerChange record replacement =>
    simp only [nextState] at hnext
    split_ifs at hnext
    cases hnext
    exact (every_swapped h henqueues).same rfl rfl
  case recoverProducerQueue id =>
    obtain ⟨record, -, hrecord⟩ := bind_eq_some_iff.mp hnext
    split at hrecord
    · cases hrecord
      exact h.same rfl rfl
    · split_ifs at hrecord
      cases hrecord
      exact every_rolledBack h
  case enqueueAutomaticMerge envelope =>
    obtain ⟨record, -, rfl⟩ := map_eq_some_iff.mp hnext
    have hadded : Exact bytes { envelope with enqueuedAt := some now } := henqueues envelope rfl
    exact ⟨outbox_concat h.outbox hadded, h.stash⟩
  case retireEquivalentMerges event =>
    simp only [nextState] at hnext
    split_ifs at hnext
    cases hnext
    exact ⟨outbox_filter h.outbox _, h.stash⟩
  case recordPushReceipt receipt =>
    cases hnext
    exact ⟨outbox_filter h.outbox _, h.stash⟩
  case quarantineOutboxItem revisionId reason =>
    cases hnext
    exact every_quarantined h
  case enqueue envelope =>
    cases hnext
    have hadded : Exact bytes { envelope with enqueuedAt := envelope.enqueuedAt <|> some now } :=
      henqueues envelope rfl
    exact ⟨outbox_concat (outbox_filter h.outbox _) hadded, h.stash⟩
  case requeueQuarantined revisionId =>
    obtain ⟨stashed, hstashed, rfl⟩ := map_eq_some_iff.mp hnext
    have hadded : Exact bytes { stashed with enqueuedAt := some now } :=
      h.stash revisionId stashed hstashed
    exact ⟨outbox_concat (outbox_filter h.outbox _) hadded, stash_erase h.stash⟩
  case discardQuarantined revisionId =>
    simp only [nextState] at hnext
    split_ifs at hnext
    cases hnext
    exact ⟨h.outbox, stash_erase h.stash⟩
  case forgetPath | forgetBaseHash | forgetBaseContent =>
    simp only [nextState] at hnext
    split_ifs at hnext
    cases hnext
    exact h.same rfl rfl
  all_goals
    cases hnext
    exact h.same rfl rfl

theorem carried_strip (h : Carried bytes envelope) :
    Carried bytes (strip externalized envelope) := by
  unfold strip
  split_ifs
  · exact .inr rfl
  · exact h

theorem every_toDiskForm (h : Every (Carried bytes) s) :
    Every (Carried bytes) (toDiskForm externalized s) := by
  unfold toDiskForm
  split_ifs
  · exact h
  · refine ⟨fun envelope hmem => ?_, fun key envelope hget => ?_⟩
    · obtain ⟨kept, hkept, rfl⟩ := mem_map.mp hmem
      exact carried_strip (h.outbox kept hkept)
    · dsimp only at hget
      rw [get_mapValues] at hget
      obtain ⟨kept, hkept, rfl⟩ := map_eq_some_iff.mp hget
      exact carried_strip (h.stash key kept hkept)

theorem rawCarried_written (h : Every (Carried bytes) s) :
    RawCarried bytes (.record (written s)) := by
  refine ⟨fun outbox houtbox envelope hmem => ?_, fun stash hstash => ?_⟩
  · cases houtbox
    obtain ⟨saved, hsaved, hsame⟩ := mem_map.mp hmem
    rw [← RawEnvelope.readable.inj hsame]
    exact h.outbox saved hsaved
  · cases hstash
    exact h.stash

theorem carried_parseEnvelope (h : Carried bytes envelope) :
    Carried bytes (parseEnvelope envelope) := by
  refine h.imp_right fun houtside => ?_
  unfold parseEnvelope
  rw [houtside]
  rfl

theorem readable_of_toOption {α : Type} {field : PersistedBlob.Field α} {value : α}
    (h : field.toOption = some value) : field = .readable value := by
  cases field with
  | readable read =>
    cases h
    rfl
  | absent | unreadable => cases h

theorem carried_parseOutboxEntries (options : SyncStateOptions) {outbox : List RawEnvelope}
    (h : ∀ envelope, RawEnvelope.readable envelope ∈ outbox → Carried bytes envelope) :
    ∀ envelope ∈ (parseOutboxEntries options outbox).1, Carried bytes envelope := by
  intro envelope hmem
  obtain ⟨raw, hraw, hparsed⟩ := mem_filterMap.mp hmem
  cases raw with
  | unreadable revisionId fileId => cases hparsed
  | readable saved =>
    cases hparsed
    exact carried_parseEnvelope (h saved hraw)

theorem carried_parseEnvelopeMap {stash : JsObject Id OutboxEnvelope}
    (h : ∀ key envelope, stash.get key = some envelope → Carried bytes envelope) :
    ∀ key envelope, (parseEnvelopeMap stash).get key = some envelope →
      Carried bytes envelope := by
  intro key envelope hget
  unfold parseEnvelopeMap at hget
  rw [get_mapValues] at hget
  obtain ⟨saved, hsaved, rfl⟩ := map_eq_some_iff.mp hget
  exact carried_parseEnvelope (h key saved hsaved)

/-- The stash of a section a reader cannot use is empty. -/
theorem carried_stashField (h : RawCarried bytes (.record sections)) :
    ∀ key envelope, (parseEnvelopeMap (sections.quarantinedEnvelopes.orDefault ∅)).get key =
      some envelope → Carried bytes envelope := by
  refine carried_parseEnvelopeMap ?_
  cases hstash : sections.quarantinedEnvelopes with
  | readable stash => exact h.2 stash hstash
  | absent | unreadable => exact fun _ _ hget => nomatch hget

theorem carried_strictParse (h : RawCarried bytes (.record sections))
    (hparse : strictParse options sections = some s) : Every (Carried bytes) s := by
  unfold strictParse at hparse
  split_ifs at hparse
  split at hparse
  · rename_i cursor outbox authored deferred _ houtbox _ _
    obtain ⟨parsed, -, rfl⟩ := map_eq_some_iff.mp hparse
    exact ⟨carried_parseOutboxEntries options (h.1 outbox (readable_of_toOption houtbox)),
      carried_stashField h⟩
  · cases hparse

theorem carried_salvageState (h : RawCarried bytes (.record sections))
    (hsalvage : salvageState options sections = some s) : Every (Carried bytes) s := by
  unfold salvageState at hsalvage
  obtain ⟨outbox, houtbox, rfl⟩ := map_eq_some_iff.mp hsalvage
  exact ⟨carried_parseOutboxEntries options (h.1 outbox (readable_of_toOption houtbox)),
    carried_stashField h⟩

end Havemind.QueuedPayloads
