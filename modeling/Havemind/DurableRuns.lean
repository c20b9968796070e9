import Havemind.DurableReload
import Havemind.Runs

/-!
Runs of a device's durable document: calls one after another, each with any failure
of a read or a write in it and any stop, readers that load the document, and
restarts. A property the operations and the loads keep holds after every run.
-/
namespace Havemind.DurableRuns

open RevisionSchema AwaitCode Runs DurableState DurableLoad DurableOperations DurableSections
  DurableReload

variable {options : SyncStateOptions} {now : Timestamp}

structure SyncWorld where
  memory : Memory := {}
  disk : Disk := {}
  deriving DecidableEq

/-- What happens to the document. The choices say what comes of each await. -/
inductive SyncAction
  | call (operation : Operation) (now : Timestamp) (choices : List (Choice SyncStateError))
  | read (now : Timestamp) (choices : List (Choice SyncStateError))
  | restart

/-- The world after a run of some code: a stop loses the memory. -/
def settle {α : Type} : Ending syncState α × Disk → SyncWorld
  | (.returned _ memory, disk) => ⟨memory, disk⟩
  | (.threw _ memory, disk) => ⟨memory, disk⟩
  | (.stopped, disk) => ⟨{}, disk⟩

def runCode {α : Type} (code : Durable α) (world : SyncWorld)
    (choices : List (Choice SyncStateError)) : Ending syncState α × Disk :=
  exec (S := syncState) respond code world.memory world.disk choices

def syncStep (options : SyncStateOptions) (world : SyncWorld) : SyncAction → Option SyncWorld
  | .call operation now choices =>
    some (settle (runCode (perform options now operation) world choices))
  | .read now choices => some (settle (runCode (ensureLoaded options now) world choices))
  | .restart => some ⟨{}, world.disk⟩

/-- Runs whose calls are among those allowed. -/
def calling (allowed : Operation → Prop) (_ : SyncWorld) : SyncAction → Prop
  | .call operation _ _ => allowed operation
  | _ => True

section
variable {P : PersistedSyncState → Prop} {allowed : Operation → Prop} {m : Memory} {w : Disk}
  {state : PersistedSyncState} {world world' : SyncWorld} {operation : Operation}
  {next : PersistedSyncState} {w' : Disk}

variable (hp : Durably options allowed P)
include hp

theorem nextState_holds (hallowed : allowed operation) (hstate : P state)
    (hnext : next ∈ (nextState options now operation state).map (trimmed options)) : P next := by
  obtain ⟨after, hafter, rfl⟩ := Option.map_eq_some_iff.mp hnext
  exact hp.next now operation _ _ hstate hallowed hafter

omit hp in
theorem diskHolds_same (h : DiskHolds P w) (hsame : SameRecord w w') :
    DiskHolds P w' := ⟨hsame.primary ▸ h.primary, hsame.backup ▸ h.backup⟩

theorem diskHolds_saved (h : DiskHolds P w) (hnext : P next) (hsaved : SavedRecord next w w') :
    DiskHolds P w' := by
  obtain ⟨externalized, hprimary⟩ := hsaved.primary
  refine ⟨?_, .inl (hsaved.backup ▸ h.primary)⟩
  rw [hprimary]
  exact ⟨_, hp.reload _ _ hnext (reloaded_toDiskForm externalized next), rfl⟩

theorem operationSection_keeps (hallowed : allowed operation) (hstate : P state) :
    KeepsState P False (fun _ => True) (operationSection options now operation state) := by
  intro m w hgood
  refine (operationSection_spec operation).mono (fun w' hstop => ?_) fun result m' w' hend => ?_
  · rcases hstop with hsame | ⟨next, hnext, hsaved⟩
    · exact diskHolds_same hgood.2 hsame
    · exact diskHolds_saved hp hgood.2 (nextState_holds hp hallowed hstate hnext) hsaved
  · refine ⟨?_, fun _ _ => trivial⟩
    rcases hend with ⟨hcache, hsame, -⟩ | ⟨next, hnext, hcache, hsaved, -⟩
    · exact ⟨⟨fun s hs => hgood.1.cached s (hcache ▸ hs), False.elim⟩, diskHolds_same hgood.2 hsame⟩
    · have hkept := nextState_holds hp hallowed hstate hnext
      refine ⟨⟨fun s hs => ?_, False.elim⟩, diskHolds_saved hp hgood.2 hkept hsaved⟩
      rw [hcache] at hs
      cases hs
      exact hkept

theorem perform_keeps (hallowed : allowed operation) :
    KeepsState P False (fun _ => True) (perform options now operation) := by
  unfold perform
  split_ifs
  · exact Keeps.pure trivial
  · exact (ensureLoaded_keeps hp).bind fun _ hstate => operationSection_keeps hp hallowed hstate

omit hp in
theorem settle_holds {α : Type} {V : α → Prop} {code : Durable α}
    (hcode : KeepsState P False V code) (h : Holds P False world.memory world.disk)
    (choices : List (Choice SyncStateError)) :
    Holds P False (settle (runCode code world choices)).memory
      (settle (runCode code world choices)).disk := by
  have hend := (hcode _ _ h).exec choices
  unfold runCode
  generalize exec (S := syncState) respond code world.memory world.disk choices = ending at hend
  obtain ⟨ending, disk⟩ := ending
  cases ending with
  | returned value memory => exact hend.1
  | threw error memory => exact hend.1
  | stopped => exact ⟨⟨fun _ hs => (nomatch hs), False.elim⟩, hend⟩

theorem step_holds {action : SyncAction} (h : Holds P False world.memory world.disk)
    (hallowed : calling allowed world action)
    (hstep : syncStep options world action = some world') :
    Holds P False world'.memory world'.disk := by
  cases action with
  | call operation now choices =>
    cases hstep
    exact settle_holds (perform_keeps hp hallowed) h choices
  | read now choices =>
    cases hstep
    exact settle_holds (ensureLoaded_keeps hp) h choices
  | restart =>
    cases hstep
    exact ⟨⟨fun _ hs => (nomatch hs), False.elim⟩, h.2⟩

/-- What the operations and the loads keep holds after every run. -/
theorem reached_holds (hstart : Holds P False world.memory world.disk)
    (h : Reached (syncStep options) (calling allowed) world world') :
    Holds P False world'.memory world'.disk :=
  h.invariant (P := fun world => Holds P False world.memory world.disk) hstart
    fun _ _ _ hbefore hallowed hstep => step_holds hp hbefore hallowed hstep

/-- A document with the state saved and cached. -/
theorem holds_saved (hnext : P next) (hjournal : ∀ s, P s → s.producerRecovery ≠ none)
    (hcache : m.cache = some next) (hsaved : SavedRecord next w w') : Holds P False m w' := by
  obtain ⟨externalized, hprimary⟩ := hsaved.primary
  refine ⟨⟨fun s hs => ?_, False.elim⟩, ?_, .inr hjournal⟩
  · rw [hcache] at hs
    cases hs
    exact hnext
  · rw [hprimary]
    exact ⟨_, hp.reload _ _ hnext (reloaded_toDiskForm externalized next), rfl⟩

/-- The state a call is made on has the property. -/
theorem loaded_holds {choices : List (Choice SyncStateError)}
    (h : Holds P False world.memory world.disk)
    (hload : runCode (ensureLoaded options now) world choices = (.returned state m, w)) :
    P state ∧ Holds P False m w := by
  have hkeeps : KeepsState P False P (ensureLoaded options now) := ensureLoaded_keeps hp
  have hend := (hkeeps _ _ h).exec choices
  unfold runCode at hload
  rw [hload] at hend
  exact ⟨hend.2 state rfl, hend.1⟩

end

section
variable {operation : Operation} {state next : PersistedSyncState} {world : SyncWorld}
  {choices : List (Choice SyncStateError)} {value : Bool} {m : Memory} {w : Disk}

/-- A call that returned ran its section on a state that was loaded. -/
theorem perform_returned (hneeds : needsNoState operation = false)
    (h : runCode (perform options now operation) world choices = (.returned value m, w)) :
    ∃ state loaded rest,
      runCode (ensureLoaded options now) world choices =
        (.returned state loaded.memory, loaded.disk) ∧
      runCode (operationSection options now operation state) loaded rest =
        (.returned value m, w) := by
  unfold perform at h
  rw [hneeds] at h
  obtain ⟨state, m₁, w₁, rest, hload, hsection⟩ := exec_bind_returned h
  exact ⟨state, ⟨m₁, w₁⟩, rest, hload, hsection⟩

theorem ensureLoaded_warm {s : PersistedSyncState} (hwarm : world.memory.cache = some s)
    (h : runCode (ensureLoaded options now) world choices = (.returned state m, w)) :
    state = s ∧ m = world.memory ∧ w = world.disk := by
  obtain ⟨⟨cache, externalized, recoveryRequired⟩, disk⟩ := world
  cases hwarm
  cases h
  exact ⟨rfl, rfl, rfl⟩

/-- A section with a state to save that returned has saved and cached it. -/
theorem section_returned (hnext : nextState options now operation state = some next)
    (h : runCode (operationSection options now operation state) world choices =
      (.returned value m, w)) :
    m.cache = some (trimmed options next) ∧ SavedRecord (trimmed options next) world.disk w := by
  have hspec : Visits (S := syncState) respond
      (Stops ((nextState options now operation state).map (trimmed options)) world.disk)
      (Finishes ((nextState options now operation state).map (trimmed options)) world.memory
        world.disk) (operationSection options now operation state) world.memory world.disk :=
    operationSection_spec operation
  have hend := hspec.exec choices
  unfold runCode at h
  rw [h, hnext] at hend
  rcases hend with ⟨-, -, hnone | ⟨error, herror⟩⟩ | ⟨saved, hsaved, hcache, hrecord, -⟩
  · cases hnone
  · cases herror
  · cases hsaved
    exact ⟨hcache, hrecord⟩

end

/-- A device as it is set up by default, with synthetic ids of its own. -/
def plainOptions : SyncStateOptions where
  failedToQueueRevisionId := fun path => path + 1000
  corruptEnvelopeId := fun index => index + 2000

def plainEnvelope (revisionId fileId : Id) (parents : List Id) (payload : JsText.JsString) :
    OutboxEnvelope where
  header :=
    { protocol := ⟨1, 0⟩
      vaultId := 1
      fileId := fileId
      revisionId := revisionId
      parentRevisionIds := parents
      expectedMemberId := 1
      expectedDeviceId := 1 }
  idempotencyKey := []
  payloadBase64 := payload
  operationId := revisionId
  revisionId := revisionId
  fileId := fileId
  contentHash := revisionId

/-- The world after calls that all go well. -/
def callAll (options : SyncStateOptions) : SyncWorld → List Operation → SyncWorld
  | world, [] => world
  | world, operation :: rest =>
    callAll options (settle (runCode (perform options 1 operation) world [])) rest

theorem reached_callAll {allowed : Operation → Prop} (world : SyncWorld)
    (operations : List Operation) (h : ∀ operation ∈ operations, allowed operation) :
    Reached (syncStep options) (calling allowed) world (callAll options world operations) := by
  induction operations generalizing world with
  | nil => exact .start
  | cons operation rest ih =>
    have hallowed : calling allowed world (.call operation 1 []) := h operation List.mem_cons_self
    have hfirst : Reached (syncStep options) (calling allowed) world
        (settle (runCode (perform options 1 operation) world [])) := .step .start hallowed rfl
    exact hfirst.trans (ih _ fun later hlater => h later (List.mem_cons_of_mem _ hlater))

/-- What a run returned. -/
def answer {α : Type} : Ending syncState α × Disk → Option α
  | (.returned value _, _) => some value
  | _ => none

theorem eq_of_answer {α : Type} {code : Durable α} {choices : List (Choice SyncStateError)}
    {world : SyncWorld} {value : α} (h : answer (runCode code world choices) = some value) :
    runCode code world choices = (.returned value (settle (runCode code world choices)).memory,
      (settle (runCode code world choices)).disk) := by
  generalize runCode code world choices = ending at h
  obtain ⟨ending, disk⟩ := ending
  cases ending with
  | returned other memory =>
    cases h
    rfl
  | threw error memory => cases h
  | stopped => cases h

def cached (world : SyncWorld) : PersistedSyncState := world.memory.cache.getD emptyState

end Havemind.DurableRuns
