import Havemind.Runs
import Mathlib.Data.Nat.Notation

/-!
The single-flight loop of the sync runner. A trigger starts a loop or marks the
cycle in flight for one rerun. The body of a cycle runs until its promise settles,
and the loop that awaits it resumes in a later segment: triggers, stops and backoff
timers fall anywhere in between. A synchronous segment is one step; what the body
does to other stores is left out.
-/
namespace Havemind.SingleFlight

open Runs

inductive SyncCycleStatus
  | synced
  | conflict
  | deferred
  | offline
  | unauthenticated
  deriving DecidableEq

/-- How the promise of a cycle settles. A failed push or pull is caught and gives a
result; the promise rejects when `scheduler` or `onCycleComplete` throws. -/
inductive Settlement
  | resolved (status : SyncCycleStatus)
  | observerThrew (status : SyncCycleStatus)
  | schedulerThrew
  deriving DecidableEq

def Settlement.rejects : Settlement → Bool
  | .resolved _ => false
  | .observerThrew _ => true
  | .schedulerThrew => true

/-- A call of `loop` waiting for its cycle. -/
structure Loop where
  cycle : ℕ
  settlement : Option Settlement
  deriving DecidableEq

structure Runner where
  inFlight : Option ℕ
  rerunRequested : Bool
  failureCount : ℕ
  cycleCounter : ℕ
  stopped : Bool
  pendingBackoffCancellations : List ℕ
  loops : List Loop
  deriving DecidableEq

inductive Event
  | trigger
  | stop
  | settle (cycle : ℕ) (settlement : Settlement)
  | resume (cycle : ℕ)
  | backoff (cycle : ℕ)
  deriving DecidableEq

def idle : Runner where
  inFlight := none
  rerunRequested := false
  failureCount := 0
  cycleCounter := 0
  stopped := false
  pendingBackoffCancellations := []
  loops := []

namespace Runner

/-- One turn of the `do` body of `loop`. -/
def startCycle (runner : Runner) : Runner :=
  { runner with
    rerunRequested := false
    cycleCounter := runner.cycleCounter + 1
    inFlight := some (runner.cycleCounter + 1)
    loops := ⟨runner.cycleCounter + 1, none⟩ :: runner.loops }

def trigger (runner : Runner) : Runner :=
  if runner.stopped then runner
  else if runner.inFlight ≠ none then { runner with rerunRequested := true }
  else runner.startCycle

def stop (runner : Runner) : Runner :=
  { runner with stopped := true, pendingBackoffCancellations := [] }

/-- A scheduler that throws has not scheduled anything. -/
def scheduleBackoff (runner : Runner) (cycle : ℕ) (throws : Bool) : Runner :=
  if runner.stopped then runner
  else
    { runner with
      failureCount := runner.failureCount + 1
      pendingBackoffCancellations :=
        if throws then runner.pendingBackoffCancellations
        else cycle :: runner.pendingBackoffCancellations }

/-- What the end of `runCycle` does before its promise settles. -/
def completeCycle (runner : Runner) (cycle : ℕ) : Settlement → Runner
  | .schedulerThrew => runner.scheduleBackoff cycle true
  | .resolved .offline | .observerThrew .offline => runner.scheduleBackoff cycle false
  | .resolved .unauthenticated | .observerThrew .unauthenticated => runner
  | .resolved _ | .observerThrew _ => { runner with failureCount := 0 }

def settleLoop (cycle : ℕ) (settlement : Settlement) (loop : Loop) : Loop :=
  if loop.cycle = cycle then { loop with settlement := some settlement } else loop

def settle (runner : Runner) (cycle : ℕ) (settlement : Settlement) : Runner :=
  let completed := runner.completeCycle cycle settlement
  { completed with loops := completed.loops.map (settleLoop cycle settlement) }

/-- The continuation of `await cycle`, with the test of the loop. -/
def resume (runner : Runner) (cycle : ℕ) (settlement : Settlement) : Runner :=
  let landed := { runner with
    inFlight := none
    loops := runner.loops.filter fun loop => loop.cycle ≠ cycle }
  if settlement.rejects then landed
  else if landed.rerunRequested && !landed.stopped then landed.startCycle
  else landed

/-- The timer of a backoff leaves the set before it triggers. -/
def clearBackoff (runner : Runner) (cycle : ℕ) : Runner :=
  { runner with
    pendingBackoffCancellations := runner.pendingBackoffCancellations.erase cycle }

/-- The loops whose cycle body has not come to its end. -/
def running (runner : Runner) : List Loop :=
  runner.loops.filter fun loop => loop.settlement = none

end Runner

open Runner

def step (runner : Runner) : Event → Option Runner
  | .trigger => some runner.trigger
  | .stop => some runner.stop
  | .settle cycle settlement =>
    if ⟨cycle, none⟩ ∈ runner.loops then some (runner.settle cycle settlement) else none
  | .resume cycle =>
    match runner.loops.find? fun loop => loop.cycle = cycle with
    | some ⟨_, some settlement⟩ => some (runner.resume cycle settlement)
    | _ => none
  | .backoff cycle =>
    if cycle ∈ runner.pendingBackoffCancellations then
      some (runner.clearBackoff cycle).trigger
    else none

/-- No loop resumes from a rejected cycle that a trigger was coalesced into. -/
def Undisturbed (runner : Runner) : Event → Prop
  | .resume cycle =>
    runner.rerunRequested = true → runner.stopped = false →
      ∀ loop ∈ runner.loops, loop.cycle = cycle → ∀ settlement ∈ loop.settlement,
        settlement.rejects = false
  | _ => True

/-- Any order of events. -/
def Anything (_ : Runner) (_ : Event) : Prop := True

/-- No loop waits, or one loop waits for the cycle counted last. -/
def Single (runner : Runner) : Prop :=
  (runner.inFlight = none ∧ runner.loops = []) ∨
    ∃ settlement, runner.inFlight = some runner.cycleCounter ∧
      runner.loops = [⟨runner.cycleCounter, settlement⟩]

/-- What backoff bookkeeping leaves alone. -/
structure SameFlight (runner runner' : Runner) : Prop where
  inFlight : runner'.inFlight = runner.inFlight
  rerunRequested : runner'.rerunRequested = runner.rerunRequested
  cycleCounter : runner'.cycleCounter = runner.cycleCounter
  stopped : runner'.stopped = runner.stopped
  loops : runner'.loops = runner.loops

variable {runner : Runner} {cycle : ℕ} {settlement : Settlement} {next : Runner}
  {event : Event} {guard : Runner → Event → Prop} {loop : Loop} {later : Runner}

theorem sameFlight_scheduleBackoff (runner : Runner) (cycle : ℕ) (throws : Bool) :
    SameFlight runner (runner.scheduleBackoff cycle throws) := by
  by_cases hstopped : runner.stopped = true
  · have hsame : runner.scheduleBackoff cycle throws = runner := by
      simp [scheduleBackoff, hstopped]
    rw [hsame]
    exact ⟨rfl, rfl, rfl, rfl, rfl⟩
  · constructor <;> simp [scheduleBackoff, hstopped]

theorem sameFlight_completeCycle (runner : Runner) (cycle : ℕ) (settlement : Settlement) :
    SameFlight runner (runner.completeCycle cycle settlement) := by
  cases settlement with
  | schedulerThrew => exact sameFlight_scheduleBackoff runner cycle true
  | resolved status =>
    cases status with
    | offline => exact sameFlight_scheduleBackoff runner cycle false
    | _ => exact ⟨rfl, rfl, rfl, rfl, rfl⟩
  | observerThrew status =>
    cases status with
    | offline => exact sameFlight_scheduleBackoff runner cycle false
    | _ => exact ⟨rfl, rfl, rfl, rfl, rfl⟩

theorem single_startCycle (h : runner.loops = []) : Single runner.startCycle := by
  right
  exact ⟨none, rfl, by simp [startCycle, h]⟩

theorem single_trigger (h : Single runner) : Single runner.trigger := by
  by_cases hstopped : runner.stopped = true
  · simpa [trigger, hstopped] using h
  · rcases h with ⟨hidle, hloops⟩ | ⟨settlement, hflight, hloops⟩
    · have hstart : runner.trigger = runner.startCycle := by simp [trigger, hstopped, hidle]
      rw [hstart]
      exact single_startCycle hloops
    · have hmark : runner.trigger = { runner with rerunRequested := true } := by
        simp [trigger, hstopped, hflight]
      rw [hmark]
      exact Or.inr ⟨settlement, hflight, hloops⟩

theorem single_settle (h : Single runner) : Single (runner.settle cycle settlement) := by
  have hsame := sameFlight_completeCycle runner cycle settlement
  rcases h with ⟨hidle, hloops⟩ | ⟨before, hflight, hloops⟩
  · left
    simp [settle, hsame.inFlight, hsame.loops, hidle, hloops]
  · right
    refine ⟨(settleLoop cycle settlement ⟨runner.cycleCounter, before⟩).settlement, ?_, ?_⟩
    · simp [settle, hsame.inFlight, hsame.cycleCounter, hflight]
    · by_cases hcycle : runner.cycleCounter = cycle <;>
        simp [settle, settleLoop, hsame.loops, hsame.cycleCounter, hloops, hcycle]

/-- The loop that resumes is the only one, and its cycle the one in flight. -/
theorem inFlight_of_find (h : Single runner)
    (hfind : runner.loops.find? (fun loop => loop.cycle = cycle) = some loop) :
    runner.loops = [loop] ∧ loop.cycle = cycle ∧ runner.cycleCounter = cycle ∧
      runner.inFlight = some cycle := by
  have hmem := List.mem_of_find?_eq_some hfind
  have hcycle : loop.cycle = cycle := by simpa using List.find?_some hfind
  rcases h with ⟨_, hloops⟩ | ⟨settlement, hflight, hloops⟩
  · simp [hloops] at hmem
  · have hloop : loop = ⟨runner.cycleCounter, settlement⟩ := by simpa [hloops] using hmem
    have hcounter : runner.cycleCounter = cycle := by rw [← hcycle, hloop]
    exact ⟨by rw [hloops, hloop], hcycle, hcounter, by rw [hflight, hcounter]⟩

theorem single_resume (h : runner.loops = [loop]) (hcycle : loop.cycle = cycle) :
    Single (runner.resume cycle settlement) := by
  have hloops : runner.loops.filter (fun loop => loop.cycle ≠ cycle) = [] := by simp [h, hcycle]
  by_cases hrejects : settlement.rejects = true
  · left
    exact ⟨by simp [resume, hrejects], by simp only [resume, hrejects, if_true, hloops]⟩
  · by_cases hagain : (runner.rerunRequested && !runner.stopped) = true
    · have hstart : runner.resume cycle settlement =
          { runner with inFlight := none, loops := [] }.startCycle := by
        simp only [resume, hrejects, hloops, hagain, if_true]
        rfl
      rw [hstart]
      exact single_startCycle rfl
    · left
      simp only [resume, hrejects, hloops, hagain]
      exact ⟨rfl, rfl⟩

/-- The loop found by `resume` and how its cycle settled. -/
theorem step_resume (htaken : step runner (.resume cycle) = some next) :
    ∃ settlement, runner.loops.find? (fun loop => loop.cycle = cycle) =
      some ⟨cycle, some settlement⟩ ∧ next = runner.resume cycle settlement := by
  cases hfind : runner.loops.find? (fun loop => loop.cycle = cycle) with
  | none => simp [step, hfind] at htaken
  | some loop =>
    have hcycle : loop.cycle = cycle := by simpa using List.find?_some hfind
    obtain ⟨number, settled⟩ := loop
    subst hcycle
    cases settled with
    | none => simp [step, hfind] at htaken
    | some settlement =>
      refine ⟨settlement, rfl, ?_⟩
      simpa [step, hfind] using htaken.symm

theorem step_settle (htaken : step runner (.settle cycle settlement) = some next) :
    next = runner.settle cycle settlement := by
  by_cases hmem : (⟨cycle, none⟩ : Loop) ∈ runner.loops
  · simpa [step, hmem] using htaken.symm
  · simp [step, hmem] at htaken

theorem step_backoff (htaken : step runner (.backoff cycle) = some next) :
    next = (runner.clearBackoff cycle).trigger := by
  by_cases hmem : cycle ∈ runner.pendingBackoffCancellations
  · simpa [step, hmem] using htaken.symm
  · simp [step, hmem] at htaken

theorem single_clearBackoff (h : Single runner) : Single (runner.clearBackoff cycle) := h

theorem single_step (h : Single runner) (htaken : step runner event = some next) : Single next := by
  cases event with
  | trigger =>
    cases htaken
    exact single_trigger h
  | stop =>
    cases htaken
    exact h
  | settle cycle settlement =>
    rw [step_settle htaken]
    exact single_settle h
  | resume cycle =>
    obtain ⟨settlement, hfind, rfl⟩ := step_resume htaken
    obtain ⟨hloops, hcycle, -, -⟩ := inFlight_of_find h hfind
    exact single_resume hloops hcycle
  | backoff cycle =>
    rw [step_backoff htaken]
    exact single_trigger (single_clearBackoff h)

theorem single_reached (h : Reached step guard idle runner) : Single runner := by
  refine h.invariant (Or.inl ⟨rfl, rfl⟩) ?_
  intro before event next hsingle _ htaken
  exact single_step hsingle htaken

theorem running_le_one (h : Single runner) : runner.running.length ≤ 1 := by
  have hlength : runner.loops.length ≤ 1 := by
    rcases h with ⟨-, hloops⟩ | ⟨settlement, -, hloops⟩ <;> simp [hloops]
  exact Nat.le_trans (List.length_filter_le _ _) hlength

theorem trigger_of_stopped (h : runner.stopped = true) : runner.trigger = runner := by
  simp [trigger, h]

theorem stopped_step (h : runner.stopped = true) (htaken : step runner event = some next) :
    next.stopped = true ∧ next.cycleCounter = runner.cycleCounter := by
  cases event with
  | trigger =>
    cases htaken
    rw [trigger_of_stopped h]
    exact ⟨h, rfl⟩
  | stop =>
    cases htaken
    exact ⟨rfl, rfl⟩
  | settle cycle settlement =>
    have hsame := sameFlight_completeCycle runner cycle settlement
    rw [step_settle htaken]
    exact ⟨hsame.stopped.trans h, hsame.cycleCounter⟩
  | resume cycle =>
    obtain ⟨settlement, -, rfl⟩ := step_resume htaken
    by_cases hrejects : settlement.rejects = true <;> simp [resume, hrejects, h]
  | backoff cycle =>
    have hstopped : (runner.clearBackoff cycle).stopped = true := h
    rw [step_backoff htaken, trigger_of_stopped hstopped]
    exact ⟨h, rfl⟩

theorem stopped_reached (h : runner.stopped = true) (hlater : Reached step guard runner later) :
    later.stopped = true ∧ later.cycleCounter = runner.cycleCounter := by
  refine hlater.invariant
    (P := fun later => later.stopped = true ∧ later.cycleCounter = runner.cycleCounter) ⟨h, rfl⟩ ?_
  intro before event next hbefore _ htaken
  obtain ⟨hstopped, hcounter⟩ := stopped_step hbefore.1 htaken
  exact ⟨hstopped, hcounter.trans hbefore.2⟩

/-- The rerun is due when cycle `cycle` ends, has begun, or a stop won. -/
def Owed (cycle : ℕ) (runner : Runner) : Prop :=
  runner.stopped = true ∨ cycle < runner.cycleCounter ∨
    (runner.inFlight = some cycle ∧ runner.rerunRequested = true)

theorem cycleCounter_le_trigger (runner : Runner) :
    runner.cycleCounter ≤ runner.trigger.cycleCounter := by
  by_cases hstopped : runner.stopped = true
  · simp [trigger, hstopped]
  · by_cases hflight : runner.inFlight = none <;> simp [trigger, hstopped, hflight, startCycle]

theorem cycleCounter_le_resume (runner : Runner) (cycle : ℕ) (settlement : Settlement) :
    runner.cycleCounter ≤ (runner.resume cycle settlement).cycleCounter := by
  by_cases hrejects : settlement.rejects = true
  · simp [resume, hrejects]
  · by_cases hagain : (runner.rerunRequested && !runner.stopped) = true <;>
      simp [resume, hrejects, hagain, startCycle]

theorem owed_trigger (h : Owed cycle runner) : Owed cycle runner.trigger := by
  rcases h with hstopped | hlater | ⟨hflight, hrerun⟩
  · rw [trigger_of_stopped hstopped]
    exact Or.inl hstopped
  · exact Or.inr (Or.inl (Nat.lt_of_lt_of_le hlater (cycleCounter_le_trigger runner)))
  · by_cases hstopped : runner.stopped = true
    · rw [trigger_of_stopped hstopped]
      exact Or.inl hstopped
    · right; right
      simp [trigger, hstopped, hflight]

theorem owed_settle (h : Owed cycle runner) (other : ℕ) :
    Owed cycle (runner.settle other settlement) := by
  have hsame := sameFlight_completeCycle runner other settlement
  rcases h with hstopped | hlater | ⟨hflight, hrerun⟩
  · exact Or.inl (hsame.stopped.trans hstopped)
  · right; left
    simpa [settle, hsame.cycleCounter] using hlater
  · right; right
    exact ⟨hsame.inFlight.trans hflight, hsame.rerunRequested.trans hrerun⟩

/-- The loop of the cycle in flight starts the rerun that is due. -/
theorem owed_resume (hsingle : Single runner) (h : Owed cycle runner) {other : ℕ}
    (hfind : runner.loops.find? (fun loop => loop.cycle = other) = some ⟨other, some settlement⟩)
    (hguard : Undisturbed runner (.resume other)) :
    Owed cycle (runner.resume other settlement) := by
  obtain ⟨hloops, -, hcounter, hinFlight⟩ := inFlight_of_find hsingle hfind
  by_cases hstopped : runner.stopped = true
  · left
    by_cases hrejects : settlement.rejects = true <;> simp [resume, hrejects, hstopped]
  · rcases h with hstop | hlater | ⟨hflight, hrerun⟩
    · exact absurd hstop hstopped
    · exact Or.inr (Or.inl (Nat.lt_of_lt_of_le hlater (cycleCounter_le_resume _ _ _)))
    · have hsame : other = cycle := Option.some.inj (hinFlight.symm.trans hflight)
      have hresolves : settlement.rejects = false :=
        hguard hrerun (by simpa using hstopped) ⟨other, some settlement⟩ (by simp [hloops]) rfl
          settlement rfl
      right; left
      simp [resume, hresolves, hrerun, hstopped, startCycle, hcounter, hsame]

theorem owed_step (hsingle : Single runner) (h : Owed cycle runner)
    (hguard : Undisturbed runner event) (htaken : step runner event = some next) :
    Owed cycle next := by
  cases event with
  | trigger =>
    cases htaken
    exact owed_trigger h
  | stop =>
    cases htaken
    exact Or.inl rfl
  | settle other settlement =>
    rw [step_settle htaken]
    exact owed_settle h other
  | resume other =>
    obtain ⟨settlement, hfind, rfl⟩ := step_resume htaken
    exact owed_resume hsingle h hfind hguard
  | backoff other =>
    have howed : Owed cycle (runner.clearBackoff other) := h
    rw [step_backoff htaken]
    exact owed_trigger howed

theorem owed_reached (hsingle : Single runner) (h : Owed cycle runner)
    (hguard : ∀ before event, guard before event → Undisturbed before event)
    (hlater : Reached step guard runner later) : Owed cycle later := by
  have hboth : Single later ∧ Owed cycle later := by
    refine hlater.invariant (P := fun later => Single later ∧ Owed cycle later) ⟨hsingle, h⟩ ?_
    intro before event next ⟨hsingle, howed⟩ hallowed htaken
    exact ⟨single_step hsingle htaken,
      owed_step hsingle howed (hguard before event hallowed) htaken⟩
  exact hboth.2

theorem owed_of_coalesced (h : runner.inFlight = some cycle) : Owed cycle runner.trigger := by
  by_cases hstopped : runner.stopped = true
  · rw [trigger_of_stopped hstopped]
    exact Or.inl hstopped
  · right; right
    simp [trigger, hstopped, h]

theorem cycleCounter_of_inFlight (hsingle : Single runner) (h : runner.inFlight = some cycle) :
    cycle = runner.cycleCounter := by
  rcases hsingle with ⟨hidle, -⟩ | ⟨settlement, hflight, -⟩
  · rw [hidle] at h
    cases h
  · exact Option.some.inj (h.symm.trans hflight)

/-- A cycle in flight whose promise has settled lands with the next resume. -/
theorem resume_enabled (hsingle : Single runner) (h : runner.inFlight = some cycle) :
    (⟨cycle, none⟩ : Loop) ∈ runner.running ∨
      ∃ next, step runner (.resume cycle) = some next ∧ next.inFlight ≠ some cycle := by
  have hcounter := cycleCounter_of_inFlight hsingle h
  rcases hsingle with ⟨hidle, -⟩ | ⟨settled, -, hloops⟩
  · rw [hidle] at h
    cases h
  · cases settled with
    | none => exact Or.inl (by simp [running, hloops, hcounter])
    | some settlement =>
      right
      refine ⟨runner.resume cycle settlement, by simp [step, hloops, hcounter], ?_⟩
      by_cases hrejects : settlement.rejects = true
      · simp [resume, hrejects]
      · by_cases hagain : (runner.rerunRequested && !runner.stopped) = true <;>
          simp [resume, hrejects, hagain, startCycle, hcounter]

/-- In every later state, the cycle a trigger was coalesced into is still in flight,
a cycle counted after the trigger has begun, or the runner is stopped. -/
def TriggersServed (guard : Runner → Event → Prop) : Prop :=
  ∀ runner cycle later, Reached step guard idle runner → runner.inFlight = some cycle →
    Reached step guard runner.trigger later → later.inFlight ≠ some cycle →
    later.stopped = true ∨ runner.cycleCounter < later.cycleCounter

def OneCycleAtATime (guard : Runner → Event → Prop) : Prop :=
  ∀ runner, Reached step guard idle runner → runner.running.length ≤ 1

def InertOnceStopped (guard : Runner → Event → Prop) : Prop :=
  ∀ runner later, Reached step guard idle runner → runner.stopped = true →
    Reached step guard runner later → later.cycleCounter = runner.cycleCounter

/-- A cycle in flight is running, or can leave flight. -/
def CyclesLand (guard : Runner → Event → Prop) : Prop :=
  ∀ runner cycle, Reached step guard idle runner → runner.inFlight = some cycle →
    (⟨cycle, none⟩ : Loop) ∈ runner.running ∨
      ∃ next, step runner (.resume cycle) = some next ∧ next.inFlight ≠ some cycle

/-- The runner is single-flight and inert once stopped in all runs, whatever guards
them, and serves every trigger unless a cycle rejects that a trigger was coalesced
into. -/
theorem single_flight (guard : Runner → Event → Prop) :
    OneCycleAtATime guard ∧ InertOnceStopped guard ∧ CyclesLand guard ∧
      TriggersServed fun runner event => guard runner event ∧ Undisturbed runner event := by
  refine ⟨?_, ?_, ?_, ?_⟩
  · intro runner hreached
    exact running_le_one (single_reached hreached)
  · intro runner later _ hstopped hlater
    exact (stopped_reached hstopped hlater).2
  · intro runner cycle hreached hflight
    exact resume_enabled (single_reached hreached) hflight
  · intro runner cycle later hreached hflight hlater hover
    have hsingle := single_reached hreached
    have howed := owed_reached (single_trigger hsingle) (owed_of_coalesced hflight)
      (fun _ _ hallowed => hallowed.2) hlater
    rw [cycleCounter_of_inFlight hsingle hflight] at howed hover
    rcases howed with hstopped | hbegun | ⟨hstill, -⟩
    · exact Or.inl hstopped
    · exact Or.inr hbegun
    · exact absurd hstill hover

/-- The trigger that came during cycle 1 is forgotten when the promise of cycle 1
rejects. -/
theorem trigger_lost_on_rejection : ¬ TriggersServed Anything := by
  intro h
  have hstart : run step idle [.trigger] = some idle.trigger := rfl
  have hrun : run step idle.trigger.trigger [.settle 1 (.observerThrew .synced), .resume 1] =
      some { idle with cycleCounter := 1, rerunRequested := true } := rfl
  have hfirst : Reached step Anything idle idle.trigger :=
    Reached.start.run (allowed_of_forall (fun _ _ => trivial) _ _) hstart
  have hlater := Reached.start.run
    (allowed_of_forall (fun _ _ => trivial : ∀ runner event, Anything runner event) _ _) hrun
  rcases h idle.trigger 1 _ hfirst rfl hlater (by decide) with hstopped | hbegun
  · exact absurd hstopped (by decide)
  · exact absurd hbegun (by decide)

end Havemind.SingleFlight
