import Mathlib.Data.List.Sort
import Havemind.SyncRunner

/-!
The runner's pull: the events of a page, put in ascending order, one turn after
another, until one of them ends the loop. `passed` records every save of the
cursor with the event it was for, `applied` every event given to the vault. The
vault answers as it likes, each time it is asked.
-/
namespace Havemind.PullLoop

open RevisionSchema SyncRunner List

structure Pass where
  event : RemoteEvent
  handling : Handling
  deriving DecidableEq

structure PullCycle where
  state : PullState
  passed : List Pass
  applied : List RemoteEvent
  failure : Option SyncFailure

/-- The turn gets as far as the vault's apply. -/
def reachesVault (state : PullState) (event : RemoteEvent) (answer : VaultAnswer) : Bool :=
  event.serverSequence = state.cursor + 1 ∧
    state.isLocallyAuthored event.revision.revisionId = false ∧ answer.unsaved = false

def givenToVault (state : PullState) (event : RemoteEvent) (answer : VaultAnswer) :
    List RemoteEvent :=
  if reachesVault state event answer then [event] else []

section
variable (vault : ℕ → RemoteEvent → VaultAnswer)

/-- The loop; `turn` counts the events it has looked at. -/
def pullEvents (turn : ℕ) (state : PullState) : List RemoteEvent → PullCycle
  | [] => { state, passed := [], applied := [], failure := none }
  | event :: rest =>
      let given := givenToVault state event (vault turn event)
      match pullEvent state event (vault turn event) with
      | .next state' handling =>
          let cycle := pullEvents (turn + 1) state' rest
          { cycle with
            passed := if handling = .duplicate then cycle.passed
              else { event, handling } :: cycle.passed
            applied := given ++ cycle.applied }
      | .leave state' => { state := state', passed := [], applied := given, failure := none }
      | .throw state' failure =>
          { state := state', passed := [], applied := given, failure := some failure }

def runPull (state : PullState) (page : List RemoteEvent) : PullCycle :=
  pullEvents vault 0 state
    (page.mergeSort fun left right => left.serverSequence ≤ right.serverSequence)

end

section
variable (vault : ℕ → RemoteEvent → VaultAnswer) (start : PullState) (page : List RemoteEvent)

/-- What a sequence was passed for: this device wrote it, the vault took it, or
it is set aside. -/
inductive Settled (cycle : PullCycle) (pass : Pass) : Prop
  | suppressed (handling : pass.handling = .suppressed)
      (authored : start.isLocallyAuthored pass.event.revision.revisionId = true)
  | applied (outcome : RemoteApplyOutcome) (handling : pass.handling = .applied outcome)
      (kept : outcome ≠ .deferred) (given : pass.event ∈ cycle.applied)
      (answered : ∃ turn, (vault turn pass.event).apply = .ok outcome)
  | parked (handling : pass.handling = .parked) (given : pass.event ∈ cycle.applied)
      (failed : ∃ turn failure, (vault turn pass.event).apply = .error failure)
      (kept : ∃ parked ∈ cycle.state.parked,
        parked.revision.revisionId = pass.event.revision.revisionId)

/-- What a pull does with the cursor: it passes one sequence after the other,
each for a reason, and gives the vault no event with a sequence before it that
it has not passed. -/
structure PullLaw (cycle : PullCycle) : Prop where
  cursor : cycle.state.cursor = start.cursor + cycle.passed.length
  inOrder : cycle.passed.map (fun pass => pass.event.serverSequence) =
    List.range' (start.cursor + 1) cycle.passed.length
  fromPage : ∀ pass ∈ cycle.passed, pass.event ∈ page
  settled : ∀ pass ∈ cycle.passed, Settled vault start cycle pass
  stops : ∀ event ∈ cycle.applied, ∀ sequence, start.cursor < sequence →
    sequence < event.serverSequence →
    ∃ pass ∈ cycle.passed, pass.event.serverSequence = sequence
  beyond : ∀ event ∈ cycle.applied, start.cursor < event.serverSequence
  once : cycle.applied.Pairwise fun earlier later => earlier.serverSequence < later.serverSequence

end

section
variable {state state' : PullState} {event : RemoteEvent} {answer : VaultAnswer}
  {handling : Handling}

theorem mem_givenToVault {other : RemoteEvent} :
    other ∈ givenToVault state event answer ↔
      other = event ∧ reachesVault state event answer = true := by
  unfold givenToVault
  split
  · rename_i h
    simp [h]
  · rename_i h
    simp [h]

theorem sequence_of_reachesVault (h : reachesVault state event answer = true) :
    event.serverSequence = state.cursor + 1 := (of_decide_eq_true h).1

theorem givenToVault_duplicate (h : pullEvent state event answer = .next state' .duplicate) :
    givenToVault state event answer = [] := by
  refine eq_nil_iff_forall_not_mem.mpr fun other hother => ?_
  have hnext := sequence_of_reachesVault (mem_givenToVault.mp hother).2
  unfold pullEvent at h
  dsimp only at h
  rw [if_neg (by omega), if_neg (not_not.mpr hnext)] at h
  repeat' split at h
  all_goals cases h

/-- A turn that goes on has kept the authored revisions and every parked one. -/
structure Forward (state state' : PullState) : Prop where
  authored : state'.locallyAuthored = state.locallyAuthored
  parked : ∀ revisionId, (∃ item ∈ state.parked, item.revision.revisionId = revisionId) →
    ∃ item ∈ state'.parked, item.revision.revisionId = revisionId

theorem forward_park (state : PullState) (event : RemoteEvent) :
    Forward state (state.parkRemote event) where
  authored := rfl
  parked := by
    intro revisionId h
    obtain ⟨item, hitem, hid⟩ := h
    by_cases hsame : item.revision.revisionId = event.revision.revisionId
    · exact ⟨event, by simp [PullState.parkRemote], hsame ▸ hid⟩
    · exact ⟨item, by simp [PullState.parkRemote, hitem, hsame], hid⟩

/-- How a turn that goes on settled its event. -/
theorem pullEvent_settles (h : pullEvent state event answer = .next state' handling) :
    Forward state state' ∧
      (handling = .duplicate ∨
        (handling = .suppressed ∧ state.isLocallyAuthored event.revision.revisionId = true) ∨
        (∃ outcome, handling = .applied outcome ∧ outcome ≠ .deferred ∧
          reachesVault state event answer = true ∧ answer.apply = .ok outcome) ∨
        (handling = .parked ∧ reachesVault state event answer = true ∧
          (∃ failure, answer.apply = .error failure) ∧
          ∃ parked ∈ state'.parked, parked.revision.revisionId = event.revision.revisionId)) := by
  have hsame : Forward state state := ⟨rfl, fun _ h => h⟩
  unfold pullEvent at h
  dsimp only at h
  split at h
  · cases h
    exact ⟨hsame, .inl rfl⟩
  · split at h
    · cases h
    · rename_i hsequence
      split at h
      · rename_i hauthored
        cases h
        exact ⟨⟨rfl, fun _ h => h⟩, .inr (.inl ⟨rfl, hauthored⟩)⟩
      · rename_i hauthored
        split at h
        · cases h
        · rename_i hsaved
          have hreaches : reachesVault state event answer = true := by
            rw [Bool.not_eq_true] at hauthored hsaved
            exact decide_eq_true ⟨not_not.mp hsequence, hauthored, hsaved⟩
          split at h
          · rename_i failure hfailed
            split at h
            · cases h
            · cases h
              have hpark := forward_park (state.setFailures event.revision.revisionId 0) event
              refine ⟨⟨hpark.authored, hpark.parked⟩, .inr (.inr (.inr ⟨rfl, hreaches, ?_, ?_⟩))⟩
              · exact ⟨failure, hfailed⟩
              · exact ⟨event, by simp [PullState.parkRemote, PullState.saveCursor], rfl⟩
          · cases h
          · rename_i outcome hkept hanswer
            cases h
            refine ⟨⟨rfl, fun _ h => h⟩, .inr (.inr (.inl ⟨outcome, rfl, ?_, hreaches, hanswer⟩))⟩
            exact hkept

/-- A turn that ends the loop keeps them too. -/
theorem pullEvent_stops_forward {failure : SyncFailure}
    (h : pullEvent state event answer = .leave state' ∨
      pullEvent state event answer = .throw state' failure) : Forward state state' := by
  unfold pullEvent at h
  dsimp only at h
  repeat' split at h
  all_goals rcases h with h | h
  all_goals cases h
  all_goals exact ⟨rfl, fun _ h => h⟩

end

theorem Forward.trans {first second third : PullState} (h : Forward first second)
    (h' : Forward second third) : Forward first third where
  authored := h'.authored.trans h.authored
  parked revisionId hparked := h'.parked revisionId (h.parked revisionId hparked)

section
variable {vault : ℕ → RemoteEvent → VaultAnswer} {start : PullState} {cycle : PullCycle}
  {state' : PullState} {event : RemoteEvent} {rest : List RemoteEvent}

theorem pullEvents_forward (turn : ℕ) (state : PullState) (events : List RemoteEvent) :
    Forward state (pullEvents vault turn state events).state := by
  induction events generalizing turn state with
  | nil => exact ⟨rfl, fun _ h => h⟩
  | cons event rest ih =>
    unfold pullEvents
    dsimp only
    cases hturn : pullEvent state event (vault turn event) with
    | next state' handling => exact (pullEvent_settles hturn).1.trans (ih (turn + 1) state')
    | leave state' =>
      have hstops : pullEvent state event (vault turn event) = .leave state' ∨
          pullEvent state event (vault turn event) = .throw state' {} := .inl hturn
      exact pullEvent_stops_forward hstops
    | throw state' failure => exact pullEvent_stops_forward (.inr hturn)

theorem Settled.mono {state : PullState} {cycle' : PullCycle} {pass : Pass}
    (h : Settled vault state cycle pass)
    (hauthored : state.locallyAuthored = start.locallyAuthored)
    (happlied : ∀ event ∈ cycle.applied, event ∈ cycle'.applied)
    (hstate : cycle'.state = cycle.state) : Settled vault start cycle' pass := by
  cases h with
  | suppressed handling authored =>
    refine .suppressed handling ?_
    unfold PullState.isLocallyAuthored at authored ⊢
    rwa [hauthored] at authored
  | applied outcome handling kept given answered =>
    exact .applied outcome handling kept (happlied _ given) answered
  | parked handling given failed kept =>
    exact .parked handling (happlied _ given) failed (hstate ▸ kept)

/-- A loop that ends at its first event has passed nothing. -/
theorem pullLaw_stopped {answer : VaultAnswer} {failure : Option SyncFailure}
    (hcursor : state'.cursor = start.cursor) :
    PullLaw vault start (event :: rest)
      { state := state', passed := [], applied := givenToVault start event answer, failure } where
  cursor := hcursor
  inOrder := rfl
  fromPage := nofun
  settled := nofun
  stops other hother sequence hafter hbefore := by
    obtain ⟨rfl, hreaches⟩ := mem_givenToVault.mp hother
    have hnext := sequence_of_reachesVault hreaches
    omega
  beyond other hother := by
    obtain ⟨rfl, hreaches⟩ := mem_givenToVault.mp hother
    have hnext := sequence_of_reachesVault hreaches
    omega
  once := by
    unfold givenToVault
    split
    · exact pairwise_singleton _ _
    · exact List.Pairwise.nil

/-- A turn that passed the next sequence is followed by a loop that keeps the
law. -/
theorem PullLaw.cons {turn : ℕ} {handling : Handling}
    (hturn : pullEvent start event (vault turn event) = .next state' handling)
    (hpassed : handling ≠ .duplicate) (hforward : Forward state' cycle.state)
    (h : PullLaw vault state' rest cycle) :
    PullLaw vault start (event :: rest)
      { cycle with
        passed := { event, handling } :: cycle.passed
        applied := givenToVault start event (vault turn event) ++ cycle.applied } := by
  obtain ⟨hduplicate, _⟩ | ⟨_, hnext, hcursor⟩ := pullEvent_eq_next hturn
  · exact absurd hduplicate hpassed
  have hkept := (pullEvent_settles hturn).1
  rw [hnext] at hcursor
  have hgiven : ∀ other ∈ givenToVault start event (vault turn event),
      other.serverSequence = start.cursor + 1 := by
    intro other hother
    obtain ⟨rfl, _⟩ := mem_givenToVault.mp hother
    exact hnext
  have hlater : ∀ other ∈ cycle.applied, start.cursor + 1 < other.serverSequence :=
    fun other hother => hcursor ▸ h.beyond other hother
  constructor
  case cursor =>
    have hrest := h.cursor
    rw [hcursor] at hrest
    rw [length_cons, hrest]
    omega
  case inOrder =>
    rw [map_cons, h.inOrder, hcursor, length_cons, range'_succ, hnext]
  case fromPage =>
    intro pass hpass
    rcases mem_cons.mp hpass with rfl | hrest
    · exact mem_cons_self
    · exact mem_cons_of_mem _ (h.fromPage pass hrest)
  case settled =>
    intro pass hpass
    rcases mem_cons.mp hpass with rfl | hrest
    · rcases (pullEvent_settles hturn).2 with hdup | hsup | happ | hpark
      · exact absurd hdup hpassed
      · exact .suppressed hsup.1 hsup.2
      · obtain ⟨outcome, hhandling, hkeeps, hreaches, hanswer⟩ := happ
        refine .applied outcome hhandling hkeeps ?_ ⟨turn, hanswer⟩
        exact mem_append_left _ (mem_givenToVault.mpr ⟨rfl, hreaches⟩)
      · obtain ⟨hhandling, hreaches, ⟨failure, hfailed⟩, hparked⟩ := hpark
        refine .parked hhandling ?_ ⟨turn, failure, hfailed⟩ (hforward.parked _ hparked)
        exact mem_append_left _ (mem_givenToVault.mpr ⟨rfl, hreaches⟩)
    · refine (h.settled pass hrest).mono hkept.authored ?_ rfl
      exact fun other hother => mem_append_right _ hother
  case stops =>
    intro other hother sequence hafter hbefore
    rcases mem_append.mp hother with hfirst | hrest
    · rw [hgiven other hfirst] at hbefore
      omega
    · by_cases hhere : sequence = start.cursor + 1
      · exact ⟨{ event, handling }, mem_cons_self, hnext.trans hhere.symm⟩
      · obtain ⟨pass, hpass, hsequence⟩ := h.stops other hrest sequence (by omega) hbefore
        exact ⟨pass, mem_cons_of_mem _ hpass, hsequence⟩
  case beyond =>
    intro other hother
    rcases mem_append.mp hother with hfirst | hrest
    · rw [hgiven other hfirst]
      omega
    · have hother := hlater other hrest
      omega
  case once =>
    refine pairwise_append.mpr ⟨?_, h.once, ?_⟩
    · unfold givenToVault
      split
      · exact pairwise_singleton _ _
      · exact List.Pairwise.nil
    · intro earlier hearlier later hlate
      rw [hgiven earlier hearlier]
      exact hlater later hlate

theorem PullLaw.of_mem {page page' : List RemoteEvent} (h : PullLaw vault start page cycle)
    (hpage : ∀ event ∈ page, event ∈ page') : PullLaw vault start page' cycle :=
  { h with fromPage := fun pass hpass => hpage _ (h.fromPage pass hpass) }

/-- The loop keeps the law, whatever the order of its events. -/
theorem pullEvents_law (turn : ℕ) (state : PullState) (events : List RemoteEvent) :
    PullLaw vault state events (pullEvents vault turn state events) := by
  induction events generalizing turn state with
  | nil =>
    exact
      { cursor := rfl
        inOrder := rfl
        fromPage := nofun
        settled := nofun
        stops := nofun
        beyond := nofun
        once := .nil }
  | cons event rest ih =>
    unfold pullEvents
    dsimp only
    cases hturn : pullEvent state event (vault turn event) with
    | next state' handling =>
      have hrest := ih (turn + 1) state'
      by_cases hduplicate : handling = .duplicate
      · obtain ⟨_, rfl⟩ | ⟨hnot, _, _⟩ := pullEvent_eq_next hturn
        · have hpast : givenToVault state' event (vault turn event) = [] := by
            subst hduplicate
            exact givenToVault_duplicate hturn
          dsimp only
          rw [if_pos hduplicate, hpast, nil_append]
          exact hrest.of_mem fun other hother => mem_cons_of_mem _ hother
        · exact absurd hduplicate hnot
      · dsimp only
        rw [if_neg hduplicate]
        exact hrest.cons hturn hduplicate (pullEvents_forward (turn + 1) state' rest)
    | leave state' => exact pullLaw_stopped (pullEvent_eq_leave hturn)
    | throw state' failure => exact pullLaw_stopped (pullEvent_eq_throw hturn)

theorem runPull_law (state : PullState) (page : List RemoteEvent) :
    PullLaw vault state page (runPull vault state page) :=
  (pullEvents_law 0 state _).of_mem fun _ hevent => mem_mergeSort.mp hevent

end

/-- One cycle's surroundings: the revisions this device is known to have
written, whether the process was restarted before it, what the server answers
and how the vault does. -/
structure Cycle where
  authored : List Id
  restarted : Bool
  page : List RemoteEvent
  vault : ℕ → RemoteEvent → VaultAnswer

/-- The durable state a cycle starts from; failed attempts are counted in memory. -/
def Cycle.begin (cycle : Cycle) (state : PullState) : PullState :=
  { state with
    locallyAuthored := cycle.authored
    applyFailures := if cycle.restarted then fun _ => 0 else state.applyFailures }

structure Pulled where
  start : PullState
  cycle : Cycle
  result : PullCycle

def pullCycle (state : PullState) (cycle : Cycle) : Pulled where
  start := cycle.begin state
  cycle
  result := runPull cycle.vault (cycle.begin state) cycle.page

def pullCycles (state : PullState) : List Cycle → List Pulled
  | [] => []
  | cycle :: rest =>
      let pulled := pullCycle state cycle
      pulled :: pullCycles pulled.result.state rest

/-- The state after the cycles. -/
def stateAfter (state : PullState) (cycles : List Cycle) : PullState :=
  cycles.foldl (fun state cycle => (pullCycle state cycle).result.state) state

def passes (state : PullState) (cycles : List Cycle) : List Pass :=
  (pullCycles state cycles).flatMap fun pulled => pulled.result.passed

theorem passes_cons (state : PullState) (cycle : Cycle) (rest : List Cycle) :
    passes state (cycle :: rest) = (pullCycle state cycle).result.passed ++
      passes (pullCycle state cycle).result.state rest := by
  simp [passes, pullCycles]

theorem pullCycle_law (state : PullState) (cycle : Cycle) :
    PullLaw cycle.vault (cycle.begin state) cycle.page (pullCycle state cycle).result :=
  runPull_law _ _

theorem pullCycles_law (state : PullState) (cycles : List Cycle) :
    ∀ pulled ∈ pullCycles state cycles,
      PullLaw pulled.cycle.vault pulled.start pulled.cycle.page pulled.result := by
  induction cycles generalizing state with
  | nil => exact nofun
  | cons cycle rest ih =>
    intro pulled hpulled
    rcases mem_cons.mp hpulled with rfl | hrest
    · exact pullCycle_law state cycle
    · exact ih _ pulled hrest

/-- The cursor moves by one for every sequence passed, whatever cycle it was
passed in. -/
theorem passes_inOrder (state : PullState) (cycles : List Cycle) :
    (stateAfter state cycles).cursor = state.cursor + (passes state cycles).length ∧
      (passes state cycles).map (fun pass => pass.event.serverSequence) =
        List.range' (state.cursor + 1) (passes state cycles).length := by
  induction cycles generalizing state with
  | nil => exact ⟨rfl, rfl⟩
  | cons cycle rest ih =>
    have hlaw := pullCycle_law state cycle
    have hcursor : (pullCycle state cycle).result.state.cursor =
        state.cursor + (pullCycle state cycle).result.passed.length := hlaw.cursor
    have hinOrder := hlaw.inOrder
    obtain ⟨hafter, hrest⟩ := ih (pullCycle state cycle).result.state
    rw [passes_cons, length_append, map_append]
    refine ⟨?_, ?_⟩
    · change (stateAfter (pullCycle state cycle).result.state rest).cursor = _
      rw [hafter, hcursor, Nat.add_assoc]
    · rw [hrest, hinOrder, hcursor, Nat.add_right_comm]
      exact range'_append_1

/-- A revision set aside stays set aside. -/
theorem stateAfter_parked (state : PullState) (cycles : List Cycle) (revisionId : Id)
    (h : ∃ item ∈ state.parked, item.revision.revisionId = revisionId) :
    ∃ item ∈ (stateAfter state cycles).parked, item.revision.revisionId = revisionId := by
  induction cycles generalizing state with
  | nil => exact h
  | cons cycle rest ih =>
    exact ih _ ((pullEvents_forward 0 (cycle.begin state) _).parked revisionId h)

theorem passes_parked (state : PullState) (cycles : List Cycle) :
    ∀ pass ∈ passes state cycles, pass.handling = .parked →
      ∃ item ∈ (stateAfter state cycles).parked,
        item.revision.revisionId = pass.event.revision.revisionId := by
  induction cycles generalizing state with
  | nil => exact nofun
  | cons cycle rest ih =>
    intro pass hpass hparked
    rw [passes_cons] at hpass
    rcases mem_append.mp hpass with hfirst | hrest
    · refine stateAfter_parked _ rest _ ?_
      cases (pullCycle_law state cycle).settled pass hfirst with
      | suppressed handling _ => cases hparked.symm.trans handling
      | applied _ handling _ _ _ => cases hparked.symm.trans handling
      | parked _ _ _ kept => exact kept
    · exact ih _ pass hrest hparked

/-- Over any cycles the cursor passes one sequence after the other, each exactly
once and for a reason of its own, and within a cycle nothing behind a sequence
that was not passed is given to the vault. -/
theorem pullCycles_pass_in_order (state : PullState) (cycles : List Cycle) :
    (stateAfter state cycles).cursor = state.cursor + (passes state cycles).length ∧
      (passes state cycles).map (fun pass => pass.event.serverSequence) =
        List.range' (state.cursor + 1) (passes state cycles).length ∧
      (∀ pass ∈ passes state cycles, pass.handling = .parked →
        ∃ item ∈ (stateAfter state cycles).parked,
          item.revision.revisionId = pass.event.revision.revisionId) ∧
      ∀ pulled ∈ pullCycles state cycles,
        PullLaw pulled.cycle.vault pulled.start pulled.cycle.page pulled.result := by
  obtain ⟨hcursor, hinOrder⟩ := passes_inOrder state cycles
  exact ⟨hcursor, hinOrder, passes_parked state cycles, pullCycles_law state cycles⟩

def sampleEvent (sequence : ℕ) : RemoteEvent where
  serverSequence := sequence
  revision :=
    { revisionId := sequence
      fileId := sequence
      contentHash := 0
      parentRevisionIds := none
      authorMembershipId := none
      acceptedAt := none }

def emptyState : PullState where
  cursor := 0
  locallyAuthored := []
  parked := []
  applyFailures _ := 0

/-- The first event can never be applied here, the others can. -/
def firstRefused (turn : ℕ) (_ : RemoteEvent) : VaultAnswer where
  unsaved := false
  apply := if turn = 0 then .error { permanentApply := true } else .ok .applied

/-- An event that can never be applied is set aside, and the events behind it are
applied in the same cycle. -/
theorem event_behind_a_parked_error_is_applied :
    (firstRefused 0 (sampleEvent 1)).apply = .error { permanentApply := true } ∧
      (runPull firstRefused emptyState [sampleEvent 1, sampleEvent 2]).applied =
        [sampleEvent 1, sampleEvent 2] ∧
      (runPull firstRefused emptyState [sampleEvent 1, sampleEvent 2]).passed =
        [{ event := sampleEvent 1, handling := .parked },
          { event := sampleEvent 2, handling := .applied .applied }] := by
  have hsorted : [sampleEvent 1, sampleEvent 2].mergeSort
      (fun left right => left.serverSequence ≤ right.serverSequence) =
      [sampleEvent 1, sampleEvent 2] := mergeSort_of_pairwise (by decide)
  unfold runPull
  rw [hsorted]
  decide

end Havemind.PullLoop
