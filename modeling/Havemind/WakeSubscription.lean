import Havemind.Runs
import Mathlib.Data.Nat.Notation
import Mathlib.Order.Defs.LinearOrder

/-!
The wake subscription: a loop that loads the durable cursor, sends a wait request from it and
fires a wake when the answer is beyond. What the loop awaits settles in one segment and is taken
up in a later one, with starts, resumes and stops in between. Cursors, tokens and answers may be
anything. The log is what happened, the latest first.
-/
namespace Havemind.WakeSubscription

open Runs Option List

def maxSettleChecks : ℕ := 40

/-- A rejected promise, by what `isAuthDenied` reads off its error. -/
structure Failure where
  authDenied : Bool
  deriving DecidableEq

/-- What `pollOnce` awaits. -/
inductive Poll
  | token (sent : ℕ)
  | request (sent : ℕ)
  deriving DecidableEq

/-- Where `runLoop` is; a settle delay and a backoff both end in its next turn. -/
inductive Loop
  | idle
  | loading
  | loaded (result : Except Failure ℕ)
  | delaying
  | polling (poll : Poll)
  | polled (sent : ℕ) (result : Except Failure ℕ)
  | returned

inductive Entry
  | loaded (cursor : ℕ)
  | rechecked
  | requested (sent : ℕ)
  | answered (sent cursor : ℕ)
  | woke (sent cursor : ℕ)
  | connectedChange (connected : Bool)
  | ended
  deriving DecidableEq

/-- The fields; the loop has been started unless it is idle. `detached` are the polls that
no loop awaits. -/
structure Subscription where
  stopped : Bool := false
  failureCount : ℕ := 0
  pendingSyncFromCursor : Option ℕ := none
  settleChecks : ℕ := 0
  announcedCursor : ℕ := 0
  connected : Option Bool := none
  loop : Loop := .idle
  detached : List Poll := []
  log : List Entry := []

/-- A promise settles, the loop goes on, or the host calls. A delay may end at any time: the
timer, a resume or a stop releases it. The signal of a stop ends what the loop awaits. -/
inductive Event
  | start
  | resume
  | stop
  | load (result : Except Failure ℕ)
  | token (result : Except Failure Unit)
  | answer (result : Except Failure ℕ)
  | delayEnds
  | runs
  | signal
  | detachedToken (sent : ℕ) (obtained : Bool)
  | detachedAnswer (sent : ℕ)

namespace Subscription
variable (s : Subscription)

def start : Subscription :=
  match s.loop with
  | .idle => if s.stopped then s else { s with loop := .loading }
  | _ => s

def resume : Subscription :=
  match s.loop with
  | .idle => s
  | _ => if s.stopped then s else { s with failureCount := 0 }

def stop : Subscription := { s with stopped := true, log := .ended :: s.log }

/-- The test of the loop. -/
def turn : Subscription := { s with loop := if s.stopped then .returned else .loading }

def setConnected (next : Bool) : Subscription :=
  { s with
    connected := some next
    log := if s.connected = some next then s.log else .connectedChange next :: s.log }

/-- The `catch` block. -/
def failed (failure : Failure) : Subscription :=
  if s.stopped then { s with loop := .returned }
  else
    let lost := s.setConnected false
    if failure.authDenied then
      { lost with stopped := true, loop := .returned, log := .ended :: lost.log }
    else { lost with failureCount := lost.failureCount + 1, loop := .delaying }

/-- The anti-spin gate holds the loop back. -/
def unsettled (cursor : ℕ) : Prop :=
  ∃ pending ∈ s.pendingSyncFromCursor, cursor ≤ pending ∧ s.settleChecks < maxSettleChecks

instance (cursor : ℕ) : Decidable (s.unsettled cursor) :=
  inferInstanceAs (Decidable (∃ pending ∈ s.pendingSyncFromCursor, _))

/-- `pollOnce` is called before `awaitOrStop` looks at `stopped`. -/
def takeCursor (cursor : ℕ) : Subscription :=
  if s.unsettled cursor then
    { s with
      settleChecks := s.settleChecks + 1
      loop := .delaying
      log := .rechecked :: .loaded cursor :: s.log }
  else
    let polling := { s with
      pendingSyncFromCursor := none
      settleChecks := 0
      log := .loaded cursor :: s.log }
    let poll := Poll.token (max cursor s.announcedCursor)
    if s.stopped then { polling with loop := .returned, detached := poll :: s.detached }
    else { polling with loop := .polling poll }

def takeAnswer (sent cursor : ℕ) : Subscription :=
  if s.stopped then { s with loop := .returned }
  else
    let answered := { s with failureCount := 0 }.setConnected true
    if sent < cursor then
      { answered with
        pendingSyncFromCursor := some sent
        announcedCursor := cursor
        log := .woke sent cursor :: answered.log }.turn
    else
      { answered with
        pendingSyncFromCursor := none
        announcedCursor := if cursor < sent then 0 else answered.announcedCursor }.turn

end Subscription

def step (s : Subscription) (event : Event) : Option Subscription :=
  match event, s.loop with
  | .start, _ => some s.start
  | .resume, _ => some s.resume
  | .stop, _ => some s.stop
  | .load result, .loading => some { s with loop := .loaded result }
  | .token (.ok _), .polling (.token sent) =>
    some { s with loop := .polling (.request sent), log := .requested sent :: s.log }
  | .answer (.ok cursor), .polling (.request sent) =>
    some { s with loop := .polled sent (.ok cursor), log := .answered sent cursor :: s.log }
  | .token (.error failure), .polling (.token sent)
  | .answer (.error failure), .polling (.request sent) =>
    some { s with loop := .polled sent (.error failure) }
  | .delayEnds, .delaying => some s.turn
  | .runs, .loaded (.ok cursor) => some (s.takeCursor cursor)
  | .runs, .polled sent (.ok cursor) => some (s.takeAnswer sent cursor)
  | .runs, .loaded (.error failure) | .runs, .polled _ (.error failure) => some (s.failed failure)
  | .signal, .loading => if s.stopped then some { s with loop := .returned } else none
  | .signal, .polling poll =>
    if s.stopped then some { s with loop := .returned, detached := poll :: s.detached } else none
  | .detachedToken sent obtained, _ =>
    if .token sent ∈ s.detached then
      let left := s.detached.erase (.token sent)
      some (if obtained then
        { s with detached := .request sent :: left, log := .requested sent :: s.log }
        else { s with detached := left })
    else none
  | .detachedAnswer sent, _ =>
    if .request sent ∈ s.detached then
      some { s with detached := s.detached.erase (.request sent) }
    else none
  | _, _ => none

def wakes : List Entry → List (ℕ × ℕ)
  | [] => []
  | .woke sent cursor :: before => (sent, cursor) :: wakes before
  | _ :: before => wakes before

def answers : List Entry → List (ℕ × ℕ)
  | [] => []
  | .answered sent cursor :: before => (sent, cursor) :: answers before
  | _ :: before => answers before

def loads : List Entry → List ℕ
  | [] => []
  | .loaded cursor :: before => cursor :: loads before
  | _ :: before => loads before

def rechecks : List Entry → ℕ
  | [] => 0
  | .rechecked :: before => rechecks before + 1
  | _ :: before => rechecks before

def lastChange : List Entry → Option Bool
  | [] => none
  | .connectedChange connected :: _ => some connected
  | _ :: before => lastChange before

/-- What has happened since the last request was started. -/
def sinceRequest : List Entry → List Entry
  | [] | .requested _ :: _ => []
  | entry :: before => entry :: sinceRequest before

/-- The wake has settled, or its re-checks are spent. -/
def Spent (sent : ℕ) (since : List Entry) : Prop :=
  (∃ cursor ∈ loads since, sent < cursor) ∨ maxSettleChecks ≤ rechecks since

/-- What may happen after what has happened. -/
def Allowed : Entry → List Entry → Prop
  | .requested sent, before => .ended ∉ before ∧
      (∀ wake ∈ wakes (sinceRequest before), wake.1 < sent ∧ Spent wake.1 (sinceRequest before)) ∧
      ∀ answer ∈ answers (sinceRequest before), answer.2 < answer.1 →
        (loads before).head? = some sent
  | .woke _ _, before => .ended ∉ before
  | .connectedChange connected, before => .ended ∉ before ∧ lastChange before ≠ some connected
  | _, _ => True

def Lawful : List Entry → Prop
  | [] => True
  | entry :: before => Allowed entry before ∧ Lawful before

def beyond (answer : ℕ × ℕ) : Bool := answer.1 < answer.2

variable {s next : Subscription} {sent cursor : ℕ}

/-- The answer that the loop has yet to take up. -/
def owed (s : Subscription) : List (ℕ × ℕ) :=
  match s.loop with
  | .polled sent (.ok cursor) => [(sent, cursor)].filter beyond
  | _ => []

/-- A wake since the last request is pending, or through; after a lower answer nothing is
announced. -/
def Settled (s : Subscription) : Prop :=
  (∀ wake ∈ wakes (sinceRequest s.log), wake.1 < s.announcedCursor ∧
    (s.pendingSyncFromCursor = some wake.1 ∧ s.settleChecks = rechecks (sinceRequest s.log) ∨
      Spent wake.1 (sinceRequest s.log))) ∧
  ∀ answer ∈ answers (sinceRequest s.log), answer.2 < answer.1 → s.announcedCursor = 0

/-- A request has been started, with these answers. -/
def Asked (s : Subscription) (given : List (ℕ × ℕ)) : Prop :=
  wakes (sinceRequest s.log) = [] ∧ rechecks (sinceRequest s.log) = 0 ∧ s.settleChecks = 0 ∧
    answers (sinceRequest s.log) = given

def Poised (s : Subscription) : Prop :=
  match s.loop with
  | .polling (.token sent) => Settled s ∧ s.pendingSyncFromCursor = none ∧ s.settleChecks = 0 ∧
      ∃ durable, (loads s.log).head? = some durable ∧ sent = max durable s.announcedCursor
  | .polling (.request _) => Asked s []
  | .polled sent (.ok cursor) => Asked s [(sent, cursor)]
  | .returned => True
  | _ => Settled s

/-- No request of the loop is to come: it has not loaded a cursor that the gate lets through, and
no token is awaited. -/
def Calm (s : Subscription) : Prop :=
  match s.loop with
  | .polling (.token _) => False
  | .loaded (.ok cursor) => s.unsettled cursor
  | _ => True

structure Inv (s : Subscription) : Prop where
  lawful : Lawful s.log
  ended : .ended ∈ s.log ↔ s.stopped = true
  connected : lastChange s.log = s.connected
  poised : Poised s
  calm : s.stopped = true → Calm s
  detached : s.detached = [] ∨ s.loop = .returned ∧ ∃ sent, s.detached = [.request sent]
  woken : s.stopped = false → owed s ++ wakes s.log = (answers s.log).filter beyond
  woken_only : wakes s.log <:+ (answers s.log).filter beyond

theorem Inv.undetached (h : Inv s) (hloop : s.loop ≠ .returned) : s.detached = [] :=
  h.detached.resolve_right fun hreturned => hloop hreturned.1

/-- The loop is elsewhere, and owes the answer it owed. -/
theorem Inv.moved (h : Inv s) {loop : Loop} (hpoised : Poised { s with loop })
    (hcalm : s.stopped = true → Calm { s with loop }) (hdetached : s.detached = [])
    (howed : s.stopped = false → owed { s with loop } = owed s) : Inv { s with loop } :=
  { h with
    poised := hpoised
    calm := hcalm
    detached := .inl hdetached
    woken := fun hgoing => by rw [howed hgoing]; exact h.woken hgoing }

theorem Inv.returned (h : Inv s) (hstopped : s.stopped = true) (hdetached : s.detached = []) :
    Inv { s with loop := .returned } :=
  h.moved trivial (fun _ => trivial) hdetached fun hgoing => by cases hgoing.symm.trans hstopped

/-- The log says a change of the connection at most. -/
theorem Inv.setConnected (h : Inv s) (hgoing : s.stopped = false) (next : Bool) :
    Inv (s.setConnected next) ∧ (Settled s → Settled (s.setConnected next)) ∧
      ∀ given, Asked s given → Asked (s.setConnected next) given := by
  have hsilent : .ended ∉ s.log := fun hmem => by cases (h.ended.mp hmem).symm.trans hgoing
  unfold Subscription.setConnected
  split_ifs with hsame
  · exact ⟨{ h with connected := h.connected.trans hsame }, id, fun _ => id⟩
  · rw [← h.connected] at hsame
    refine ⟨{ h with lawful := ⟨⟨hsilent, hsame⟩, h.lawful⟩, ended := ?_, connected := rfl }, id,
      fun _ => id⟩
    simpa using h.ended

theorem Inv.failed (h : Inv s) (hsettled : Settled s) (howed : owed s = [])
    (hdetached : s.detached = []) (failure : Failure) : Inv (s.failed failure) := by
  unfold Subscription.failed
  split_ifs with hstopped hdenied
  · exact h.returned hstopped hdetached
  · obtain ⟨hlost, -, -⟩ := h.setConnected (eq_false_of_ne_true hstopped) false
    exact { hlost with
      lawful := ⟨trivial, hlost.lawful⟩
      ended := by simp
      poised := trivial
      calm := fun _ => trivial
      detached := .inl hdetached
      woken := fun hgoing => by cases hgoing }
  · obtain ⟨hlost, hkept, -⟩ := h.setConnected (eq_false_of_ne_true hstopped) false
    have hwoken := hlost.woken (eq_false_of_ne_true hstopped)
    rw [show owed (s.setConnected false) = [] from howed] at hwoken
    exact { hlost with
      poised := hkept hsettled
      calm := fun _ => trivial
      detached := .inl hdetached
      woken := fun _ => hwoken }

/-- A cursor that the gate lets through is beyond the pending one, or the re-checks are spent. -/
theorem settled_takeCursor (h : Settled s) (cursor : ℕ) : Settled (s.takeCursor cursor) := by
  have hspent : ∀ c, Spent c (sinceRequest s.log) → Spent c (.loaded cursor :: sinceRequest s.log) :=
    fun c => Or.imp_left fun ⟨d, hmem, hlt⟩ => ⟨d, mem_cons_of_mem _ hmem, hlt⟩
  unfold Subscription.takeCursor
  split_ifs with hgate hstopped
  · refine ⟨fun wake hmem => ⟨(h.1 wake hmem).1, ?_⟩, h.2⟩
    refine (h.1 wake hmem).2.imp (And.imp_right (congrArg (· + 1))) fun hdone => ?_
    exact (hspent _ hdone).imp_right Nat.le_succ_of_le
  all_goals
    refine ⟨fun wake hmem => ⟨(h.1 wake hmem).1, .inr ?_⟩, h.2⟩
    obtain ⟨hpending, hchecks⟩ | hdone := (h.1 wake hmem).2
    · by_cases hle : cursor ≤ wake.1
      · refine .inr ?_
        change maxSettleChecks ≤ rechecks (sinceRequest s.log)
        rw [← hchecks]
        exact Nat.le_of_not_lt fun hlt => hgate ⟨_, hpending, hle, hlt⟩
      · exact .inl ⟨cursor, mem_cons_self, Nat.lt_of_not_le hle⟩
    · exact hspent _ hdone

theorem Inv.takeCursor (h : Inv s) (hloop : s.loop = .loaded (.ok cursor)) :
    Inv (s.takeCursor cursor) := by
  have hsettled : Settled s := by simpa [Poised, hloop] using h.poised
  have hdetached := h.undetached (by simp [hloop])
  have hnext := settled_takeCursor hsettled cursor
  have hwoken := h.woken
  simp only [owed, hloop] at hwoken
  have hcalm : s.stopped = true → s.unsettled cursor := by simpa [Calm, hloop] using h.calm
  unfold Subscription.takeCursor at hnext ⊢
  split_ifs at hnext ⊢ with hgate hstopped
  · exact { h with
      lawful := ⟨trivial, trivial, h.lawful⟩
      ended := by simpa using h.ended
      poised := hnext
      calm := fun _ => trivial
      detached := .inl hdetached
      woken := hwoken }
  · exact absurd (hcalm hstopped) hgate
  · exact { h with
      lawful := ⟨trivial, h.lawful⟩
      ended := by simpa using h.ended
      poised := ⟨hnext, rfl, rfl, cursor, rfl, rfl⟩
      calm := fun hstop => absurd hstop hstopped
      detached := .inl hdetached
      woken := hwoken }

theorem settled_woke (h : Asked s [(sent, cursor)]) (hbeyond : sent < cursor) :
    Settled { s with
      pendingSyncFromCursor := some sent
      announcedCursor := cursor
      log := .woke sent cursor :: s.log } := by
  obtain ⟨hwakes, hrechecks, hchecks, hanswers⟩ := h
  refine ⟨fun wake hmem => ?_, fun answer hmem hlower => ?_⟩
  · obtain rfl | hmem := mem_cons.mp hmem
    · exact ⟨hbeyond, .inl ⟨rfl, hchecks.trans hrechecks.symm⟩⟩
    · cases hwakes ▸ hmem
  · obtain rfl := mem_singleton.mp (hanswers ▸ hmem)
    exact absurd hlower (Nat.lt_asymm hbeyond)

theorem settled_heartbeat (h : Asked s [(sent, cursor)]) :
    Settled { s with
      pendingSyncFromCursor := none
      announcedCursor := if cursor < sent then 0 else s.announcedCursor } := by
  obtain ⟨hwakes, -, -, hanswers⟩ := h
  refine ⟨fun wake hmem => ?_, fun answer hmem hlower => ?_⟩
  · cases hwakes ▸ hmem
  · obtain rfl := mem_singleton.mp (hanswers ▸ hmem)
    exact if_pos hlower

theorem Inv.takeAnswer (h : Inv s) (hloop : s.loop = .polled sent (.ok cursor)) :
    Inv (s.takeAnswer sent cursor) := by
  have hasked : Asked s [(sent, cursor)] := by simpa [Poised, hloop] using h.poised
  have hdetached := h.undetached (by simp [hloop])
  unfold Subscription.takeAnswer
  by_cases hstopped : s.stopped = true
  · rw [if_pos hstopped]
    exact h.returned hstopped hdetached
  · rw [if_neg hstopped]
    have hgoing := eq_false_of_ne_true hstopped
    have hzero : Inv { s with failureCount := 0 } := { h with }
    obtain ⟨hconnected, -, hkept⟩ := hzero.setConnected hgoing true
    have hwoken := hconnected.woken hgoing
    simp only [owed, Subscription.setConnected, hloop] at hwoken
    have hturn : ∀ t : Subscription, t.stopped = false → t.turn = { t with loop := .loading } :=
      fun t ht => by rw [Subscription.turn, ht]; rfl
    rcases Nat.lt_or_ge sent cursor with hbeyond | hbeyond
    · dsimp only
      rw [if_pos hbeyond, hturn _ (by exact hgoing)]
      rw [filter_cons_of_pos (p := beyond) (decide_eq_true hbeyond)] at hwoken
      exact { hconnected with
        lawful := ⟨fun hmem => hstopped (hconnected.ended.mp hmem), hconnected.lawful⟩
        ended := (mem_cons.trans (or_iff_right (by simp))).trans hconnected.ended
        poised := settled_woke (hkept _ hasked) hbeyond
        calm := fun _ => trivial
        detached := .inl hdetached
        woken := fun _ => hwoken
        woken_only := hwoken ▸ suffix_refl _ }
    · dsimp only
      rw [if_neg (Nat.not_lt.mpr hbeyond), hturn _ (by exact hgoing)]
      rw [filter_cons_of_neg (p := beyond) (by simpa [beyond] using hbeyond)] at hwoken
      exact { hconnected with
        poised := settled_heartbeat (hkept _ hasked)
        calm := fun _ => trivial
        detached := .inl hdetached
        woken := fun _ => hwoken }

/-- No stop comes between the arrival of a cursor that the gate lets through and the start of
its request, and no such cursor arrives after a stop. -/
def Spares (s : Subscription) : Event → Prop
  | .stop => Calm s
  | .load (.ok cursor) => s.stopped = true → s.unsettled cursor
  | _ => True

theorem Inv.start (h : Inv s) : Inv s.start := by
  cases hloop : s.loop with
  | idle =>
    have hsettled : Settled s := by simpa [Poised, hloop] using h.poised
    simp only [Subscription.start, hloop]
    split_ifs with hstopped
    · exact h
    · exact h.moved hsettled (fun _ => trivial) (h.undetached (by simp [hloop]))
        fun _ => by simp only [owed, hloop]
  | _ => simpa [Subscription.start, hloop] using h

theorem Inv.resume (h : Inv s) : Inv s.resume := by
  unfold Subscription.resume
  split
  · exact h
  · split_ifs
    · exact h
    · exact { h with }

theorem Inv.stop (h : Inv s) (hcalm : Calm s) : Inv s.stop :=
  { h with
    lawful := ⟨trivial, h.lawful⟩
    ended := by simp [Subscription.stop]
    calm := fun _ => hcalm
    woken := fun hgoing => by cases hgoing }

theorem Inv.requested (h : Inv s) (hloop : s.loop = .polling (.token sent)) :
    Inv { s with loop := .polling (.request sent), log := .requested sent :: s.log } := by
  have hpoised := h.poised
  have hcalm := h.calm
  have hwoken := h.woken
  simp only [Poised, Calm, owed, hloop] at hpoised hcalm hwoken
  obtain ⟨⟨hwakes, hanswers⟩, hpending, hchecks, durable, hdurable, rfl⟩ := hpoised
  have hrequested : Allowed (.requested (max durable s.announcedCursor)) s.log := by
    refine ⟨fun hmem => hcalm (h.ended.mp hmem), fun wake hmem => ?_, fun answer hmem hlower => ?_⟩
    · obtain ⟨hlt, hdone⟩ := hwakes wake hmem
      refine ⟨Nat.lt_of_lt_of_le hlt (Nat.le_max_right _ _), hdone.resolve_left ?_⟩
      rintro ⟨hpended, -⟩
      cases hpending.symm.trans hpended
    · rw [hdurable, hanswers answer hmem hlower, Nat.max_zero]
  exact { h with
    lawful := ⟨hrequested, h.lawful⟩
    ended := by simpa using h.ended
    poised := ⟨rfl, rfl, hchecks, rfl⟩
    calm := fun _ => trivial
    detached := .inl (h.undetached (by simp [hloop]))
    woken := hwoken }

theorem Inv.answered (h : Inv s) (hloop : s.loop = .polling (.request sent)) (cursor : ℕ) :
    Inv { s with
      loop := .polled sent (.ok cursor), log := .answered sent cursor :: s.log } := by
  have hpoised := h.poised
  have hwoken := h.woken
  simp only [Poised, owed, hloop] at hpoised hwoken
  obtain ⟨hwakes, hrechecks, hchecks, hanswers⟩ := hpoised
  have hcons : (answers (.answered sent cursor :: s.log)).filter beyond =
      [(sent, cursor)].filter beyond ++ (answers s.log).filter beyond :=
    filter_append [(sent, cursor)] _
  exact { h with
    lawful := ⟨trivial, h.lawful⟩
    ended := by simpa using h.ended
    poised := ⟨hwakes, hrechecks, hchecks, congrArg ((sent, cursor) :: ·) hanswers⟩
    calm := fun _ => trivial
    detached := .inl (h.undetached (by simp [hloop]))
    woken := fun hgoing => by rw [hcons, ← hwoken hgoing]; rfl
    woken_only := by
      rw [hcons]
      exact h.woken_only.trans (suffix_append _ _) }

theorem Inv.step (h : Inv s) {event : Event} (spares : Spares s event)
    (taken : step s event = some next) : Inv next := by
  have hpoised := h.poised
  have hundetached := h.undetached
  unfold WakeSubscription.step at taken
  split at taken
  case h_1 => exact some.inj taken ▸ h.start
  case h_2 => exact some.inj taken ▸ h.resume
  case h_3 => exact some.inj taken ▸ h.stop spares
  case h_4 result hloop =>
    obtain rfl := some.inj taken
    simp only [Poised, hloop] at hpoised
    refine h.moved hpoised (fun hstopped => ?_) (hundetached (by simp [hloop]))
      fun _ => by simp only [owed, hloop]
    cases result with
    | ok cursor => exact spares hstopped
    | error failure => trivial
  case h_5 hloop => exact some.inj taken ▸ h.requested hloop
  case h_6 hloop => exact some.inj taken ▸ h.answered hloop _
  case h_7 hloop =>
    obtain rfl := some.inj taken
    simp only [Poised, hloop] at hpoised
    exact h.moved hpoised.1 (fun _ => trivial) (hundetached (by simp [hloop]))
      fun _ => by simp only [owed, hloop]
  case h_8 hloop =>
    obtain rfl := some.inj taken
    simp only [Poised, hloop] at hpoised
    obtain ⟨hwakes, -, -, hanswers⟩ := hpoised
    have hsettled : Settled s := ⟨by simp [hwakes], by simp [hanswers]⟩
    exact h.moved hsettled (fun _ => trivial) (hundetached (by simp [hloop]))
      fun _ => by simp only [owed, hloop]
  case h_9 hloop =>
    obtain rfl := some.inj taken
    simp only [Poised, hloop] at hpoised
    unfold Subscription.turn
    split_ifs with hstopped
    · exact h.returned hstopped (hundetached (by simp [hloop]))
    · exact h.moved hpoised (fun _ => trivial) (hundetached (by simp [hloop]))
        fun _ => by simp only [owed, hloop]
  case h_10 hloop => exact some.inj taken ▸ h.takeCursor hloop
  case h_11 hloop => exact some.inj taken ▸ h.takeAnswer hloop
  case h_12 hloop | h_13 hloop =>
    simp only [Poised, hloop] at hpoised
    exact some.inj taken ▸ h.failed hpoised (by simp only [owed, hloop])
      (hundetached (by simp [hloop])) _
  case h_14 hloop =>
    split_ifs at taken with hstopped
    exact some.inj taken ▸ h.returned hstopped (hundetached (by simp [hloop]))
  case h_15 poll hloop =>
    split_ifs at taken with hstopped
    have hcalm := h.calm hstopped
    have hdetached := hundetached (by simp [hloop])
    have hreturned := h.returned hstopped hdetached
    obtain rfl := some.inj taken
    cases poll with
    | token sent => simp only [Calm, hloop] at hcalm
    | request sent => exact { hreturned with detached := .inr ⟨rfl, sent, by rw [hdetached]⟩ }
  case h_16 =>
    split_ifs at taken with hmem
    all_goals
      obtain hnone | ⟨-, other, hother⟩ := h.detached
      · simp [hnone] at hmem
      · simp [hother] at hmem
  case h_17 =>
    split_ifs at taken with hmem
    obtain rfl := some.inj taken
    obtain hnone | ⟨-, other, hother⟩ := h.detached
    · simp [hnone] at hmem
    · rw [hother, mem_singleton] at hmem
      exact { h with detached := .inl (by simp [hother, hmem]) }
  case h_18 => cases taken

/-- The calls of `pollOnce` that have not ended, each with one request at most. -/
def polls (s : Subscription) : List Poll :=
  match s.loop with
  | .polling poll => poll :: s.detached
  | _ => s.detached

/-- Every answer beyond the cursor sent has fired its wake, unless the loop has yet to take it up
or was stopped before, and what happened was allowed when it did. -/
structure Disciplined (s : Subscription) : Prop where
  one_poll : (polls s).length ≤ 1
  woken : s.stopped = false → owed s ++ wakes s.log = (answers s.log).filter beyond
  woken_only : wakes s.log <:+ (answers s.log).filter beyond
  lawful : Lawful s.log

theorem disciplined_of_spared (h : Reached step Spares {} s) : Disciplined s := by
  have hinv : Inv s := by
    refine h.invariant ?_ fun _ _ _ hbefore spares taken => hbefore.step spares taken
    exact ⟨trivial, by simp, rfl, ⟨by simp [sinceRequest, wakes], by simp [sinceRequest, answers]⟩,
      fun _ => trivial, .inl rfl, fun _ => rfl, suffix_refl _⟩
  refine ⟨?_, hinv.woken, hinv.woken_only, hinv.lawful⟩
  unfold polls
  split
  · rename_i hloop
    simp [hinv.undetached (by simp [hloop])]
  · obtain hnone | ⟨-, sent, hsent⟩ := hinv.detached
    · simp [hnone]
    · simp [hsent]

theorem disciplined_of_spared_advance :
    ∃ s, run step {} [.start, .load (.ok 0), .runs, .token (.ok ()), .answer (.ok 3), .runs, .stop] =
      some s ∧ wakes s.log = [(0, 3)] ∧ Disciplined s := by
  obtain ⟨s, hrun, hwakes⟩ : ∃ s, run step {}
      [.start, .load (.ok 0), .runs, .token (.ok ()), .answer (.ok 3), .runs, .stop] = some s ∧
        wakes s.log = [(0, 3)] := ⟨_, rfl, rfl⟩
  refine ⟨s, hrun, hwakes, disciplined_of_spared (Reached.start.run ?_ hrun)⟩
  refine ⟨trivial, fun _ h => ?_⟩
  cases h
  refine ⟨(fun h => by cases h), fun _ h => ?_⟩
  cases h
  iterate 4
    refine ⟨trivial, fun _ h => ?_⟩
    cases h
  exact ⟨trivial, fun _ _ => trivial⟩

/-- A stop during the token's await does not keep the request from being started. -/
theorem request_after_stop :
    ∃ s, run step {} [.start, .load (.ok 0), .runs, .stop, .signal, .detachedToken 0 true] = some s ∧
      ¬ Disciplined s :=
  ⟨_, rfl, fun h => h.lawful.1.1 mem_cons_self⟩

end Havemind.WakeSubscription
