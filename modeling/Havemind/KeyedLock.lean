import Havemind.KeyedTable
import Havemind.Runs
import Mathlib.Algebra.Ring.Nat
import Mathlib.Data.Fintype.EquivFin
import Mathlib.Data.List.Sort
import Mathlib.Logic.Relation
import Mathlib.Order.Defs.LinearOrder

/-!
The keyed mutex as a machine of microtasks. A call of `runExclusive` is a link of its key's
chain: it waits for the link that was the tail, its task then runs, and the promises `run` and
`settled` and the cleanup follow one microtask at a time, in any order among the links. The task
of a link of `withKeys` makes the call for the next key; the last one's runs the caller's task.
-/
namespace Havemind.KeyedLock

open Runs Relation List Option Function

/-- How a task's promise settles. -/
inductive Outcome
  | resolved
  | rejected
  deriving DecidableEq

/-- `running` holds what the link's task returned: the link of the next key, or the promise of
the caller's task. `settled` is the fulfilment of the promise stored in `chains`, and `dropped`
comes after the cleanup. -/
inductive Phase
  | waiting
  | running (inner : Option ℕ)
  | ran (outcome : Outcome)
  | settled (outcome : Outcome)
  | dropped (outcome : Outcome)
  deriving DecidableEq

namespace Phase

def stage : Phase → ℕ
  | waiting => 0
  | running _ => 1
  | ran _ => 2
  | settled _ => 3
  | dropped _ => 4

/-- How `run` settled. -/
def outcome : Phase → Option Outcome
  | waiting => none
  | running _ => none
  | ran outcome => some outcome
  | settled outcome => some outcome
  | dropped outcome => some outcome

end Phase

inductive Task
  | pending
  | running
  | settled (outcome : Outcome)
  deriving DecidableEq

/-- A call of `runExclusive` for `key`; its task goes on with `next` on `rest`. -/
structure Link (K : Type*) where
  key : K
  previous : Option ℕ
  rest : List K
  call : ℕ
  phase : Phase
  deriving DecidableEq

/-- What a caller asked for, and where its own task stands. -/
structure Call (K : Type*) where
  keys : List K
  task : Task
  deriving DecidableEq

/-- A link or a call is known by its place in its list. -/
structure KeyedMutex (K : Type*) where
  chains : K → Option ℕ
  links : List (Link K)
  calls : List (Call K)

/-- The steps a link is still good for, those of the links its task makes included. -/
def Link.work {K : Type*} (link : Link K) : ℕ :=
  if link.phase.stage = 0 then 4 + 4 * link.rest.length else 4 - link.phase.stage

def Task.work : Task → ℕ
  | .settled _ => 0
  | _ => 1

inductive Action (K : Type*)
  | runExclusive (key : K)
  | withKeys (keys : List K)
  | start (link : ℕ)
  | taskSettles (call : ℕ) (outcome : Outcome)
  | runSettles (link : ℕ)
  | tailSettles (link : ℕ)
  | cleanup (link : ℕ)
  deriving DecidableEq

/-- A caller of the mutex acts, or a task of one settles: the rest are microtasks. -/
def Action.IsCall {K : Type*} : Action K → Prop
  | .runExclusive _ => True
  | .withKeys _ => True
  | _ => False

def Action.IsMicrotask {K : Type*} : Action K → Prop
  | .start _ => True
  | .runSettles _ => True
  | .tailSettles _ => True
  | .cleanup _ => True
  | _ => False

namespace KeyedMutex

variable {K : Type*}

def empty : KeyedMutex K := ⟨fun _ => none, [], []⟩

def setPhase (mutex : KeyedMutex K) (i : ℕ) (phase : Phase) : KeyedMutex K :=
  { mutex with links := mutex.links.modify i fun link => { link with phase := phase } }

def setTask (mutex : KeyedMutex K) (call : ℕ) (task : Task) : KeyedMutex K :=
  { mutex with calls := mutex.calls.modify call fun caller => { caller with task := task } }

/-- The promise a link waits for is fulfilled. -/
def fulfilled (mutex : KeyedMutex K) : Option ℕ → Bool
  | none => true
  | some i => mutex.links[i]?.any fun link => decide (3 ≤ link.phase.stage)

def taskOf (calls : List (Call K)) (call : ℕ) : Option Task := calls[call]?.map Call.task

/-- How the promise that the task of a link returned has settled. -/
def innerOutcome (mutex : KeyedMutex K) (call : ℕ) : Option ℕ → Option Outcome
  | none => (taskOf mutex.calls call).bind fun task =>
    if let .settled outcome := task then some outcome else none
  | some i => mutex.links[i]?.bind fun link => link.phase.outcome

def work (mutex : KeyedMutex K) : ℕ :=
  (mutex.links.map Link.work).sum + (mutex.calls.map fun caller => caller.task.work).sum

section
variable {mutex : KeyedMutex K} {i j c d : ℕ} {link : Link K} {phase : Phase}
  {task before : Task}

/-- The link at `j` once the one at `i` has this phase. -/
def rephased (i j : ℕ) (phase : Phase) (link : Link K) : Link K :=
  { link with phase := if i = j then phase else link.phase }

theorem getElem?_setPhase :
    (mutex.setPhase i phase).links[j]? = mutex.links[j]?.map (rephased i j phase) := by
  rw [setPhase, List.getElem?_modify, Option.map_eq_map]
  congr 1
  funext link
  by_cases hij : i = j
  · simp [rephased, hij]
  · simp [rephased, hij]

theorem link_of_setPhase (h : (mutex.setPhase i phase).links[j]? = some link) :
    ∃ before, mutex.links[j]? = some before ∧ rephased i j phase before = link := by
  rw [getElem?_setPhase] at h
  exact map_eq_some_iff.mp h

theorem setPhase_link (h : mutex.links[j]? = some link) :
    (mutex.setPhase i phase).links[j]? = some (rephased i j phase link) := by
  rw [getElem?_setPhase, h, map_some]

/-- Stages only grow. -/
theorem stage_le_rephased (hlink : mutex.links[i]? = some link)
    (hstage : phase.stage = link.phase.stage + 1) {other : Link K}
    (hother : mutex.links[j]? = some other) :
    other.phase.stage ≤ (rephased i j phase other).phase.stage := by
  by_cases hij : i = j
  · subst hij
    obtain rfl := some.inj (hlink.symm.trans hother)
    simp [rephased, hstage]
  · simp [rephased, hij]

theorem lt_length (h : mutex.links[j]? = some link) : j < mutex.links.length :=
  (List.getElem?_eq_some_iff.mp h).1

theorem taskOf_setTask_self (h : taskOf mutex.calls c = some before) :
    taskOf (mutex.setTask c task).calls c = some task := by
  obtain ⟨caller, hcaller, -⟩ := map_eq_some_iff.mp h
  simp [taskOf, setTask, hcaller]

theorem taskOf_setTask_ne (h : d ≠ c) :
    taskOf (mutex.setTask c task).calls d = taskOf mutex.calls d := by
  simp [taskOf, setTask, List.getElem?_modify_ne, h.symm]

theorem keys_of_setTask {caller : Call K} (h : (mutex.setTask c task).calls[d]? = some caller) :
    ∃ before, mutex.calls[d]? = some before ∧ before.keys = caller.keys := by
  rw [setTask, List.getElem?_modify] at h
  obtain ⟨before, hbefore, rfl⟩ := map_eq_some_iff.mp h
  refine ⟨before, hbefore, ?_⟩
  split_ifs
  all_goals rfl

theorem lt_calls (h : taskOf mutex.calls c = some task) : c < mutex.calls.length := by
  obtain ⟨caller, hcaller, -⟩ := map_eq_some_iff.mp h
  exact (List.getElem?_eq_some_iff.mp hcaller).1

theorem fulfilled_some {p : ℕ} : mutex.fulfilled (some p) = true ↔
    ∃ before, mutex.links[p]? = some before ∧ 3 ≤ before.phase.stage := by
  rw [fulfilled, Option.any_eq_true]
  simp

theorem sum_map_modify {α : Type*} (f : α → α) (g : α → ℕ) {l : List α} {a : α}
    (h : l[i]? = some a) : ((l.modify i f).map g).sum + g a = (l.map g).sum + g (f a) := by
  induction l generalizing i with
  | nil => cases h
  | cons b rest ih =>
    cases i with
    | zero =>
      obtain rfl := some.inj h
      simp only [modify_zero_cons, map_cons, sum_cons]
      omega
    | succ n =>
      have hrest := ih (i := n) (by simpa using h)
      simp only [modify_succ_cons, map_cons, sum_cons]
      omega

theorem work_setPhase (hlink : mutex.links[i]? = some link) :
    (mutex.setPhase i phase).work + link.work =
      mutex.work + Link.work { link with phase := phase } := by
  have hsum := sum_map_modify (fun link : Link K => { link with phase := phase }) Link.work hlink
  simp only [work, setPhase]
  omega

theorem work_setTask (hbefore : taskOf mutex.calls c = some before) :
    (mutex.setTask c task).work + before.work = mutex.work + task.work := by
  obtain ⟨caller, hcaller, rfl⟩ := map_eq_some_iff.mp hbefore
  have hsum := sum_map_modify (fun caller : Call K => { caller with task := task })
    (fun caller => caller.task.work) hcaller
  simp only [work, setTask] at hsum ⊢
  omega

theorem work_of_waiting (h : link.phase.stage = 0) : link.work = 4 + 4 * link.rest.length :=
  if_pos h

theorem work_advance (hlink : mutex.links[i]? = some link) (hpos : 0 < link.phase.stage)
    (hlt : link.phase.stage < 4) (hstage : phase.stage = link.phase.stage + 1) :
    (mutex.setPhase i phase).work + 1 = mutex.work := by
  have hwork : (mutex.setPhase i phase).work + link.work =
      mutex.work + Link.work { link with phase := phase } := work_setPhase hlink
  rw [Link.work, Link.work, if_neg (by omega), if_neg (by simp only [hstage]; omega)] at hwork
  simp only [hstage] at hwork
  omega

end

variable [LinearOrder K]

/-- `runExclusive`: a new link after the tail of the key's chain, and the tail from now on. -/
def enqueue (mutex : KeyedMutex K) (call : ℕ) (key : K) (rest : List K) : KeyedMutex K :=
  { mutex with
    chains := update mutex.chains key (some mutex.links.length)
    links := mutex.links ++ [⟨key, mutex.chains key, rest, call, .waiting⟩] }

def next (mutex : KeyedMutex K) (call : ℕ) : List K → KeyedMutex K
  | [] => mutex.setTask call .running
  | key :: rest => mutex.enqueue call key rest

/-- The promise that `next` returns. -/
def promise (mutex : KeyedMutex K) (rest : List K) : Option ℕ :=
  if rest = [] then none else some mutex.links.length

/-- `[...new Set(keys)].sort()`. -/
def ordered (keys : List K) : List K := keys.eraseDups.insertionSort (· ≤ ·)

/-- A call of the mutex by its caller, with the keys in the order they are waited for. -/
def accept (mutex : KeyedMutex K) (keys order : List K) : KeyedMutex K :=
  let called : KeyedMutex K := { mutex with calls := mutex.calls ++ [⟨keys, .pending⟩] }
  called.next mutex.calls.length order

/-- The microtask of `settled.then`: the key goes only while the link is the tail. -/
def dropKey (mutex : KeyedMutex K) (i : ℕ) (key : K) : KeyedMutex K :=
  if mutex.chains key = some i then
    { mutex with chains := update mutex.chains key none }
  else mutex

def step (mutex : KeyedMutex K) : Action K → Option (KeyedMutex K)
  | .runExclusive key => some (mutex.accept [key] [key])
  | .withKeys keys => some (mutex.accept keys (ordered keys))
  | .start i => mutex.links[i]?.bind fun link =>
    if link.phase = .waiting ∧ mutex.fulfilled link.previous then
      some ((mutex.setPhase i (.running (mutex.promise link.rest))).next link.call link.rest)
    else none
  | .taskSettles call outcome =>
    if taskOf mutex.calls call = some .running then some (mutex.setTask call (.settled outcome))
    else none
  | .runSettles i => mutex.links[i]?.bind fun link =>
    if let .running inner := link.phase then
      (mutex.innerOutcome link.call inner).map fun outcome => mutex.setPhase i (.ran outcome)
    else none
  | .tailSettles i => mutex.links[i]?.bind fun link =>
    if let .ran outcome := link.phase then some (mutex.setPhase i (.settled outcome)) else none
  | .cleanup i => mutex.links[i]?.bind fun link =>
    if let .settled outcome := link.phase then
      some ((mutex.dropKey i link.key).setPhase i (.dropped outcome))
    else none

variable {mutex : KeyedMutex K} {i j : ℕ} {link : Link K} {phase : Phase} {call : ℕ} {key : K}
  {rest : List K}

theorem getElem?_concat_eq_some {α : Type*} {l : List α} {a b : α} :
    (l ++ [a])[j]? = some b ↔ l[j]? = some b ∨ j = l.length ∧ b = a := by
  by_cases hj : j < l.length
  · rw [List.getElem?_append_left hj]
    exact ⟨.inl, fun h => h.resolve_right fun hlast => by omega⟩
  · rw [List.getElem?_append_right (by omega), List.getElem?_singleton,
      List.getElem?_eq_none (by omega)]
    split_ifs with hzero
    · simp only [some.injEq, false_or]
      exact ⟨fun h => ⟨by omega, h.symm⟩, fun h => h.2.symm⟩
    · simp only [false_or, false_iff, not_and]
      omega

theorem link_of_enqueue (h : (mutex.enqueue call key rest).links[j]? = some link) :
    mutex.links[j]? = some link ∨
      j = mutex.links.length ∧ link = ⟨key, mutex.chains key, rest, call, .waiting⟩ :=
  getElem?_concat_eq_some.mp h

theorem enqueue_link (h : mutex.links[j]? = some link) :
    (mutex.enqueue call key rest).links[j]? = some link := getElem?_concat_eq_some.mpr (.inl h)

theorem chains_enqueue :
    (mutex.enqueue call key rest).chains =
      update mutex.chains key (some mutex.links.length) := rfl

/-- The chain of each key: a link waits for the one before it, and starts after all of them. -/
structure Chained (chains : K → Option ℕ) (links : List (Link K)) : Prop where
  previous : ∀ {i p : ℕ} {link : Link K}, links[i]? = some link → link.previous = some p →
    p < i ∧ ∃ before : Link K, links[p]? = some before ∧ before.key = link.key
  ahead : ∀ {i j : ℕ} {link before : Link K}, links[i]? = some link → links[j]? = some before →
    j < i → before.key = link.key →
      3 ≤ before.phase.stage ∨ ∃ p, link.previous = some p ∧ j ≤ p
  started : ∀ {i j : ℕ} {link before : Link K}, links[i]? = some link →
    links[j]? = some before → j < i → before.key = link.key → 0 < link.phase.stage →
      3 ≤ before.phase.stage
  tail : ∀ {k : K} {i : ℕ}, chains k = some i → ∃ link : Link K, links[i]? = some link ∧
    link.key = k ∧ link.phase.stage < 4 ∧
      ∀ (j : ℕ) (before : Link K), links[j]? = some before → before.key = k → j ≤ i
  free : ∀ {k : K} {j : ℕ} {before : Link K}, chains k = none → links[j]? = some before →
    before.key = k → 3 ≤ before.phase.stage

theorem Chained.enqueue (h : Chained mutex.chains mutex.links) (call : ℕ) (key : K)
    (rest : List K) :
    Chained (mutex.enqueue call key rest).chains (mutex.enqueue call key rest).links where
  previous := by
    intro i link p hlink hp
    obtain hlink | ⟨rfl, rfl⟩ := link_of_enqueue hlink
    · obtain ⟨hlt, before, hbefore, hkey⟩ := h.previous hlink hp
      exact ⟨hlt, before, enqueue_link hbefore, hkey⟩
    · obtain ⟨before, hbefore, hkey, -⟩ := h.tail hp
      exact ⟨lt_length hbefore, before, enqueue_link hbefore, hkey⟩
  ahead := by
    intro i j link before hlink hbefore hlt hkey
    obtain hbefore | ⟨rfl, rfl⟩ := link_of_enqueue hbefore
    · obtain hlink | ⟨rfl, rfl⟩ := link_of_enqueue hlink
      · exact h.ahead hlink hbefore hlt hkey
      · cases hchain : mutex.chains key with
        | none => exact .inl (h.free hchain hbefore hkey)
        | some p =>
          obtain ⟨_, -, -, -, hlast⟩ := h.tail hchain
          exact .inr ⟨p, rfl, hlast j before hbefore hkey⟩
    · obtain hlink | ⟨rfl, -⟩ := link_of_enqueue hlink
      · have := lt_length hlink
        omega
      · omega
  started := by
    intro i j link before hlink hbefore hlt hkey hstarted
    obtain hlink | ⟨rfl, rfl⟩ := link_of_enqueue hlink
    · obtain hbefore | ⟨rfl, -⟩ := link_of_enqueue hbefore
      · exact h.started hlink hbefore hlt hkey hstarted
      · have := lt_length hlink
        omega
    · exact absurd hstarted (by simp [Phase.stage])
  tail := by
    intro k i hchain
    by_cases hk : k = key
    · subst hk
      rw [chains_enqueue, update_self, some.injEq] at hchain
      subst hchain
      refine ⟨⟨k, mutex.chains k, rest, call, .waiting⟩, by simp [KeyedMutex.enqueue], rfl,
        by simp [Phase.stage], ?_⟩
      intro j before hbefore _
      obtain hbefore | ⟨rfl, -⟩ := link_of_enqueue hbefore
      · exact (lt_length hbefore).le
      · exact le_rfl
    · rw [chains_enqueue, update_of_ne hk] at hchain
      obtain ⟨link, hlink, hkey, hstage, hlast⟩ := h.tail hchain
      refine ⟨link, enqueue_link hlink, hkey, hstage, ?_⟩
      intro j before hbefore hbk
      obtain hbefore | ⟨-, rfl⟩ := link_of_enqueue hbefore
      · exact hlast j before hbefore hbk
      · exact absurd hbk.symm hk
  free := by
    intro k j before hchain hbefore hbk
    by_cases hk : k = key
    · simp [chains_enqueue, hk] at hchain
    · rw [chains_enqueue, update_of_ne hk] at hchain
      obtain hbefore | ⟨-, rfl⟩ := link_of_enqueue hbefore
      · exact h.free hchain hbefore hbk
      · exact absurd hbk.symm hk

omit [LinearOrder K] in
/-- The next stage of one link; its key is gone from the chains only if it was the tail. -/
theorem Chained.setPhase {chains : K → Option ℕ} (h : Chained mutex.chains mutex.links)
    (hlink : mutex.links[i]? = some link) (hstage : phase.stage = link.phase.stage + 1)
    (hready : link.phase.stage = 0 → mutex.fulfilled link.previous = true)
    (hchains : ∀ k, chains k = mutex.chains k ∨
      chains k = none ∧ mutex.chains k = some i ∧ phase.stage = 4)
    (htail : phase.stage = 4 → chains link.key ≠ some i) :
    Chained chains (mutex.setPhase i phase).links where
  previous := by
    intro j p later hlater hp
    obtain ⟨old, hold, rfl⟩ := link_of_setPhase hlater
    obtain ⟨hlt, before, hbefore, hkey⟩ := h.previous hold hp
    exact ⟨hlt, _, setPhase_link hbefore, hkey⟩
  ahead := by
    intro j j' later before hlater hbefore hlt hkey
    obtain ⟨old, hold, rfl⟩ := link_of_setPhase hlater
    obtain ⟨old', hold', rfl⟩ := link_of_setPhase hbefore
    refine (h.ahead hold hold' hlt hkey).imp_left ?_
    exact fun hdone => hdone.trans (stage_le_rephased hlink hstage hold')
  started := by
    intro j j' later before hlater hbefore hlt hkey hpos
    obtain ⟨old, hold, rfl⟩ := link_of_setPhase hlater
    obtain ⟨old', hold', rfl⟩ := link_of_setPhase hbefore
    refine le_trans ?_ (stage_le_rephased hlink hstage hold')
    by_cases hwaiting : old.phase.stage = 0
    · -- Only the link that starts now leaves the wait, and the link it waited for has settled.
      have hij : i = j := by
        by_contra hij
        simp [rephased, hij, hwaiting] at hpos
      subst hij
      obtain rfl := some.inj (hlink.symm.trans hold)
      obtain hdone | ⟨p, hp, hle⟩ := h.ahead hlink hold' hlt hkey
      · exact hdone
      · have hfulfilled := hready hwaiting
        obtain ⟨hpi, mid, hmid, hmidKey⟩ := h.previous hlink hp
        rw [hp, fulfilled, hmid, Option.any_some, decide_eq_true_eq] at hfulfilled
        obtain rfl | hltp := hle.eq_or_lt
        · obtain rfl := some.inj (hmid.symm.trans hold')
          exact hfulfilled
        · exact h.started hmid hold' hltp (hkey.trans hmidKey.symm) (by omega)
    · exact h.started hold hold' hlt hkey (Nat.pos_of_ne_zero hwaiting)
  tail := by
    intro k i' hchain
    obtain hsame | ⟨hnone, -⟩ := hchains k
    · obtain ⟨last, hlast, hkey, hlt, hall⟩ := h.tail (hsame.symm.trans hchain)
      refine ⟨_, setPhase_link hlast, hkey, ?_, ?_⟩
      · by_cases hi : i = i'
        · subst hi
          obtain rfl := some.inj (hlink.symm.trans hlast)
          have hne : phase.stage ≠ 4 := fun h4 => htail h4 (hkey ▸ hchain)
          simp only [rephased, if_true]
          omega
        · simpa [rephased, hi] using hlt
      · intro j before hbefore hbk
        obtain ⟨old, hold, rfl⟩ := link_of_setPhase hbefore
        exact hall j old hold hbk
    · rw [hnone] at hchain
      cases hchain
  free := by
    intro k j before hchain hbefore hbk
    obtain ⟨old, hold, rfl⟩ := link_of_setPhase hbefore
    obtain hsame | ⟨-, hgone, h4⟩ := hchains k
    · exact (h.free (hsame.symm.trans hchain) hold hbk).trans
        (stage_le_rephased hlink hstage hold)
    · obtain ⟨last, hlast, hkey, -, hall⟩ := h.tail hgone
      obtain rfl := some.inj (hlink.symm.trans hlast)
      obtain rfl | hlt := (hall j old hold hbk).eq_or_lt
      · simp [rephased, h4]
      · exact (h.started hlink hold hlt (hbk.trans hkey.symm) (by omega)).trans
          (stage_le_rephased hlink hstage hold)

/-- A call that has not begun its task waits with its last link, whose key is the largest it has
asked for; the keys it still needs are the `rest` of that link. Between the start of a link and
the end of `next`, the call is `asking` for them. -/
structure Called (calls : List (Call K)) (links : List (Link K)) (asking : Option (ℕ × List K)) :
    Prop where
  owner : ∀ {i : ℕ} {link : Link K}, links[i]? = some link → link.call < calls.length
  sorted : ∀ {i : ℕ} {link : Link K}, links[i]? = some link →
    (link.key :: link.rest).Pairwise (· < ·)
  outcome : ∀ {i : ℕ} {link : Link K} {outcome : Outcome}, links[i]? = some link →
    link.phase.outcome = some outcome → taskOf calls link.call = some (.settled outcome)
  current : ∀ {i : ℕ} {link : Link K}, links[i]? = some link → link.phase.stage = 0 →
    taskOf calls link.call = some .pending ∧ (∀ rest, asking ≠ some (link.call, rest)) ∧
      ∀ (j : ℕ) (held : Link K), links[j]? = some held → held.call = link.call → j ≠ i →
        held.key < link.key
  waiting : ∀ {c : ℕ}, taskOf calls c = some .pending → (∃ rest, asking = some (c, rest)) ∨
    ∃ (i : ℕ) (link : Link K), links[i]? = some link ∧ link.call = c ∧ link.phase.stage = 0
  covers : ∀ {c : ℕ} {caller : Call K} {k : K}, calls[c]? = some caller → k ∈ caller.keys →
    (∃ rest, asking = some (c, rest) ∧ k ∈ rest) ∨
      ∃ (i : ℕ) (link : Link K), links[i]? = some link ∧ link.call = c ∧
        (link.key = k ∨ link.phase.stage = 0 ∧ k ∈ link.rest)
  asks : ∀ {c : ℕ} {rest : List K}, asking = some (c, rest) → taskOf calls c = some .pending ∧
    rest.Pairwise (· < ·) ∧ ∀ (j : ℕ) (held : Link K), links[j]? = some held → held.call = c →
      ∀ k ∈ rest, held.key < k

section
variable {calls : List (Call K)} {links : List (Link K)} {asking : Option (ℕ × List K)} {c : ℕ}
  {task : Task} {before : Task} {d : ℕ}

theorem Called.eq_of_waiting (h : Called calls links asking) {other : Link K}
    (hlink : links[i]? = some link) (hstage : link.phase.stage = 0)
    (hother : links[j]? = some other) (hstage' : other.phase.stage = 0)
    (hcall : other.call = link.call) : j = i := by
  by_contra hne
  have hlt := (h.current hlink hstage).2.2 j other hother hcall hne
  have hgt := (h.current hother hstage').2.2 i link hlink hcall.symm (Ne.symm hne)
  exact absurd (hlt.trans hgt) (lt_irrefl _)

/-- A link that starts leaves its call asking for the keys it still needs. -/
theorem Called.setPhase (h : Called calls mutex.links none)
    (hlink : mutex.links[i]? = some link) (hstage : phase.stage = link.phase.stage + 1)
    (hout : ∀ outcome, phase.outcome = some outcome →
      taskOf calls link.call = some (.settled outcome)) :
    Called calls (mutex.setPhase i phase).links
      (if link.phase.stage = 0 then some (link.call, link.rest) else none) where
  owner := by
    intro j later hlater
    obtain ⟨old, hold, rfl⟩ := link_of_setPhase hlater
    have howner := h.owner hold
    exact howner
  sorted := by
    intro j later hlater
    obtain ⟨old, hold, rfl⟩ := link_of_setPhase hlater
    have hsorted := h.sorted hold
    exact hsorted
  outcome := by
    intro j later outcome hlater houtcome
    obtain ⟨old, hold, rfl⟩ := link_of_setPhase hlater
    by_cases hij : i = j
    · subst hij
      obtain rfl := some.inj (hlink.symm.trans hold)
      simp only [rephased, if_true] at houtcome
      exact hout outcome houtcome
    · simp only [rephased, hij, if_false] at houtcome
      have hcaller := h.outcome hold houtcome
      exact hcaller
  current := by
    intro j later hlater hzero
    obtain ⟨old, hold, rfl⟩ := link_of_setPhase hlater
    have hle := stage_le_rephased hlink hstage hold
    obtain ⟨hpending, -, hall⟩ := h.current hold (by omega)
    refine ⟨hpending, ?_, ?_⟩
    · -- Another link of this call would be waiting as well.
      intro rest hasking
      split_ifs at hasking with hstarts
      rw [some.injEq, Prod.mk.injEq] at hasking
      obtain rfl := h.eq_of_waiting hold (by omega) hlink hstarts hasking.1
      simp [rephased, hstage] at hzero
    · intro j' held hheld hcall hne
      obtain ⟨old', hold', rfl⟩ := link_of_setPhase hheld
      exact hall j' old' hold' hcall hne
  waiting := by
    intro c hcaller
    obtain ⟨rest, hnone⟩ | ⟨j, waiter, hwaiter, hcall, hzero⟩ := h.waiting hcaller
    · cases hnone
    · by_cases hij : i = j
      · subst hij
        obtain rfl := some.inj (hlink.symm.trans hwaiter)
        exact .inl ⟨_, by rw [if_pos hzero, hcall]⟩
      · exact .inr ⟨j, _, setPhase_link hwaiter, hcall, by simpa [rephased, hij] using hzero⟩
  covers := by
    intro c caller k hcaller hk
    obtain ⟨rest, hnone, -⟩ | ⟨j, holder, hholder, hcall, hkey⟩ := h.covers hcaller hk
    · cases hnone
    · by_cases hij : i = j
      · subst hij
        obtain rfl := some.inj (hlink.symm.trans hholder)
        obtain hkey | ⟨hzero, hrest⟩ := hkey
        · exact .inr ⟨i, _, setPhase_link hholder, hcall, .inl hkey⟩
        · exact .inl ⟨_, by rw [if_pos hzero, hcall], hrest⟩
      · exact .inr ⟨j, _, setPhase_link hholder, hcall, by simpa [rephased, hij] using hkey⟩
  asks := by
    intro c rest hasking
    split_ifs at hasking with hzero
    obtain ⟨rfl, rfl⟩ := Prod.mk.injEq .. ▸ some.inj hasking
    obtain ⟨hpending, -, hall⟩ := h.current hlink hzero
    obtain ⟨hfirst, hrest⟩ := pairwise_cons.mp (h.sorted hlink)
    refine ⟨hpending, hrest, ?_⟩
    intro j held hheld hcall k hk
    obtain ⟨old, hold, rfl⟩ := link_of_setPhase hheld
    by_cases hij : j = i
    · subst hij
      obtain rfl := some.inj (hlink.symm.trans hold)
      exact hfirst k hk
    · exact (hall j old hold hcall hij).trans (hfirst k hk)

/-- A caller comes with the keys it will ask for. -/
theorem Called.append (h : Called calls links none) {keys order : List K}
    (hsorted : order.Pairwise (· < ·)) (hmem : ∀ k ∈ keys, k ∈ order) :
    Called (calls ++ [⟨keys, .pending⟩]) links (some (calls.length, order)) := by
  have hne : ∀ {i : ℕ} {link : Link K}, links[i]? = some link → link.call ≠ calls.length :=
    fun hlink => (h.owner hlink).ne
  have htask : ∀ {c : ℕ}, c ≠ calls.length →
      taskOf (calls ++ [⟨keys, .pending⟩]) c = taskOf calls c := by
    intro c hc
    obtain hlt | hgt := lt_or_gt_of_ne hc
    · simp only [taskOf, List.getElem?_append_left hlt]
    · rw [taskOf, taskOf, List.getElem?_eq_none hgt.le, List.getElem?_eq_none (by simp; omega)]
  constructor
  · intro i link hlink
    rw [length_append, length_singleton]
    exact Nat.lt_succ_of_lt (h.owner hlink)
  · exact h.sorted
  · intro i link outcome hlink houtcome
    rw [htask (hne hlink)]
    exact h.outcome hlink houtcome
  · intro i link hlink hzero
    obtain ⟨hpending, -, hall⟩ := h.current hlink hzero
    rw [htask (hne hlink)]
    refine ⟨hpending, fun rest hasking => ?_, hall⟩
    rw [some.injEq, Prod.mk.injEq] at hasking
    exact hne hlink hasking.1.symm
  · intro c hpending
    by_cases hc : c = calls.length
    · exact .inl ⟨order, by rw [hc]⟩
    · rw [htask hc] at hpending
      exact .inr ((h.waiting hpending).resolve_left (by simp))
  · intro c caller k hcaller hk
    obtain hcaller | ⟨rfl, rfl⟩ := getElem?_concat_eq_some.mp hcaller
    · exact .inr ((h.covers hcaller hk).resolve_left (by simp))
    · exact .inl ⟨order, rfl, hmem k hk⟩
  · intro c rest hasking
    obtain ⟨rfl, rfl⟩ := Prod.mk.injEq .. ▸ some.inj hasking
    exact ⟨by simp [taskOf], hsorted, fun j held hheld hcall => absurd hcall (hne hheld)⟩

/-- The caller's task begins, with no key left to ask for, or it settles. -/
theorem Called.setTask (h : Called mutex.calls mutex.links asking)
    (hbefore : taskOf mutex.calls c = some before)
    (hcall : asking = none ∧ before = .running ∨ asking = some (c, []) ∧ before = .pending)
    (htask : task ≠ .pending) : Called (mutex.setTask c task).calls mutex.links none := by
  have hother : ∀ {d : ℕ} {rest : List K}, asking = some (d, rest) → d = c ∧ rest = [] := by
    intro d rest hasking
    obtain ⟨hnone, -⟩ | ⟨hsome, -⟩ := hcall
    · cases hnone.symm.trans hasking
    · cases hsome.symm.trans hasking
      exact ⟨rfl, rfl⟩
  constructor
  · intro i link hlink
    rw [KeyedMutex.setTask, length_modify]
    exact h.owner hlink
  · exact h.sorted
  · intro i link outcome hlink houtcome
    have hsettled := h.outcome hlink houtcome
    have hne : link.call ≠ c := by
      rintro rfl
      obtain ⟨-, rfl⟩ | ⟨-, rfl⟩ := hcall
      · cases hbefore.symm.trans hsettled
      · cases hbefore.symm.trans hsettled
    rwa [taskOf_setTask_ne hne]
  · intro i link hlink hzero
    obtain ⟨hpending, hasks, hall⟩ := h.current hlink hzero
    have hne : link.call ≠ c := by
      rintro rfl
      obtain ⟨-, rfl⟩ | ⟨hasking, -⟩ := hcall
      · cases hbefore.symm.trans hpending
      · exact hasks [] hasking
    rw [taskOf_setTask_ne hne]
    exact ⟨hpending, by simp, hall⟩
  · intro d hpending
    have hne : d ≠ c := by
      rintro rfl
      rw [taskOf_setTask_self hbefore, some.injEq] at hpending
      exact htask hpending
    rw [taskOf_setTask_ne hne] at hpending
    exact .inr ((h.waiting hpending).resolve_left fun hasks => hne (hother hasks.choose_spec).1)
  · intro d caller k hcaller hk
    obtain ⟨old, hold, hkeys⟩ := keys_of_setTask hcaller
    refine .inr ((h.covers hold (hkeys ▸ hk)).resolve_left ?_)
    rintro ⟨rest, hasking, hin⟩
    rw [(hother hasking).2] at hin
    cases hin
  · intro d rest hnone
    cases hnone

/-- The next key of a call that asks. -/
theorem Called.enqueue {key : K} {rest : List K}
    (h : Called mutex.calls mutex.links (some (c, key :: rest))) :
    Called mutex.calls (mutex.enqueue c key rest).links none := by
  obtain ⟨hpending, hsorted, hall⟩ := h.asks rfl
  have hnew : (mutex.enqueue c key rest).links[mutex.links.length]? =
      some ⟨key, mutex.chains key, rest, c, .waiting⟩ :=
    getElem?_concat_eq_some.mpr (.inr ⟨rfl, rfl⟩)
  constructor
  · intro i link hlink
    obtain hlink | ⟨-, rfl⟩ := link_of_enqueue hlink
    · exact h.owner hlink
    · obtain ⟨caller, hcaller, -⟩ := map_eq_some_iff.mp hpending
      exact (List.getElem?_eq_some_iff.mp hcaller).1
  · intro i link hlink
    obtain hlink | ⟨-, rfl⟩ := link_of_enqueue hlink
    · exact h.sorted hlink
    · exact hsorted
  · intro i link outcome hlink houtcome
    obtain hlink | ⟨-, rfl⟩ := link_of_enqueue hlink
    · exact h.outcome hlink houtcome
    · cases houtcome
  · intro i link hlink hzero
    obtain hlink | ⟨rfl, rfl⟩ := link_of_enqueue hlink
    · obtain ⟨hwaits, hasks, hless⟩ := h.current hlink hzero
      refine ⟨hwaits, by simp, ?_⟩
      intro j held hheld hcall hne
      obtain hheld | ⟨-, rfl⟩ := link_of_enqueue hheld
      · exact hless j held hheld hcall hne
      · exact absurd (by rw [← hcall]) (hasks (key :: rest))
    · refine ⟨hpending, by simp, ?_⟩
      intro j held hheld hcall hne
      obtain hheld | ⟨rfl, -⟩ := link_of_enqueue hheld
      · exact hall j held hheld hcall key mem_cons_self
      · exact absurd rfl hne
  · intro d hwaits
    obtain ⟨rest', hasking⟩ | ⟨j, link, hlink, hcall, hzero⟩ := h.waiting hwaits
    · cases hasking
      exact .inr ⟨_, _, hnew, rfl, rfl⟩
    · exact .inr ⟨j, link, enqueue_link hlink, hcall, hzero⟩
  · intro d caller k hcaller hk
    obtain ⟨rest', hasking, hin⟩ | ⟨j, link, hlink, hcall, hkey⟩ := h.covers hcaller hk
    · cases hasking
      exact .inr ⟨_, _, hnew, rfl, (mem_cons.mp hin).imp Eq.symm fun hin => ⟨rfl, hin⟩⟩
    · exact .inr ⟨j, link, enqueue_link hlink, hcall, hkey⟩
  · intro d rest' hnone
    cases hnone

end
variable {call : ℕ} {rest keys : List K}

/-- A link whose task asked for a key runs until that call of the mutex has settled. -/
def Nested (links : List (Link K)) : Prop :=
  ∀ (i n : ℕ) (link : Link K), links[i]? = some link → link.phase = .running (some n) →
    i < n ∧ ∃ inner : Link K, links[n]? = some inner ∧ inner.call = link.call

omit [LinearOrder K] in
theorem Nested.setPhase (h : Nested mutex.links) (hphase : ∀ n, phase ≠ .running (some n)) :
    Nested (mutex.setPhase i phase).links := by
  intro j n later hlater hrunning
  obtain ⟨old, hold, rfl⟩ := link_of_setPhase hlater
  by_cases hij : i = j
  · simp only [rephased, hij, if_true] at hrunning
    exact absurd hrunning (hphase n)
  · simp only [rephased, hij, if_false] at hrunning
    obtain ⟨hlt, inner, hinner, hcall⟩ := h j n old hold hrunning
    exact ⟨hlt, _, setPhase_link hinner, hcall⟩

theorem Nested.enqueue (h : Nested mutex.links) {key : K} :
    Nested (mutex.enqueue call key rest).links := by
  intro j n link hlink hrunning
  obtain hlink | ⟨-, rfl⟩ := link_of_enqueue hlink
  · obtain ⟨hlt, inner, hinner, hcall⟩ := h j n link hlink hrunning
    exact ⟨hlt, inner, enqueue_link hinner, hcall⟩
  · cases hrunning

structure Orderly (mutex : KeyedMutex K) : Prop where
  chained : Chained mutex.chains mutex.links
  called : Called mutex.calls mutex.links none
  nested : Nested mutex.links

theorem orderly_empty : Orderly (empty : KeyedMutex K) where
  chained := by constructor <;> simp [empty]
  called := by constructor <;> simp [empty, taskOf]
  nested := by intro i n link hlink; simp [empty] at hlink

theorem Chained.next (h : Chained mutex.chains mutex.links) (call : ℕ) (rest : List K) :
    Chained (mutex.next call rest).chains (mutex.next call rest).links := by
  cases rest with
  | nil => exact h
  | cons key rest => exact h.enqueue call key rest

theorem Called.next (h : Called mutex.calls mutex.links (some (call, rest))) :
    Called (mutex.next call rest).calls (mutex.next call rest).links none := by
  cases rest with
  | nil => exact h.setTask (h.asks rfl).1 (.inr ⟨rfl, rfl⟩) (by simp)
  | cons key rest => exact h.enqueue

theorem Orderly.accept (h : Orderly mutex) {order : List K} (hsorted : order.Pairwise (· < ·))
    (hmem : ∀ k ∈ keys, k ∈ order) : Orderly (mutex.accept keys order) := by
  let called : KeyedMutex K := { mutex with calls := mutex.calls ++ [⟨keys, .pending⟩] }
  have hchained : Chained called.chains called.links := h.chained
  have hcalled : Called called.calls called.links (some (mutex.calls.length, order)) :=
    h.called.append hsorted hmem
  refine ⟨hchained.next _ _, hcalled.next, ?_⟩
  cases order with
  | nil => exact h.nested
  | cons key rest =>
    have hnested : Nested called.links := h.nested
    exact hnested.enqueue

theorem pairwise_ordered (keys : List K) : (ordered keys).Pairwise (· < ·) := by
  have hle : (ordered keys).Pairwise (· ≤ ·) := pairwise_insertionSort _ _
  have hnodup : (ordered keys).Nodup :=
    (perm_insertionSort _ _).nodup_iff.mpr (KeyedTable.nodup_eraseDups keys)
  exact (List.Pairwise.and hle hnodup).imp fun h => lt_of_le_of_ne h.1 h.2

theorem mem_ordered {k : K} : k ∈ ordered keys ↔ k ∈ keys := by
  rw [ordered, mem_insertionSort, mem_eraseDups]

section
variable {after : KeyedMutex K} {outcome : Outcome} {action : Action K} {actions : List (Action K)}
  {key : K}

theorem step_start (h : step mutex (.start i) = some after) :
    ∃ link, mutex.links[i]? = some link ∧ link.phase = .waiting ∧
      mutex.fulfilled link.previous = true ∧
      (mutex.setPhase i (.running (mutex.promise link.rest))).next link.call link.rest = after := by
  obtain ⟨link, hlink, h⟩ := bind_eq_some_iff.mp h
  split_ifs at h with hready
  exact ⟨link, hlink, hready.1, hready.2, some.inj h⟩

theorem step_runSettles (h : step mutex (.runSettles i) = some after) :
    ∃ link inner outcome, mutex.links[i]? = some link ∧ link.phase = .running inner ∧
      mutex.innerOutcome link.call inner = some outcome ∧
      mutex.setPhase i (.ran outcome) = after := by
  obtain ⟨link, hlink, h⟩ := bind_eq_some_iff.mp h
  cases hphase : link.phase with
  | running inner =>
    rw [hphase] at h
    obtain ⟨outcome, hinner, h⟩ := map_eq_some_iff.mp h
    exact ⟨link, inner, outcome, hlink, hphase, hinner, h⟩
  | _ =>
    rw [hphase] at h
    cases h

theorem step_tailSettles (h : step mutex (.tailSettles i) = some after) :
    ∃ link outcome, mutex.links[i]? = some link ∧ link.phase = .ran outcome ∧
      mutex.setPhase i (.settled outcome) = after := by
  obtain ⟨link, hlink, h⟩ := bind_eq_some_iff.mp h
  cases hphase : link.phase with
  | ran outcome =>
    rw [hphase] at h
    exact ⟨link, outcome, hlink, hphase, some.inj h⟩
  | _ =>
    rw [hphase] at h
    cases h

theorem step_cleanup (h : step mutex (.cleanup i) = some after) :
    ∃ link outcome, mutex.links[i]? = some link ∧ link.phase = .settled outcome ∧
      (mutex.dropKey i link.key).setPhase i (.dropped outcome) = after := by
  obtain ⟨link, hlink, h⟩ := bind_eq_some_iff.mp h
  cases hphase : link.phase with
  | settled outcome =>
    rw [hphase] at h
    exact ⟨link, outcome, hlink, hphase, some.inj h⟩
  | _ =>
    rw [hphase] at h
    cases h

theorem Phase.outcome_of_stage {phase : Phase} (h : 2 ≤ phase.stage) :
    ∃ outcome, phase.outcome = some outcome := by
  cases phase <;> simp [Phase.stage, Phase.outcome] at h ⊢

/-- What the task of a link returned settles as the caller's task does. -/
theorem Orderly.innerOutcome (h : Orderly mutex) (hlink : mutex.links[i]? = some link)
    {inner : Option ℕ} (hphase : link.phase = .running inner)
    (hinner : mutex.innerOutcome link.call inner = some outcome) :
    taskOf mutex.calls link.call = some (.settled outcome) := by
  cases inner with
  | none =>
    obtain ⟨task, htask, h⟩ := bind_eq_some_iff.mp hinner
    cases task with
    | settled settled =>
      obtain rfl := some.inj h
      exact htask
    | _ => cases h
  | some n =>
    obtain ⟨inner, hmem, hout⟩ := bind_eq_some_iff.mp hinner
    obtain ⟨-, inner', hmem', hcall⟩ := h.nested i n link hlink hphase
    obtain rfl := some.inj (hmem.symm.trans hmem')
    rw [← hcall]
    exact h.called.outcome hmem hout

/-- A link past its start goes on to the next stage; its cleanup may drop the key. -/
theorem Orderly.advance (h : Orderly mutex) {chains : K → Option ℕ}
    (hlink : mutex.links[i]? = some link) (hpos : 0 < link.phase.stage)
    (hstage : phase.stage = link.phase.stage + 1) (hout : phase.outcome = some outcome)
    (htask : taskOf mutex.calls link.call = some (.settled outcome))
    (hchains : ∀ k, chains k = mutex.chains k ∨
      chains k = none ∧ mutex.chains k = some i ∧ phase.stage = 4)
    (htail : phase.stage = 4 → chains link.key ≠ some i) :
    Orderly ({ mutex with chains := chains }.setPhase i phase) where
  chained := h.chained.setPhase hlink hstage (fun hzero => by omega) hchains htail
  called := by
    have hcalled := h.called.setPhase hlink hstage fun outcome' hout' => by
      obtain rfl := some.inj (hout.symm.trans hout')
      exact htask
    rwa [if_neg (by omega)] at hcalled
  nested := by
    have hnested : Nested (mutex.setPhase i phase).links := by
      refine h.nested.setPhase fun n hn => ?_
      rw [hn] at hout
      cases hout
    exact hnested

theorem Orderly.start (h : Orderly mutex) (hlink : mutex.links[i]? = some link)
    (hzero : link.phase.stage = 0) (hready : mutex.fulfilled link.previous = true) :
    Orderly ((mutex.setPhase i (.running (mutex.promise link.rest))).next link.call
      link.rest) where
  chained := by
    have hstarted : Chained mutex.chains
        (mutex.setPhase i (.running (mutex.promise link.rest))).links :=
      h.chained.setPhase hlink (by rw [hzero]; rfl) (fun _ => hready) (fun _ => .inl rfl)
        (by simp [Phase.stage])
    exact hstarted.next _ _
  called := by
    have hasking : Called mutex.calls
        (mutex.setPhase i (.running (mutex.promise link.rest))).links _ :=
      h.called.setPhase hlink (by rw [hzero]; rfl) (by simp [Phase.outcome])
    rw [if_pos hzero] at hasking
    exact hasking.next
  nested := by
    cases hrest : link.rest with
    | nil =>
      have hstarted : Nested (mutex.setPhase i (.running none)).links :=
        h.nested.setPhase (by simp)
      exact hstarted
    | cons key rest =>
      intro j n later hlater hrunning
      obtain hlater | ⟨-, rfl⟩ := link_of_enqueue hlater
      · obtain ⟨old, hold, rfl⟩ := link_of_setPhase hlater
        by_cases hij : i = j
        · subst hij
          obtain rfl := some.inj (hlink.symm.trans hold)
          simp [rephased, promise] at hrunning
          subst hrunning
          exact ⟨lt_length hlink, _, getElem?_concat_eq_some.mpr (.inr ⟨by simp [setPhase], rfl⟩), rfl⟩
        · simp only [rephased, hij, if_false] at hrunning
          obtain ⟨hlt, inner, hinner, hcall⟩ := h.nested j n old hold hrunning
          exact ⟨hlt, _, enqueue_link (setPhase_link hinner), hcall⟩
      · cases hrunning

theorem Orderly.step (h : Orderly mutex) (taken : step mutex action = some after) :
    Orderly after := by
  cases action with
  | runExclusive key =>
    obtain rfl := some.inj taken
    exact h.accept (pairwise_singleton _ _) fun k hk => hk
  | withKeys keys =>
    obtain rfl := some.inj taken
    exact h.accept (pairwise_ordered keys) fun k hk => mem_ordered.mpr hk
  | start i =>
    obtain ⟨link, hlink, hwaiting, hready, rfl⟩ := step_start taken
    exact h.start hlink (by rw [hwaiting]; rfl) hready
  | taskSettles c outcome =>
    simp only [KeyedMutex.step] at taken
    split_ifs at taken with hrunning
    obtain rfl := some.inj taken
    exact ⟨h.chained, h.called.setTask hrunning (.inl ⟨rfl, rfl⟩) (by simp), h.nested⟩
  | runSettles i =>
    obtain ⟨link, inner, outcome, hlink, hphase, hinner, rfl⟩ := step_runSettles taken
    exact h.advance hlink (by simp [hphase, Phase.stage]) (by simp [hphase, Phase.stage]) rfl
      (h.innerOutcome hlink hphase hinner) (fun _ => .inl rfl) (by simp [Phase.stage])
  | tailSettles i =>
    obtain ⟨link, outcome, hlink, hphase, rfl⟩ := step_tailSettles taken
    exact h.advance hlink (by simp [hphase, Phase.stage]) (by simp [hphase, Phase.stage]) rfl
      (h.called.outcome hlink (by rw [hphase]; rfl)) (fun _ => .inl rfl) (by simp [Phase.stage])
  | cleanup i =>
    obtain ⟨link, outcome, hlink, hphase, rfl⟩ := step_cleanup taken
    have hpos : 0 < link.phase.stage := by simp [hphase, Phase.stage]
    have hstage : (Phase.dropped outcome).stage = link.phase.stage + 1 := by
      simp [hphase, Phase.stage]
    have htask := h.called.outcome hlink (by rw [hphase]; rfl)
    by_cases htail : mutex.chains link.key = some i
    · rw [dropKey, if_pos htail]
      refine h.advance hlink hpos hstage rfl htask (fun k => ?_) (by simp)
      by_cases hk : k = link.key
      · exact .inr ⟨by rw [hk, update_self], hk ▸ htail, rfl⟩
      · exact .inl (update_of_ne hk _ _)
    · rw [dropKey, if_neg htail]
      exact h.advance hlink hpos hstage rfl htask (fun _ => .inl rfl) fun _ => htail

theorem orderly_run {start : KeyedMutex K} (h : Orderly start)
    (hrun : run step start actions = some after) : Orderly after := by
  have hreached : Reached step (fun _ _ => True) start after :=
    Reached.start.run (allowed_of_forall (fun _ _ => trivial) _ _) hrun
  exact hreached.invariant h fun _ _ _ hbefore _ taken => hbefore.step taken

theorem work_enqueue {call : ℕ} {rest : List K} :
    (mutex.enqueue call key rest).work = mutex.work + (4 + 4 * rest.length) := by
  simp only [work, enqueue, map_append, map_cons, map_nil, sum_append,
    sum_cons, sum_nil, Link.work, Phase.stage, if_true]
  omega

theorem work_dropKey : (mutex.dropKey i key).work = mutex.work := by
  unfold dropKey
  split_ifs
  all_goals rfl

/-- Every step but a new call takes one off the work left. -/
theorem Orderly.work_step (h : Orderly mutex) (taken : KeyedMutex.step mutex action = some after)
    (hcall : ¬ action.IsCall) : after.work + 1 = mutex.work := by
  cases action with
  | runExclusive key => exact absurd trivial hcall
  | withKeys keys => exact absurd trivial hcall
  | start i =>
    obtain ⟨link, hlink, hwaiting, -, rfl⟩ := step_start taken
    have hzero : link.phase.stage = 0 := by rw [hwaiting, Phase.stage]
    have hbefore := work_of_waiting hzero
    have hphase : (mutex.setPhase i (.running (mutex.promise link.rest))).work + link.work =
        mutex.work + 3 := work_setPhase hlink
    cases hrest : link.rest with
    | nil =>
      have hpending : taskOf (mutex.setPhase i (.running (mutex.promise []))).calls link.call =
          some .pending := (h.called.current hlink hzero).1
      have htask : KeyedMutex.work (KeyedMutex.setTask _ link.call .running) + 1 = _ + 1 :=
        work_setTask hpending
      rw [hrest, length_nil] at hbefore
      rw [hrest] at hphase
      simp only [next]
      omega
    | cons key rest =>
      rw [hrest, length_cons] at hbefore
      rw [hrest] at hphase
      simp only [next, work_enqueue]
      omega
  | taskSettles c outcome =>
    simp only [KeyedMutex.step] at taken
    split_ifs at taken with hrunning
    obtain rfl := some.inj taken
    exact work_setTask hrunning
  | runSettles i =>
    obtain ⟨link, inner, outcome, hlink, hphase, -, rfl⟩ := step_runSettles taken
    exact work_advance hlink (by simp [hphase, Phase.stage]) (by simp [hphase, Phase.stage])
      (by simp [hphase, Phase.stage])
  | tailSettles i =>
    obtain ⟨link, outcome, hlink, hphase, rfl⟩ := step_tailSettles taken
    exact work_advance hlink (by simp [hphase, Phase.stage]) (by simp [hphase, Phase.stage])
      (by simp [hphase, Phase.stage])
  | cleanup i =>
    obtain ⟨link, outcome, hlink, hphase, rfl⟩ := step_cleanup taken
    have hlink' : (mutex.dropKey i link.key).links[i]? = some link := by
      rw [dropKey]
      split_ifs
      all_goals exact hlink
    have hwork : ((mutex.dropKey i link.key).setPhase i (.dropped outcome)).work + 1 =
        (mutex.dropKey i link.key).work :=
      work_advance hlink' (by simp [hphase, Phase.stage]) (by simp [hphase, Phase.stage])
        (by simp [hphase, Phase.stage])
    rwa [work_dropKey] at hwork

theorem Orderly.work_run (h : Orderly mutex)
    (hrun : run KeyedMutex.step mutex actions = some after)
    (hcalls : ∀ action ∈ actions, ¬ action.IsCall) : after.work + actions.length = mutex.work := by
  induction actions generalizing mutex with
  | nil =>
    obtain rfl := some.inj hrun
    rfl
  | cons action rest ih =>
    obtain ⟨next, taken, hrest⟩ := bind_eq_some_iff.mp hrun
    have hstep := h.work_step taken (hcalls action mem_cons_self)
    have htail := ih (h.step taken) hrest fun later hlater =>
      hcalls later (mem_cons_of_mem _ hlater)
    rw [length_cons]
    omega

end

def Pending (mutex : KeyedMutex K) (c : ℕ) : Prop := taskOf mutex.calls c = some .pending

def Running (mutex : KeyedMutex K) (c : ℕ) : Prop := taskOf mutex.calls c = some .running

def Settled (mutex : KeyedMutex K) (c : ℕ) : Prop :=
  ∃ outcome, taskOf mutex.calls c = some (.settled outcome)

/-- A link of `c` waits for the promise of a link of `d` on the same chain. -/
def Waits (mutex : KeyedMutex K) (c d : ℕ) : Prop :=
  ∃ (i p : ℕ) (link before : Link K), mutex.links[i]? = some link ∧ link.call = c ∧
    link.phase.stage = 0 ∧ link.previous = some p ∧ mutex.links[p]? = some before ∧
      before.call = d ∧ before.phase.stage < 3

/-- No microtask is left to run. -/
def Quiet (mutex : KeyedMutex K) : Prop :=
  ∀ action : Action K, action.IsMicrotask → step mutex action = none

section
variable {c d : ℕ}

/-- The link of `d` waits on a larger key, or on the same key further ahead. -/
def Beyond (mutex : KeyedMutex K) (c d : ℕ) : Prop :=
  ∀ (i j : ℕ) (link other : Link K), mutex.links[i]? = some link → link.call = c →
    link.phase.stage = 0 → mutex.links[j]? = some other → other.call = d →
      other.phase.stage = 0 → link.key < other.key ∨ link.key = other.key ∧ j < i

theorem Orderly.beyond_of_waits (h : Orderly mutex) (hwaits : Waits mutex c d) :
    Beyond mutex c d := by
  rintro i j link other hlink rfl hzero hother rfl hzero'
  obtain ⟨i', p, link', before, hlink', hcall, hzero'', hp, hbefore, hsame, -⟩ := hwaits
  obtain rfl := h.called.eq_of_waiting hlink hzero hlink' hzero'' hcall
  obtain rfl := some.inj (hlink.symm.trans hlink')
  obtain ⟨hlt, before', hbefore', hkey⟩ := h.chained.previous hlink hp
  obtain rfl := some.inj (hbefore.symm.trans hbefore')
  by_cases hpj : p = j
  · subst hpj
    obtain rfl := some.inj (hbefore.symm.trans hother)
    exact .inr ⟨hkey.symm, hlt⟩
  · exact .inl (hkey ▸ (h.called.current hother hzero').2.2 p before hbefore hsame hpj)

theorem Orderly.beyond_of_transGen (h : Orderly mutex) (hwaits : TransGen (Waits mutex) c d) :
    Beyond mutex c d := by
  induction hwaits with
  | single hwaits => exact h.beyond_of_waits hwaits
  | tail _ hlast ih =>
    intro i j link other hlink hcall hzero hother hcall' hzero'
    obtain ⟨m, _, mid, _, hmid, hmidCall, hmidZero, -⟩ := id hlast
    have hfirst := ih i m link mid hlink hcall hzero hmid hmidCall hmidZero
    have hthen := h.beyond_of_waits hlast m j mid other hmid hmidCall hmidZero hother hcall' hzero'
    obtain hlt | ⟨heq, hij⟩ := hfirst
    · obtain hlt' | ⟨heq', -⟩ := hthen
      · exact .inl (hlt.trans hlt')
      · exact .inl (heq' ▸ hlt)
    · obtain hlt' | ⟨heq', hjm⟩ := hthen
      · exact .inl (heq ▸ hlt')
      · exact .inr ⟨heq.trans heq', hjm.trans hij⟩

/-- No call waits for itself through others. -/
theorem Orderly.acyclic (h : Orderly mutex) (c : ℕ) : ¬ TransGen (Waits mutex) c c := by
  intro hwaits
  obtain ⟨_, ⟨i, _, link, _, hlink, hcall, hzero, -⟩, -⟩ := TransGen.head'_iff.mp hwaits
  obtain hlt | ⟨-, hlt⟩ :=
    h.beyond_of_transGen hwaits i i link link hlink hcall hzero hlink hcall hzero
  · exact absurd hlt (lt_irrefl _)
  · exact absurd hlt (lt_irrefl _)

/-- With no microtask left, the links of a settled call have all been cleaned up. -/
theorem Orderly.dropped_of_settled (h : Orderly mutex) (hquiet : Quiet mutex) :
    ∀ (n i : ℕ) (link : Link K), mutex.links.length - i ≤ n → mutex.links[i]? = some link →
      Settled mutex link.call → link.phase.stage = 4
  | 0, i, link, hn, hlink, _ => by
    have := lt_length hlink
    omega
  | n + 1, i, link, hn, hlink, ⟨outcome, hsettled⟩ => by
    have hlt := lt_length hlink
    have hquietRun := hquiet (.runSettles i) trivial
    simp only [KeyedMutex.step, hlink, bind_some] at hquietRun
    cases hphase : link.phase with
    | waiting =>
      have hpending := (h.called.current hlink (by rw [hphase]; rfl)).1
      rw [hsettled] at hpending
      cases hpending
    | running inner =>
      rw [hphase] at hquietRun
      cases inner with
      | none => simp [KeyedMutex.innerOutcome, hsettled] at hquietRun
      | some m =>
        obtain ⟨him, other, hother, hcall⟩ := h.nested i m link hlink hphase
        have hdropped := h.dropped_of_settled hquiet n m other (by omega) hother
          ⟨outcome, hcall ▸ hsettled⟩
        obtain ⟨outcome', hout⟩ := Phase.outcome_of_stage (by omega : 2 ≤ other.phase.stage)
        simp [KeyedMutex.innerOutcome, hother, hout] at hquietRun
    | ran outcome =>
      have hquietTail := hquiet (.tailSettles i) trivial
      simp [KeyedMutex.step, hlink, hphase] at hquietTail
    | settled outcome =>
      have hquietCleanup := hquiet (.cleanup i) trivial
      simp [KeyedMutex.step, hlink, hphase] at hquietCleanup
    | dropped outcome => rfl

/-- With no microtask left, a call that has not begun waits for one that has not settled. -/
theorem Orderly.exists_waits (h : Orderly mutex) (hquiet : Quiet mutex)
    (hpending : Pending mutex c) : ∃ d, Waits mutex c d ∧ (Pending mutex d ∨ Running mutex d) := by
  obtain ⟨i, link, hlink, hcall, hzero⟩ := (h.called.waiting hpending).resolve_left (by simp)
  have hwaiting : link.phase = .waiting := by
    cases hphase : link.phase with
    | waiting => rfl
    | _ => simp [hphase, Phase.stage] at hzero
  have hstart := hquiet (.start i) trivial
  simp only [KeyedMutex.step, hlink, bind_some, hwaiting, true_and, ite_eq_right_iff, reduceCtorEq,
    imp_false] at hstart
  cases hprevious : link.previous with
  | none => simp [hprevious, fulfilled] at hstart
  | some p =>
    obtain ⟨-, before, hbefore, -⟩ := h.chained.previous hlink hprevious
    have hlt : before.phase.stage < 3 := by
      by_contra hge
      exact hstart (hprevious ▸ fulfilled_some.mpr ⟨before, hbefore, by omega⟩)
    refine ⟨before.call, ⟨i, p, link, before, hlink, hcall, hzero, hprevious, hbefore, rfl, hlt⟩, ?_⟩
    have howner := h.called.owner hbefore
    cases htask : mutex.calls[before.call].task with
    | pending => exact .inl (by simp [Pending, taskOf, howner, htask])
    | running => exact .inr (by simp [Running, taskOf, howner, htask])
    | settled outcome =>
      have hdropped := h.dropped_of_settled hquiet _ p before le_rfl hbefore
        ⟨outcome, by simp [taskOf, howner, htask]⟩
      omega

/-- With no microtask left, a call that has not begun waits, through others, for a running task. -/
theorem Orderly.waits_for_running (h : Orderly mutex) (hquiet : Quiet mutex)
    (hpending : Pending mutex c) : ∃ d, Running mutex d ∧ TransGen (Waits mutex) c d := by
  let after : Fin mutex.calls.length → Fin mutex.calls.length → Prop :=
    fun d c => TransGen (Waits mutex) c d
  have : IsTrans _ after := ⟨fun _ _ _ hab hbc => hbc.trans hab⟩
  have : Std.Irrefl after := ⟨fun a => h.acyclic a⟩
  have hwf : WellFounded after := Finite.wellFounded_of_trans_of_irrefl after
  have hall : ∀ c : Fin mutex.calls.length, Pending mutex c →
      ∃ d, Running mutex d ∧ TransGen (Waits mutex) c d := by
    intro c
    induction c using hwf.induction with
    | _ c ih =>
      intro hpending
      obtain ⟨d, hwaits, hd | hd⟩ := h.exists_waits hquiet hpending
      · obtain ⟨e, he, hthen⟩ := ih ⟨d, lt_calls hd⟩ (.single hwaits) hd
        exact ⟨e, he, .head hwaits hthen⟩
      · exact ⟨d, hd, .single hwaits⟩
  exact hall ⟨c, lt_calls hpending⟩ hpending

end
variable {c : ℕ} {keys : List K} {k : K}

/-- The link of a running task holds every key of its call. -/
theorem Orderly.holds (h : Orderly mutex) (hcaller : mutex.calls[c]? = some ⟨keys, .running⟩)
    (hk : k ∈ keys) :
    ∃ (i : ℕ) (link : Link K), mutex.links[i]? = some link ∧ link.call = c ∧ link.key = k ∧
      0 < link.phase.stage ∧ link.phase.stage < 3 := by
  have hrunning : taskOf mutex.calls c = some .running := by rw [taskOf, hcaller, map_some]
  obtain ⟨i, link, hlink, rfl, hkey⟩ := (h.called.covers hcaller hk).resolve_left (by simp)
  have hpos : link.phase.stage ≠ 0 := by
    intro hzero
    cases hrunning.symm.trans (h.called.current hlink hzero).1
  refine ⟨i, link, hlink, rfl, hkey.resolve_right fun hzero => hpos hzero.1, by omega, ?_⟩
  by_contra hge
  obtain ⟨outcome, hout⟩ := Phase.outcome_of_stage (by omega : 2 ≤ link.phase.stage)
  cases hrunning.symm.trans (h.called.outcome hlink hout)

theorem Orderly.not_both_running (h : Orderly mutex) {d : ℕ} {keys' : List K} (hcd : c ≠ d)
    (hc : mutex.calls[c]? = some ⟨keys, .running⟩) (hd : mutex.calls[d]? = some ⟨keys', .running⟩)
    (hk : k ∈ keys) : k ∉ keys' := by
  intro hk'
  obtain ⟨i, link, hlink, rfl, hkey, hpos, hlt⟩ := h.holds hc hk
  obtain ⟨j, other, hother, rfl, hkey', hpos', hlt'⟩ := h.holds hd hk'
  obtain hij | rfl | hji := lt_trichotomy i j
  · have := h.chained.started hother hlink hij (hkey.trans hkey'.symm) hpos'
    omega
  · exact hcd (congrArg Link.call (some.inj (hlink.symm.trans hother)))
  · have := h.chained.started hlink hother hji (hkey'.trans hkey.symm) hpos
    omega

theorem Orderly.settled_before (h : Orderly mutex) {later : Link K} (hij : i < j)
    (hlink : mutex.links[i]? = some link) (hlater : mutex.links[j]? = some later)
    (hkey : link.key = later.key) (hbegun : ¬ Pending mutex later.call) :
    Settled mutex link.call := by
  have hpos : 0 < later.phase.stage :=
    Nat.pos_of_ne_zero fun hzero => hbegun (h.called.current hlater hzero).1
  have hdone := h.chained.started hlater hlink hij hkey hpos
  obtain ⟨outcome, hout⟩ := Phase.outcome_of_stage (by omega : 2 ≤ link.phase.stage)
  exact ⟨outcome, h.called.outcome hlink hout⟩

theorem Orderly.chains_empty (h : Orderly mutex) (hquiet : Quiet mutex)
    (hsettled : ∀ c < mutex.calls.length, Settled mutex c) : mutex.chains = fun _ => none := by
  funext k
  cases hchain : mutex.chains k with
  | none => rfl
  | some i =>
    obtain ⟨link, hlink, -, hlt, -⟩ := h.chained.tail hchain
    have hdropped := h.dropped_of_settled hquiet _ i link le_rfl hlink
      (hsettled _ (h.called.owner hlink))
    omega

theorem quiet_of_stuck
    (hstuck : ∀ action : Action K, ¬ action.IsCall → step mutex action = none) : Quiet mutex := by
  intro action hmicrotask
  refine hstuck action fun hcall => ?_
  cases action
  all_goals first | exact hcall | exact hmicrotask

/-- Where only a new call could follow, every task has settled. -/
theorem Orderly.settled_of_stuck (h : Orderly mutex)
    (hstuck : ∀ action : Action K, ¬ action.IsCall → KeyedMutex.step mutex action = none) (c : ℕ)
    (hc : c < mutex.calls.length) : Settled mutex c := by
  have hidle : ∀ d, ¬ Running mutex d := by
    intro d hrunning
    have hsettles := hstuck (.taskSettles d .resolved) id
    rw [Running] at hrunning
    simp [KeyedMutex.step, hrunning] at hsettles
  have hquiet := quiet_of_stuck hstuck
  cases htask : mutex.calls[c].task with
  | pending =>
    have hpending : Pending mutex c := by simp [Pending, taskOf, hc, htask]
    obtain ⟨d, hrunning, -⟩ := h.waits_for_running hquiet hpending
    exact absurd hrunning (hidle d)
  | running => exact absurd (by simp [Running, taskOf, hc, htask]) (hidle c)
  | settled outcome => exact ⟨outcome, by simp [taskOf, hc, htask]⟩

/-- What callers of the mutex rely on, whatever their tasks' outcomes are. -/
structure Serialised (mutex : KeyedMutex K) : Prop where
  exclusive : ∀ (c d : ℕ) (keys keys' : List K), c ≠ d →
    mutex.calls[c]? = some ⟨keys, .running⟩ → mutex.calls[d]? = some ⟨keys', .running⟩ →
      ∀ k ∈ keys, k ∉ keys'
  in_order : ∀ (i j : ℕ) (link later : Link K), i < j → mutex.links[i]? = some link →
    mutex.links[j]? = some later → link.key = later.key → ¬ Pending mutex later.call →
      Settled mutex link.call
  acyclic : ∀ c, ¬ TransGen (Waits mutex) c c
  waits_for_running : Quiet mutex → ∀ c, Pending mutex c →
    ∃ d, Running mutex d ∧ TransGen (Waits mutex) c d
  completes : ∀ (actions : List (Action K)) (after : KeyedMutex K),
    run step mutex actions = some after → (∀ action ∈ actions, ¬ action.IsCall) →
      actions.length ≤ mutex.work ∧
        ((∀ action : Action K, ¬ action.IsCall → step after action = none) →
          (∀ c < after.calls.length, Settled after c) ∧ after.chains = fun _ => none)
  registry : Quiet mutex → (∀ c < mutex.calls.length, Settled mutex c) →
    mutex.chains = fun _ => none

/-- Calls with any keys, made at any point, run one at a time on each key, in the order they came
to wait on it; none waits for itself, and once no more calls come every schedule of the
microtasks and of the tasks' outcomes is finite and leaves all tasks settled and no key. -/
theorem serialised_of_run {actions : List (Action K)} {mutex : KeyedMutex K}
    (hrun : run step empty actions = some mutex) : Serialised mutex := by
  have horderly := orderly_run orderly_empty hrun
  constructor
  · exact fun c d keys keys' hcd hc hd k hk => horderly.not_both_running hcd hc hd hk
  · exact fun i j link later hij hlink hlater hkey => horderly.settled_before hij hlink hlater hkey
  · exact horderly.acyclic
  · exact fun hquiet c hpending => horderly.waits_for_running hquiet hpending
  · intro later after hlater hcalls
    have hwork := horderly.work_run hlater hcalls
    have hafter := orderly_run horderly hlater
    refine ⟨by omega, ?_⟩
    intro hstuck
    have hsettled := hafter.settled_of_stuck hstuck
    exact ⟨hsettled, hafter.chains_empty (quiet_of_stuck hstuck) hsettled⟩
  · exact horderly.chains_empty

/-- Two callers with opposite key orders: the task of the first rejects, and the second's runs. -/
def oppositeOrders : List (Action ℕ) :=
  [.withKeys [2, 1], .withKeys [1, 2, 1], .start 0, .start 2, .taskSettles 0 .rejected,
    .runSettles 2, .runSettles 0, .tailSettles 0, .start 1, .tailSettles 2, .cleanup 2, .start 3]

theorem serialised_of_run_oppositeOrders : ∃ mutex : KeyedMutex ℕ,
    run step empty oppositeOrders = some mutex ∧ Running mutex 1 ∧ Serialised mutex := by
  have hsome : (run step (empty : KeyedMutex ℕ) oppositeOrders).isSome = true := by decide
  have hrun := (Option.some_get hsome).symm
  exact ⟨_, hrun, by rfl, serialised_of_run hrun⟩

end KeyedMutex

end Havemind.KeyedLock
