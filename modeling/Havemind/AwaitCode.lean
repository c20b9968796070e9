import Mathlib.Tactic.Common

/-!
Asynchronous functions. Between two awaits one reads and writes the memory it
shares with others; an await puts a call to the outside, which takes full effect
or throws, and at each await the process may stop for good. A run is fixed by what
happens at its awaits. `Visits` gathers what holds of the outside at every await of
every run and of memory and the outside at every end.
-/
namespace Havemind.AwaitCode

open List

/-- What a family of asynchronous functions shares: its memory, its calls with their
answers, and its errors. -/
structure Signature where
  Memory : Type
  Call : Type
  Answer : Call → Type
  Error : Type

variable {S : Signature} {α β W : Type}

inductive Code (S : Signature) (α : Type) : Type
  | ret (value : α)
  | fail (error : S.Error)
  | read (next : S.Memory → Code S α)
  | write (memory : S.Memory) (next : Code S α)
  | await (call : S.Call) (next : Except S.Error (S.Answer call) → Code S α)

namespace Code

def bind : Code S α → (α → Code S β) → Code S β
  | ret value, f => f value
  | fail error, _ => fail error
  | read next, f => read fun memory => (next memory).bind f
  | write memory next, f => write memory (next.bind f)
  | await call next, f => await call fun answer => (next answer).bind f

instance : Monad (Code S) where
  pure := ret
  bind := bind

/-- Awaits the call; its error is thrown. -/
def call (c : S.Call) : Code S (S.Answer c) :=
  await c fun
    | .ok answer => ret answer
    | .error error => fail error

/-- Awaits the call; its error is caught. -/
def attempt (c : S.Call) : Code S (Except S.Error (S.Answer c)) := await c ret

def throw (error : S.Error) : Code S α := fail error

def memory : Code S S.Memory := read ret

def setMemory (m : S.Memory) : Code S Unit := write m (ret ())

end Code

/-- What happens at an await. -/
inductive Choice (E : Type)
  | done
  | thrown (error : E)
  | stop
  deriving DecidableEq

/-- How a run ends, with the memory it leaves. -/
inductive Ending (S : Signature) (α : Type)
  | returned (value : α) (memory : S.Memory)
  | threw (error : S.Error) (memory : S.Memory)
  | stopped

section
variable (respond : (call : S.Call) → W → S.Answer call × W)

/-- The run with these choices; where they end, every call is done. -/
def exec : Code S α → S.Memory → W → List (Choice S.Error) → Ending S α × W
  | .ret value, m, w, _ => (.returned value m, w)
  | .fail error, m, w, _ => (.threw error m, w)
  | .read next, m, w, choices => exec (next m) m w choices
  | .write m next, _, w, choices => exec next m w choices
  | .await call next, m, w, [] =>
    exec (next (.ok (respond call w).1)) m (respond call w).2 []
  | .await call next, m, w, .done :: rest =>
    exec (next (.ok (respond call w).1)) m (respond call w).2 rest
  | .await _ next, m, w, .thrown error :: rest => exec (next (.error error)) m w rest
  | .await _ _, _, w, .stop :: _ => (.stopped, w)

/-- `P` holds of the outside at every await, `Q` of every end. -/
def Visits (P : W → Prop) (Q : Except S.Error α → S.Memory → W → Prop) :
    Code S α → S.Memory → W → Prop
  | .ret value, m, w => Q (.ok value) m w
  | .fail error, m, w => Q (.error error) m w
  | .read next, m, w => Visits P Q (next m) m w
  | .write m next, _, w => Visits P Q next m w
  | .await call next, m, w =>
    P w ∧ Visits P Q (next (.ok (respond call w).1)) m (respond call w).2 ∧
      ∀ error, Visits P Q (next (.error error)) m w

/-- What holds of an ending: `Q` of one that came, `P` of the outside a stop left. -/
def Ends (P : W → Prop) (Q : Except S.Error α → S.Memory → W → Prop) : Ending S α × W → Prop
  | (.returned value m, w) => Q (.ok value) m w
  | (.threw error m, w) => Q (.error error) m w
  | (.stopped, w) => P w

variable {respond} {P P' : W → Prop} {m : S.Memory} {w : W} {code : Code S α}
  {Q : Except S.Error β → S.Memory → W → Prop} {f : α → Code S β}

theorem Visits.exec {Q : Except S.Error α → S.Memory → W → Prop} (h : Visits respond P Q code m w)
    (choices : List (Choice S.Error)) : Ends P Q (exec respond code m w choices) := by
  induction code generalizing m w choices with
  | ret value => exact h
  | fail error => exact h
  | read next ih => exact ih m h choices
  | write memory next ih => exact ih h choices
  | await call next ih =>
    obtain ⟨hstop, hdone, hthrown⟩ := h
    cases choices with
    | nil => exact ih _ hdone []
    | cons choice rest =>
      cases choice with
      | done => exact ih _ hdone rest
      | thrown error => exact ih _ (hthrown error) rest
      | stop => exact hstop

theorem Visits.mono {Q Q' : Except S.Error α → S.Memory → W → Prop}
    (h : Visits respond P Q code m w) (hp : ∀ w, P w → P' w)
    (hq : ∀ result m w, Q result m w → Q' result m w) : Visits respond P' Q' code m w := by
  induction code generalizing m w with
  | ret value => exact hq _ _ _ h
  | fail error => exact hq _ _ _ h
  | read next ih => exact ih m h
  | write memory next ih => exact ih h
  | await call next ih =>
    obtain ⟨hstop, hdone, hthrown⟩ := h
    exact ⟨hp w hstop, ih _ hdone, fun error => ih _ (hthrown error)⟩

theorem visits_bind :
    Visits respond P Q (code >>= f) m w ↔
      Visits respond P (fun
        | .ok value => Visits respond P Q (f value)
        | .error error => Q (.error error)) code m w := by
  induction code generalizing m w with
  | ret value => exact Iff.rfl
  | fail error => exact Iff.rfl
  | read next ih => exact ih m
  | write memory next ih => exact ih
  | await call next ih =>
    exact and_congr Iff.rfl (and_congr (ih _) (forall_congr' fun error => ih _))

/-- A run of two pieces of code that returns is one of the first that returns and,
with the choices left, one of the second. -/
theorem exec_bind_returned {choices : List (Choice S.Error)} {result : β} {m' : S.Memory} {w' : W}
    (h : exec respond (code >>= f) m w choices = (.returned result m', w')) :
    ∃ value m₁ w₁ rest, exec respond code m w choices = (.returned value m₁, w₁) ∧
      exec respond (f value) m₁ w₁ rest = (.returned result m', w') := by
  induction code generalizing m w choices with
  | ret value => exact ⟨value, m, w, choices, rfl, h⟩
  | fail error => cases h
  | read next ih => exact ih m h
  | write memory next ih => exact ih h
  | await call next ih =>
    cases choices with
    | nil => exact ih (.ok (respond call w).1) h
    | cons choice rest =>
      cases choice with
      | done => exact ih (.ok (respond call w).1) h
      | thrown error => exact ih (.error error) h
      | stop => cases h

theorem visits_call {c : S.Call} {f : S.Answer c → Code S β} :
    Visits respond P Q (Code.call c >>= f) m w ↔
      P w ∧ Visits respond P Q (f (respond c w).1) m (respond c w).2 ∧
        ∀ error, Q (.error error) m w := Iff.rfl

theorem visits_memory {f : S.Memory → Code S β} :
    Visits respond P Q (Code.memory >>= f) m w ↔ Visits respond P Q (f m) m w := Iff.rfl

end

section
variable (respond : (call : S.Call) → W → S.Answer call × W) (may : S.Memory → S.Call → Prop)

/-- The run throws only at the awaits that may. -/
def ThrowsOnly : Code S α → S.Memory → W → List (Choice S.Error) → Prop
  | .ret _, _, _, _ => True
  | .fail _, _, _, _ => True
  | .read next, m, w, choices => ThrowsOnly (next m) m w choices
  | .write m next, _, w, choices => ThrowsOnly next m w choices
  | .await call next, m, w, [] =>
    ThrowsOnly (next (.ok (respond call w).1)) m (respond call w).2 []
  | .await call next, m, w, .done :: rest =>
    ThrowsOnly (next (.ok (respond call w).1)) m (respond call w).2 rest
  | .await call next, m, w, .thrown error :: rest =>
    may m call ∧ ThrowsOnly (next (.error error)) m w rest
  | .await _ _, _, _, .stop :: _ => True

/-- The memory others find at the awaits of a run. -/
def awaited : Code S α → S.Memory → W → List (Choice S.Error) → List S.Memory
  | .ret _, _, _, _ => []
  | .fail _, _, _, _ => []
  | .read next, m, w, choices => awaited (next m) m w choices
  | .write m next, _, w, choices => awaited next m w choices
  | .await call next, m, w, [] =>
    m :: awaited (next (.ok (respond call w).1)) m (respond call w).2 []
  | .await call next, m, w, .done :: rest =>
    m :: awaited (next (.ok (respond call w).1)) m (respond call w).2 rest
  | .await _ next, m, w, .thrown error :: rest =>
    m :: awaited (next (.error error)) m w rest
  | .await _ _, m, _, .stop :: _ => [m]

/-- `P` holds at every await and `Q` of every end of the runs that throw only at the
awaits that may. -/
def VisitsWhen (P : S.Memory → W → Prop) (Q : Except S.Error α → S.Memory → W → Prop) :
    Code S α → S.Memory → W → Prop
  | .ret value, m, w => Q (.ok value) m w
  | .fail error, m, w => Q (.error error) m w
  | .read next, m, w => VisitsWhen P Q (next m) m w
  | .write m next, _, w => VisitsWhen P Q next m w
  | .await call next, m, w =>
    P m w ∧ VisitsWhen P Q (next (.ok (respond call w).1)) m (respond call w).2 ∧
      (may m call → ∀ error, VisitsWhen P Q (next (.error error)) m w)

variable {respond may} {P P' : S.Memory → W → Prop} {m : S.Memory} {w : W} {code : Code S α}
  {choices : List (Choice S.Error)} {Q : Except S.Error α → S.Memory → W → Prop}

theorem throwsOnly_nil : ThrowsOnly respond may code m w [] := by
  induction code generalizing m w with
  | ret value => trivial
  | fail error => trivial
  | read next ih => exact ih m
  | write memory next ih => exact ih
  | await call next ih => exact ih _

theorem throwsOnly_of_all (hall : ∀ m call, may m call) :
    ThrowsOnly respond may code m w choices := by
  induction code generalizing m w choices with
  | ret value => trivial
  | fail error => trivial
  | read next ih => exact ih m
  | write memory next ih => exact ih
  | await call next ih =>
    cases choices with
    | nil => exact ih _
    | cons choice rest =>
      cases choice with
      | done => exact ih _
      | thrown error => exact ⟨hall m call, ih _⟩
      | stop => trivial

theorem VisitsWhen.exec (h : VisitsWhen respond may P Q code m w)
    (hthrows : ThrowsOnly respond may code m w choices) :
    Ends (fun w => ∃ m, P m w) Q (exec respond code m w choices) := by
  induction code generalizing m w choices with
  | ret value => exact h
  | fail error => exact h
  | read next ih => exact ih m h hthrows
  | write memory next ih => exact ih h hthrows
  | await call next ih =>
    obtain ⟨hstop, hdone, hthrown⟩ := h
    cases choices with
    | nil => exact ih _ hdone hthrows
    | cons choice rest =>
      cases choice with
      | done => exact ih _ hdone hthrows
      | thrown error => exact ih _ (hthrown hthrows.1 error) hthrows.2
      | stop => exact ⟨m, hstop⟩

theorem VisitsWhen.awaited (h : VisitsWhen respond may P Q code m w)
    (hthrows : ThrowsOnly respond may code m w choices) :
    ∀ m' ∈ awaited respond code m w choices, ∃ w', P m' w' := by
  induction code generalizing m w choices with
  | ret value | fail error =>
    intro m' hm'
    cases hm'
  | read next ih => exact ih m h hthrows
  | write memory next ih => exact ih h hthrows
  | await call next ih =>
    obtain ⟨hstop, hdone, hthrown⟩ := h
    cases choices with
    | nil => exact forall_mem_cons.mpr ⟨⟨w, hstop⟩, ih _ hdone hthrows⟩
    | cons choice rest =>
      cases choice with
      | done => exact forall_mem_cons.mpr ⟨⟨w, hstop⟩, ih _ hdone hthrows⟩
      | thrown error =>
        exact forall_mem_cons.mpr ⟨⟨w, hstop⟩, ih _ (hthrown hthrows.1 error) hthrows.2⟩
      | stop => exact forall_mem_singleton.mpr ⟨w, hstop⟩

theorem VisitsWhen.mono {Q' : Except S.Error α → S.Memory → W → Prop}
    (h : VisitsWhen respond may P Q code m w) (hp : ∀ m w, P m w → P' m w)
    (hq : ∀ result m w, Q result m w → Q' result m w) : VisitsWhen respond may P' Q' code m w := by
  induction code generalizing m w with
  | ret value => exact hq _ _ _ h
  | fail error => exact hq _ _ _ h
  | read next ih => exact ih m h
  | write memory next ih => exact ih h
  | await call next ih =>
    obtain ⟨hstop, hdone, hthrown⟩ := h
    exact ⟨hp m w hstop, ih _ hdone, fun hmay error => ih _ (hthrown hmay error)⟩

theorem visitsWhen_bind {Q : Except S.Error β → S.Memory → W → Prop} {f : α → Code S β} :
    VisitsWhen respond may P Q (code >>= f) m w ↔
      VisitsWhen respond may P (fun
        | .ok value => VisitsWhen respond may P Q (f value)
        | .error error => Q (.error error)) code m w := by
  induction code generalizing m w with
  | ret value => exact Iff.rfl
  | fail error => exact Iff.rfl
  | read next ih => exact ih m
  | write memory next ih => exact ih
  | await call next ih =>
    exact and_congr Iff.rfl (and_congr (ih _) (imp_congr Iff.rfl (forall_congr' fun error => ih _)))

theorem visitsWhen_call {Q : Except S.Error β → S.Memory → W → Prop} {c : S.Call}
    {f : S.Answer c → Code S β} :
    VisitsWhen respond may P Q (Code.call c >>= f) m w ↔
      P m w ∧ VisitsWhen respond may P Q (f (respond c w).1) m (respond c w).2 ∧
        (may m c → ∀ error, Q (.error error) m w) := Iff.rfl

end

section
variable (respond : (call : S.Call) → W → S.Answer call × W) (may : S.Memory → S.Call → Prop)
  (G : S.Memory → W → Prop)

/-- `G` is kept at every await and to every end of the runs that throw only at the
awaits that may, and the result is as `R` says. -/
def KeepsWhen (R : Except S.Error α → Prop) (code : Code S α) : Prop :=
  ∀ m w, G m w → VisitsWhen respond may G (fun result m w => G m w ∧ R result) code m w

/-- A value is returned, as `V` says. -/
def Returns (V : α → Prop) (result : Except S.Error α) : Prop :=
  ∃ value, result = .ok value ∧ V value

variable {respond may G} {P : S.Memory → W → Prop} {Q : Except S.Error β → S.Memory → W → Prop}
  {R R' : Except S.Error α → Prop} {U : Except S.Error β → Prop} {V : α → Prop} {code : Code S α}
  {f : α → Code S β} {c : S.Call}

theorem KeepsWhen.mono (h : KeepsWhen respond may G R code) (hr : ∀ result, R result → R' result) :
    KeepsWhen respond may G R' code := fun m w hgood =>
  (h m w hgood).mono (fun _ _ hstop => hstop) fun _ _ _ hend => ⟨hend.1, hr _ hend.2⟩

theorem KeepsWhen.bind (h : KeepsWhen respond may G R code)
    (hnext : ∀ value, R (.ok value) → KeepsWhen respond may G U (f value))
    (herror : ∀ error, R (.error error) → U (.error error)) :
    KeepsWhen respond may G U (code >>= f) := by
  intro m w hgood
  refine visitsWhen_bind.mpr ((h m w hgood).mono (fun _ _ hstop => hstop) fun result m' w' hend => ?_)
  cases result with
  | ok value => exact hnext value hend.2 m' w' hend.1
  | error error => exact ⟨hend.1, herror error hend.2⟩

/-- Code that returns, and what comes after. -/
theorem KeepsWhen.andThen (h : KeepsWhen respond may G (Returns V) code)
    (hnext : ∀ value, V value → KeepsWhen respond may G U (f value)) :
    KeepsWhen respond may G U (code >>= f) := by
  refine h.bind (fun value hvalue => ?_) fun error herror => ?_
  · obtain ⟨other, hsame, hv⟩ := hvalue
    cases hsame
    exact hnext value hv
  · obtain ⟨other, hsame, -⟩ := herror
    cases hsame

theorem KeepsWhen.visits (h : KeepsWhen respond may G (Returns V) code) {m : S.Memory} {w : W}
    (hgood : G m w) (hstop : ∀ m w, G m w → P m w)
    (hnext : ∀ value m w, G m w → V value → VisitsWhen respond may P Q (f value) m w) :
    VisitsWhen respond may P Q (code >>= f) m w := by
  refine visitsWhen_bind.mpr ((h m w hgood).mono hstop fun result m' w' hend => ?_)
  obtain ⟨hkept, value, rfl, hv⟩ := hend
  exact hnext value m' w' hkept hv

theorem KeepsWhen.pure {value : α} (hv : V value) :
    KeepsWhen respond may G (Returns V) (Pure.pure value) :=
  fun _ _ hgood => ⟨hgood, value, rfl, hv⟩

theorem KeepsWhen.call (hdone : ∀ m w, G m w → G m (respond c w).2) :
    KeepsWhen respond may G (fun _ => True) (Code.call c) :=
  fun m w hgood => ⟨hgood, ⟨hdone m w hgood, trivial⟩, fun _ _ => ⟨hgood, trivial⟩⟩

theorem KeepsWhen.attempt {V : Except S.Error (S.Answer c) → Prop}
    (hdone : ∀ m w, G m w → G m (respond c w).2 ∧ V (.ok (respond c w).1))
    (hthrown : ∀ error, V (.error error)) :
    KeepsWhen respond may G (Returns V) (Code.attempt c) := by
  intro m w hgood
  obtain ⟨hkept, hv⟩ := hdone m w hgood
  exact ⟨hgood, ⟨hkept, _, rfl, hv⟩, fun _ error => ⟨hgood, _, rfl, hthrown error⟩⟩

theorem KeepsWhen.memory {V : S.Memory → Prop} (hv : ∀ m w, G m w → V m) :
    KeepsWhen respond may G (Returns V) (Code.memory : Code S S.Memory) :=
  fun m w hgood => ⟨hgood, m, rfl, hv m w hgood⟩

theorem KeepsWhen.setMemory {m' : S.Memory} (hkeep : ∀ m w, G m w → G m' w) :
    KeepsWhen respond may G (Returns fun _ => True) (Code.setMemory m' : Code S Unit) :=
  fun m w hgood => ⟨hkeep m w hgood, (), rfl, trivial⟩

end

section
variable (respond : (call : S.Call) → W → S.Answer call × W) (D : W → Prop)
  (G : S.Memory → W → Prop)

/-- `G` is kept to every end, a stop leaves what `D` says, and what is returned is
as `V` says. -/
def Keeps (V : α → Prop) (code : Code S α) : Prop :=
  ∀ m w, G m w → Visits respond D (fun result m w =>
    G m w ∧ ∀ value, result = .ok value → V value) code m w

variable {respond D G} {V : α → Prop} {U : β → Prop} {code : Code S α} {f : α → Code S β}
  {c : S.Call}

theorem Keeps.bind (h : Keeps respond D G V code) (hnext : ∀ value, V value →
    Keeps respond D G U (f value)) : Keeps respond D G U (code >>= f) := by
  intro m w hgood
  refine visits_bind.mpr ((h m w hgood).mono (fun _ hstop => hstop) fun result m' w' hend => ?_)
  cases result with
  | ok value => exact hnext value (hend.2 value rfl) m' w' hend.1
  | error error => exact ⟨hend.1, nofun⟩

theorem Keeps.pure {value : α} (hv : V value) : Keeps respond D G V (Pure.pure value) := by
  intro m w hgood
  refine ⟨hgood, fun other hother => ?_⟩
  cases hother
  exact hv

theorem Keeps.call {V : S.Answer c → Prop} (hstop : ∀ m w, G m w → D w)
    (hdone : ∀ m w, G m w → G m (respond c w).2 ∧ V (respond c w).1) :
    Keeps respond D G V (Code.call c) := by
  intro m w hgood
  refine ⟨hstop m w hgood, ⟨(hdone m w hgood).1, fun value hvalue => ?_⟩,
    fun _ => ⟨hgood, nofun⟩⟩
  cases hvalue
  exact (hdone m w hgood).2

theorem Keeps.attempt {V : Except S.Error (S.Answer c) → Prop} (hstop : ∀ m w, G m w → D w)
    (hdone : ∀ m w, G m w → G m (respond c w).2 ∧ V (.ok (respond c w).1))
    (hthrown : ∀ error, V (.error error)) : Keeps respond D G V (Code.attempt c) := by
  intro m w hgood
  refine ⟨hstop m w hgood, ⟨(hdone m w hgood).1, fun value hvalue => ?_⟩,
    fun error => ⟨hgood, fun value hvalue => ?_⟩⟩
  · cases hvalue
    exact (hdone m w hgood).2
  · cases hvalue
    exact hthrown error

theorem Keeps.memory {V : S.Memory → Prop} (hv : ∀ m w, G m w → V m) :
    Keeps respond D G V (Code.memory : Code S S.Memory) := by
  intro m w hgood
  refine ⟨hgood, fun value hvalue => ?_⟩
  cases hvalue
  exact hv m w hgood

theorem Keeps.setMemory {V : Unit → Prop} {m' : S.Memory} (hkeep : ∀ m w, G m w → G m' w)
    (hv : V ()) : Keeps respond D G V (Code.setMemory m' : Code S Unit) :=
  fun m w hgood => ⟨hkeep m w hgood, fun _ _ => hv⟩

end

section
variable (respond : (call : S.Call) → W → S.Answer call × W)
  (ok : S.Memory → W → S.Call → Choice S.Error → Prop)

/-- What happens at each await of the run is allowed there. -/
def Takes : Code S α → S.Memory → W → List (Choice S.Error) → Prop
  | .ret _, _, _, _ => True
  | .fail _, _, _, _ => True
  | .read next, m, w, choices => Takes (next m) m w choices
  | .write m next, _, w, choices => Takes next m w choices
  | .await call next, m, w, [] =>
    ok m w call .done ∧ Takes (next (.ok (respond call w).1)) m (respond call w).2 []
  | .await call next, m, w, .done :: rest =>
    ok m w call .done ∧ Takes (next (.ok (respond call w).1)) m (respond call w).2 rest
  | .await call next, m, w, .thrown error :: rest =>
    ok m w call (.thrown error) ∧ Takes (next (.error error)) m w rest
  | .await _ _, _, _, .stop :: _ => True

instance decidableTakes [∀ m w c choice, Decidable (ok m w c choice)] :
    ∀ (code : Code S α) m w choices, Decidable (Takes respond ok code m w choices)
  | .ret _, _, _, _ => isTrue trivial
  | .fail _, _, _, _ => isTrue trivial
  | .read next, m, w, choices => decidableTakes (next m) m w choices
  | .write m next, _, w, choices => decidableTakes next m w choices
  | .await call next, m, w, [] =>
    have := decidableTakes (next (.ok (respond call w).1)) m (respond call w).2 []
    inferInstanceAs (Decidable (ok m w call .done ∧ _))
  | .await call next, m, w, .done :: rest =>
    have := decidableTakes (next (.ok (respond call w).1)) m (respond call w).2 rest
    inferInstanceAs (Decidable (ok m w call .done ∧ _))
  | .await call next, m, w, .thrown error :: rest =>
    have := decidableTakes (next (.error error)) m w rest
    inferInstanceAs (Decidable (ok m w call (.thrown error) ∧ _))
  | .await _ _, _, _, .stop :: _ => isTrue trivial

/-- `P` holds at every await and `Q` of every end of the runs in which what happens
is allowed. -/
def VisitsTaking (P : S.Memory → W → Prop) (Q : Except S.Error α → S.Memory → W → Prop) :
    Code S α → S.Memory → W → Prop
  | .ret value, m, w => Q (.ok value) m w
  | .fail error, m, w => Q (.error error) m w
  | .read next, m, w => VisitsTaking P Q (next m) m w
  | .write m next, _, w => VisitsTaking P Q next m w
  | .await call next, m, w =>
    P m w ∧
      (ok m w call .done →
        VisitsTaking P Q (next (.ok (respond call w).1)) m (respond call w).2) ∧
      ∀ error, ok m w call (.thrown error) → VisitsTaking P Q (next (.error error)) m w

variable {respond ok} {P : S.Memory → W → Prop} {m : S.Memory} {w : W} {code : Code S α}

theorem VisitsTaking.exec {Q : Except S.Error α → S.Memory → W → Prop}
    (h : VisitsTaking respond ok P Q code m w) {choices : List (Choice S.Error)}
    (htakes : Takes respond ok code m w choices) :
    Ends (fun w => ∃ m, P m w) Q (exec respond code m w choices) := by
  induction code generalizing m w choices with
  | ret value => exact h
  | fail error => exact h
  | read next ih => exact ih m h htakes
  | write memory next ih => exact ih h htakes
  | await call next ih =>
    obtain ⟨hstop, hdone, hthrown⟩ := h
    cases choices with
    | nil => exact ih _ (hdone htakes.1) htakes.2
    | cons choice rest =>
      cases choice with
      | done => exact ih _ (hdone htakes.1) htakes.2
      | thrown error => exact ih _ (hthrown error htakes.1) htakes.2
      | stop => exact ⟨m, hstop⟩

theorem visitsTaking_bind {Q : Except S.Error β → S.Memory → W → Prop} {f : α → Code S β} :
    VisitsTaking respond ok P Q (code >>= f) m w ↔
      VisitsTaking respond ok P (fun
        | .ok value => VisitsTaking respond ok P Q (f value)
        | .error error => Q (.error error)) code m w := by
  induction code generalizing m w with
  | ret value => exact Iff.rfl
  | fail error => exact Iff.rfl
  | read next ih => exact ih m
  | write memory next ih => exact ih
  | await call next ih =>
    exact and_congr Iff.rfl (and_congr (imp_congr Iff.rfl (ih _))
      (forall_congr' fun error => imp_congr Iff.rfl (ih _)))

end

/-- Every call the code may still put is as `P` says and every value it may return as `V`
says, whatever it is answered. -/
def Asks (P : S.Call → Prop) (V : α → Prop) : Code S α → Prop
  | .ret value => V value
  | .fail _ => True
  | .read next => ∀ memory, Asks P V (next memory)
  | .write _ next => Asks P V next
  | .await call next => P call ∧ ∀ answer, Asks P V (next answer)

variable {P P' : S.Call → Prop} {V V' : α → Prop} {code : Code S α}

theorem Asks.mono (h : Asks P V code) (hp : ∀ call, P call → P' call)
    (hv : ∀ value, V value → V' value) : Asks P' V' code := by
  induction code with
  | ret value => exact hv value h
  | fail error => trivial
  | read next ih => exact fun memory => ih memory (h memory)
  | write memory next ih => exact ih h
  | await call next ih => exact ⟨hp call h.1, fun answer => ih answer (h.2 answer)⟩

theorem Asks.and (h : Asks P V code) (h' : Asks P' V code) :
    Asks (fun call => P call ∧ P' call) V code := by
  induction code with
  | ret value => exact h
  | fail error => trivial
  | read next ih => exact fun memory => ih memory (h memory) (h' memory)
  | write memory next ih => exact ih h h'
  | await call next ih =>
    exact ⟨⟨h.1, h'.1⟩, fun answer => ih answer (h.2 answer) (h'.2 answer)⟩

theorem Asks.bind {U : β → Prop} {f : α → Code S β} (h : Asks P V code)
    (hf : ∀ value, V value → Asks P U (f value)) : Asks P U (code >>= f) := by
  induction code with
  | ret value => exact hf value h
  | fail error => trivial
  | read next ih => exact fun memory => ih memory (h memory)
  | write memory next ih => exact ih h
  | await call next ih => exact ⟨h.1, fun answer => ih answer (h.2 answer)⟩

theorem Asks.call {c : S.Call} {U : S.Answer c → Prop} (h : P c) (hu : ∀ answer, U answer) :
    Asks P U (Code.call c) := by
  refine ⟨h, fun answer => ?_⟩
  cases answer with
  | ok value => exact hu value
  | error error => trivial

end Havemind.AwaitCode
