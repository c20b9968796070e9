import Mathlib.Init

/-!
Runs of a machine that takes one action after another. An action is enabled in
a state when the step from it exists, and a guard says which enabled actions a
run may take. What holds at the start and is kept by every guarded step holds in
every state a run reaches.
-/
namespace Havemind.Runs

variable {σ α : Type*}

/-- The state after the actions; `none` when one of them was not enabled. -/
def run (step : σ → α → Option σ) : σ → List α → Option σ
  | s, [] => some s
  | s, action :: rest => (step s action).bind fun next => run step next rest

/-- The states reached from `start` by steps whose action meets the guard. -/
inductive Reached (step : σ → α → Option σ) (guard : σ → α → Prop) (start : σ) : σ → Prop
  | start : Reached step guard start start
  | step {s s' : σ} {action : α} (before : Reached step guard start s) (allowed : guard s action)
      (taken : step s action = some s') : Reached step guard start s'

variable {step : σ → α → Option σ} {guard : σ → α → Prop} {start s : σ} {actions : List α}

theorem Reached.invariant {P : σ → Prop} (h : Reached step guard start s) (base : P start)
    (keep : ∀ s action s', P s → guard s action → step s action = some s' → P s') : P s := by
  induction h with
  | start => exact base
  | step _ allowed taken ih => exact keep _ _ _ ih allowed taken

theorem Reached.trans {t : σ} (h : Reached step guard start s) (h' : Reached step guard s t) :
    Reached step guard start t := by
  refine h'.invariant (P := Reached step guard start) h ?_
  exact fun _ _ _ hbefore allowed taken => hbefore.step allowed taken

/-- A run that starts in a reached state, every action of which meets the guard
where it is taken. -/
def Allowed (step : σ → α → Option σ) (guard : σ → α → Prop) : σ → List α → Prop
  | _, [] => True
  | s, action :: rest => guard s action ∧ ∀ next ∈ step s action, Allowed step guard next rest

instance decidableAllowed [∀ s action, Decidable (guard s action)] :
    ∀ s actions, Decidable (Allowed step guard s actions)
  | _, [] => isTrue trivial
  | s, action :: rest =>
    have : ∀ next, Decidable (Allowed step guard next rest) := fun next =>
      decidableAllowed next rest
    inferInstanceAs (Decidable (guard s action ∧ ∀ next ∈ step s action, _))

theorem allowed_of_mem (h : ∀ action ∈ actions, ∀ s, guard s action) (s : σ) :
    Allowed step guard s actions := by
  induction actions generalizing s with
  | nil => trivial
  | cons action rest ih =>
    exact ⟨h action List.mem_cons_self s,
      fun next _ => ih (fun later hlater => h later (List.mem_cons_of_mem _ hlater)) next⟩

theorem allowed_of_forall (h : ∀ s action, guard s action) (s : σ) (actions : List α) :
    Allowed step guard s actions := allowed_of_mem (fun action _ s => h s action) s

theorem Reached.run {s' : σ} (h : Reached step guard start s)
    (allowed : Allowed step guard s actions) (hrun : Runs.run step s actions = some s') :
    Reached step guard start s' := by
  induction actions generalizing s with
  | nil =>
    cases hrun
    exact h
  | cons action rest ih =>
    obtain ⟨next, htaken, hrest⟩ := Option.bind_eq_some_iff.mp hrun
    exact ih (h.step allowed.1 htaken) (allowed.2 next htaken) hrest

section
variable {τ β : Type*} {step : σ → List β → σ → Prop} {t u : σ} {labels more : List β}

/-- A run of labelled steps, with the labels of all of them. -/
inductive Labelled (step : σ → List β → σ → Prop) : σ → List β → σ → Prop
  | refl (s : σ) : Labelled step s [] s
  | tail {s t u : σ} {labels more : List β} (before : Labelled step s labels t)
      (taken : step t more u) : Labelled step s (labels ++ more) u

theorem Labelled.single (h : step s labels t) : Labelled step s labels t :=
  (Labelled.refl s).tail h

theorem Labelled.trans (h : Labelled step s labels t) (h' : Labelled step t more u) :
    Labelled step s (labels ++ more) u := by
  induction h' with
  | refl =>
    rw [List.append_nil]
    exact h
  | tail _ taken ih =>
    rw [← List.append_assoc]
    exact ih.tail taken

/-- A run whose every step another machine can follow is followed by one with the same labels. -/
theorem Labelled.simulates {step' : τ → List β → τ → Prop} {f : σ → τ}
    (h : Labelled step s labels t)
    (hstep : ∀ s labels t, step s labels t → Labelled step' (f s) labels (f t)) :
    Labelled step' (f s) labels (f t) := by
  induction h with
  | refl => exact .refl _
  | tail _ taken ih => exact ih.trans (hstep _ _ _ taken)

end

end Havemind.Runs
