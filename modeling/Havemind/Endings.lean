import Mathlib.Order.Defs.Unbundled
import Havemind.Transaction

/-!
What holds however a computation over a store ends: one predicate for its result
and one for its failure, each with the store it leaves. The rules follow the
computation bind by bind.
-/
namespace Havemind.Endings

open Transaction

variable {ε σ α β : Type}

/-- The computation ends in `Q` when it returns and in `E` when it throws. -/
def Ends (x : EStateM ε σ α) (s : σ) (Q : α → σ → Prop) (E : ε → σ → Prop) : Prop :=
  match x s with
  | .ok a s' => Q a s'
  | .error e s' => E e s'

/-- Runs the handler on a failure, from the store the failure left. -/
def catching (x : EStateM ε σ α) (handler : ε → EStateM ε σ α) : EStateM ε σ α := fun s =>
  match x s with
  | .ok a s' => .ok a s'
  | .error e s' => handler e s'

def storeAfter (x : EStateM ε σ α) (s : σ) : σ :=
  match x s with
  | .ok _ s' => s'
  | .error _ s' => s'

variable {Q : α → σ → Prop} {E : ε → σ → Prop} {s : σ} {x : EStateM ε σ α} {e : ε} {P : σ → Prop}
  {R : β → σ → Prop} {a : α} {s' : σ} {Q' : α → σ → Prop} {E' : ε → σ → Prop}

theorem storeAfter_of_ok (h : x s = .ok a s') : storeAfter x s = s' := by
  unfold storeAfter
  rw [h]

theorem storeAfter_of_error (h : x s = .error e s') : storeAfter x s = s' := by
  unfold storeAfter
  rw [h]

theorem ends_iff : Ends x s Q E ↔
    (∀ a s', x s = .ok a s' → Q a s') ∧ ∀ e s', x s = .error e s' → E e s' := by
  unfold Ends
  cases x s with
  | ok a s' => simp
  | error e s' => simp

theorem Ends.mono (h : Ends x s Q E) (hq : ∀ a s', Q a s' → Q' a s')
    (he : ∀ e s', E e s' → E' e s') : Ends x s Q' E' := by
  rw [ends_iff] at h ⊢
  exact ⟨fun a s' hx => hq a s' (h.1 a s' hx), fun e s' hx => he e s' (h.2 e s' hx)⟩

theorem Ends.storeAfter (h : Ends x s (fun _ s' => P s') (fun _ s' => P s')) :
    P (storeAfter x s) := by
  unfold Ends at h
  unfold Endings.storeAfter
  cases hx : x s with
  | ok a s' =>
    rw [hx] at h
    exact h
  | error e s' =>
    rw [hx] at h
    exact h

/-- What is known of the store after every end, and more of the store after a result. -/
theorem Ends.of_storeAfter (h : P (Endings.storeAfter x s))
    (hok : ∀ a s', x s = .ok a s' → Q a s') : Ends x s Q (fun _ s' => P s') := by
  refine ends_iff.mpr ⟨hok, fun e s' hx => ?_⟩
  rw [storeAfter_of_error hx] at h
  exact h

theorem Ends.everywhere (h : P (Endings.storeAfter x s)) :
    Ends x s (fun _ s' => P s') fun _ s' => P s' := by
  refine Ends.of_storeAfter h fun a s' hx => ?_
  rw [storeAfter_of_ok hx] at h
  exact h

theorem ends_pure (h : Q a s) : Ends (pure a) s Q E := h

theorem ends_throw (h : E e s) : Ends (throw e) s Q E := h

theorem ends_modify {f : σ → σ} {Q : Unit → σ → Prop} (h : Q () (f s)) :
    Ends (modify f) s Q E := h

theorem ends_check {x : Except ε α} (hok : ∀ a, x = .ok a → Q a s)
    (herror : ∀ e, x = .error e → E e s) : Ends (check x) s Q E := by
  cases x with
  | ok a => exact hok a rfl
  | error e => exact herror e rfl

theorem ends_guardedWrite {admissible : σ → Prop} [DecidablePred admissible] {write : σ → σ}
    {Q : Unit → σ → Prop} (hok : admissible s → Q () (write s)) (herror : E e s) :
    Ends (guardedWrite e admissible write) s Q E := by
  unfold Ends guardedWrite
  by_cases h : admissible s
  · rw [if_pos h]
    exact hok h
  · rw [if_neg h]
    exact herror

/-- A transaction ends as its body does, or where it began. -/
theorem ends_transaction (hok : ∀ a s', x s = .ok a s' → Q a s') (herror : ∀ e, E e s) :
    Ends (transaction x) s Q E := by
  rw [ends_iff]
  refine ⟨fun a s' h => hok a s' (transaction_eq_ok.mp h), fun e s' h => ?_⟩
  rw [(transaction_eq_error.mp h).1]
  exact herror e

theorem Ends.bind {f : α → EStateM ε σ β} (h : Ends x s (fun a s' => Ends (f a) s' R E) E) :
    Ends (x >>= f) s R E := by
  unfold Ends at h
  cases hx : x s with
  | ok a s' =>
    rw [hx] at h
    unfold Ends
    rw [bind_of_ok hx]
    exact h
  | error e s' =>
    rw [hx] at h
    unfold Ends
    rw [bind_of_error hx]
    exact h

/-- A check changes nothing. -/
theorem Ends.check {x : Except ε α} {f : α → EStateM ε σ β}
    (hok : ∀ a, x = .ok a → Ends (f a) s R E) (herror : ∀ e, E e s) :
    Ends (Transaction.check x >>= f) s R E :=
  .bind (ends_check hok fun e _ => herror e)

theorem Ends.map {f : α → β} (h : Ends x s (fun a s' => R (f a) s') E) : Ends (f <$> x) s R E := by
  unfold Ends at h ⊢
  simp only [Functor.map, EStateM.map]
  cases hx : x s with
  | ok a s' =>
    rw [hx] at h
    exact h
  | error e s' =>
    rw [hx] at h
    exact h

theorem ends_get_bind {f : σ → EStateM ε σ β} (h : Ends (f s) s R E) : Ends (get >>= f) s R E := h


theorem ends_modify_bind {g : σ → σ} {f : Unit → EStateM ε σ β} (h : Ends (f ()) (g s) R E) :
    Ends (modify g >>= f) s R E := h

theorem Ends.catching {handler : ε → EStateM ε σ α}
    (h : Ends x s Q (fun e s' => Ends (handler e) s' Q E)) : Ends (catching x handler) s Q E := by
  unfold Ends at h ⊢
  unfold Endings.catching
  cases hx : x s with
  | ok a s' =>
    rw [hx] at h
    exact h
  | error e s' =>
    rw [hx] at h
    exact h

theorem Ends.and (h : Ends x s Q E) (h' : Ends x s Q' E') :
    Ends x s (fun a t => Q a t ∧ Q' a t) (fun e t => E e t ∧ E' e t) := by
  rw [ends_iff] at h h' ⊢
  exact ⟨fun a t hx => ⟨h.1 a t hx, h'.1 a t hx⟩, fun e t hx => ⟨h.2 e t hx, h'.2 e t hx⟩⟩

section
variable {R : σ → σ → Prop} {x : EStateM ε σ α}

/-- However the computation ends, the store it leaves is related to the one it
began with. -/
def Preserves (R : σ → σ → Prop) (x : EStateM ε σ α) : Prop :=
  ∀ s, Ends x s (fun _ s' => R s s') (fun _ s' => R s s')

theorem preserves_modify {f : σ → σ} (h : ∀ s, R s (f s)) : Preserves R (modify f : EStateM ε σ PUnit) :=
  fun s => ends_modify (h s)

theorem preserves_get_bind {f : σ → EStateM ε σ β} (h : ∀ s, Preserves R (f s)) :
    Preserves R (get >>= f) := fun s => ends_get_bind (h s s)

theorem preserves_pure [Std.Refl R] {a : α} : Preserves R (pure a : EStateM ε σ α) :=
  fun s => ends_pure (Std.Refl.refl s)

theorem preserves_throw [Std.Refl R] {e : ε} : Preserves R (throw e : EStateM ε σ α) :=
  fun s => ends_throw (Std.Refl.refl s)

/-- Begun later, it still ends in a store related to the first one. -/
theorem Preserves.after [IsTrans σ R] (hx : Preserves R x) {s t : σ} (hst : R s t) :
    Ends x t (fun _ u => R s u) (fun _ u => R s u) := by
  refine (hx t).mono ?_ ?_
  · exact fun _ u htu => IsTrans.trans s t u hst htu
  · exact fun _ u htu => IsTrans.trans s t u hst htu

theorem Preserves.bind [IsTrans σ R] {f : α → EStateM ε σ β} (hx : Preserves R x)
    (hf : ∀ a, Preserves R (f a)) : Preserves R (x >>= f) := by
  intro s
  refine Ends.bind ((hx s).mono ?_ fun _ _ h => h)
  exact fun a t hst => (hf a).after hst

theorem Preserves.catching [IsTrans σ R] {handler : ε → EStateM ε σ α} (hx : Preserves R x)
    (hhandler : ∀ e, Preserves R (handler e)) : Preserves R (catching x handler) := by
  intro s
  refine Ends.catching ((hx s).mono (fun _ _ h => h) ?_)
  exact fun e t hst => (hhandler e).after hst

end

attribute [irreducible] Ends

end Havemind.Endings
