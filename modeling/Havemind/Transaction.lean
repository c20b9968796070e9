import Mathlib.Init

/-!
Computations over a store that can fail midway. A failure keeps whatever was
written before it, and `transaction` is what restores the store. The lemmas
read a successful run backwards, one bind at a time.
-/
namespace Havemind.Transaction

open List

variable {ε σ α β : Type} {condition : Prop} {e : ε} {x : Except ε α} {b : β} {s s' : σ} {a : α}
  {f : α → EStateM ε σ β} {u : Unit} {s'' : σ} {admissible : σ → Prop} {write : σ → σ}
  {body : EStateM ε σ α}

/-- A read-only check that holds or fails with `e`. -/
def require (condition : Prop) [Decidable condition] (e : ε) : Except ε Unit :=
  if condition then .ok () else .error e

theorem require_eq_ok [Decidable condition] : require condition e = .ok u ↔ condition := by
  unfold require
  split <;> simp [*]

theorem require_of [Decidable condition] (h : condition) : require condition e = .ok () := if_pos h


theorem require_of_not [Decidable condition] (h : ¬ condition) :
    require condition e = .error e := if_neg h

theorem exists_of_isOk (h : x.isOk = true) : ∃ a, x = .ok a := by
  cases x with
  | error e => cases h
  | ok a => exact ⟨a, rfl⟩

theorem except_bind_eq_ok {f : α → Except ε β} :
    (x >>= f) = .ok b ↔ ∃ a, x = .ok a ∧ f a = .ok b := by
  cases x with
  | error e => simp [bind, Except.bind]
  | ok a => simp [bind, Except.bind]

theorem except_map_eq_ok {f : α → β} : x.map f = .ok b ↔ ∃ a, x = .ok a ∧ f a = b := by
  cases x with
  | error e => simp [Except.map]
  | ok a => simp [Except.map]

/-- Every result of a successful traversal comes from an entry. -/
theorem mem_of_mapM_ok {f : α → Except ε β} {xs : List α} {ys : List β}
    (h : xs.mapM f = .ok ys) : ∀ y ∈ ys, ∃ x ∈ xs, f x = .ok y := by
  induction xs generalizing ys with
  | nil =>
    cases h
    simp
  | cons x rest ih =>
    rw [mapM_cons] at h
    obtain ⟨y, hy, h⟩ := except_bind_eq_ok.mp h
    obtain ⟨tail, htail, h⟩ := except_bind_eq_ok.mp h
    cases h
    intro z hz
    rcases mem_cons.mp hz with hz | hz
    · exact ⟨x, mem_cons_self, hz ▸ hy⟩
    · obtain ⟨w, hw, hf⟩ := ih htail z hz
      exact ⟨w, mem_cons_of_mem _ hw, hf⟩

theorem map_of_mapM_ok {γ : Type} {f : α → Except ε β} {g : β → γ} {k : α → γ} {xs : List α}
    {ys : List β} (hf : ∀ x y, f x = .ok y → g y = k x) (h : xs.mapM f = .ok ys) :
    ys.map g = xs.map k := by
  induction xs generalizing ys with
  | nil =>
    cases h
    rfl
  | cons x rest ih =>
    rw [mapM_cons] at h
    obtain ⟨y, hy, h⟩ := except_bind_eq_ok.mp h
    obtain ⟨tail, htail, h⟩ := except_bind_eq_ok.mp h
    cases h
    rw [map_cons, map_cons, hf x y hy, ih htail]

/-- A check inside a computation: it reads and may fail, and writes nothing. -/
def check (x : Except ε α) : EStateM ε σ α := fun s =>
  match x with
  | .ok a => .ok a s
  | .error e => .error e s

theorem check_eq_ok : check x s = .ok a s' ↔ x = .ok a ∧ s = s' := by
  cases x with
  | error e => simp [check]
  | ok b => simp [check]

@[simp] theorem check_ok (a : α) (s : σ) : check (ε := ε) (.ok a) s = .ok a s := rfl

@[simp] theorem check_error (e : ε) (s : σ) : check (α := α) (.error e) s = .error e s := rfl

theorem bind_eq_ok {x : EStateM ε σ α} :
    (x >>= f) s = .ok b s'' ↔ ∃ a s', x s = .ok a s' ∧ f a s' = .ok b s'' := by
  simp only [bind, EStateM.bind]
  cases x s with
  | ok a s' =>
    constructor
    · exact fun h => ⟨a, s', rfl, h⟩
    · rintro ⟨_, _, h, hf⟩
      cases h
      exact hf
  | error e s' => simp

theorem check_bind_eq_ok : (check x >>= f) s = .ok b s'' ↔ ∃ a, x = .ok a ∧ f a s = .ok b s'' := by
  cases x with
  | error e => simp [bind, EStateM.bind, check]
  | ok a => simp [bind, EStateM.bind, check]

theorem check_bind_of_ok (h : x = .ok a) : (check x >>= f) s = f a s := by
  rw [h]
  rfl

theorem get_bind {f : σ → EStateM ε σ β} : (get >>= f) s = f s s := rfl

theorem modify_bind {g : σ → σ} {f : PUnit → EStateM ε σ β} : (modify g >>= f) s = f ⟨⟩ (g s) := rfl


theorem bind_of_ok {x : EStateM ε σ α} (h : x s = .ok a s') : (x >>= f) s = f a s' := by
  simp only [bind, EStateM.bind, h]

theorem bind_of_error {x : EStateM ε σ α} (h : x s = .error e s') : (x >>= f) s = .error e s' := by
  simp only [bind, EStateM.bind, h]

@[simp] theorem pure_run (a : α) (s : σ) : (pure a : EStateM ε σ α) s = .ok a s := rfl

@[simp] theorem throw_run (e : ε) (s : σ) : (throw e : EStateM ε σ α) s = .error e s := rfl

/-- A write that is refused with `e`, writing nothing, unless the store admits it. -/
def guardedWrite (e : ε) (admissible : σ → Prop) [DecidablePred admissible] (write : σ → σ) :
    EStateM ε σ Unit := fun s => if admissible s then .ok () (write s) else .error e s

theorem guardedWrite_eq_ok [DecidablePred admissible] :
    guardedWrite e admissible write s = .ok u s' ↔ admissible s ∧ s' = write s := by
  unfold guardedWrite
  split <;> simp [*, eq_comm]

theorem guardedWrite_bind_eq_ok [DecidablePred admissible] {f : Unit → EStateM ε σ β} :
    (guardedWrite e admissible write >>= f) s = .ok b s' ↔
      admissible s ∧ f () (write s) = .ok b s' := by
  rw [bind_eq_ok]
  constructor
  · intro h
    obtain ⟨_, mid, hwrite, hrest⟩ := h
    obtain ⟨hadmissible, rfl⟩ := guardedWrite_eq_ok.mp hwrite
    exact ⟨hadmissible, hrest⟩
  · intro h
    exact ⟨(), _, guardedWrite_eq_ok.mpr ⟨h.1, rfl⟩, h.2⟩

/-- Runs a body and restores the store when it fails. -/
def transaction (body : EStateM ε σ α) : EStateM ε σ α := fun s =>
  match body s with
  | .ok a s' => .ok a s'
  | .error e _ => .error e s

theorem transaction_eq_ok : transaction body s = .ok a s' ↔ body s = .ok a s' := by
  unfold transaction
  cases body s <;> simp

theorem transaction_eq_error :
    transaction body s = .error e s' ↔ s' = s ∧ ∃ dirty, body s = .error e dirty := by
  unfold transaction
  cases body s with
  | ok a t => simp
  | error e' t =>
    simp only [EStateM.Result.error.injEq, exists_eq_right']
    exact ⟨fun ⟨he, hs⟩ => ⟨hs.symm, he⟩, fun ⟨hs, he⟩ => ⟨he, hs.symm⟩⟩

end Havemind.Transaction
