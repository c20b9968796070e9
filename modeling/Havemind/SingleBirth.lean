import Mathlib.Logic.Relation

/-!
Rows of a table that can be born once. A step brings at most one new identifier,
and none once the table is closed; a table that has an identifier is closed, and
a closed table stays closed. Then all identifiers a chain of steps ever shows
are one.
-/
namespace Havemind.SingleBirth

variable {σ ι : Type*} {ok : σ → Prop} {step : σ → σ → Prop} {ids : σ → ι → Prop}
  {closed : σ → Prop} {s t : σ}

structure BornOnce (ok : σ → Prop) (step : σ → σ → Prop) (ids : σ → ι → Prop) (closed : σ → Prop) :
    Prop where
  ok_step : ∀ {s t}, ok s → step s t → ok t
  closed_of_mem : ∀ {s id}, ok s → ids s id → closed s
  stays : ∀ {s t}, ok s → step s t → closed s → closed t
  grows : ∀ {s t}, ok s → step s t → (∀ id, ids t id → ids s id) ∨
    ¬ closed s ∧ ∃ new, ∀ id, ids t id → ids s id ∨ id = new

/-- At most one identifier is there. -/
def AtMostOne (ids : σ → ι → Prop) (s : σ) : Prop := ∀ a b, ids s a → ids s b → a = b

variable (h : BornOnce ok step ids closed)
include h

theorem BornOnce.ok_chain (hs : ok s) (chain : Relation.ReflTransGen step s t) : ok t := by
  induction chain with
  | refl => exact hs
  | tail _ taken ih => exact h.ok_step ih taken

theorem BornOnce.closed_chain (hs : ok s) (hclosed : closed s)
    (chain : Relation.ReflTransGen step s t) : closed t ∧ ∀ id, ids t id → ids s id := by
  induction chain with
  | refl => exact ⟨hclosed, fun _ hid => hid⟩
  | tail before taken ih =>
    have hok := h.ok_chain hs before
    refine ⟨h.stays hok taken ih.1, fun id hid => ?_⟩
    rcases h.grows hok taken with hkept | ⟨hopen, -⟩
    · exact ih.2 id (hkept id hid)
    · exact absurd ih.1 hopen

theorem BornOnce.atMostOne (hs : ok s) (hone : AtMostOne ids s)
    (chain : Relation.ReflTransGen step s t) : AtMostOne ids t := by
  induction chain with
  | refl => exact hone
  | tail before taken ih =>
    have hok := h.ok_chain hs before
    intro a b ha hb
    rcases h.grows hok taken with hkept | ⟨hopen, new, hnew⟩
    · exact ih a b (hkept a ha) (hkept b hb)
    · have hfresh : ∀ id, ids _ id → id = new := fun id hid =>
        (hnew id hid).resolve_left fun hold => hopen (h.closed_of_mem hok hold)
      exact (hfresh a ha).trans (hfresh b hb).symm

/-- An identifier seen earlier and one seen later are the same. -/
theorem BornOnce.same (hs : ok s) (hone : AtMostOne ids s)
    (chain : Relation.ReflTransGen step s t) {a b : ι} (ha : ids s a) (hb : ids t b) : a = b :=
  hone a b ha ((h.closed_chain hs (h.closed_of_mem hs ha) chain).2 b hb)

end Havemind.SingleBirth
