import Mathlib.Logic.Relation

/-!
# Runs of a transition system with guarded steps

A system has a total step function over events. `Reachable ok s₀` holds of the states that a run
from `s₀` passes through when every step of the run satisfies `ok` in the state it is taken from.
-/

namespace Transition

variable {σ ε : Type*} (step : σ → ε → σ)

inductive Reachable (ok : σ → ε → Prop) (s₀ : σ) : σ → Prop
  | refl : Reachable ok s₀ s₀
  | tail {s : σ} (e : ε) : Reachable ok s₀ s → ok s e → Reachable ok s₀ (step s e)

variable {step}

/-- A predicate that every guarded step keeps holds along the whole run. -/
theorem Reachable.invariant {ok : σ → ε → Prop} (I : σ → Prop)
    (hstep : ∀ s e, I s → ok s e → I (step s e)) {s₀ s : σ} (h₀ : I s₀)
    (hs : Reachable step ok s₀ s) : I s := by
  induction hs with
  | refl => exact h₀
  | tail e _ hok ih => exact hstep _ e ih hok

/-- Every event of the list satisfies the guard in the state it is taken from. -/
def Guarded (step : σ → ε → σ) (ok : σ → ε → Prop) : σ → List ε → Prop
  | _, [] => True
  | s, e :: es => ok s e ∧ Guarded step ok (step s e) es

instance decidableGuarded {ok : σ → ε → Prop} [∀ s e, Decidable (ok s e)] :
    ∀ (s : σ) (es : List ε), Decidable (Guarded step ok s es)
  | _, [] => inferInstanceAs (Decidable True)
  | s, e :: es =>
    haveI : Decidable (Guarded step ok (step s e) es) := decidableGuarded (step s e) es
    inferInstanceAs (Decidable (ok s e ∧ Guarded step ok (step s e) es))

theorem reachable_of_guarded {ok : σ → ε → Prop} {s₀ s : σ} (es : List ε)
    (hs : Reachable step ok s₀ s) (hg : Guarded step ok s es) :
    Reachable step ok s₀ (es.foldl step s) := by
  induction es generalizing s with
  | nil => exact hs
  | cons e es ih => exact ih (.tail e hs hg.1) hg.2

end Transition
