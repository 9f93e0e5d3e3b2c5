import Mathlib.Tactic.Common

/-!
# Loops

A loop goes on from state to state until it returns.
-/

namespace TelegramDesktop

variable {σ ρ : Type*}

/-- A loop with a bound on its rounds. -/
def whileLoop (body : σ → Option (σ ⊕ ρ)) : Nat → σ → Option ρ
  | 0, _ => none
  | fuel + 1, state =>
    match body state with
    | none => none
    | some (.inl next) => whileLoop body fuel next
    | some (.inr result) => some result

/-- A round from a state where the invariant holds: the variant decreases, or what is
returned is as it should be. -/
def GoodRound (Holds : σ → Prop) (Ends : ρ → Prop) (variant : σ → Nat)
    (body : σ → Option (σ ⊕ ρ)) (state : σ) : Prop :=
  (∃ next, body state = some (.inl next) ∧ Holds next ∧ variant next < variant state) ∨
    ∃ result, body state = some (.inr result) ∧ Ends result

theorem whileLoop_of_variant {body : σ → Option (σ ⊕ ρ)} {Ends : ρ → Prop} {fuel : Nat}
    {state : σ} (Holds : σ → Prop) (variant : σ → Nat)
    (rounds : ∀ state, Holds state → GoodRound Holds Ends variant body state)
    (holds : Holds state) (enough : variant state < fuel) :
    ∃ result, whileLoop body fuel state = some result ∧ Ends result := by
  induction fuel generalizing state with
  | zero => exact absurd enough (Nat.not_lt_zero _)
  | succ fuel ih =>
    rw [whileLoop]
    rcases rounds state holds with ⟨next, goesOn, nextHolds, less⟩ | ⟨result, returns, ends⟩
    · rw [goesOn]
      exact ih nextHolds (by omega)
    · rw [returns]
      exact ⟨result, rfl, ends⟩

end TelegramDesktop
