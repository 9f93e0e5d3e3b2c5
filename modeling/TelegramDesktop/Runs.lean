import Mathlib.Data.List.Basic

/-!
# Runs of a partial step function

A step takes a state and an event to the next state, or to nothing when the event cannot
happen or an assertion fails.
-/

namespace TelegramDesktop

open Option

section Runs

variable {σ ε : Type*} (step : σ → ε → Option σ)

/-- All events, one after the other, while each is possible. -/
def run (state : σ) : List ε → Option σ
  | [] => some state
  | event :: events => (step state event).bind fun next => run next events

theorem run_append (state : σ) (first second : List ε) :
    run step state (first ++ second) =
      (run step state first).bind fun next => run step next second := by
  induction first generalizing state with
  | nil => rfl
  | cons event first ih =>
    rw [List.cons_append, run, run, bind_assoc]
    exact congrArg _ (funext fun next => ih next)

/-- Every step of the run meets a condition on its event and the state before. -/
def RunMeets (condition : σ → ε → Prop) : σ → List ε → Prop
  | _, [] => True
  | state, event :: events =>
    condition state event ∧ ∀ next, step state event = some next →
      RunMeets condition next events

instance decidableRunMeets (condition : σ → ε → Prop)
    [∀ state event, Decidable (condition state event)] :
    ∀ state events, Decidable (RunMeets step condition state events)
  | _, [] => isTrue trivial
  | state, event :: events =>
    have := fun next => decidableRunMeets condition next events
    inferInstanceAs (Decidable (condition state event ∧
      ∀ next, next ∈ step state event → RunMeets step condition next events))

theorem runMeets_congr {step : σ → ε → Option σ} {first second : σ → ε → Prop}
    (same : ∀ state event, first state event ↔ second state event) (state : σ) (events : List ε) :
    RunMeets step first state events ↔ RunMeets step second state events := by
  induction events generalizing state with
  | nil => exact Iff.rfl
  | cons event events ih =>
    exact and_congr (same state event) (forall_congr' fun next => imp_congr_right fun _ => ih next)

variable {state : σ} {condition : σ → ε → Prop}

theorem RunMeets.at_event {step : σ → ε → Option σ} {first rest : List ε} {event : ε} {middle : σ}
    (meets : RunMeets step condition state (first ++ event :: rest))
    (ends : run step state first = some middle) : condition middle event := by
  induction first generalizing state with
  | nil =>
    cases ends
    exact meets.1
  | cons earlier first ih =>
    obtain ⟨next, taken, ends⟩ := bind_eq_some_iff.mp ends
    exact ih (meets.2 next taken) ends

/-- A property of the state where the run starts and of each state it reaches. -/
def RunKeeps (Good : σ → Prop) : σ → List ε → Prop
  | state, [] => Good state
  | state, event :: events =>
    Good state ∧ ∀ next, step state event = some next → RunKeeps Good next events

variable {step}

variable {events : List ε} {Holds : σ → Prop}

theorem run_invariant_of_meets
    (kept : ∀ state event next, Holds state → condition state event →
      step state event = some next → Holds next) {last : σ} (holds : Holds state)
    (meets : RunMeets step condition state events)
    (ends : run step state events = some last) : Holds last := by
  induction events generalizing state with
  | nil =>
    cases ends
    exact holds
  | cons event events ih =>
    obtain ⟨next, taken, rest⟩ := bind_eq_some_iff.mp ends
    exact ih (kept state event next holds meets.1 taken) (meets.2 next taken) rest

theorem run_invariant
    (kept : ∀ state event next, Holds state → step state event = some next → Holds next) {last : σ}
    (holds : Holds state) (ends : run step state events = some last) : Holds last := by
  induction events generalizing state with
  | nil =>
    cases ends
    exact holds
  | cons event events ih =>
    obtain ⟨next, taken, rest⟩ := bind_eq_some_iff.mp ends
    exact ih (kept state event next holds taken) rest

theorem run_history {Holds : List ε → σ → Prop}
    (kept : ∀ past state event next, Holds past state → step state event = some next →
      Holds (past ++ [event]) next)
    {past : List ε} {last : σ} (holds : Holds past state)
    (ends : run step state events = some last) : Holds (past ++ events) last := by
  induction events generalizing past state with
  | nil =>
    cases ends
    rwa [List.append_nil]
  | cons event events ih =>
    obtain ⟨next, taken, rest⟩ := bind_eq_some_iff.mp ends
    have later := ih (kept past state event next holds taken) rest
    rwa [List.append_assoc] at later

theorem runKeeps_invariant
    (kept : ∀ state event next, Holds state → step state event = some next → Holds next)
    (events : List ε) (holds : Holds state) : RunKeeps step Holds state events := by
  induction events generalizing state with
  | nil => exact holds
  | cons event events ih =>
    exact ⟨holds, fun next taken => ih (kept state event next holds taken)⟩

theorem RunKeeps.at_end {Good : σ → Prop} {last : σ}
    (keeps : RunKeeps step Good state events) (ends : run step state events = some last) :
    Good last := by
  induction events generalizing state with
  | nil =>
    cases ends
    exact keeps
  | cons event events ih =>
    obtain ⟨next, taken, ends⟩ := bind_eq_some_iff.mp ends
    exact ih (keeps.2 next taken) ends

theorem RunKeeps.mono {First Second : σ → Prop}
    (keeps : RunKeeps step First state events) (implies : ∀ state, First state → Second state) :
    RunKeeps step Second state events := by
  induction events generalizing state with
  | nil => exact implies state keeps
  | cons event events ih =>
    exact ⟨implies state keeps.1, fun next taken => ih (keeps.2 next taken)⟩

theorem RunKeeps.and {First Second : σ → Prop}
    (first : RunKeeps step First state events) (second : RunKeeps step Second state events) :
    RunKeeps step (fun state => First state ∧ Second state) state events := by
  induction events generalizing state with
  | nil => exact ⟨first, second⟩
  | cons event events ih =>
    exact ⟨⟨first.1, second.1⟩, fun next taken => ih (first.2 next taken) (second.2 next taken)⟩

theorem RunKeeps.meets (keeps : RunKeeps step Holds state events)
    (met : ∀ state event, Holds state → condition state event) :
    RunMeets step condition state events := by
  induction events generalizing state with
  | nil => trivial
  | cons event events ih =>
    exact ⟨met state event keeps.1, fun next taken => ih (keeps.2 next taken)⟩

theorem RunMeets.keeps
    (kept : ∀ state event next, Holds state → condition state event →
      step state event = some next → Holds next)
    (holds : Holds state) (meets : RunMeets step condition state events) :
    RunKeeps step Holds state events := by
  induction events generalizing state with
  | nil => exact holds
  | cons event events ih =>
    exact ⟨holds, fun next taken =>
      ih (kept state event next holds meets.1 taken) (meets.2 next taken)⟩

/-- Steps that meet a condition meet another one where it follows from the first and from
what such steps keep. -/
theorem RunMeets.of_invariant {first second : σ → ε → Prop}
    (kept : ∀ state event next, Holds state → first state event →
      step state event = some next → Holds next)
    (met : ∀ state event, Holds state → first state event → second state event)
    (holds : Holds state) (meets : RunMeets step first state events) :
    RunMeets step second state events := by
  induction events generalizing state with
  | nil => trivial
  | cons event events ih =>
    exact ⟨met state event holds meets.1, fun next taken =>
      ih (kept state event next holds meets.1 taken) (meets.2 next taken)⟩

theorem length_add_measure_le {measure : σ → Nat}
    (kept : ∀ state event next, Holds state → step state event = some next → Holds next)
    (falls : ∀ state event next, Holds state → step state event = some next →
      measure next < measure state) {last : σ} (holds : Holds state)
    (ends : run step state events = some last) :
    events.length + measure last ≤ measure state := by
  induction events generalizing state with
  | nil =>
    cases ends
    simp
  | cons event events ih =>
    obtain ⟨next, taken, rest⟩ := bind_eq_some_iff.mp ends
    have fewer := falls state event next holds taken
    have shorter := ih (kept state event next holds taken) rest
    rw [List.length_cons]
    omega

/-- Where a step from a good state leads to a good one exactly if it meets the
condition, the good runs are those whose steps all meet it. -/
theorem runKeeps_iff_runMeets {Good : σ → Prop}
    (kept : ∀ state event next, Holds state → Good state →
      step state event = some next → Holds next)
    (exact : ∀ state event, Holds state → Good state →
      ((∀ next, step state event = some next → Good next) ↔ condition state event))
    (events : List ε) (holds : Holds state) (good : Good state) :
    RunKeeps step Good state events ↔ RunMeets step condition state events := by
  induction events generalizing state with
  | nil => exact iff_of_true good trivial
  | cons event events ih =>
    rw [RunKeeps, RunMeets, ← exact state event holds good]
    constructor
    · rintro ⟨-, rest⟩
      have goodNext : ∀ next, step state event = some next → Good next := by
        intro next taken
        have := rest next taken
        cases events with
        | nil => exact this
        | cons second events => exact this.1
      refine ⟨goodNext, fun next taken => ?_⟩
      exact (ih (kept state event next holds good taken) (goodNext next taken)).mp (rest next taken)
    · rintro ⟨goodNext, rest⟩
      refine ⟨good, fun next taken => ?_⟩
      exact (ih (kept state event next holds good taken) (goodNext next taken)).mpr
        (rest next taken)

end Runs

end TelegramDesktop
