import Mathlib.Logic.Function.Basic

/-!
# Flags that parties hold

A party raises a flag that is lowered to hold it, and lowers it again when it lets it
go.
-/

namespace TelegramDesktop

open Function

variable {ι Id : Type*}

/-- The raised flags are those that a party holds, and no two parties hold one. -/
structure FlagsHeld (flags : ι → Bool) (holder : Id → Option ι) : Prop where
  raised : ∀ flag, flags flag = true → ∃! id, holder id = some flag
  lowered : ∀ flag, flags flag = false → ∀ id, holder id ≠ some flag

/-- What a step of a party does to the flags and to the one it holds.  It is lawful
unless the party forgets its flag and leaves it raised. -/
inductive FlagStep [DecidableEq ι] (lawful : Prop) :
    (ι → Bool) → Option ι → (ι → Bool) → Option ι → Prop
  | keep {flags mine} : lawful → FlagStep lawful flags mine flags mine
  | take {flags flag} : lawful → flags flag = false →
      FlagStep lawful flags none (Function.update flags flag true) (some flag)
  | give {flags flag} : lawful →
      FlagStep lawful flags (some flag) (Function.update flags flag false) none
  | forget {flags flag} : ¬ lawful → FlagStep lawful flags (some flag) flags none

namespace FlagsHeld

variable {flags flags' : ι → Bool} {holder : Id → Option ι} {id : Id} {mine' : Option ι}
  {flag : ι}

theorem of_forall_none (lowered : ∀ flag, flags flag = false) (none : ∀ id, holder id = none) :
    FlagsHeld flags holder where
  raised flag up := by simp [lowered] at up
  lowered flag _ id holds := by simp [none] at holds

theorem raised_of_holder (held : FlagsHeld flags holder) (holds : holder id = some flag) :
    flags flag = true := by
  by_contra down
  rw [Bool.not_eq_true] at down
  exact held.lowered flag down id holds

theorem eq_of_holder (held : FlagsHeld flags holder) {other : Id}
    (holds : holder id = some flag) (holdsToo : holder other = some flag) : other = id :=
  (held.raised flag (held.raised_of_holder holds)).unique holdsToo holds

variable [DecidableEq Id]

theorem not_forget (held : FlagsHeld flags holder) (holds : holder id = some flag) :
    ¬ FlagsHeld flags (update holder id none) := by
  intro after
  obtain ⟨owner, owns, -⟩ := after.raised flag (held.raised_of_holder holds)
  by_cases mine : owner = id
  · subst mine
    simp at owns
  · rw [update_of_ne mine] at owns
    exact mine (held.eq_of_holder holds owns)

variable [DecidableEq ι]

theorem take (held : FlagsHeld flags holder) (free : holder id = none) (down : flags flag = false) :
    FlagsHeld (update flags flag true) (update holder id (some flag)) where
  raised other up := by
    by_cases same : other = flag
    · subst same
      refine ⟨id, by simp, fun second holds => ?_⟩
      by_contra different
      simp only [update_of_ne different] at holds
      exact held.lowered other down second holds
    · rw [update_of_ne same] at up
      obtain ⟨owner, holds, unique⟩ := held.raised other up
      have ne : owner ≠ id := by
        rintro rfl
        rw [free] at holds
        cases holds
      refine ⟨owner, by simpa [ne] using holds, fun second holdsToo => ?_⟩
      by_cases mine : second = id
      · subst mine
        have : flag = other := by simpa using holdsToo
        exact absurd this.symm same
      · exact unique second (by simpa [mine] using holdsToo)
  lowered other low second holds := by
    have same : other ≠ flag := by
      rintro rfl
      simp at low
    rw [update_of_ne same] at low
    by_cases mine : second = id
    · subst mine
      have : flag = other := by simpa using holds
      exact same this.symm
    · exact held.lowered other low second (by simpa [mine] using holds)

theorem give (held : FlagsHeld flags holder) (holds : holder id = some flag) :
    FlagsHeld (update flags flag false) (update holder id none) where
  raised other up := by
    have same : other ≠ flag := by
      rintro rfl
      simp at up
    rw [update_of_ne same] at up
    obtain ⟨owner, owns, unique⟩ := held.raised other up
    have ne : owner ≠ id := by
      rintro rfl
      exact same (Option.some.inj (owns.symm.trans holds))
    refine ⟨owner, by simpa [ne] using owns, fun second ownsToo => ?_⟩
    by_cases mine : second = id
    · subst mine
      simp at ownsToo
    · exact unique second (by simpa [mine] using ownsToo)
  lowered other low second ownsToo := by
    by_cases mine : second = id
    · subst mine
      simp at ownsToo
    · rw [update_of_ne mine] at ownsToo
      by_cases same : other = flag
      · subst same
        exact mine (held.eq_of_holder holds ownsToo)
      · rw [update_of_ne same] at low
        exact held.lowered other low second ownsToo

/-- A lawful step keeps who holds the flags, and no other does. -/
theorem step_iff {lawful : Prop} (held : FlagsHeld flags holder)
    (step : FlagStep lawful flags (holder id) flags' mine') :
    FlagsHeld flags' (update holder id mine') ↔ lawful := by
  generalize mineEq : holder id = mine at step
  cases step with
  | keep fair =>
    rw [← mineEq, update_eq_self]
    exact iff_of_true held fair
  | take fair down => exact iff_of_true (held.take mineEq down) fair
  | give fair => exact iff_of_true (held.give mineEq) fair
  | forget unfair => exact iff_of_false (held.not_forget mineEq) unfair

end FlagsHeld

end TelegramDesktop
