import Mathlib.Data.Int.GCD
import Mathlib.Data.List.Range

/-!
# Pollard's rho

A walk squares and adds a constant modulo a number. The search stops where that divisor
is not one.
-/

namespace TelegramDesktop.PollardRho

open List

variable (number constant start : Nat)

/-- The values the walk goes through. -/
def walk : Nat → Nat
  | 0 => start
  | steps + 1 => (constant + walk steps * walk steps) % number

/-- Where the value stands that the one of a step is compared with. -/
def anchor (step : Nat) : Nat := if step ≤ 1 then 0 else 2 ^ (step - 1).log2

/-- The gcd that is looked at in a step. -/
def divisor (step : Nat) : Nat :=
  Int.gcd ((walk number constant start step : Int) - walk number constant start (anchor step))
    number

/-- The step where the search stops, or the last one it may make. -/
def lastStep (limit : Nat) : Nat :=
  ((List.range' 1 (limit - 1)).find? fun step => divisor number constant start step ≠ 1).getD
    (limit - 1)

variable {number constant start}

theorem walk_lt (inside : start < number) (steps : Nat) :
    walk number constant start steps < number := by
  cases steps with
  | zero => exact inside
  | succ steps => exact Nat.mod_lt _ (by omega)

theorem divisor_dvd (step : Nat) : divisor number constant start step ∣ number :=
  Int.natCast_dvd_natCast.mp (Int.gcd_dvd_right _ _)

theorem anchor_succ {step : Nat} (positive : 0 < step) :
    anchor (step + 1) = if step &&& (step - 1) = 0 then step else anchor step := by
  have powers := Nat.and_sub_one_eq_zero_iff_isPowerOfTwo (Nat.ne_of_gt positive)
  have next : anchor (step + 1) = 2 ^ step.log2 := by
    rw [anchor, if_neg (by omega), Nat.add_sub_cancel]
  rw [next]
  split
  next isPower =>
    obtain ⟨exponent, rfl⟩ := powers.mp isPower
    rw [Nat.log2_two_pow]
  next notPower =>
    rw [powers] at notPower
    have bounds := (Nat.log2_eq_iff (Nat.ne_of_gt positive)).mp rfl
    have notSame : 2 ^ step.log2 ≠ step := fun same => notPower ⟨step.log2, same.symm⟩
    rw [anchor, if_neg (by omega)]
    congr 1
    symm
    rw [Nat.log2_eq_iff (by omega)]
    omega

theorem find?_range'_eq_some {found : Nat → Bool} {count step : Nat} (positive : 0 < step)
    (inside : step ≤ count) (isFound : found step = true)
    (first : ∀ before, 0 < before → before < step → found before = false) :
    (List.range' 1 count).find? found = some step := by
  rw [List.find?_range'_eq_some]
  refine ⟨isFound, ?_, fun before low high => ?_⟩
  · rw [List.mem_range'_1]
    omega
  · rw [first before (by omega) (by omega)]
    rfl

theorem lastStep_of_divisor {limit step : Nat} (positive : 0 < step) (inside : step < limit)
    (isDivisor : divisor number constant start step ≠ 1)
    (first : ∀ before, 0 < before → before < step → divisor number constant start before = 1) :
    lastStep number constant start limit = step := by
  rw [lastStep, find?_range'_eq_some positive (by omega) (by simpa using isDivisor)
    fun before low high => by simpa using first before low high]
  rfl

theorem lastStep_of_none {limit : Nat}
    (never : ∀ step, 0 < step → step < limit → divisor number constant start step = 1) :
    lastStep number constant start limit = limit - 1 := by
  have notFound : (range' 1 (limit - 1)).find?
      (fun step => divisor number constant start step ≠ 1) = none := by
    rw [find?_eq_none]
    intro step member
    rw [mem_range'_1] at member
    simpa using never step (by omega) (by omega)
  rw [lastStep, notFound]
  rfl

theorem lastStep_pos {limit : Nat} (large : 1 < limit) :
    0 < lastStep number constant start limit := by
  unfold lastStep
  cases found : (range' 1 (limit - 1)).find? fun step =>
      divisor number constant start step ≠ 1 with
  | none =>
    rw [Option.getD_none]
    omega
  | some step =>
    have member := mem_of_find?_eq_some found
    rw [mem_range'_1] at member
    exact member.1

end TelegramDesktop.PollardRho
