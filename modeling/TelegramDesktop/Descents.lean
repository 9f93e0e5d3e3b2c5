import Mathlib.Data.List.Infix
import Mathlib.Order.Lattice

/-!
# Descents

A descent of a sequence is a position where the next item is not above the one before.
-/

namespace TelegramDesktop

open List

variable {α : Type*}

/-- The position of the first item that stands in the given relation to the next one. -/
def adjacentFind (found : α → α → Bool) : List α → Option Nat
  | first :: second :: rest =>
    if found first second then some 0
    else (adjacentFind found (second :: rest)).map (· + 1)
  | _ => none

variable [LinearOrder α]

/-- How many items are followed by one that is not above them. -/
def descents : List α → Nat
  | first :: second :: rest => (if second ≤ first then 1 else 0) + descents (second :: rest)
  | _ => 0

/-- An end of a sequence is the longest one that is strictly increasing. -/
structure IsLongestIncreasingSuffix (part whole : List α) : Prop where
  isSuffix : part <:+ whole
  increasing : part.Pairwise (· < ·)
  longest : ∀ other, other <:+ whole → other.Pairwise (· < ·) → other.length ≤ part.length

theorem descents_eq_zero_iff (items : List α) :
    descents items = 0 ↔ items.Pairwise (· < ·) := by
  rw [← isChain_iff_pairwise]
  induction items with
  | nil => simp [descents]
  | cons first items ih =>
    cases items with
    | nil => simp [descents]
    | cons second rest =>
      rw [descents, Nat.add_eq_zero_iff, ih, isChain_cons_cons]
      by_cases descent : second ≤ first
      · simp [descent, not_lt.mpr descent]
      · simp [descent, not_le.mp descent]

/-- A strictly increasing sequence in front adds only the descent where both meet. -/
theorem descents_append {before : List α} {last : α} (items : List α)
    (increasing : (before ++ [last]).Pairwise (· < ·)) :
    descents (before ++ last :: items) = descents (last :: items) := by
  induction before with
  | nil => rfl
  | cons first before ih =>
    rw [cons_append, pairwise_cons] at increasing
    obtain ⟨below, increasing⟩ := increasing
    rw [← ih increasing]
    cases before with
    | nil =>
      have noDescent : ¬ last ≤ first := not_le.mpr (below last mem_cons_self)
      rw [cons_append, nil_append, descents, if_neg noDescent, Nat.zero_add]
    | cons second before =>
      have noDescent : ¬ second ≤ first := not_le.mpr (below second mem_cons_self)
      rw [cons_append, cons_append, descents, if_neg noDescent, Nat.zero_add]

/-- The search for a descent, as a comparison of neighbours. -/
def isDescent (first second : α) : Bool := second ≤ first

theorem adjacentFind_eq_none_iff (items : List α) :
    adjacentFind isDescent items = none ↔ descents items = 0 := by
  induction items with
  | nil => simp [adjacentFind, descents]
  | cons first items ih =>
    cases items with
    | nil => simp [adjacentFind, descents]
    | cons second rest =>
      rw [adjacentFind, descents, Nat.add_eq_zero_iff, ← ih]
      by_cases descent : second ≤ first
      · simp [isDescent, descent]
      · simp [isDescent, descent]

/-- Behind the first descent there is one descent less, and no strictly increasing end
reaches over it. -/
theorem adjacentFind_spec {items : List α} {position : Nat}
    (found : adjacentFind isDescent items = some position) :
    descents items = descents (items.drop (position + 1)) + 1 ∧
      ∀ other, other <:+ items → other.Pairwise (· < ·) →
        other.length ≤ (items.drop (position + 1)).length := by
  induction items generalizing position with
  | nil => cases found
  | cons first items ih =>
    cases items with
    | nil => cases found
    | cons second rest =>
      have notAbove : ∀ other, other <:+ first :: second :: rest →
          other.Pairwise (· < ·) → first < second ∨ other <:+ second :: rest := by
        intro other isSuffix increasing
        rcases suffix_cons_iff.mp isSuffix with whole | inside
        · rw [whole, pairwise_cons] at increasing
          exact .inl (increasing.1 second mem_cons_self)
        · exact .inr inside
      rw [adjacentFind] at found
      by_cases descent : second ≤ first
      · rw [if_pos (by simpa [isDescent] using descent)] at found
        cases found
        refine ⟨?_, fun other isSuffix increasing => ?_⟩
        · rw [descents, if_pos descent, Nat.add_comm]
          rfl
        · rcases notAbove other isSuffix increasing with above | inside
          · exact absurd above (not_lt.mpr descent)
          · exact inside.length_le
      · rw [if_neg (by simpa [isDescent] using descent)] at found
        obtain ⟨behind, later, rfl⟩ := Option.map_eq_some_iff.mp found
        obtain ⟨count, longest⟩ := ih later
        refine ⟨?_, fun other isSuffix increasing => ?_⟩
        · rw [descents, if_neg descent, Nat.zero_add, count]
          rfl
        · rcases suffix_cons_iff.mp isSuffix with whole | inside
          · have inner := longest (second :: rest) (suffix_refl _)
              (by rw [whole, pairwise_cons] at increasing; exact increasing.2)
            rw [length_drop, length_cons] at inner
            omega
          · exact longest other inside increasing

end TelegramDesktop
