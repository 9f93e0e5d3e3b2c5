import Mathlib.Data.List.Basic
import Mathlib.Data.List.TakeWhile
import Mathlib.Order.Lattice

/-!
# Searching sequences of separated ranges

A sequence of items, each covering a closed range between its lower and its upper end,
is separated when every item ends before the next one begins.
-/

namespace TelegramDesktop

open List

/-- Position of the first item whose projection is not below `value`. -/
def lowerBoundBy {α β : Type*} [LinearOrder α] (projection : β → α)
    (items : List β) (value : α) : Nat :=
  (items.takeWhile fun item => projection item < value).length

/-- Position of the first item whose projection is above `value`. -/
def upperBoundBy {α β : Type*} [LinearOrder α] (projection : β → α)
    (items : List β) (value : α) : Nat :=
  (items.takeWhile fun item => projection item ≤ value).length

/-- Every item covers a nonempty range and ends before the next one begins. -/
structure Separated {α β : Type*} [LinearOrder α] (lower upper : β → α)
    (items : List β) : Prop where
  ordered : ∀ item ∈ items, lower item ≤ upper item
  apart : items.Pairwise fun first second => upper first < lower second

private theorem take_length_takeWhile {β : Type*} (test : β → Bool) (items : List β) :
    items.take (items.takeWhile test).length = items.takeWhile test :=
  (prefix_iff_eq_take.mp ( takeWhile_prefix test)).symm

private theorem drop_length_takeWhile {β : Type*} (test : β → Bool) (items : List β) :
    items.drop (items.takeWhile test).length = items.dropWhile test := by
  have split := take_append_drop (items.takeWhile test).length items
  rw [take_length_takeWhile] at split
  exact append_cancel_left (split.trans takeWhile_append_dropWhile.symm)

theorem forall_dropWhile {α : Type*} {items : List α} {r : α → α → Prop} {passes : α → Bool}
    (sorted : items.Pairwise r)
    (ends : ∀ first second, r first second → passes first = false → passes second = false) :
    ∀ item ∈ items.dropWhile passes, passes item = false := by
  induction items with
  | nil =>
    rintro item ⟨⟩
  | cons head items ih =>
    rw [pairwise_cons] at sorted
    rw [dropWhile_cons]
    split
    · exact ih sorted.2
    next fails =>
      rw [Bool.not_eq_true] at fails
      intro item member
      rcases mem_cons.mp member with rfl | later
      · exact fails
      · exact ends head item (sorted.1 item later) fails

private theorem length_takeWhile_le {β : Type*} {first second : β → Bool} {items : List β}
    (weaker : ∀ item ∈ items, first item = true → second item = true) :
    (items.takeWhile first).length ≤ (items.takeWhile second).length := by
  induction items with
  | nil => simp
  | cons head tail ih =>
    cases holds : first head with
    | false => simp [holds]
    | true =>
      have also : second head = true := weaker head (by simp) holds
      simpa [holds, also] using ih fun item member =>
        weaker item (mem_cons_of_mem head member)

namespace Separated

variable {α β : Type*} [LinearOrder α] {lower upper : β → α} {items : List β}

theorem nil : Separated lower upper ([] : List β) := ⟨by simp, .nil⟩

variable {item : β}

theorem singleton (ordered : lower item ≤ upper item) :
    Separated lower upper [item] := ⟨by simpa using ordered, by simp⟩

section

variable (separated : Separated lower upper items)
include separated

theorem upper_mono : items.Pairwise fun first second => upper first < upper second :=
  separated.apart.imp_of_mem fun _ secondMem before =>
    lt_of_lt_of_le before (separated.ordered _ secondMem)

theorem lower_mono : items.Pairwise fun first second => lower first < lower second :=
  separated.apart.imp_of_mem fun firstMem _ before =>
    lt_of_le_of_lt (separated.ordered _ firstMem) before

theorem sublist {fewer : List β} (sub : fewer.Sublist items) : Separated lower upper fewer :=
  ⟨fun item member => separated.ordered item (sub.subset member), separated.apart.sublist sub⟩

end

theorem append {first second : List β} (firstSeparated : Separated lower upper first)
    (secondSeparated : Separated lower upper second)
    (before : ∀ low ∈ first, ∀ high ∈ second, upper low < lower high) :
    Separated lower upper (first ++ second) := by
  refine ⟨?_, pairwise_append.mpr ⟨firstSeparated.apart, secondSeparated.apart, before⟩⟩
  intro item member
  rcases mem_append.mp member with inFirst | inSecond
  · exact firstSeparated.ordered item inFirst
  · exact secondSeparated.ordered item inSecond

theorem eq_of_overlap (separated : Separated lower upper items) {first second : β}
    (firstMem : first ∈ items) (secondMem : second ∈ items)
    (meets : lower first ≤ upper second) (met : lower second ≤ upper first) :
    first = second := by
  by_contra distinct
  rcases mem_iff_append.mp firstMem with ⟨before, after, rfl⟩
  have pairs := separated.apart
  rw [pairwise_append, pairwise_cons] at pairs
  rcases mem_append.mp secondMem with earlier | later
  · exact not_lt.mpr meets (pairs.2.2 second earlier first (by simp))
  · rcases mem_cons.mp later with same | later
    · exact distinct same.symm
    · exact not_lt.mpr met (pairs.2.1.1 second later)

variable {value : α}

theorem upper_lt_of_mem_take (member : item ∈ items.take (lowerBoundBy upper items value)) :
    upper item < value := by
  rw [lowerBoundBy, take_length_takeWhile] at member
  simpa using mem_takeWhile_imp member

theorem le_upper_of_mem_drop (separated : Separated lower upper items)
    (member : item ∈ items.drop (lowerBoundBy upper items value)) :
    value ≤ upper item := by
  rw [lowerBoundBy, drop_length_takeWhile] at member
  have failed := forall_dropWhile separated.upper_mono (fun _ _ increases reached => by
    rw [decide_eq_false_iff_not, not_lt] at reached ⊢
    exact le_trans reached increases.le) item member
  simpa using failed

theorem lower_le_of_mem_take (member : item ∈ items.take (upperBoundBy lower items value)) :
    lower item ≤ value := by
  rw [upperBoundBy, take_length_takeWhile] at member
  simpa using mem_takeWhile_imp member

theorem lt_lower_of_mem_drop (separated : Separated lower upper items)
    (member : item ∈ items.drop (upperBoundBy lower items value)) :
    value < lower item := by
  rw [upperBoundBy, drop_length_takeWhile] at member
  have failed := forall_dropWhile separated.lower_mono (fun _ _ increases reached => by
    rw [decide_eq_false_iff_not, not_le] at reached ⊢
    exact lt_trans reached increases) item member
  simpa using failed

/-- The search for the first touched item does not pass the search for the
first item above. -/
theorem lowerBound_le_upperBound (separated : Separated lower upper items)
    {low high : α} (ordered : low ≤ high) :
    lowerBoundBy upper items low ≤ upperBoundBy lower items high := by
  apply length_takeWhile_le
  intro item member below
  rw [decide_eq_true_eq] at below ⊢
  exact le_trans (separated.ordered item member) (below.le.trans ordered)

end Separated

end TelegramDesktop
