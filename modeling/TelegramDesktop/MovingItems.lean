import TelegramDesktop.SeparatedRanges
import Mathlib.Data.List.Perm.Basic
import Mathlib.Data.List.Nodup
import Mathlib.Data.List.Pairwise

/-!
# Items that move in a list

A range of a list is rotated, and items that know their positions are numbered again.
-/

namespace TelegramDesktop

open List

section Rotation

variable {α : Type*}

/-- `std::rotate` -/
def rotateRange (items : List α) (first middle last : Nat) : List α :=
  items.take first ++
    ((items.take last).drop middle ++ ((items.take middle).drop first ++ items.drop last))

theorem rotateRange_append (before left right after : List α) :
    rotateRange (before ++ (left ++ (right ++ after))) before.length
        (before.length + left.length) (before.length + left.length + right.length) =
      before ++ (right ++ (left ++ after)) := by
  have toMiddle : before ++ (left ++ (right ++ after)) = before ++ left ++ (right ++ after) := by
    simp
  have toLast : before ++ (left ++ (right ++ after)) = before ++ left ++ right ++ after := by
    simp
  have middleTaken : (before ++ (left ++ (right ++ after))).take
      (before.length + left.length) = before ++ left := by
    rw [toMiddle, ← length_append, take_left]
  have lastTaken : (before ++ (left ++ (right ++ after))).take
      (before.length + left.length + right.length) = before ++ left ++ right := by
    rw [toLast, ← length_append, ← length_append, take_left]
  have lastDropped : (before ++ (left ++ (right ++ after))).drop
      (before.length + left.length + right.length) = after := by
    rw [toLast, ← length_append, ← length_append, drop_left]
  rw [rotateRange, take_left, middleTaken, lastTaken, lastDropped, drop_left,
    ← length_append, drop_left]

section

variable {items : List α} {first middle last : Nat} (firstLe : first ≤ middle)
  (middleLe : middle ≤ last) (lastLe : last ≤ items.length)
include firstLe middleLe lastLe

theorem exists_rangeParts :
    ∃ before left right after, items = before ++ (left ++ (right ++ after)) ∧
      first = before.length ∧ middle = before.length + left.length ∧
      last = before.length + left.length + right.length := by
  refine ⟨items.take first, (items.take middle).drop first, (items.take last).drop middle,
    items.drop last, ?_, ?_, ?_, ?_⟩
  · have upToMiddle : items.take first ++ (items.take middle).drop first = items.take middle := by
      conv_rhs => rw [← take_append_drop first (items.take middle), take_take, min_eq_left firstLe]
    have upToLast : items.take middle ++ (items.take last).drop middle = items.take last := by
      conv_rhs => rw [← take_append_drop middle (items.take last), take_take, min_eq_left middleLe]
    rw [← append_assoc, upToMiddle, ← append_assoc, upToLast, take_append_drop]
  · simp
    omega
  · simp
    omega
  · simp
    omega

theorem rotateRange_perm : (rotateRange items first middle last).Perm items := by
  obtain ⟨before, left, right, after, rfl, rfl, rfl, rfl⟩ :=
    exists_rangeParts firstLe middleLe lastLe
  rw [rotateRange_append]
  apply Perm.append_left
  rw [← append_assoc, ← append_assoc]
  exact perm_append_comm.append_right after

theorem getElem?_rotateRange {index : Nat} (outside : index < first ∨ last ≤ index) :
    (rotateRange items first middle last)[index]? = items[index]? := by
  obtain ⟨before, left, right, after, rfl, rfl, rfl, rfl⟩ :=
    exists_rangeParts firstLe middleLe lastLe
  rw [rotateRange_append]
  rcases outside with earlier | later
  · rw [getElem?_append_left earlier, getElem?_append_left earlier]
  · obtain ⟨rest, rfl⟩ := Nat.exists_eq_add_of_le later
    simp only [← append_assoc]
    rw [getElem?_append_right (by simp; omega), getElem?_append_right (by simp; omega)]
    congr 1
    simp
    omega

end

end Rotation

section Positions

variable {α : Type*}

/-- Every item has its index as its position. -/
def Positioned (position : α → Nat) (items : List α) : Prop :=
  ∀ index item, items[index]? = some item → position item = index

variable [DecidableEq α]

def numberFrom (position : α → Nat) : Nat → List α → α → Nat
  | _, [] => position
  | index, item :: items => numberFrom (Function.update position item index) (index + 1) items

variable {items : List α}

theorem numberFrom_of_notMem (position : α → Nat) (index : Nat) {item : α}
    (other : item ∉ items) : numberFrom position index items item = position item := by
  induction items generalizing position index with
  | nil => rfl
  | cons head items ih =>
    rw [mem_cons, not_or] at other
    rw [numberFrom, ih _ _ other.2, Function.update_of_ne other.1]

theorem numberFrom_of_getElem? (position : α → Nat) (start : Nat)
    (distinct : items.Nodup) {index : Nat} {item : α} (found : items[index]? = some item) :
    numberFrom position start items item = start + index := by
  induction items generalizing position start index with
  | nil => cases found
  | cons head items ih =>
    obtain ⟨fresh, distinct⟩ := nodup_cons.mp distinct
    cases index with
    | zero =>
      rw [getElem?_cons_zero, Option.some.injEq] at found
      subst found
      rw [numberFrom, numberFrom_of_notMem _ _ fresh, Function.update_self, Nat.add_zero]
    | succ index =>
      rw [getElem?_cons_succ] at found
      rw [numberFrom, ih _ _ distinct found]
      omega

/-- Numbering a range is enough if the items outside it have their numbers, which start
anywhere. -/
theorem numberFrom_range {position : α → Nat} {start first last : Nat}
    (distinct : items.Nodup)
    (outside : ∀ index item, items[index]? = some item → index < first ∨ last ≤ index →
      position item = start + index)
    {index : Nat} {item : α} (found : items[index]? = some item) :
    numberFrom position (start + first) ((items.take last).drop first) item = start + index := by
  have range : ((items.take last).drop first).Nodup :=
    distinct.sublist ((drop_sublist _ _).trans (take_sublist _ _))
  by_cases inside : first ≤ index ∧ index < last
  · have there : ((items.take last).drop first)[index - first]? = some item := by
      rw [getElem?_drop, Nat.add_sub_cancel' inside.1, getElem?_take_of_lt inside.2, found]
    rw [numberFrom_of_getElem? _ _ range there, Nat.add_assoc, Nat.add_sub_cancel' inside.1]
  · rw [not_and_or, not_le, not_lt] at inside
    have absent : item ∉ (items.take last).drop first := by
      intro member
      obtain ⟨other, found'⟩ := mem_iff_getElem?.mp member
      rw [getElem?_drop, getElem?_take] at found'
      split at found'
      · have same := (List.getElem?_inj (List.getElem?_eq_some_iff.mp found).1 distinct).mp
          (found.trans found'.symm)
        omega
      · cases found'
    rw [numberFrom_of_notMem _ _ absent]
    exact outside index item found inside

theorem Positioned.numberFrom {position : α → Nat} {first last : Nat}
    (distinct : items.Nodup)
    (outside : ∀ index item, items[index]? = some item → index < first ∨ last ≤ index →
      position item = index) :
    Positioned (numberFrom position first ((items.take last).drop first)) items := by
  intro index item found
  have numbered : TelegramDesktop.numberFrom position (0 + first)
      ((items.take last).drop first) item = 0 + index := numberFrom_range distinct
    (fun other item found outer => (outside other item found outer).trans (Nat.zero_add _).symm)
    found
  rwa [Nat.zero_add, Nat.zero_add] at numbered

end Positions

section Repair

variable {α : Type*}

/-- `std::find_if` from behind a position. -/
def findNext (stops : α → Bool) (items : List α) (index : Nat) : Nat :=
  index + 1 + ((items.drop (index + 1)).takeWhile fun item => !stops item).length

/-- `std::find_if` of a reverse iterator, and its base. -/
def findPrevious (stops : α → Bool) (items : List α) (index : Nat) : Nat :=
  index - ((items.take index).reverse.takeWhile fun item => !stops item).length

theorem findNext_le (stops : α → Bool) {items : List α} {index : Nat}
    (inside : index < items.length) : findNext stops items index ≤ items.length := by
  have fewer := ( takeWhile_prefix (fun item => !stops item)
    (l := items.drop (index + 1))).length_le
  rw [length_drop] at fewer
  unfold findNext
  omega

theorem findPrevious_le (stops : α → Bool) (items : List α) (index : Nat) :
    findPrevious stops items index ≤ index := Nat.sub_le _ _

/-- The list with the moved item swapped to its place. -/
def repaired (stopsNext stopsPrevious : α → Bool) (items : List α) (index : Nat) : List α :=
  let before := findNext stopsNext items index
  if before ≠ index + 1 then rotateRange items index (index + 1) before
  else
    let after := findPrevious stopsPrevious items index
    if after ≠ index then rotateRange items after index (index + 1) else items

variable {κ : Type*} [LinearOrder κ] {rank : α → κ}

theorem sorted_insert {before after : List α} {item : α}
    (sorted : (before ++ after).Pairwise fun first second => rank first ≤ rank second)
    (above : ∀ other ∈ before, rank other ≤ rank item)
    (below : ∀ other ∈ after, rank item ≤ rank other) :
    (before ++ item :: after).Pairwise fun first second => rank first ≤ rank second := by
  rw [pairwise_append] at sorted ⊢
  obtain ⟨first, second, across⟩ := sorted
  refine ⟨first, pairwise_cons.mpr ⟨below, second⟩, ?_⟩
  intro earlier earlierMem later laterMem
  rcases mem_cons.mp laterMem with rfl | member
  · exact above earlier earlierMem
  · exact across earlier earlierMem later member

theorem findNext_append (stops : α → Bool) (before after : List α) (item : α) :
    findNext stops (before ++ item :: after) before.length =
      before.length + 1 + (after.takeWhile fun other => !stops other).length := by
  have rest : (before ++ item :: after).drop (before.length + 1) = after := by
    rw [← drop_drop, drop_left, drop_succ_cons, drop_zero]
  rw [findNext, rest]

theorem findPrevious_append (stops : α → Bool) (before after : List α) (item : α) :
    findPrevious stops (before ++ item :: after) before.length =
      (before.reverse.dropWhile fun other => !stops other).length := by
  have split := congrArg length
    (takeWhile_append_dropWhile (p := fun other => !stops other) (l := before.reverse))
  rw [length_append, length_reverse] at split
  rw [findPrevious, take_left]
  omega

/-- Where the item moves: behind the items after it that do not stop it, or, if there are none,
before those ahead of it that do not. -/
theorem repaired_eq (stopsNext stopsPrevious : α → Bool) (before after : List α) (item : α) :
    repaired stopsNext stopsPrevious (before ++ item :: after) before.length =
      if (after.takeWhile fun other => !stopsNext other) = [] then
        (before.reverse.dropWhile fun other => !stopsPrevious other).reverse ++
          item :: ((before.reverse.takeWhile fun other => !stopsPrevious other).reverse ++ after)
      else
        before ++ (after.takeWhile fun other => !stopsNext other) ++
          item :: after.dropWhile fun other => !stopsNext other := by
  unfold repaired
  rw [findNext_append, findPrevious_append]
  dsimp only
  split
  · have some : (after.takeWhile fun other => !stopsNext other) ≠ [] := by
      rw [← length_pos_iff]
      omega
    rw [if_neg some]
    have later := rotateRange_append before [item] (after.takeWhile fun other => !stopsNext other)
      (after.dropWhile fun other => !stopsNext other)
    rw [takeWhile_append_dropWhile, singleton_append, singleton_append, length_singleton] at later
    rw [later, append_assoc]
  · have none : (after.takeWhile fun other => !stopsNext other) = [] := by
      rw [← length_eq_zero_iff]
      omega
    rw [if_pos none]
    have split := congrArg reverse (takeWhile_append_dropWhile
      (p := fun other => !stopsPrevious other) (l := before.reverse))
    rw [reverse_append, reverse_reverse] at split
    have lengths := congrArg length split
    rw [length_append, length_reverse, length_reverse] at lengths
    split
    · have earlier := rotateRange_append
        (before.reverse.dropWhile fun other => !stopsPrevious other).reverse
        (before.reverse.takeWhile fun other => !stopsPrevious other).reverse [item] after
      rw [length_reverse, length_reverse, lengths, length_singleton,
        ← append_assoc, split] at earlier
      exact earlier
    · have nothing : (before.reverse.takeWhile fun other => !stopsPrevious other) = [] := by
        rw [← length_eq_zero_iff]
        omega
      rw [nothing] at split ⊢
      rw [reverse_nil, append_nil] at split
      rw [split]
      rfl

theorem repaired_sorted {before after : List α} {item : α}
    (sorted : (before ++ after).Pairwise fun first second => rank first ≤ rank second) :
    (repaired (fun other => rank item ≤ rank other) (fun other => rank other ≤ rank item)
      (before ++ item :: after) before.length).Pairwise
        fun first second => rank first ≤ rank second := by
  obtain ⟨sortedBefore, sortedAfter, across⟩ := pairwise_append.mp sorted
  have passed : ∀ other ∈ after.takeWhile (fun other => !decide (rank item ≤ rank other)),
      rank other < rank item := by
    intro other member
    simpa using mem_takeWhile_imp member
  have rest : ∀ other ∈ after.dropWhile (fun other => !decide (rank item ≤ rank other)),
      rank item ≤ rank other := by
    intro other member
    have stops := forall_dropWhile sortedAfter (by
      intro first second below stops
      simp only [Bool.not_eq_false', decide_eq_true_eq] at stops ⊢
      exact stops.trans below) other member
    simpa using stops
  rw [repaired_eq]
  split
  next none =>
    have moved : ∀ other ∈ before.reverse.takeWhile
        (fun other => !decide (rank other ≤ rank item)), rank item ≤ rank other := by
      intro other member
      have above := mem_takeWhile_imp member
      simp only [Bool.not_eq_true', decide_eq_false_iff_not, not_le] at above
      exact above.le
    have kept : ∀ other ∈ before.reverse.dropWhile
        (fun other => !decide (rank other ≤ rank item)), rank other ≤ rank item := by
      intro other member
      have stops := forall_dropWhile (pairwise_reverse.mpr sortedBefore) (by
        intro first second below stops
        simp only [Bool.not_eq_false', decide_eq_true_eq] at stops ⊢
        exact below.trans stops) other member
      simpa using stops
    have split := congrArg reverse (takeWhile_append_dropWhile
      (p := fun other => !decide (rank other ≤ rank item)) (l := before.reverse))
    rw [reverse_append, reverse_reverse] at split
    have all : ∀ other ∈ after, rank item ≤ rank other := by
      rw [← takeWhile_append_dropWhile
        (p := fun other => !decide (rank item ≤ rank other)) (l := after), none]
      exact rest
    apply sorted_insert
    · rwa [← append_assoc, split]
    · intro other member
      exact kept other (mem_reverse.mp member)
    · intro other member
      rcases mem_append.mp member with first | second
      · exact moved other (mem_reverse.mp first)
      · exact all other second
  next some =>
    obtain ⟨first, others, isFirst⟩ := exists_cons_of_ne_nil some
    apply sorted_insert
    · rwa [append_assoc, takeWhile_append_dropWhile]
    · have firstMem : first ∈ after.takeWhile (fun other => !decide (rank item ≤ rank other)) := by
        rw [isFirst]
        exact mem_cons_self
      intro other member
      rcases mem_append.mp member with earlier | later
      · have inAfter := ( takeWhile_prefix _).subset firstMem
        exact (across other earlier first inAfter).trans (passed first firstMem).le
      · exact (passed other later).le
    · exact rest

end Repair

end TelegramDesktop
