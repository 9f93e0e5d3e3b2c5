import TelegramDesktop.MovingItems
import TelegramDesktop.KeyedLists

/-!
# Keyed items that move in a list

An item is found by its key and moved to another position by one rotation.
-/

namespace TelegramDesktop

open List

section Placing

variable {α κ : Type*} [DecidableEq κ] {key : α → κ}

/-- The item at one position moves in front of what was at another one. -/
def moveTo (items : List α) (index position : Nat) : List α :=
  if position < index then rotateRange items position index (index + 1)
  else if index + 1 < position then rotateRange items index (index + 1) position
  else items

theorem moveTo_before (before middle after : List α) (item : α) :
    moveTo (before ++ (middle ++ item :: after)) (before.length + middle.length) before.length =
      before ++ item :: (middle ++ after) := by
  unfold moveTo
  split
  · exact rotateRange_append before middle [item] after
  · have none : middle = [] := length_eq_zero_iff.mp (by omega)
    rw [if_neg (by omega), none, nil_append, nil_append]

theorem moveTo_after (before middle after : List α) (item : α) :
    moveTo (before ++ item :: (middle ++ after)) before.length
      (before.length + (middle.length + 1)) = before ++ (middle ++ item :: after) := by
  rw [← Nat.add_assoc, Nat.add_right_comm]
  unfold moveTo
  rw [if_neg (by omega)]
  split
  · exact rotateRange_append before [item] middle after
  · have none : middle = [] := length_eq_zero_iff.mp (by omega)
    rw [none, nil_append, nil_append]

theorem findIdx_split {found : α} {before : List α} {asked : κ} (after : List α)
    (has : key found = asked) (fresh : asked ∉ before.map key) :
    (before ++ found :: after).findIdx (fun entry => key entry = asked) = before.length := by
  rw [findIdx_eq_getD_findIdx?, findIdx?_split has fresh, Option.getD_some]

theorem length_takeWhile_not (stops : α → Bool) (items : List α) :
    (items.takeWhile fun item => !stops item).length = items.findIdx stops := by
  have taken : items.takeWhile (fun item => !stops item) = _ := takeWhile_eq_take_findIdx_not
  simp only [Bool.not_not] at taken
  rw [taken, length_take_of_le findIdx_le_length]

theorem filter_of_notMem {entries : List α} {asked : κ} (absent : asked ∉ entries.map key) :
    entries.filter (fun entry => key entry ≠ asked) = entries := by
  refine filter_eq_self.mpr fun entry member => decide_eq_true fun same => absent ?_
  exact mem_map.mpr ⟨entry, member, same⟩

theorem filter_split {found : α} {before after : List α} {asked : κ}
    (has : key found = asked) (fresh : asked ∉ (before ++ after).map key) :
    (before ++ found :: after).filter (fun entry => key entry ≠ asked) = before ++ after := by
  rw [filter_append, filter_cons_of_neg (by simp [has]), ← filter_append, filter_of_notMem fresh]

/-- An entry that is placed by its key and then moved stands between the other entries ahead
of the position and those behind it. -/
theorem moveTo_placeByKey {first last : List α} (new : α)
    (distinct : ((first ++ last).map key).Nodup) :
    moveTo (placeByKey key new (first ++ last))
        ((first ++ last).findIdx fun entry => key entry = key new) first.length =
      first.filter (fun entry => key entry ≠ key new) ++
        new :: last.filter (fun entry => key entry ≠ key new) := by
  by_cases ahead : key new ∈ first.map key
  · obtain ⟨before, found, middle, rfl, has, fresh⟩ := exists_first_withKey ahead
    rw [append_assoc, cons_append, map_append, map_cons, has,
      nodup_middle, nodup_cons, ← map_append] at distinct
    have others := distinct.1
    rw [← append_assoc, map_append, mem_append, not_or] at others
    rw [filter_split has others.1, filter_of_notMem others.2, append_assoc, cons_append,
      placeByKey_split has fresh, findIdx_split _ has fresh, append_assoc]
    rw [length_append, length_cons]
    exact moveTo_after before middle last new
  rw [filter_of_notMem ahead]
  by_cases behind : key new ∈ last.map key
  · obtain ⟨middle, found, after, rfl, has, fresh⟩ := exists_first_withKey behind
    rw [← append_assoc, map_append, map_cons, has, nodup_middle, nodup_cons, ← map_append,
      append_assoc, map_append, mem_append, not_or] at distinct
    have absent : key new ∉ (first ++ middle).map key := by
      rw [map_append, mem_append, not_or]
      exact ⟨ahead, fresh⟩
    rw [filter_split has distinct.1.2, ← append_assoc, placeByKey_split has absent,
      findIdx_split _ has absent, append_assoc, length_append]
    exact moveTo_before first middle after new
  · have absent : key new ∉ (first ++ last).map key := by
      rw [map_append, mem_append, not_or]
      exact ⟨ahead, behind⟩
    have index : (first ++ last).findIdx (fun entry => key entry = key new) =
        first.length + last.length := by
      rw [← length_append, findIdx_eq_length]
      exact fun entry member => decide_eq_false fun same => absent
        (mem_map.mpr ⟨entry, member, same⟩)
    have moved := moveTo_before first last [] new
    rw [append_nil] at moved
    rw [filter_of_notMem behind, placeByKey_of_notMem absent, index, append_assoc, moved]

end Placing

end TelegramDesktop
