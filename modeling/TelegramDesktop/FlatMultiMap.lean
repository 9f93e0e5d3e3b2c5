import Mathlib.Data.List.Perm.Basic
import Mathlib.Data.List.Pairwise
import Mathlib.Order.Lattice

/-!
# Sorted associative sequences with repeated keys

A `FlatMultiMap` keeps its entries in one sequence in the order of their keys.
-/

namespace TelegramDesktop

open List

/-- A map that may hold several entries of one key, in the order they came. -/
structure FlatMultiMap (κ β : Type*) [LinearOrder κ] where
  entries : List (κ × β)
  ordered : entries.Pairwise fun first second => first.1 ≤ second.1

namespace FlatMultiMap

variable {κ β : Type*} [LinearOrder κ]

def empty : FlatMultiMap κ β := ⟨[], .nil⟩

instance : EmptyCollection (FlatMultiMap κ β) := ⟨empty⟩

@[simp] theorem entries_empty : (∅ : FlatMultiMap κ β).entries = [] := rfl

theorem ext_entries {first second : FlatMultiMap κ β} (same : first.entries = second.entries) :
    first = second := by
  cases first
  cases second
  cases same
  rfl

def size (map : FlatMultiMap κ β) : Nat := map.entries.length

/-- An entry is inserted behind those of its key. -/
def emplaceEntry (key : κ) (value : β) : List (κ × β) → List (κ × β)
  | [] => [(key, value)]
  | head :: tail =>
    if key < head.1 then (key, value) :: head :: tail
    else head :: emplaceEntry key value tail

theorem emplaceEntry_perm (key : κ) (value : β) (entries : List (κ × β)) :
    (emplaceEntry key value entries).Perm ((key, value) :: entries) := by
  induction entries with
  | nil => exact List.Perm.refl _
  | cons head tail ih =>
    unfold emplaceEntry
    split
    · exact List.Perm.refl _
    · exact (ih.cons head).trans (List.Perm.swap _ _ tail)

theorem emplaceEntry_ordered (key : κ) (value : β) {entries : List (κ × β)}
    (ordered : entries.Pairwise fun first second => first.1 ≤ second.1) :
    (emplaceEntry key value entries).Pairwise fun first second => first.1 ≤ second.1 := by
  induction entries with
  | nil => exact pairwise_singleton _ _
  | cons head tail ih =>
    have rest := pairwise_cons.mp ordered
    unfold emplaceEntry
    split
    next below =>
      refine pairwise_cons.mpr ⟨?_, ordered⟩
      intro entry member
      rcases mem_cons.mp member with rfl | later
      · exact below.le
      · exact below.le.trans (rest.1 entry later)
    next notBelow =>
      refine pairwise_cons.mpr ⟨?_, ih rest.2⟩
      intro entry member
      rcases mem_cons.mp ((emplaceEntry_perm key value tail).mem_iff.mp member) with
        rfl | later
      · exact not_lt.mp notBelow
      · exact rest.1 entry later

def emplace (key : κ) (value : β) (map : FlatMultiMap κ β) : FlatMultiMap κ β :=
  ⟨emplaceEntry key value map.entries, emplaceEntry_ordered key value map.ordered⟩

theorem emplace_perm (key : κ) (value : β) (map : FlatMultiMap κ β) :
    (map.emplace key value).entries.Perm ((key, value) :: map.entries) :=
  emplaceEntry_perm key value map.entries

theorem mem_emplace {key : κ} {value : β} {map : FlatMultiMap κ β} {entry : κ × β} :
    entry ∈ (map.emplace key value).entries ↔ entry = (key, value) ∨ entry ∈ map.entries :=
  (emplace_perm key value map).mem_iff.trans mem_cons

/-- The first entry, and the rest. -/
def popFront (map : FlatMultiMap κ β) : Option ((κ × β) × FlatMultiMap κ β) :=
  match map with
  | ⟨[], _⟩ => none
  | ⟨entry :: rest, ordered⟩ => some (entry, ⟨rest, (List.pairwise_cons.mp ordered).2⟩)

theorem popFront_eq_none {map : FlatMultiMap κ β} : map.popFront = none ↔ map = ∅ := by
  obtain ⟨entries, ordered⟩ := map
  cases entries with
  | nil => exact ⟨fun _ => rfl, fun _ => rfl⟩
  | cons entry rest =>
    constructor
    · intro none
      cases none
    · intro none
      cases congrArg FlatMultiMap.entries none

theorem popFront_eq_some {map rest : FlatMultiMap κ β} {entry : κ × β}
    (popped : map.popFront = some (entry, rest)) :
    map.entries = entry :: rest.entries ∧ ∀ other ∈ rest.entries, entry.1 ≤ other.1 := by
  obtain ⟨entries, ordered⟩ := map
  cases entries with
  | nil => cases popped
  | cons first others =>
    cases popped
    exact ⟨rfl, (pairwise_cons.mp ordered).1⟩

end FlatMultiMap

end TelegramDesktop
