import TelegramDesktop.OrderedListing

/-!
# Flat sets

A flat set keeps its elements in one contiguous, strictly increasing sequence, so
iterators are positions and a subrange of positions is again a flat set.
-/

namespace TelegramDesktop

open List

/-- A duplicate-free container stored as one strictly increasing sequence. -/
structure FlatSet (α : Type*) [LinearOrder α] where
  keys : List α
  increasing : keys.Pairwise (· < ·)
  deriving DecidableEq

namespace FlatSet

variable {α : Type*} [LinearOrder α]

instance : Membership α (FlatSet α) := ⟨fun set value => value ∈ set.keys⟩

instance (value : α) (set : FlatSet α) : Decidable (value ∈ set) :=
  inferInstanceAs (Decidable (value ∈ set.keys))

variable {set : FlatSet α} {value : α}

@[simp] theorem mem_keys :
    value ∈ set.keys ↔ value ∈ set := Iff.rfl

theorem ext_keys {first second : FlatSet α} (same : first.keys = second.keys) :
    first = second := by
  cases first
  cases second
  congr

@[ext] theorem ext {first second : FlatSet α}
    (same : ∀ value, value ∈ first ↔ value ∈ second) : first = second :=
  ext_keys (IsListing.eq_of_mem_iff first.increasing second.increasing same)

def toFinset (set : FlatSet α) : Finset α := set.keys.toFinset

@[simp] theorem mem_toFinset :
    value ∈ set.toFinset ↔ value ∈ set := List.mem_toFinset

theorem isListing (set : FlatSet α) : IsListing set.toFinset set.keys where
  increasing := set.increasing
  mem_iff _ := mem_toFinset.symm

def empty : FlatSet α := ⟨[], .nil⟩

instance : EmptyCollection (FlatSet α) := ⟨empty⟩
instance : Inhabited (FlatSet α) := ⟨∅⟩

@[simp] theorem notMem_empty (value : α) : value ∉ (∅ : FlatSet α) := not_mem_nil
@[simp] theorem keys_empty : (∅ : FlatSet α).keys = [] := rfl

def size (set : FlatSet α) : Nat := set.keys.length

@[simp] theorem size_empty : (∅ : FlatSet α).size = 0 := rfl

theorem size_eq_card (set : FlatSet α) : set.size = set.toFinset.card :=
  set.isListing.length_eq_card

def isEmpty (set : FlatSet α) : Bool := set.keys.isEmpty

@[simp] theorem isEmpty_iff : set.isEmpty = true ↔ set = ∅ := by
  constructor
  · intro empty
    exact ext_keys (List.isEmpty_iff.mp empty)
  · rintro rfl
    rfl

theorem eq_empty_iff : set = ∅ ↔ ∀ value, value ∉ set := by
  constructor
  · rintro rfl
    exact notMem_empty
  · intro none
    ext value
    simp [none value]

theorem size_eq_zero : set.size = 0 ↔ set = ∅ := by
  rw [size, length_eq_zero_iff]
  exact ⟨fun empty => ext_keys empty, fun empty => by rw [empty]; rfl⟩

/-- A key is inserted at its place, unless it is there. -/
def insertKey (key : α) : List α → List α
  | [] => [key]
  | head :: tail =>
    if key < head then key :: head :: tail
    else if head < key then head :: insertKey key tail
    else head :: tail

variable {key : α}

theorem mem_insertKey {keys : List α} :
    value ∈ insertKey key keys ↔ value = key ∨ value ∈ keys := by
  induction keys with
  | nil => simp [insertKey]
  | cons head tail ih =>
    rw [insertKey]
    split
    · simp
    · split
      · simp only [mem_cons, ih]
        tauto
      · have equal : key = head := le_antisymm (not_lt.mp ‹_›) (not_lt.mp ‹_›)
        simp [equal]

theorem insertKey_increasing (key : α) {keys : List α} (increasing : keys.Pairwise (· < ·)) :
    (insertKey key keys).Pairwise (· < ·) := by
  induction keys with
  | nil => simp [insertKey]
  | cons head tail ih =>
    rw [pairwise_cons] at increasing
    rw [insertKey]
    split
    next before =>
      refine pairwise_cons.mpr ⟨?_, pairwise_cons.mpr increasing⟩
      intro value member
      rcases mem_cons.mp member with rfl | later
      · exact before
      · exact lt_trans before (increasing.1 value later)
    · split
      next after =>
        refine pairwise_cons.mpr ⟨?_, ih increasing.2⟩
        intro value member
        rcases mem_insertKey.mp member with rfl | later
        · exact after
        · exact increasing.1 value later
      · exact pairwise_cons.mpr increasing

def insert (key : α) (set : FlatSet α) : FlatSet α :=
  ⟨insertKey key set.keys, insertKey_increasing key set.increasing⟩

@[simp] theorem mem_insert :
    value ∈ set.insert key ↔ value = key ∨ value ∈ set := mem_insertKey

/-- Keys are inserted one by one. -/
def merge (set : FlatSet α) (more : List α) : FlatSet α :=
  more.foldl (fun merged key => merged.insert key) set

@[simp] theorem mem_merge {more : List α} :
    value ∈ set.merge more ↔ value ∈ set ∨ value ∈ more := by
  induction more generalizing set with
  | nil => simp [merge]
  | cons key more ih =>
    change value ∈ (set.insert key).merge more ↔ _
    rw [ih, mem_insert, mem_cons]
    tauto

def ofList (keys : List α) : FlatSet α := (∅ : FlatSet α).merge keys

@[simp] theorem mem_ofList {keys : List α} :
    value ∈ ofList keys ↔ value ∈ keys := by
  simp [ofList]

def erase (key : α) (set : FlatSet α) : FlatSet α :=
  ⟨set.keys.filter (· ≠ key), set.increasing.filter _⟩

@[simp] theorem mem_erase :
    value ∈ set.erase key ↔ value ≠ key ∧ value ∈ set := by
  change value ∈ set.keys.filter (· ≠ key) ↔ _
  rw [mem_filter, mem_keys, decide_eq_true_eq, and_comm]

theorem erase_of_notMem (absent : key ∉ set) :
    set.erase key = set := by
  ext value
  rw [mem_erase]
  exact ⟨fun member => member.2, fun member =>
    ⟨fun equal => absent (equal ▸ member), member⟩⟩

theorem toFinset_erase (key : α) (set : FlatSet α) :
    (set.erase key).toFinset = set.toFinset.erase key := by
  ext value
  simp

theorem size_erase (member : key ∈ set) :
    (set.erase key).size + 1 = set.size := by
  rw [size_eq_card, size_eq_card, toFinset_erase]
  exact Finset.card_erase_add_one (mem_toFinset.mpr member)

def front? (set : FlatSet α) : Option α := set.keys.head?

def back? (set : FlatSet α) : Option α := set.keys.getLast?

/-- Position of the first element that is not below `bound`. -/
def lowerBound (set : FlatSet α) (bound : α) : Nat :=
  (set.keys.takeWhile (· < bound)).length

/-- The elements at the positions from `first` up to, not including, `last`. -/
def range (set : FlatSet α) (first last : Nat) : FlatSet α :=
  ⟨(set.keys.take last).drop first,
    (set.increasing.sublist (List.take_sublist _ _)).sublist
      (List.drop_sublist _ _)⟩

@[simp] theorem keys_range (set : FlatSet α) (first last : Nat) :
    (set.range first last).keys = (set.keys.take last).drop first := rfl

theorem size_range (set : FlatSet α) (first last : Nat) :
    (set.range first last).size = min last set.size - first := by
  simp only [size, keys_range, length_drop, length_take]

theorem range_subset {first last : Nat} (member : value ∈ set.range first last) : value ∈ set :=
  mem_of_mem_take (mem_of_mem_drop member)

/-- The positions before `first`, the range and the positions from `last` on
make up the whole sequence. -/
theorem keys_eq_take_append_range (set : FlatSet α) {first last : Nat} (ordered : first ≤ last) :
    set.keys = set.keys.take first ++ (set.range first last).keys ++
      set.keys.drop last := by
  have head : (set.keys.take last).take first = set.keys.take first := by
    rw [take_take, min_eq_left ordered]
  have inner : set.keys.take first ++ (set.range first last).keys =
      set.keys.take last := by
    rw [← head, keys_range, take_append_drop]
  rw [inner, take_append_drop]

theorem front?_mem (front : set.front? = some value) :
    value ∈ set := mem_of_mem_head? front

theorem back?_mem (back : set.back? = some value) :
    value ∈ set := mem_of_getLast? back

theorem front?_le {other : α}
    (front : set.front? = some value) (member : other ∈ set) : value ≤ other := by
  obtain ⟨tail, keysEq⟩ := head?_eq_some_iff.mp front
  have increasing := set.increasing
  rw [← mem_keys, keysEq] at member
  rw [keysEq, pairwise_cons] at increasing
  rcases mem_cons.mp member with rfl | later
  · exact le_refl _
  · exact (increasing.1 other later).le

theorem le_back? {other : α}
    (back : set.back? = some value) (member : other ∈ set) : other ≤ value := by
  obtain ⟨init, keysEq⟩ := getLast?_eq_some_iff.mp back
  have increasing := set.increasing
  rw [← mem_keys, keysEq] at member
  rw [keysEq, pairwise_append] at increasing
  rcases mem_append.mp member with earlier | last
  · exact (increasing.2.2 other earlier value (by simp)).le
  · exact (mem_singleton.mp last).le

theorem front?_eq_none : set.front? = none ↔ set = ∅ := by
  rw [front?, head?_eq_none_iff]
  exact ⟨fun empty => ext_keys empty, fun empty => by rw [empty]; rfl⟩

theorem back?_eq_none : set.back? = none ↔ set = ∅ := by
  rw [back?, getLast?_eq_none_iff]
  exact ⟨fun empty => ext_keys empty, fun empty => by rw [empty]; rfl⟩

theorem take_lowerBound (set : FlatSet α) (bound : α) :
    set.keys.take (set.lowerBound bound) = set.keys.filter (· < bound) := by
  rw [lowerBound]
  have increasing := set.increasing
  generalize set.keys = keys at increasing ⊢
  induction keys with
  | nil => rfl
  | cons head tail ih =>
    rw [pairwise_cons] at increasing
    by_cases below : head < bound
    · simp [below, ih increasing.2]
    · have noneBelow : tail.filter (· < bound) = [] := by
        rw [filter_eq_nil_iff]
        intro value member
        have above := lt_of_le_of_lt (not_lt.mp below) (increasing.1 value member)
        simpa using above.le
      simp [below, noneBelow]

theorem drop_lowerBound (set : FlatSet α) (bound : α) :
    set.keys.drop (set.lowerBound bound) = set.keys.filter (bound ≤ ·) := by
  have split := set.isListing.eq_append_at bound
  rw [← set.take_lowerBound bound] at split
  have whole := take_append_drop (set.lowerBound bound) set.keys
  exact append_cancel_left (whole.trans split)

theorem lowerBound_le_size (set : FlatSet α) (bound : α) :
    set.lowerBound bound ≤ set.size :=
  (takeWhile_sublist _).length_le

theorem lt_of_mem_take_lowerBound {bound : α}
    (member : value ∈ set.keys.take (set.lowerBound bound)) : value < bound := by
  rw [take_lowerBound] at member
  simpa using (mem_filter.mp member).2

theorem le_of_mem_drop_lowerBound {bound : α}
    (member : value ∈ set.keys.drop (set.lowerBound bound)) : bound ≤ value := by
  rw [drop_lowerBound] at member
  simpa using (mem_filter.mp member).2

theorem lowerBound_of_split {before after : List α}
    (split : set.keys = before ++ value :: after) : set.lowerBound value = before.length := by
  have increasing := set.increasing
  rw [split, pairwise_append] at increasing
  have allBelow : ∀ other ∈ before, decide (other < value) = true := fun other member =>
    decide_eq_true (increasing.2.2 other member value (by simp))
  rw [lowerBound, split, takeWhile_append_of_pos allBelow]
  simp

theorem merge_of_subset {more : FlatSet α} (subset : ∀ value ∈ set, value ∈ more) :
    set.merge more.keys = more := by
  ext value
  rw [mem_merge, mem_keys]
  exact ⟨fun member => member.elim (subset value) id, .inr⟩

end FlatSet

end TelegramDesktop
