import Mathlib.Data.List.Perm.Basic
import Mathlib.Data.List.Pairwise
import Mathlib.Order.Lattice

/-!
# Sorted associative sequences

A `FlatMap` keeps its entries in one sequence with strictly increasing keys, so
every key occurs once and walking the sequence visits the entries in key order.
-/

namespace TelegramDesktop

open List

/-- A map as the list of its entries, by increasing keys. -/
structure FlatMap (κ β : Type*) [LinearOrder κ] where
  entries : List (κ × β)
  increasing : entries.Pairwise fun first second => first.1 < second.1

namespace FlatMap

variable {κ β : Type*} [LinearOrder κ]

def empty : FlatMap κ β := ⟨[], .nil⟩

instance : EmptyCollection (FlatMap κ β) := ⟨empty⟩

@[simp] theorem entries_empty : (∅ : FlatMap κ β).entries = [] := rfl

theorem ext_entries {first second : FlatMap κ β} (same : first.entries = second.entries) :
    first = second := by
  cases first
  cases second
  cases same
  rfl

def isEmpty (map : FlatMap κ β) : Bool := map.entries.isEmpty

variable {map : FlatMap κ β}

theorem isEmpty_iff : map.isEmpty = true ↔ map = ∅ := by
  rw [isEmpty, List.isEmpty_iff]
  exact ⟨fun none => ext_entries none, fun none => by rw [none]; rfl⟩

@[simp] theorem isEmpty_empty : (∅ : FlatMap κ β).isEmpty = true := rfl

theorem nodup (map : FlatMap κ β) : map.entries.Nodup :=
  map.increasing.imp fun below same => ne_of_lt below (congrArg Prod.fst same)

theorem eq_of_key {first second : κ × β} (firstMem : first ∈ map.entries)
    (secondMem : second ∈ map.entries) (same : first.1 = second.1) : first = second := by
  by_contra distinct
  obtain ⟨before, after, split⟩ := append_of_mem firstMem
  have pairs := map.increasing
  rw [split] at pairs secondMem
  rw [pairwise_append, pairwise_cons] at pairs
  rcases mem_append.mp secondMem with earlier | later
  · exact absurd (pairs.2.2 second earlier first (by simp)) (by simp [same])
  · rcases mem_cons.mp later with equal | later
    · exact distinct equal.symm
    · exact absurd (pairs.2.1.1 second later) (by simp [same])

theorem ext_mem {first second : FlatMap κ β}
    (same : ∀ entry, entry ∈ first.entries ↔ entry ∈ second.entries) : first = second := by
  have perm : first.entries.Perm second.entries :=
    (perm_ext_iff_of_nodup first.nodup second.nodup).mpr same
  exact ext_entries (perm.eq_of_pairwise (fun _ _ _ _ below above => (lt_asymm below above).elim)
    first.increasing second.increasing)

theorem countP_le_one {counted : κ × β → Bool}
    (unique : ∀ first ∈ map.entries, ∀ second ∈ map.entries,
      counted first = true → counted second = true → first = second) :
    map.entries.countP counted ≤ 1 := by
  have nodup := map.nodup
  generalize map.entries = entries at unique nodup ⊢
  induction entries with
  | nil => simp
  | cons head tail ih =>
    rw [nodup_cons] at nodup
    cases headCounted : counted head with
    | true =>
      have none : tail.countP counted = 0 := by
        rw [countP_eq_zero]
        intro other member otherCounted
        rw [unique head (by simp) other (by simp [member]) headCounted otherCounted] at nodup
        exact nodup.1 member
      rw [countP_cons, none, headCounted]
      simp
    | false =>
      have rest := ih (fun first firstMem second secondMem =>
        unique first (by simp [firstMem]) second (by simp [secondMem])) nodup.2
      rw [countP_cons, headCounted]
      simpa using rest

/-- An entry is inserted at its place, unless the key is there. -/
def emplaceEntry (key : κ) (value : β) : List (κ × β) → List (κ × β)
  | [] => [(key, value)]
  | head :: tail =>
    if key < head.1 then (key, value) :: head :: tail
    else if head.1 < key then head :: emplaceEntry key value tail
    else head :: tail

variable {key : κ} {value : β} {entry : κ × β} {entries : List (κ × β)}

theorem mem_emplaceEntry (fresh : ∀ other ∈ entries, other.1 ≠ key) :
    entry ∈ emplaceEntry key value entries ↔ entry = (key, value) ∨ entry ∈ entries := by
  induction entries with
  | nil => simp [emplaceEntry]
  | cons head tail ih =>
    have headFresh := fresh head (by simp)
    have tailEq := ih fun other member => fresh other (by simp [member])
    unfold emplaceEntry
    split
    · simp
    · split
      · simp only [mem_cons, tailEq]
        tauto
      next notBelow notAbove =>
        exact (headFresh (le_antisymm (not_lt.mp notBelow) (not_lt.mp notAbove))).elim

theorem mem_of_mem_emplaceEntry (member : entry ∈ emplaceEntry key value entries) :
    entry = (key, value) ∨ entry ∈ entries := by
  induction entries with
  | nil => simpa [emplaceEntry] using member
  | cons head tail ih =>
    unfold emplaceEntry at member
    split at member
    · simpa using member
    · split at member
      · rcases mem_cons.mp member with rfl | later
        · exact .inr (by simp)
        · exact (ih later).imp_right (mem_cons_of_mem head)
      · exact .inr member

theorem emplaceEntry_increasing (key : κ) (value : β)
    (increasing : entries.Pairwise fun first second => first.1 < second.1) :
    (emplaceEntry key value entries).Pairwise fun first second => first.1 < second.1 := by
  induction entries with
  | nil => simp [emplaceEntry]
  | cons head tail ih =>
    rw [pairwise_cons] at increasing
    unfold emplaceEntry
    split
    next below =>
      rw [pairwise_cons, pairwise_cons]
      refine ⟨?_, increasing⟩
      intro other member
      rcases mem_cons.mp member with rfl | later
      · exact below
      · exact below.trans (increasing.1 other later)
    · split
      next above =>
        rw [pairwise_cons]
        refine ⟨?_, ih increasing.2⟩
        intro other member
        rcases mem_of_mem_emplaceEntry member with rfl | old
        · exact above
        · exact increasing.1 other old
      · rw [pairwise_cons]
        exact increasing

def emplace (key : κ) (value : β) (map : FlatMap κ β) : FlatMap κ β :=
  ⟨emplaceEntry key value map.entries, emplaceEntry_increasing key value map.increasing⟩

theorem mem_emplace (fresh : ∀ other ∈ map.entries, other.1 ≠ key) :
    entry ∈ (map.emplace key value).entries ↔
      entry = (key, value) ∨ entry ∈ map.entries :=
  mem_emplaceEntry fresh

theorem emplace_perm (fresh : ∀ other ∈ map.entries, other.1 ≠ key) :
    (map.emplace key value).entries.Perm ((key, value) :: map.entries) := by
  have notIn : (key, value) ∉ map.entries := fun member => fresh _ member rfl
  rw [perm_ext_iff_of_nodup (nodup _) (nodup_cons.mpr ⟨notIn, map.nodup⟩)]
  intro entry
  rw [mem_emplace fresh, mem_cons]

theorem emplace_ne_empty (key : κ) (value : β) (map : FlatMap κ β) :
    map.emplace key value ≠ ∅ := by
  intro none
  have entries := congrArg FlatMap.entries none
  change emplaceEntry key value map.entries = [] at entries
  cases mapEntries : map.entries with
  | nil => simp [mapEntries, emplaceEntry] at entries
  | cons head tail =>
    rw [mapEntries] at entries
    unfold emplaceEntry at entries
    split at entries
    · cases entries
    · split at entries <;> cases entries

theorem emplaceEntry_append {left right : List (κ × β)}
    (below : ∀ entry ∈ left, entry.1 < key) (above : ∀ entry ∈ right, key < entry.1) :
    emplaceEntry key value (left ++ right) = left ++ (key, value) :: right := by
  induction left with
  | nil =>
    cases right with
    | nil => rfl
    | cons head right =>
      rw [nil_append, emplaceEntry, if_pos (above head (by simp))]
      rfl
  | cons head left ih =>
    have headBelow := below head (by simp)
    rw [cons_append, emplaceEntry, if_neg headBelow.not_gt, if_pos headBelow,
      ih fun entry member => below entry (by simp [member])]
    rfl

def emplaceAll (map : FlatMap κ β) (added : List (κ × β)) : FlatMap κ β :=
  added.foldl (fun result entry => result.emplace entry.1 entry.2) map

theorem countP_emplaceEntry {counted : κ × β → Bool}
    (out : counted (key, value) = false) (entries : List (κ × β)) :
    (emplaceEntry key value entries).countP counted = entries.countP counted := by
  induction entries with
  | nil => simp [emplaceEntry, out]
  | cons head tail ih =>
    unfold emplaceEntry
    split
    · rw [countP_cons, out]
      rfl
    · split
      · rw [countP_cons, countP_cons, ih]
      · rfl

theorem entries_emplaceAll {added : List (κ × β)}
    (increasing : added.Pairwise fun first second => first.1 < second.1)
    (after : ∀ entry ∈ map.entries, ∀ new ∈ added, entry.1 < new.1) :
    (map.emplaceAll added).entries = map.entries ++ added := by
  induction added generalizing map with
  | nil => exact (append_nil _).symm
  | cons head added ih =>
    rw [pairwise_cons] at increasing
    have placed : (map.emplace head.1 head.2).entries = map.entries ++ [head] := by
      have none : ∀ entry ∈ ([] : List (κ × β)), head.1 < entry.1 := by simp
      have joins : emplaceEntry head.1 head.2 (map.entries ++ []) =
          map.entries ++ (head.1, head.2) :: [] :=
        emplaceEntry_append (fun entry member => after entry member head (by simp)) none
      rwa [append_nil] at joins
    have next : ∀ entry ∈ (map.emplace head.1 head.2).entries, ∀ new ∈ added,
        entry.1 < new.1 := by
      intro entry member new newMem
      rw [placed] at member
      rcases mem_append.mp member with old | isHead
      · exact after entry old new (by simp [newMem])
      · rw [mem_singleton.mp isHead]
        exact increasing.1 new newMem
    have step : map.emplaceAll (head :: added) =
        (map.emplace head.1 head.2).emplaceAll added := rfl
    rw [step, ih increasing.2 next, placed, append_assoc]
    rfl

theorem emplaceAll_entries (map : FlatMap κ β) :
    (∅ : FlatMap κ β).emplaceAll map.entries = map :=
  ext_entries (entries_emplaceAll map.increasing (by simp))

def find? (map : FlatMap κ β) (key : κ) : Option β :=
  (map.entries.find? fun entry => entry.1 = key).map Prod.snd

theorem find?_eq_some :
    map.find? key = some value ↔ (key, value) ∈ map.entries := by
  unfold find?
  rw [Option.map_eq_some_iff]
  constructor
  · rintro ⟨entry, found, rfl⟩
    have keyEq := find?_some found
    have member := mem_of_find?_eq_some found
    rw [decide_eq_true_eq] at keyEq
    rw [← keyEq]
    exact member
  · intro member
    cases found : map.entries.find? fun entry => entry.1 = key with
    | none =>
      rw [find?_eq_none] at found
      exact (found (key, value) member (by simp)).elim
    | some entry =>
      have keyEq := find?_some found
      rw [decide_eq_true_eq] at keyEq
      have same := eq_of_key (mem_of_find?_eq_some found) member keyEq
      exact ⟨entry, rfl, by rw [same]⟩

theorem find?_emplace_self (fresh : ∀ entry ∈ map.entries, entry.1 ≠ key) :
    (map.emplace key value).find? key = some value := by
  rw [find?_eq_some, mem_emplace fresh]
  exact .inl rfl

variable {other : κ}

theorem find?_emplace_of_ne
    (fresh : ∀ entry ∈ map.entries, entry.1 ≠ key) (distinct : other ≠ key) :
    (map.emplace key value).find? other = map.find? other := by
  ext found
  rw [find?_eq_some, find?_eq_some, mem_emplace fresh]
  simp [distinct]

def size (map : FlatMap κ β) : Nat := map.entries.length

def contains (map : FlatMap κ β) (key : κ) : Bool := (map.find? key).isSome

theorem contains_iff :
    map.contains key = true ↔ ∃ entry ∈ map.entries, entry.1 = key := by
  unfold contains
  rw [Option.isSome_iff_exists]
  constructor
  · rintro ⟨value, found⟩
    exact ⟨(key, value), find?_eq_some.mp found, rfl⟩
  · rintro ⟨entry, member, rfl⟩
    exact ⟨entry.2, find?_eq_some.mpr member⟩

theorem contains_eq_false :
    map.contains key = false ↔ ∀ entry ∈ map.entries, entry.1 ≠ key := by
  rw [← Bool.not_eq_true, contains_iff, not_exists]
  exact forall_congr' fun entry => not_and

@[simp] theorem contains_empty : (∅ : FlatMap κ β).contains key = false := rfl

theorem contains_of_mem (member : entry ∈ map.entries) :
    map.contains entry.1 = true :=
  contains_iff.mpr ⟨entry, member, rfl⟩

theorem emplaceEntry_of_mem (increasing : entries.Pairwise fun first second => first.1 < second.1)
    (taken : ∃ entry ∈ entries, entry.1 = key) : emplaceEntry key value entries = entries := by
  induction entries with
  | nil => simp at taken
  | cons head tail ih =>
    rw [pairwise_cons] at increasing
    obtain ⟨entry, member, rfl⟩ := taken
    rcases mem_cons.mp member with rfl | later
    · rw [emplaceEntry, if_neg (lt_irrefl _), if_neg (lt_irrefl _)]
    · have above := increasing.1 entry later
      rw [emplaceEntry, if_neg above.not_gt, if_pos above, ih increasing.2 ⟨entry, later, rfl⟩]

theorem emplace_of_contains (taken : map.contains key = true) : map.emplace key value = map :=
  ext_entries (emplaceEntry_of_mem map.increasing (contains_iff.mp taken))

theorem contains_emplace :
    (map.emplace key value).contains other = true ↔
      other = key ∨ map.contains other = true := by
  cases taken : map.contains key with
  | true =>
    rw [emplace_of_contains taken]
    refine ⟨.inr, ?_⟩
    rintro (rfl | known)
    · exact taken
    · exact known
  | false =>
    have fresh := contains_eq_false.mp taken
    simp only [contains_iff, mem_emplace fresh]
    constructor
    · rintro ⟨entry, rfl | member, rfl⟩
      · exact .inl rfl
      · exact .inr ⟨entry, member, rfl⟩
    · rintro (rfl | ⟨entry, member, rfl⟩)
      · exact ⟨(other, value), .inl rfl, rfl⟩
      · exact ⟨entry, .inr member, rfl⟩

theorem contains_emplaceAll {added : List (κ × β)} :
    (map.emplaceAll added).contains other = true ↔
      map.contains other = true ∨ ∃ entry ∈ added, entry.1 = other := by
  induction added generalizing map with
  | nil => simp [emplaceAll]
  | cons head added ih =>
    have step : map.emplaceAll (head :: added) =
        (map.emplace head.1 head.2).emplaceAll added := rfl
    rw [step, ih, contains_emplace]
    simp only [mem_cons, exists_eq_or_imp]
    tauto

/-- The entries from the first one with a key not below `key`. -/
def lowerBound (map : FlatMap κ β) (key : κ) : List (κ × β) :=
  map.entries.dropWhile fun entry => entry.1 < key

def erase (map : FlatMap κ β) (key : κ) : FlatMap κ β :=
  ⟨map.entries.filter fun entry => entry.1 ≠ key, map.increasing.filter _⟩

@[simp] theorem mem_erase :
    entry ∈ (map.erase key).entries ↔ entry ∈ map.entries ∧ entry.1 ≠ key := by
  simp [erase]

theorem size_erase_le : (map.erase key).size ≤ map.size :=
  length_filter_le _ _

theorem size_erase_lt (known : map.contains key = true) :
    (map.erase key).size < map.size := by
  obtain ⟨entry, member, rfl⟩ := contains_iff.mp known
  exact length_filter_lt_length_iff_exists.mpr ⟨entry, member, by simp⟩

theorem find?_erase :
    (map.erase key).find? other = if other = key then none else map.find? other := by
  ext found
  rw [find?_eq_some, mem_erase]
  split
  next same =>
    simp [same]
  next distinct =>
    rw [find?_eq_some, and_iff_left distinct]

theorem contains_erase :
    (map.erase key).contains other = true ↔ other ≠ key ∧ map.contains other = true := by
  unfold contains
  rw [find?_erase]
  split <;> simp [*]

theorem erase_of_not_contains (missing : map.contains key = false) : map.erase key = map :=
  ext_mem fun _ => by
    rw [mem_erase, and_iff_left_iff_imp]
    exact contains_eq_false.mp missing _

theorem erase_emplace
    (fresh : ∀ entry ∈ map.entries, entry.1 ≠ key) : (map.emplace key value).erase key = map :=
  ext_mem fun entry => by
    rw [mem_erase, mem_emplace fresh]
    constructor
    · rintro ⟨rfl | old, distinct⟩
      · exact (distinct rfl).elim
      · exact old
    · intro old
      exact ⟨.inr old, fresh entry old⟩

def filter (keep : κ × β → Bool) (map : FlatMap κ β) : FlatMap κ β :=
  ⟨map.entries.filter keep, map.increasing.filter _⟩

@[simp] theorem mem_filter {keep : κ × β → Bool} :
    entry ∈ (map.filter keep).entries ↔ entry ∈ map.entries ∧ keep entry = true :=
  List.mem_filter

/-- `map[key] = value` -/
def set (key : κ) (value : β) (map : FlatMap κ β) : FlatMap κ β :=
  (map.erase key).emplace key value

@[simp] theorem mem_set :
    entry ∈ (map.set key value).entries ↔
      entry = (key, value) ∨ (entry ∈ map.entries ∧ entry.1 ≠ key) := by
  have fresh : ∀ other ∈ (map.erase key).entries, other.1 ≠ key :=
    fun other member => (mem_erase.mp member).2
  rw [set, mem_emplace fresh, mem_erase]

theorem find?_set :
    (map.set key value).find? other = if other = key then some value else map.find? other := by
  ext found
  rw [find?_eq_some, mem_set]
  split
  next same =>
    simp [same, eq_comm]
  next distinct =>
    rw [find?_eq_some, Prod.mk.injEq]
    simp [distinct]

@[simp] theorem find?_set_self :
    (map.set key value).find? key = some value := by
  rw [find?_set, if_pos rfl]

theorem contains_set :
    (map.set key value).contains other = true ↔
      other = key ∨ map.contains other = true := by
  unfold contains
  rw [find?_set]
  split <;> simp [*]

/-- `erase(begin())` -/
def eraseFirst (map : FlatMap κ β) : FlatMap κ β :=
  ⟨map.entries.tail, map.increasing.sublist (List.tail_sublist _)⟩

@[simp] theorem entries_eraseFirst (map : FlatMap κ β) :
    map.eraseFirst.entries = map.entries.tail := rfl

/-- Erase first entries until no more than `limit` of the `size` are left. -/
def trim (limit : Nat) : Nat → FlatMap κ β → FlatMap κ β
  | 0, map => map
  | size + 1, map => if limit < size + 1 then trim limit size map.eraseFirst else map

theorem entries_trim (limit size : Nat) (map : FlatMap κ β) :
    (map.trim limit size).entries = map.entries.drop (size - limit) := by
  induction size generalizing map with
  | zero => simp [trim]
  | succ size ih =>
    unfold trim
    split
    · have count : size + 1 - limit = (size - limit) + 1 := by omega
      rw [ih, count, entries_eraseFirst, ← drop_one, drop_drop, Nat.add_comm]
    · have none : size + 1 - limit = 0 := by omega
      rw [none, drop_zero]

theorem mem_trim {limit : Nat} (member : entry ∈ map.entries) :
    entry ∈ (map.trim limit map.size).entries ↔
      (map.entries.countP fun other => entry.1 < other.1) < limit := by
  obtain ⟨before, after, split⟩ := append_of_mem member
  have pairs := map.increasing
  rw [split, pairwise_append, pairwise_cons] at pairs
  have below : before.countP (fun other => entry.1 < other.1) = 0 := by
    rw [countP_eq_zero]
    intro other otherMem larger
    exact lt_asymm (of_decide_eq_true larger) (pairs.2.2 other otherMem entry (by simp))
  have above : after.countP (fun other => entry.1 < other.1) = after.length := by
    rw [countP_eq_length]
    intro other otherMem
    exact decide_eq_true (pairs.2.1.1 other otherMem)
  have count : (map.entries.countP fun other => entry.1 < other.1) = after.length := by
    rw [split, countP_append, below, countP_cons, above]
    simp
  have length : map.size = before.length + (after.length + 1) := by
    rw [size, split, length_append, length_cons]
  rw [entries_trim, count]
  constructor
  · intro kept
    by_contra many
    have drops : before.length + 1 ≤ map.size - limit := by omega
    have later : entry ∈ after := by
      have none : before.drop (map.size - limit) = [] :=
        drop_eq_nil_of_le (Nat.le_of_succ_le drops)
      have some : map.size - limit - before.length =
          (map.size - limit - before.length - 1) + 1 := by omega
      rw [split, drop_append, none, nil_append, some, drop_succ_cons] at kept
      exact mem_of_mem_drop kept
    exact lt_irrefl _ (pairs.2.1.1 entry later)
  · intro few
    have drops : map.size - limit ≤ before.length := by omega
    rw [split, drop_append_of_le_length drops]
    simp

/-- The value of a key goes to another key. -/
def rekey (old new : κ) (map : FlatMap κ β) : FlatMap κ β :=
  match map.find? old with
  | none => map
  | some value => (map.erase old).emplace new value

theorem rekey_of_not_contains {old new : κ}
    (missing : map.contains old = false) : map.rekey old new = map := by
  unfold rekey
  cases found : map.find? old with
  | none => rfl
  | some value =>
    rw [contains, found] at missing
    cases missing

theorem mem_of_mem_rekey {old new : κ} (member : entry ∈ (map.rekey old new).entries) :
    entry.1 = new ∧ (old, entry.2) ∈ map.entries ∨ entry ∈ map.entries ∧ entry.1 ≠ old := by
  cases known : map.contains old with
  | false =>
    rw [rekey_of_not_contains known] at member
    exact .inr ⟨member, contains_eq_false.mp known entry member⟩
  | true =>
    obtain ⟨value, found⟩ := Option.isSome_iff_exists.mp known
    rw [rekey, found] at member
    rcases mem_of_mem_emplaceEntry member with rfl | older
    · exact .inl ⟨rfl, find?_eq_some.mp found⟩
    · exact .inr (mem_erase.mp older)

def mapValues (f : β → β) (map : FlatMap κ β) : FlatMap κ β :=
  ⟨map.entries.map fun entry => (entry.1, f entry.2),
    List.pairwise_map.mpr map.increasing⟩

theorem contains_mapValues {f : β → β} :
    (map.mapValues f).contains key = true ↔ map.contains key = true := by
  rw [contains_iff, contains_iff]
  simp [mapValues]

section Matching

variable {α : Type*} {relates keeps : κ × β → α → Prop}

omit [LinearOrder κ] in
theorem forall₂_append {left right : List α} (matched : Forall₂ relates entries (left ++ right)) :
    ∃ first second, entries = first ++ second ∧
      Forall₂ relates first left ∧ Forall₂ relates second right :=
  ⟨entries.take left.length, entries.drop left.length, (take_append_drop left.length entries).symm,
    forall₂_take_append entries left right matched,
    forall₂_drop_append entries left right matched⟩

omit [LinearOrder κ] in
theorem forall₂_exists {items : List α} (matched : Forall₂ relates entries items)
    (member : entry ∈ entries) : ∃ item ∈ items, relates entry item := by
  induction matched with
  | nil => cases member
  | cons related matched ih =>
    rcases mem_cons.mp member with rfl | later
    · exact ⟨_, mem_cons_self, related⟩
    · obtain ⟨item, itemMem, itemRelated⟩ := ih later
      exact ⟨item, mem_cons_of_mem _ itemMem, itemRelated⟩

omit [LinearOrder κ] in
theorem forall₂_keep {items : List α} (matched : Forall₂ relates entries items)
    (kept : ∀ entry ∈ entries, ∀ item ∈ items, relates entry item → keeps entry item) :
    Forall₂ keeps entries items := by
  induction matched with
  | nil => exact .nil
  | cons related matched ih =>
    refine .cons (kept _ (by simp) _ (by simp) related) (ih ?_)
    intro entry entryMem item itemMem
    exact kept entry (mem_cons_of_mem _ entryMem) item (mem_cons_of_mem _ itemMem)

theorem emplace_forall₂ {left right : List α} {item : α}
    (matched : Forall₂ relates map.entries (left ++ right))
    (below : ∀ entry, ∀ other ∈ left, relates entry other → entry.1 < key)
    (above : ∀ entry, ∀ other ∈ right, relates entry other → key < entry.1)
    (kept : ∀ entry ∈ map.entries, ∀ other ∈ left ++ right,
      relates entry other → keeps entry other)
    (new : keeps (key, value) item) :
    Forall₂ keeps (map.emplace key value).entries (left ++ item :: right) := by
  obtain ⟨first, second, split, firstMatched, secondMatched⟩ := forall₂_append matched
  have placed : (map.emplace key value).entries = first ++ (key, value) :: second := by
    change emplaceEntry key value map.entries = _
    rw [split]
    apply emplaceEntry_append
    · intro entry member
      obtain ⟨other, otherMem, related⟩ := forall₂_exists firstMatched member
      exact below entry other otherMem related
    · intro entry member
      obtain ⟨other, otherMem, related⟩ := forall₂_exists secondMatched member
      exact above entry other otherMem related
  rw [placed]
  rw [split] at kept
  refine rel_append (forall₂_keep firstMatched ?_) (.cons new (forall₂_keep secondMatched ?_))
  · intro entry entryMem other otherMem
    exact kept entry (by simp [entryMem]) other (by simp [otherMem])
  · intro entry entryMem other otherMem
    exact kept entry (by simp [entryMem]) other (by simp [otherMem])

end Matching

end FlatMap

end TelegramDesktop
