import TelegramDesktop.FlatMap
import TelegramDesktop.MovingKeyedItems
import Mathlib.Data.List.Induction

/-!
# Groups of messages

An album lists its messages by their ids.  When a message gets its id, `Groups` moves it by
swaps to its place.
-/

namespace TelegramDesktop

open List

section Swaps

variable {α : Type*}

/-- `std::swap` of two items of a vector. -/
def swapItems (items : List α) (i j : Nat) : List α :=
  match items[i]?, items[j]? with
  | some first, some second => (items.set i second).set j first
  | _, _ => items

/-- `insert` of a vector. -/
def insertAt (items : List α) (position : Nat) (item : α) : List α :=
  items.take position ++ item :: items.drop position

/-- An item is swapped with the next one, several times. -/
def swapsRight : Nat → Nat → List α → List α
  | 0, _, items => items
  | count + 1, current, items =>
    swapsRight count (current + 1) (swapItems items current (current + 1))

/-- An item is swapped with the one before it, several times. -/
def swapsLeft : Nat → Nat → List α → List α
  | 0, _, items => items
  | count + 1, current, items =>
    swapsLeft count (current - 1) (swapItems items (current - 1) current)

theorem swapItems_append (before after : List α) (first second : α) :
    swapItems (before ++ first :: second :: after) before.length (before.length + 1) =
      before ++ second :: first :: after := by
  simp [swapItems]

theorem swapsRight_append (before middle after : List α) (item : α) :
    swapsRight middle.length before.length (before ++ item :: (middle ++ after)) =
      before ++ (middle ++ item :: after) := by
  induction middle generalizing before with
  | nil => rfl
  | cons head middle ih =>
    have next := ih (before ++ [head])
    rw [length_append, append_assoc, append_assoc] at next
    rw [length_cons, swapsRight, cons_append, swapItems_append]
    exact next

theorem swapsLeft_append (before middle after : List α) (item : α) :
    swapsLeft middle.length (before.length + middle.length)
      (before ++ (middle ++ item :: after)) = before ++ item :: (middle ++ after) := by
  induction middle using reverseRecOn generalizing after with
  | nil => rfl
  | append_singleton middle last ih =>
    have swapped := swapItems_append (before ++ middle) after last item
    rw [append_assoc, append_assoc, length_append] at swapped
    rw [length_append, length_singleton, swapsLeft, ← Nat.add_assoc, Nat.add_sub_cancel,
      append_assoc, singleton_append, swapped, ih, append_assoc, singleton_append]

variable {items : List α} {current position : Nat}

theorem swapsRight_eq_rotateRange (right : current + 1 ≤ position)
    (inside : position ≤ items.length) :
    swapsRight (position - (current + 1)) current items =
      rotateRange items current (current + 1) position := by
  obtain ⟨before, left, middle, after, rfl, rfl, single, rfl⟩ :=
    exists_rangeParts (Nat.le_succ current) right inside
  obtain ⟨item, rfl⟩ := length_eq_one_iff.mp (Nat.add_left_cancel single).symm
  rw [length_singleton, Nat.add_sub_cancel_left]
  exact (swapsRight_append before middle after item).trans
    (rotateRange_append before [item] middle after).symm

theorem swapsLeft_eq_rotateRange (left : position ≤ current) (inside : current < items.length) :
    swapsLeft (current - position) current items =
      rotateRange items position current (current + 1) := by
  obtain ⟨before, middle, right, after, rfl, rfl, rfl, single⟩ :=
    exists_rangeParts left (Nat.le_succ current) inside
  obtain ⟨item, rfl⟩ := length_eq_one_iff.mp (Nat.add_left_cancel single).symm
  rw [Nat.add_sub_cancel_left]
  exact (swapsLeft_append before middle after item).trans
    (rotateRange_append before middle [item] after).symm

end Swaps

namespace Groups

/-- The ids of the messages and what else `Groups` reads of them. -/
structure HistoryItems (Item GroupId : Type*) where
  id : Item → Int
  groupId : Item → Option GroupId
  canBeGrouped : Item → Bool
  isRegular : Item → Bool
  isScheduled : Item → Bool

def kMaxItemsInGroup : Nat := 10

variable {Item GroupId : Type*} [DecidableEq Item] (history : HistoryItems Item GroupId)

def isGrouped (item : Item) : Bool :=
  (history.groupId item).isSome && history.canBeGrouped item

def findPositionForItem (group : List Item) (item : Item) : Nat :=
  group.findIdx fun other => history.id item < history.id other

/-- The items of the group of a message that is refreshed, nothing in the branch that is not
expected. -/
def refreshItems (items : List Item) (item : Item) : Option (List Item) :=
  let position := findPositionForItem history items item
  let current := items.findIdx fun other => other = item
  if current = items.length then some (insertAt items position item)
  else if position = current + 1 then some items
  else if current + 1 < position then some (swapsRight (position - (current + 1)) current items)
  else if position < current then some (swapsLeft (current - position) current items)
  else none

variable {items : List Item} {item : Item}

theorem findIdx_lt_iff :
    items.findIdx (fun other => other = item) < items.length ↔ item ∈ items := by
  simp

theorem position_ne (inside : items.findIdx (fun other => other = item) < items.length) :
    findPositionForItem history items item ≠ items.findIdx fun other => other = item := by
  intro same
  have self := of_decide_eq_true (findIdx_getElem (w := inside))
  have greater := of_decide_eq_true
    (findIdx_getElem (w := (same ▸ inside : findPositionForItem history items item < _)))
  unfold findPositionForItem at same
  simp only [same, self, lt_irrefl] at greater

theorem refreshItems_eq : refreshItems history items item = some
    (if item ∈ items then
      moveTo items (items.findIdx fun other => other = item)
        (findPositionForItem history items item)
    else insertAt items (findPositionForItem history items item) item) := by
  unfold refreshItems moveTo
  by_cases known : item ∈ items
  · have inside := findIdx_lt_iff.mpr known
    have distinct := position_ne history inside
    simp only [if_pos known, if_neg inside.ne]
    split
    · rw [if_neg (by omega), if_neg (by omega)]
    · split
      next right =>
        rw [if_neg (by omega), swapsRight_eq_rotateRange right.le findIdx_le_length]
      · split
        next left =>
          rw [swapsLeft_eq_rotateRange left.le inside]
        · omega
  · have absent := findIdx_lt_iff.not.mpr known
    rw [if_neg known, if_pos (le_antisymm findIdx_le_length (not_lt.mp absent))]

theorem placeByKey_self (known : item ∈ items) :
    placeByKey (fun other => other) item items = items := by
  obtain ⟨before, found, after, rfl, rfl, fresh⟩ :=
    exists_first_withKey (mem_map.mpr ⟨item, known, rfl⟩ : item ∈ items.map fun other => other)
  exact placeByKey_split rfl fresh

/-- The other messages are in order, and no two messages have one id. -/
structure Refreshable (items : List Item) (item : Item) : Prop where
  distinct : ((if item ∈ items then items else item :: items).map history.id).Nodup
  sorted : (items.filter fun other => other ≠ item).Pairwise
    fun first second => history.id first < history.id second

theorem refreshItems_split (item : Item) (nodup : items.Nodup) :
    ∃ first last, first ++ last = items ∧
      refreshItems history items item = some (first.filter (fun other => other ≠ item) ++
        item :: last.filter fun other => other ≠ item) ∧
      (∀ other ∈ first, history.id other ≤ history.id item) ∧
      ∀ other rest, last = other :: rest → history.id item < history.id other := by
  let later := fun other => decide (history.id item < history.id other)
  let first := items.takeWhile fun other => !later other
  let last := items.dropWhile fun other => !later other
  have split : first ++ last = items := takeWhile_append_dropWhile
  have position : findPositionForItem history items item = first.length :=
    (length_takeWhile_not later items).symm
  refine ⟨first, last, split, ?_, fun other member => ?_, fun other rest same => ?_⟩
  · rw [refreshItems_eq, position]
    split
    next known =>
      have moved := moveTo_placeByKey item
        ((map_id' _).symm ▸ split.symm ▸ nodup : ((first ++ last).map fun other => other).Nodup)
      rw [split, placeByKey_self known] at moved
      exact congrArg some moved
    · have absent : item ∉ first ∧ item ∉ last := by
        rwa [← not_or, ← mem_append, split]
      rw [insertAt, ← split, take_left, drop_left]
      congr 2
      · exact (filter_of_notMem (by rw [map_id']; exact absent.1)).symm
      · exact congrArg _ (filter_of_notMem (by rw [map_id']; exact absent.2)).symm
  · simpa [later] using mem_takeWhile_imp member
  · have stops := head?_dropWhile_not (fun other => !later other) items
    rw [show items.dropWhile _ = _ from same] at stops
    simpa [later] using stops

variable {history}

theorem refreshItems_places (refreshable : Refreshable history items item) :
    ∃ result, refreshItems history items item = some result ∧
      result.Perm (if item ∈ items then items else item :: items) ∧
      result.Pairwise fun first second => history.id first < history.id second := by
  obtain ⟨distinct, sorted⟩ := refreshable
  have nodup : items.Nodup := by
    split at distinct
    · exact distinct.of_map
    · exact distinct.of_map.of_cons
  obtain ⟨first, last, split, eq, before, after⟩ :=
    refreshItems_split history item nodup
  rw [← split, filter_append, pairwise_append] at sorted
  have known : item ∈ if item ∈ items then items else item :: items := by
    split
    · assumption
    · exact mem_cons_self
  have others : (if item ∈ items then items else item :: items).Perm
      (item :: items.filter fun other => other ≠ item) := by
    split
    next known =>
      have erased : items.erase item = items.filter fun other => other ≠ item := by
        rw [nodup.erase_eq_filter]
        exact filter_congr fun other _ => by rw [Bool.eq_iff_iff]; simp
      exact erased ▸ perm_cons_erase known
    next unknown =>
      rw [filter_eq_self.mpr fun other member =>
        decide_eq_true (ne_of_mem_of_not_mem member unknown)]
  refine ⟨_, eq, (perm_middle.trans ?_).trans others.symm, pairwise_append.mpr
    ⟨sorted.1, pairwise_cons.mpr ⟨?_, sorted.2.1⟩, ?_⟩⟩
  · rw [← split, filter_append]
  · intro other member
    cases last with
    | nil => cases member
    | cons head rest =>
      have greater := after head rest rfl
      have different : head ≠ item := by
        rintro rfl
        exact lt_irrefl _ greater
      rw [filter_cons_of_pos (p := fun other => decide (other ≠ item))
        (decide_eq_true different)] at sorted member
      rcases mem_cons.mp member with rfl | member
      · exact greater
      · exact greater.trans ((pairwise_cons.mp sorted.2.1).1 other member)
  · intro earlier earlierMem other member
    rcases mem_cons.mp member with rfl | member
    · obtain ⟨inFirst, different⟩ := mem_filter.mp earlierMem
      refine lt_of_le_of_ne (before earlier inFirst) fun same => of_decide_eq_true different ?_
      refine inj_on_of_nodup_map distinct (others.mem_iff.mpr ?_) known same
      rw [← split, filter_append]
      exact mem_cons_of_mem _ (mem_append_left _ earlierMem)
    · exact sorted.2.2 earlier earlierMem other member

variable [LinearOrder GroupId]

variable (history) in
def registerMessage (groups : FlatMap GroupId (List Item)) (item : Item) :
    FlatMap GroupId (List Item) :=
  match history.groupId item with
  | some groupId =>
    if history.canBeGrouped item then
      let items := (groups.find? groupId).getD []
      groups.set groupId
        (if items.length < kMaxItemsInGroup then
          insertAt items (findPositionForItem history items item) item
        else items)
    else groups
  | none => groups

variable (history) in
def unregisterMessage (groups : FlatMap GroupId (List Item)) (item : Item) :
    FlatMap GroupId (List Item) :=
  match (history.groupId item).bind fun groupId => (groups.find? groupId).map (groupId, ·) with
  | some (groupId, items) =>
    if item ∈ items then
      let left := items.filter (· ≠ item)
      if left = [] then groups.erase groupId else groups.set groupId left
    else groups
  | none => groups

variable (history) in
def refreshMessage (groups : FlatMap GroupId (List Item)) (item : Item)
    (justRefreshViews : Bool) : Option (FlatMap GroupId (List Item)) :=
  if isGrouped history item then
    if history.isRegular item || history.isScheduled item then
      match (history.groupId item).bind fun groupId => (groups.find? groupId).map (groupId, ·) with
      | some (groupId, items) =>
        if justRefreshViews then some groups
        else (refreshItems history items item).map (groups.set groupId ·)
      | none => some (registerMessage history groups item)
    else some groups
  else some (unregisterMessage history groups item)

/-- A message is moved to its place, whatever `Groups` lists else. -/
theorem refreshMessage_sorts (groups : FlatMap GroupId (List Item)) (item : Item) :
    (∀ justRefreshViews, (refreshMessage history groups item justRefreshViews).isSome) ∧
      ∀ groupId items, isGrouped history item → history.groupId item = some groupId →
        history.isRegular item ∨ history.isScheduled item → groups.find? groupId = some items →
          Refreshable history items item →
            ∃ result, refreshMessage history groups item false = some (groups.set groupId result) ∧
              result.Perm (if item ∈ items then items else item :: items) ∧
              result.Pairwise fun first second => history.id first < history.id second := by
  constructor
  · intro justRefreshViews
    unfold refreshMessage
    split
    · split
      · split
        · rw [refreshItems_eq]
          split <;> rfl
        · rfl
      · rfl
    · rfl
  · intro groupId items grouped ofGroup sent found refreshable
    obtain ⟨result, refreshed, places⟩ := refreshItems_places refreshable
    refine ⟨result, ?_, places⟩
    rw [refreshMessage, if_pos grouped, if_pos (by simpa using sent)]
    simp only [ofGroup, Option.bind_some, found, Option.map_some, refreshed, Bool.false_eq_true,
      if_false]

/-- Messages with their ids, all of one group -/
def oneGroup : HistoryItems Nat Nat where
  id item := item
  groupId _ := some 7
  canBeGrouped _ := true
  isRegular _ := true
  isScheduled _ := false

/-- The message in the middle got a new id and is moved to the end. -/
theorem refreshMessage_sorts_moved :
    let groups := (∅ : FlatMap Nat (List Nat)).emplace 7 [1, 5, 3]
    ∃ result, refreshMessage oneGroup groups 5 false = some (groups.set 7 result) ∧
      result.Perm [1, 5, 3] ∧
        result.Pairwise fun first second => oneGroup.id first < oneGroup.id second := by
  intro groups
  have refreshable : Refreshable oneGroup [1, 5, 3] 5 := ⟨by decide, by decide⟩
  exact (refreshMessage_sorts groups 5).2 7 [1, 5, 3] rfl rfl (.inl rfl) rfl refreshable
end Groups

end TelegramDesktop
