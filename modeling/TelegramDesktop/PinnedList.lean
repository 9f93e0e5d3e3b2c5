import TelegramDesktop.FlatMap
import TelegramDesktop.MovingItems
import TelegramDesktop.Runs

/-!
# Pinned chats

A list of pinned chats keeps their order, and the entry of each of them caches its
position for the filter of the list, counted from one, as in
`dialogs/dialogs_pinned_list.cpp`.
-/

namespace TelegramDesktop

open List Function Option FlatMap

namespace Dialogs

/-- A key is the entry of a history or of a folder. -/
inductive Key
  | history (peerId : Nat)
  | folder (folderId : Nat)
  deriving DecidableEq

namespace Key

/-- `history()`, if it is one. -/
def history? : Key → Option Nat
  | .history peerId => some peerId
  | .folder _ => none

end Key

/-- `_pinnedIndex` of an entry.  The index zero is not stored. -/
abbrev PinnedIndex := FlatMap Int {index : Nat // 0 < index}

namespace PinnedIndex

/-- What `cachePinnedIndex` finds, zero where nothing is stored. -/
def cachedIndex (filterId : Int) (pinned : PinnedIndex) : Nat :=
  match pinned.find? filterId with
  | none => 0
  | some index => index

/-- The index of a pinned chat is kept in the chat. -/
def cachePinnedIndex (filterId : Int) (index : Nat) (pinned : PinnedIndex) : PinnedIndex :=
  let was := pinned.cachedIndex filterId
  if index = was then pinned
  else if positive : 0 < index then
    if was = 0 then pinned.emplace filterId ⟨index, positive⟩
    else pinned.set filterId ⟨index, positive⟩
  else pinned.erase filterId

theorem find?_of_lookup_eq_zero {filterId : Int} {pinned : PinnedIndex}
    (zero : pinned.cachedIndex filterId = 0) : pinned.find? filterId = none := by
  unfold cachedIndex at zero
  cases found : pinned.find? filterId with
  | none => rfl
  | some index =>
    rw [found] at zero
    exact absurd zero index.2.ne'

theorem lookup_cache (filterId : Int) (index : Nat) (pinned : PinnedIndex) (other : Int) :
    (pinned.cachePinnedIndex filterId index).cachedIndex other =
      if other = filterId then index else pinned.cachedIndex other := by
  unfold cachePinnedIndex
  dsimp only
  split
  next same =>
    split
    next own =>
      rw [own, same]
    · rfl
  · split
    · split
      next was =>
        have fresh : ∀ entry ∈ pinned.entries, entry.1 ≠ filterId := by
          rw [← FlatMap.contains_eq_false, FlatMap.contains, find?_of_lookup_eq_zero was]
          rfl
        split
        next own =>
          rw [own, cachedIndex, find?_emplace_self fresh]
        next distinct =>
          rw [cachedIndex, find?_emplace_of_ne fresh distinct]
          rfl
      · rw [cachedIndex, find?_set]
        by_cases own : other = filterId
        · rw [if_pos own, if_pos own]
        · rw [if_neg own, if_neg own]
          rfl
    next notPositive =>
      rw [cachedIndex, find?_erase]
      by_cases own : other = filterId
      · rw [if_pos own, if_pos own, Nat.eq_zero_of_not_pos notPositive]
      · rw [if_neg own, if_neg own]
        rfl

end PinnedIndex

/-- `cachePinnedIndex` of the entries in a row, from an index on. -/
def cacheFrom (filterId : Int) : Nat → List Key → (Key → PinnedIndex) → Key → PinnedIndex
  | _, [], entries => entries
  | index, key :: keys, entries =>
    cacheFrom filterId (index + 1) keys
      (Function.update entries key ((entries key).cachePinnedIndex filterId index))

end Dialogs

open Dialogs (Key PinnedIndex cacheFrom)

/-- A pinned list, with the indices that all the entries cache and with the keys that were
ever put in the list. -/
structure PinnedList where
  filterId : Int
  limit : Nat
  positive : 0 < limit
  data : List Key := []
  entries : Key → PinnedIndex
  everPinned : List Key := []

namespace PinnedList

/-- The index that the entry of a key caches for the filter of the list. -/
def cached (list : PinnedList) (key : Key) : Nat :=
  (list.entries key).cachedIndex list.filterId

def cachePinnedIndex (key : Key) (index : Nat) (list : PinnedList) : PinnedList :=
  { list with
    entries := Function.update list.entries key
      ((list.entries key).cachePinnedIndex list.filterId index) }

/-- The indexes are kept from a position on. -/
def cacheAll (index : Nat) (keys : List Key) (list : PinnedList) : PinnedList :=
  { list with entries := cacheFrom list.filterId index keys list.entries }

/-- `setPinned` with `false`.  The folder of an entry is known or not. -/
def unpin (folderKnown : Key → Bool) (key : Key) (list : PinnedList) : Option PinnedList :=
  if folderKnown key ∨ list.filterId ≠ 0 then
    let index := list.data.idxOf key
    if index ≠ list.data.length then
      let erased := { list with data := list.data.eraseIdx index }.cachePinnedIndex key 0
      some (erased.cacheAll (index + 1) (erased.data.drop index))
    else some list
  else none

/-- The loop of `applyLimit`, by the number of keys that are left. -/
def applyLimitLoop (folderKnown : Key → Bool) (limit : Nat) :
    Nat → PinnedList → Option PinnedList
  | 0, list => some list
  | left + 1, list =>
    if limit < list.data.length then
      list.data.getLast?.bind fun back =>
        (list.unpin folderKnown back).bind (applyLimitLoop folderKnown limit left)
    else some list

/-- What is pinned beyond the limit is unpinned. -/
def applyLimit (folderKnown : Key → Bool) (limit : Nat) (list : PinnedList) : Option PinnedList :=
  applyLimitLoop folderKnown limit list.data.length list

def setLimit (folderKnown : Key → Bool) (limit : Nat) (list : PinnedList) : Option PinnedList :=
  if positive : 0 < limit then
    if list.limit = limit then some list
    else { list with limit, positive }.applyLimit folderKnown limit
  else none

def addPinnedGetPosition (folderKnown : Key → Bool) (key : Key) (list : PinnedList) :
    Option (PinnedList × Nat) :=
  let already := list.data.idxOf key
  if already ≠ list.data.length then some (list, already)
  else
    (list.applyLimit folderKnown (list.limit - 1)).map fun list =>
      let position := list.data.length
      let added := { list with
        data := list.data ++ [key]
        everPinned := list.everPinned ++ [key] }
      (added.cachePinnedIndex key (position + 1), position)

/-- A chat is pinned after the others. -/
def addPinned (folderKnown : Key → Bool) (key : Key) (list : PinnedList) : Option PinnedList :=
  if folderKnown key then (list.addPinnedGetPosition folderKnown key).map Prod.fst else none

/-- `setPinned` with `true` -/
def pin (folderKnown : Key → Bool) (key : Key) (list : PinnedList) : Option PinnedList :=
  if folderKnown key ∨ list.filterId ≠ 0 then
    (list.addPinnedGetPosition folderKnown key).map fun (list, position) =>
      if position ≠ 0 then
        let rotated := { list with data := rotateRange list.data 0 position (position + 1) }
        rotated.cacheAll 1 (rotated.data.take (position + 1))
      else list
  else none

/-- A chat is pinned or unpinned. -/
def setPinned (folderKnown : Key → Bool) (key : Key) (pinned : Bool) (list : PinnedList) :
    Option PinnedList :=
  if pinned then list.pin folderKnown key else list.unpin folderKnown key

/-- Everything is unpinned. -/
def clear (folderKnown : Key → Bool) (list : PinnedList) : Option PinnedList :=
  list.applyLimit folderKnown 0

/-- One entry of a list of pinned chats from the server. -/
inductive DialogPeer
  | dialogPeer (peerId : Nat)
  | dialogPeerFolder (folderId : Nat)

def DialogPeer.key? : DialogPeer → Option Key
  | .dialogPeer peerId => if peerId = 0 then none else some (.history peerId)
  | .dialogPeerFolder folderId => some (.folder folderId)

def addPeers (folderKnown : Key → Bool) : List DialogPeer → PinnedList → Option PinnedList
  | [], list => some list
  | peer :: peers, list =>
    match peer.key? with
    | none => addPeers folderKnown peers list
    | some key => (list.addPinned folderKnown key).bind (addPeers folderKnown peers)

/-- The pinned chats as the server lists them. -/
def applyList (folderKnown : Key → Bool) (peers : List DialogPeer) (list : PinnedList) :
    Option PinnedList :=
  (list.clear folderKnown).bind (addPeers folderKnown peers)

/-- The keys that are not among the new ones are no longer pinned. -/
def forgetOld : List Key → PinnedList → PinnedList
  | [], list => list
  | key :: old, list =>
    if key.history?.isNone ∨ key.history? ∉ list.data.map Key.history? then
      forgetOld old (list.cachePinnedIndex key 0)
    else forgetOld old list

/-- `applyList` with histories -/
def applyHistories (histories : List Nat) (list : PinnedList) : Option PinnedList :=
  if list.filterId ≠ 0 then
    let keys := histories.map Key.history
    let placed := { list with data := keys, everPinned := list.everPinned ++ keys }.cacheAll 1 keys
    some (forgetOld list.data placed)
  else none

/-- Two pinned chats change places. -/
def reorder (key1 key2 : Key) (list : PinnedList) : Option PinnedList :=
  let index1 := list.data.idxOf key1
  let index2 := list.data.idxOf key2
  if index1 < list.data.length ∧ index2 < list.data.length ∧ index1 ≠ index2 then
    let swapped := { list with data := (list.data.set index1 key2).set index2 key1 }
    some ((swapped.cachePinnedIndex key1 (index2 + 1)).cachePinnedIndex key2 (index1 + 1))
  else none

/-- Lists from the server have no repetitions. -/
inductive Call
  | addPinned (key : Key)
  | setPinned (key : Key) (pinned : Bool)
  | setLimit (limit : Nat)
  | clear
  | applyList (peers : List DialogPeer) (distinct : peers.Nodup)
  | applyHistories (histories : List Nat) (distinct : histories.Nodup)
  | reorder (key1 key2 : Key)

/-- A call, and the entries whose folders are known at that time. -/
structure Event where
  folderKnown : Key → Bool
  call : Call

def step (list : PinnedList) (event : Event) : Option PinnedList :=
  match event.call with
  | .addPinned key => list.addPinned event.folderKnown key
  | .setPinned key pinned => list.setPinned event.folderKnown key pinned
  | .setLimit limit => list.setLimit event.folderKnown limit
  | .clear => list.clear event.folderKnown
  | .applyList peers _ => list.applyList event.folderKnown peers
  | .applyHistories histories _ => list.applyHistories histories
  | .reorder key1 key2 => list.reorder key1 key2

/-- `PinnedList(filterId, limit)` -/
def construct (filterId : Int) (limit : Nat) (positive : 0 < limit) (entries : Key → PinnedIndex) :
    PinnedList :=
  { filterId, limit, positive, entries }

/-- The pinned entries cache their positions, and those that are no longer pinned none. -/
structure Positions (list : PinnedList) : Prop where
  distinct : list.data.Nodup
  pinned : ∀ index key, list.data[index]? = some key → list.cached key = index + 1
  unpinned : ∀ key ∈ list.everPinned, key ∉ list.data → list.cached key = 0
  known : ∀ key ∈ list.data, key ∈ list.everPinned

variable {list next : PinnedList} {folderKnown : Key → Bool} {key : Key}

@[simp] theorem cached_cachePinnedIndex (key : Key) (index : Nat) (list : PinnedList) :
    (list.cachePinnedIndex key index).cached = update list.cached key index := by
  funext other
  unfold cached cachePinnedIndex
  by_cases same : other = key
  · subst same
    simp [Dialogs.PinnedIndex.lookup_cache]
  · simp [same]

theorem lookup_cacheFrom (filterId : Int) (index : Nat) (keys : List Key)
    (entries : Key → PinnedIndex) :
    (fun key => (cacheFrom filterId index keys entries key).cachedIndex filterId) =
      numberFrom (fun key => (entries key).cachedIndex filterId) index keys := by
  induction keys generalizing index entries with
  | nil => rfl
  | cons head keys ih =>
    rw [cacheFrom, ih, numberFrom]
    congr 1
    funext other
    by_cases same : other = head
    · subst same
      simp [Dialogs.PinnedIndex.lookup_cache]
    · simp [same]

@[simp] theorem cached_cacheAll (index : Nat) (keys : List Key) (list : PinnedList) :
    (list.cacheAll index keys).cached = numberFrom list.cached index keys :=
  lookup_cacheFrom list.filterId index keys list.entries

theorem Positions.erase (positions : list.Positions) (member : key ∈ list.data) :
    (({ list with
      data := list.data.eraseIdx (list.data.idxOf key) }.cachePinnedIndex key 0).cacheAll
      (list.data.idxOf key + 1)
      ((list.data.eraseIdx (list.data.idxOf key)).drop (list.data.idxOf key))).Positions := by
  have erased : list.data.eraseIdx (list.data.idxOf key) = list.data.erase key :=
    (erase_eq_eraseIdx_of_idxOf rfl).symm
  have distinct : (list.data.eraseIdx (list.data.idxOf key)).Nodup := by
    rw [erased]
    exact positions.distinct.erase key
  have gone : key ∉ list.data.eraseIdx (list.data.idxOf key) := by
    rw [erased]
    exact positions.distinct.not_mem_erase
  refine ⟨distinct, ?_, ?_, ?_⟩
  · intro index other found
    rw [cached_cacheAll, cached_cachePinnedIndex, Nat.add_comm _ 1,
      ← take_length (l := list.data.eraseIdx (list.data.idxOf key)),
      numberFrom_range distinct _ found, Nat.add_comm]
    intro index other found outside
    have present := (List.getElem?_eq_some_iff.mp found).1
    have differs : other ≠ key := by
      rintro rfl
      exact gone (mem_of_getElem? found)
    have before : index < list.data.idxOf key := by omega
    rw [getElem?_eraseIdx_of_lt before] at found
    rw [update_of_ne differs, Nat.add_comm]
    exact positions.pinned index other found
  · intro other ever absent
    have notBehind : other ∉ (list.data.eraseIdx (list.data.idxOf key)).drop
        (list.data.idxOf key) := fun behind => absent (mem_of_mem_drop behind)
    rw [cached_cacheAll, cached_cachePinnedIndex, numberFrom_of_notMem _ _ notBehind]
    by_cases same : other = key
    · rw [same, update_self]
    · rw [update_of_ne same]
      refine positions.unpinned other ever fun inData => absent ?_
      rw [erased]
      exact (mem_erase_of_ne same).mpr inData
  · intro other member
    exact positions.known other (mem_of_mem_eraseIdx member)

/-- The operation keeps the positions, and keeps some of the keys in their order. -/
structure Shrinks (list next : PinnedList) : Prop where
  positions : list.Positions → next.Positions
  fewer : next.data.Sublist list.data

theorem Shrinks.refl (list : PinnedList) : Shrinks list list := ⟨id, Sublist.refl _⟩

theorem Shrinks.trans {middle : PinnedList} (first : Shrinks list middle)
    (second : Shrinks middle next) : Shrinks list next :=
  ⟨fun positions => second.positions (first.positions positions), second.fewer.trans first.fewer⟩

theorem shrinks_unpin (taken : list.unpin folderKnown key = some next) : Shrinks list next := by
  unfold unpin at taken
  dsimp only at taken
  split at taken
  · split at taken
    next there =>
      have member : key ∈ list.data :=
        idxOf_lt_length_iff.mp (lt_of_le_of_ne idxOf_le_length there)
      cases taken
      exact ⟨fun positions => positions.erase member, eraseIdx_sublist _ _⟩
    · cases taken
      exact Shrinks.refl _
  · cases taken

theorem shrinks_applyLimitLoop {limit left : Nat}
    (taken : applyLimitLoop folderKnown limit left list = some next) : Shrinks list next := by
  induction left generalizing list with
  | zero =>
    cases taken
    exact Shrinks.refl _
  | succ left ih =>
    unfold applyLimitLoop at taken
    split at taken
    · obtain ⟨back, -, taken⟩ := bind_eq_some_iff.mp taken
      obtain ⟨middle, unpinned, rest⟩ := bind_eq_some_iff.mp taken
      exact (shrinks_unpin unpinned).trans (ih rest)
    · cases taken
      exact Shrinks.refl _

theorem Positions.append (positions : list.Positions) (fresh : key ∉ list.data) :
    ({ list with
      data := list.data ++ [key]
      everPinned := list.everPinned ++ [key] }.cachePinnedIndex key
        (list.data.length + 1)).Positions := by
  refine ⟨positions.distinct.append (nodup_singleton key) (by simpa using fresh), ?_, ?_, ?_⟩
  · intro index other found
    rw [cached_cachePinnedIndex]
    change (list.data ++ [key])[index]? = some other at found
    rcases lt_or_ge index list.data.length with inside | behind
    · rw [getElem?_append_left inside] at found
      have differs : other ≠ key := by
        rintro rfl
        exact fresh (mem_of_getElem? found)
      rw [update_of_ne differs]
      exact positions.pinned index other found
    · rw [getElem?_append_right behind] at found
      obtain ⟨last, rfl⟩ : index - list.data.length = 0 ∧ key = other := by
        simpa [getElem?_singleton] using found
      rw [update_self]
      omega
  · intro other ever absent
    change other ∉ list.data ++ [key] at absent
    rw [mem_append, not_or, mem_singleton] at absent
    rw [cached_cachePinnedIndex, update_of_ne absent.2]
    rcases mem_append.mp ever with before | new
    · exact positions.unpinned other before absent.1
    · exact absurd (mem_singleton.mp new) absent.2
  · intro other member
    rcases mem_append.mp member with before | new
    · exact mem_append_left _ (positions.known other before)
    · exact mem_append_right _ new

theorem Positions.addPinnedGetPosition (positions : list.Positions) {position : Nat}
    (taken : list.addPinnedGetPosition folderKnown key = some (next, position)) :
    next.Positions ∧ position < next.data.length := by
  unfold PinnedList.addPinnedGetPosition at taken
  dsimp only at taken
  split at taken
  next there =>
    cases taken
    exact ⟨positions, lt_of_le_of_ne idxOf_le_length there⟩
  next absent =>
    obtain ⟨limited, shrunk, made⟩ := map_eq_some_iff.mp taken
    have shrinks := shrinks_applyLimitLoop shrunk
    cases made
    have fresh : key ∉ limited.data := by
      intro member
      have there := idxOf_lt_length_iff.mpr (shrinks.fewer.subset member)
      exact absent there.ne
    refine ⟨(shrinks.positions positions).append fresh, ?_⟩
    change limited.data.length < (limited.data ++ [key]).length
    simp

theorem Positions.rotate (positions : list.Positions) {position : Nat}
    (inside : position < list.data.length) :
    ({ list with data := rotateRange list.data 0 position (position + 1) }.cacheAll 1
      ((rotateRange list.data 0 position (position + 1)).take (position + 1))).Positions := by
  have perm : (rotateRange list.data 0 position (position + 1)).Perm list.data :=
    rotateRange_perm (Nat.zero_le _) (Nat.le_succ _) inside
  have distinct := perm.nodup_iff.mpr positions.distinct
  refine ⟨distinct, ?_, ?_, fun other member => positions.known other (perm.mem_iff.mp member)⟩
  · intro index other found
    rw [cached_cacheAll]
    have numbered : numberFrom list.cached (1 + 0)
        (((rotateRange list.data 0 position (position + 1)).take (position + 1)).drop 0) other =
        1 + index := by
      refine numberFrom_range distinct ?_ found
      intro index other found outside
      rw [getElem?_rotateRange (Nat.zero_le _) (Nat.le_succ _) inside outside] at found
      rw [positions.pinned index other found, Nat.add_comm]
    rw [drop_zero, Nat.add_comm 1 index] at numbered
    exact numbered
  · intro other ever absent
    have notTaken : other ∉ (rotateRange list.data 0 position (position + 1)).take (position + 1) :=
      fun front => absent (mem_of_mem_take front)
    rw [cached_cacheAll, numberFrom_of_notMem _ _ notTaken]
    exact positions.unpinned other ever fun member => absent (perm.mem_iff.mpr member)

section

variable (positions : list.Positions)
include positions

theorem Positions.pin (taken : list.pin folderKnown key = some next) : next.Positions := by
  unfold PinnedList.pin at taken
  split at taken
  · obtain ⟨⟨added, position⟩, found, made⟩ := map_eq_some_iff.mp taken
    obtain ⟨positions, inside⟩ := positions.addPinnedGetPosition found
    dsimp only at made
    split at made
    · cases made
      exact positions.rotate inside
    · cases made
      exact positions
  · cases taken

theorem Positions.setPinned {pinned : Bool}
    (taken : list.setPinned folderKnown key pinned = some next) : next.Positions := by
  cases pinned with
  | true => exact positions.pin taken
  | false => exact (shrinks_unpin taken).positions positions

theorem Positions.addPinned (taken : list.addPinned folderKnown key = some next) :
    next.Positions := by
  unfold PinnedList.addPinned at taken
  split at taken
  · obtain ⟨⟨added, position⟩, found, rfl⟩ := map_eq_some_iff.mp taken
    exact (positions.addPinnedGetPosition found).1
  · cases taken

theorem Positions.setLimit {limit : Nat} (taken : list.setLimit folderKnown limit = some next) :
    next.Positions := by
  unfold PinnedList.setLimit at taken
  split at taken
  · split at taken
    · cases taken
      exact positions
    next positive _ =>
      have same : { list with limit, positive }.Positions :=
        { positions with }
      exact (shrinks_applyLimitLoop taken).positions same
  · cases taken

theorem Positions.applyList {peers : List DialogPeer}
    (taken : list.applyList folderKnown peers = some next) : next.Positions := by
  obtain ⟨cleared, shrunk, added⟩ := bind_eq_some_iff.mp taken
  have start := (shrinks_applyLimitLoop shrunk).positions positions
  clear taken shrunk
  induction peers generalizing cleared with
  | nil =>
    cases added
    exact start
  | cons peer peers ih =>
    unfold addPeers at added
    cases isKey : peer.key? with
    | none =>
      rw [isKey] at added
      exact ih cleared added start
    | some key =>
      rw [isKey] at added
      obtain ⟨middle, one, rest⟩ := bind_eq_some_iff.mp added
      exact ih middle rest (start.addPinned one)

end

theorem history?_notMem_iff (histories : List Nat) (key : Key) :
    (key.history?.isNone = true ∨ key.history? ∉ (histories.map Key.history).map Key.history?) ↔
      key ∉ histories.map Key.history := by
  cases key <;> simp [Key.history?]

theorem data_forgetOld (old : List Key) (list : PinnedList) :
    (forgetOld old list).data = list.data ∧ (forgetOld old list).everPinned = list.everPinned := by
  induction old generalizing list with
  | nil => exact ⟨rfl, rfl⟩
  | cons head old ih =>
    unfold forgetOld
    split
    · exact ih _
    · exact ih _

theorem cached_forgetOld {histories : List Nat} {old : List Key} {list : PinnedList}
    (data : list.data = histories.map Key.history) (key : Key) :
    (forgetOld old list).cached key =
      if key ∈ old ∧ key ∉ list.data then 0 else list.cached key := by
  induction old generalizing list with
  | nil => simp [forgetOld]
  | cons head old ih =>
    have gone := history?_notMem_iff histories head
    rw [← data] at gone
    unfold forgetOld
    split
    next isGone =>
      have absent := gone.mp isGone
      have rest := @ih (list.cachePinnedIndex head 0) data
      rw [rest, cached_cachePinnedIndex]
      change (if key ∈ old ∧ key ∉ list.data then 0 else _) = _
      by_cases same : key = head
      · subst same
        simp [absent]
      · simp [same]
    next isKept =>
      have present : head ∈ list.data := by
        by_contra absent
        exact isKept (gone.mpr absent)
      rw [ih data]
      by_cases same : key = head
      · subst same
        simp [present]
      · simp [same]

theorem Positions.applyHistories (positions : list.Positions) {histories : List Nat}
    (distinct : histories.Nodup) (taken : list.applyHistories histories = some next) :
    next.Positions := by
  unfold PinnedList.applyHistories at taken
  split at taken
  · cases taken
    have keysDistinct : (histories.map Key.history).Nodup :=
      distinct.map fun first second same => Key.history.inj same
    let placed := { list with
      data := histories.map Key.history
      everPinned := list.everPinned ++ histories.map Key.history }.cacheAll 1
        (histories.map Key.history)
    have data : placed.data = histories.map Key.history := rfl
    have cached : placed.cached = numberFrom list.cached 1 (histories.map Key.history) :=
      cached_cacheAll _ _ _
    obtain ⟨sameData, sameEver⟩ := data_forgetOld list.data placed
    refine ⟨?_, ?_, ?_, ?_⟩
    · rw [sameData]
      exact keysDistinct
    · intro index key found
      rw [sameData, data] at found
      have present := mem_of_getElem? found
      rw [cached_forgetOld data, if_neg fun gone => gone.2 (data ▸ present), cached,
        numberFrom_of_getElem? _ _ keysDistinct found, Nat.add_comm]
    · intro key ever absent
      rw [sameData] at absent
      rw [sameEver] at ever
      rw [cached_forgetOld data, cached]
      split
      · rfl
      next notOld =>
        rw [data] at absent notOld
        have notBefore : key ∉ list.data := fun before => notOld ⟨before, absent⟩
        rw [numberFrom_of_notMem _ _ absent]
        rcases mem_append.mp ever with before | new
        · exact positions.unpinned key before notBefore
        · exact absurd new absent
    · intro key member
      rw [sameData] at member
      rw [sameEver]
      exact mem_append_right _ member
  · cases taken

theorem Positions.reorder (positions : list.Positions) {key1 key2 : Key}
    (taken : list.reorder key1 key2 = some next) : next.Positions := by
  unfold PinnedList.reorder at taken
  dsimp only at taken
  split at taken
  next asserts =>
    obtain ⟨first, second, differ⟩ := asserts
    cases taken
    have atFirst := getElem_idxOf first
    have atSecond := getElem_idxOf second
    have perm := set_set_perm first second
    rw [atFirst, atSecond] at perm
    have keysDiffer : key1 ≠ key2 := by
      rintro rfl
      exact differ rfl
    refine ⟨perm.nodup_iff.mpr positions.distinct, ?_, ?_, ?_⟩
    · intro index key found
      rw [cached_cachePinnedIndex, cached_cachePinnedIndex]
      change ((list.data.set (list.data.idxOf key1) key2).set (list.data.idxOf key2) key1)[index]? =
        some key at found
      by_cases isSecond : index = list.data.idxOf key2
      · subst isSecond
        rw [getElem?_set_self (by simpa using second), some.injEq] at found
        rw [← found, update_of_ne keysDiffer, update_self]
      · rw [getElem?_set_ne (Ne.symm isSecond)] at found
        by_cases isFirst : index = list.data.idxOf key1
        · subst isFirst
          rw [getElem?_set_self first, some.injEq] at found
          rw [← found, update_self]
        · rw [getElem?_set_ne (Ne.symm isFirst)] at found
          have elsewhere : ∀ other, index ≠ list.data.idxOf other → key ≠ other := by
            rintro other away rfl
            have inside := (List.getElem?_eq_some_iff.mp found).1
            have atKey := getElem?_idxOf (mem_of_getElem? found)
            exact away ((getElem?_inj inside positions.distinct).mp (found.trans atKey.symm))
          rw [update_of_ne (elsewhere key2 isSecond), update_of_ne (elsewhere key1 isFirst)]
          exact positions.pinned index key found
    · intro key ever absent
      have notThere : key ∉ list.data := fun member => absent (perm.mem_iff.mpr member)
      have notFirst : key ≠ key1 := by
        rintro rfl
        exact notThere (idxOf_lt_length_iff.mp first)
      have notSecond : key ≠ key2 := by
        rintro rfl
        exact notThere (idxOf_lt_length_iff.mp second)
      rw [cached_cachePinnedIndex, cached_cachePinnedIndex, update_of_ne notSecond,
        update_of_ne notFirst]
      exact positions.unpinned key ever notThere
    · intro key member
      exact positions.known key (perm.mem_iff.mp member)
  · cases taken

/-- Every operation keeps the cached positions right. -/
theorem Positions.step (positions : list.Positions) {event : Event}
    (taken : list.step event = some next) : next.Positions := by
  unfold PinnedList.step at taken
  cases call : event.call with
  | addPinned key =>
    rw [call] at taken
    exact positions.addPinned taken
  | setPinned key pinned =>
    rw [call] at taken
    exact positions.setPinned taken
  | setLimit limit =>
    rw [call] at taken
    exact positions.setLimit taken
  | clear =>
    rw [call] at taken
    exact (shrinks_applyLimitLoop taken).positions positions
  | applyList peers distinct =>
    rw [call] at taken
    exact positions.applyList taken
  | applyHistories histories distinct =>
    rw [call] at taken
    exact positions.applyHistories distinct taken
  | reorder key1 key2 =>
    rw [call] at taken
    exact positions.reorder taken

theorem positions_construct (filterId : Int) (limit : Nat) (positive : 0 < limit)
    (entries : Key → PinnedIndex) : (construct filterId limit positive entries).Positions where
  distinct := nodup_nil
  pinned _ _ found := absurd found (by simp [construct])
  unpinned _ ever := absurd ever not_mem_nil
  known _ member := absurd member not_mem_nil

/-- In every state that a run reaches the keys are distinct, the entry at a position caches
it counted from one, and the entries that are no longer pinned cache nothing. -/
theorem pinned_cachePositions (filterId : Int) (limit : Nat) (positive : 0 < limit)
    (entries : Key → PinnedIndex) (events : List Event) :
    RunKeeps step
      (fun list => list.data.Nodup ∧
        (∀ index key, list.data[index]? = some key → list.cached key = index + 1) ∧
        ∀ key ∈ list.everPinned, key ∉ list.data → list.cached key = 0)
      (construct filterId limit positive entries) events := by
  have keeps : RunKeeps step Positions (construct filterId limit positive entries) events :=
    runKeeps_invariant (fun _ _ _ positions taken => positions.step taken) events
      (positions_construct filterId limit positive entries)
  exact keeps.mono fun list positions =>
    ⟨positions.distinct, positions.pinned, positions.unpinned⟩

/-- The third key does not fit, and the last one leaves. -/
theorem pinned_cachePositions_three :
    let start := construct 0 2 (by decide) fun _ => ∅
    let events := [Key.history 1, .folder 1, .history 2].map fun key =>
      { folderKnown := fun _ => true, call := .setPinned key true : Event }
    (run step start events).map PinnedList.data = some [.history 2, .folder 1] ∧
      RunKeeps step (fun list => list.data.Nodup ∧
          (∀ index key, list.data[index]? = some key → list.cached key = index + 1) ∧
          ∀ key ∈ list.everPinned, key ∉ list.data → list.cached key = 0)
        start events :=
  ⟨by decide, pinned_cachePositions 0 2 (by decide) (fun _ => ∅) _⟩

end PinnedList

end TelegramDesktop
