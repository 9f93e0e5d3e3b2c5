import Mathlib.Data.Finset.Card

/-!
# Chat folders

A folder is a filter with rules, and the chats its rules select are kept in a list of
their own: a chat is added to it or taken from it when the rules change.
-/

namespace TelegramDesktop.ChatFolders

abbrev FilterId := Int

/-- A history, by the number of its peer. -/
abbrev History := Nat

/-- The kinds of chats that a filter may include or leave out. -/
inductive Flag
  | contacts
  | nonContacts
  | groups
  | channels
  | bots
  | noMuted
  | noRead
  | noArchived
  deriving DecidableEq, Repr

def Flag.all : List Flag :=
  [.contacts, .nonContacts, .groups, .channels, .bots, .noMuted, .noRead, .noArchived]

/-- The peer of a history, with what a filter asks about it. -/
inductive Peer
  | user (isBot isContact : Bool)
  | chat
  | channel (isBroadcast : Bool)
  deriving DecidableEq, Repr

/-- What `ChatFilter::contains` asks of a history. -/
structure HistoryData where
  peer : Peer
  mute : Bool
  unreadMentions : Bool
  folderKnown : Bool
  /-- Whether the history lies in the archive -/
  folder : Bool
  unreadCount : Nat
  unreadMark : Bool
  fakeUnreadWhileOpened : Bool
  deriving DecidableEq, Repr

/-- A folder: the kinds of chats in it, and the chats that are named one by one. -/
structure ChatFilter where
  id : FilterId
  title : String
  iconEmoji : String
  flags : Finset Flag
  always : Finset History
  pinned : List History
  never : Finset History
  deriving DecidableEq

namespace ChatFilter

/-- A filter of this id without rules, as it is inserted and as it is removed. -/
def withoutRules (id : FilterId) : ChatFilter := ⟨id, "", "", ∅, ∅, [], ∅⟩

/-- The filter that shows all the chats: it is never asked for its rules. -/
def default : ChatFilter := withoutRules 0

end ChatFilter

/-- The histories, of which some are listed, and the limits of the account. -/
structure World where
  data : History → HistoryData
  /-- The rows of the main list and then those of the archive -/
  listed : List History
  nodup : listed.Nodup
  pinnedChatsLimit : FilterId → Nat

/-- The flag that a filter has for such peers. -/
def Peer.flag : Peer → Flag
  | .user isBot isContact => if isBot then .bots else if isContact then .contacts else .nonContacts
  | .chat => .groups
  | .channel isBroadcast => if isBroadcast then .channels else .groups

def ChatFilter.contains (world : World) (filter : ChatFilter) (history : History) : Bool :=
  let data := world.data history
  if history ∈ filter.never then
    false
  else
    (decide (data.peer.flag ∈ filter.flags)
        && (!decide (.noMuted ∈ filter.flags) || !data.mute
          || (data.unreadMentions && data.folderKnown && !data.folder))
        && (!decide (.noRead ∈ filter.flags) || decide (data.unreadCount ≠ 0) || data.unreadMark
          || data.unreadMentions || data.fakeUnreadWhileOpened)
        && (!decide (.noArchived ∈ filter.flags) || (data.folderKnown && !data.folder)))
      || decide (history ∈ filter.always)

/-- A filter as it is received; a peer of a kind that has no history is `none`. -/
inductive DialogFilter
  | dialogFilter (is : Flag → Bool) (id : FilterId) (title : String) (emoticon : Option String)
      (pinnedPeers includePeers excludePeers : List (Option History))
  | dialogFilterDefault

def ChatFilter.fromTL : DialogFilter → ChatFilter
  | .dialogFilter is id title emoticon pinnedPeers includePeers excludePeers =>
    let pinned := pinnedPeers.reduceOption
    { id
      title
      iconEmoji := emoticon.getD ""
      flags := (Flag.all.filter is).toFinset
      always := (includePeers.reduceOption ++ pinned).toFinset
      pinned
      never := (excludePeers.reduceOption).toFinset }
  | .dialogFilterDefault => ChatFilter.default

/-- What an entry is asked for the list of a filter. -/
inductive Call
  | addToChatList (id : FilterId) (history : History)
  | removeFromChatList (id : FilterId) (history : History)
  deriving DecidableEq, Repr

/-- The folders, with what the lists and the entries of the chats record of them. -/
structure ChatFilters where
  /-- `_list` -/
  list : List ChatFilter
  /-- `_chatListLinks` of every entry -/
  links : Finset (FilterId × History)
  /-- The rows of `_chatsLists` -/
  rows : Finset (FilterId × History)
  /-- `_pinnedIndex` of every entry, zero where there is none -/
  pinnedIndex : FilterId → History → Nat
  /-- `_data` of the pinned list of every filter; that of the main list has the id zero -/
  pinned : FilterId → List History
  /-- What the entries have been asked so far -/
  calls : List Call

namespace ChatFilters

/-- The filters as they are created, with these chats listed. -/
def initial (world : World) : ChatFilters where
  list := [ChatFilter.default]
  links := (world.listed.map fun history => ((0 : FilterId), history)).toFinset
  rows := ∅
  pinnedIndex := fun _ _ => 0
  pinned := fun _ => []
  calls := []

def addToChatList (filters : ChatFilters) (history : History) (id : FilterId) : ChatFilters :=
  let filters := { filters with calls := filters.calls ++ [.addToChatList id history] }
  if (id, history) ∈ filters.links then filters
  else
    { filters with
      links := insert (id, history) filters.links
      rows := insert (id, history) filters.rows }

section Refreshing

variable (remove : ChatFilters → History → FilterId → Option ChatFilters)
  (world : World) (filters : ChatFilters)

/-- One round of the loop of `refreshChatListEntry` -/
def refreshInFilter (history : History) (filter : ChatFilter) : Option ChatFilters :=
  if filter.id = 0 then some filters
  else if filter.contains world history then
    if (filter.id, history) ∈ filters.links then some filters
    else some (filters.addToChatList history filter.id)
  else if (filter.id, history) ∈ filters.links then remove filters history filter.id
  else some filters

/-- Every filter decides whether the chat is in it. -/
def refreshChatListEntry (history : History) : Option ChatFilters :=
  filters.list.foldlM
    (fun filters filter => refreshInFilter remove world filters history filter) filters

/-- The position in the main list does not depend on the folders, so a chat that is listed
is refreshed and nothing else happens. -/
def updateChatListSortPosition (history : History) : Option ChatFilters :=
  if ((0 : FilterId), history) ∈ filters.links then
    refreshChatListEntry remove world filters history
  else some filters

def cachePinnedIndex (history : History) (id : FilterId) (index : Nat) : Option ChatFilters :=
  if index = filters.pinnedIndex id history then some filters
  else
    updateChatListSortPosition remove world
      { filters with
        pinnedIndex := Function.update filters.pinnedIndex id
          (Function.update (filters.pinnedIndex id) history index) } history

/-- One round of the loop over the chats pinned after the one that is unpinned -/
def cacheMoved (id : FilterId) (index : Nat) : Option ChatFilters :=
  (filters.pinned id)[index]?.bind fun history =>
    cachePinnedIndex remove world filters history id (index + 1)

/-- `PinnedList::setPinned` that unpins: the loop counts the chats before it starts, and a
place that is not there any more is out of bounds. -/
def unpin (history : History) (id : FilterId) : Option ChatFilters :=
  let data := filters.pinned id
  if history ∈ data then
    let index := data.idxOf history
    let filters := { filters with
      pinned := Function.update filters.pinned id (data.eraseIdx index) }
    (cachePinnedIndex remove world filters history id 0).bind fun filters =>
      let count := (filters.pinned id).length
      if count < index then none
      else
        (List.range' index (count - index)).foldlM
          (fun filters index => cacheMoved remove world filters id index) filters
  else some filters

/-- `PinnedList::applyList` -/
def applyList (id : FilterId) (list : List History) : Option ChatFilters :=
  if id = 0 then none
  else
    let old := filters.pinned id
    let filters := { filters with pinned := Function.update filters.pinned id [] }
    (list.foldlM
      (fun filters history =>
        let data := filters.pinned id ++ [history]
        cachePinnedIndex remove world
          { filters with pinned := Function.update filters.pinned id data } history id data.length)
      filters).bind fun filters =>
    old.foldlM
      (fun filters history =>
        if history ∈ filters.pinned id then some filters
        else cachePinnedIndex remove world filters history id 0)
      filters

end Refreshing

/-- Leaving a list unpins, and what is unpinned is refreshed before it has left. -/
def removeFromChatList (world : World) :
    Nat → ChatFilters → History → FilterId → Option ChatFilters
  | 0, _, _, _ => none
  | depth + 1, filters, history, id =>
    let filters := { filters with calls := filters.calls ++ [.removeFromChatList id history] }
    (if filters.pinnedIndex id history ≠ 0 then
        unpin (removeFromChatList world depth) world filters history id
      else some filters).bind fun filters =>
    some (if (id, history) ∈ filters.links then
        { filters with
          links := filters.links.erase (id, history)
          rows := filters.rows.erase (id, history) }
      else filters)

section Changing

variable (depth : Nat) (world : World) (filters : ChatFilters)

/-- One chat is put into the list of a filter or taken out, as the new filter says. -/
def feedHistory (filter updated : ChatFilter) (history : History) : Option ChatFilters :=
  let now := updated.contains world history
  let was := filter.contains world history
  if now = was then some filters
  else if now then some (filters.addToChatList history filter.id)
  else removeFromChatList world depth filters history filter.id

/-- `applyChange` to the filter at this position -/
def applyChange (position : Nat) (updated : ChatFilter) : Option ChatFilters :=
  filters.list[position]?.bind fun filter =>
    if filter.id ≠ updated.id then none
    else
      let rulesChanged := filter.always ≠ updated.always ∨ filter.flags ≠ updated.flags
        ∨ filter.never ≠ updated.never
      let pinnedChanged := filter.pinned ≠ updated.pinned
      if ¬rulesChanged ∧ ¬pinnedChanged ∧ filter.title = updated.title
          ∧ filter.iconEmoji = updated.iconEmoji then
        some filters
      else
        (if rulesChanged then
            world.listed.foldlM
              (fun filters history => feedHistory depth world filters filter updated history)
              filters
          else some filters).bind fun filters =>
        let filters := { filters with list := filters.list.set position updated }
        if pinnedChanged then
          applyList (removeFromChatList world depth) world filters filter.id updated.pinned
        else some filters

/-- A filter is inserted, and all chats are fed to it. -/
def applyInsert (filter : ChatFilter) (position : Nat) : Option ChatFilters :=
  if filters.list.length < position then none
  else
    applyChange depth world
      { filters with
        list := filters.list.insertIdx position (ChatFilter.withoutRules filter.id) }
      position filter

/-- A filter is emptied and removed. -/
def applyRemove (position : Nat) : Option ChatFilters :=
  filters.list[position]?.bind fun filter =>
    (applyChange depth world filters position (ChatFilter.withoutRules filter.id)).map
      fun filters => { filters with list := filters.list.eraseIdx position }

end Changing

section Finding

variable {α : Type*} (key : α → FilterId)

/-- `ranges::find` by the id -/
def findId (list : List α) (id : FilterId) : Option Nat :=
  list.findIdx? fun entry => key entry = id

/-- The position of an id from another position on. -/
def findIdFrom (list : List α) (position : Nat) (id : FilterId) : Option Nat :=
  (findId key (list.drop position) id).map (position + ·)

/-- `std::swap` of two places -/
def swapAt (list : List α) (first second : Nat) : List α :=
  match list[first]?, list[second]? with
  | some one, some other => (list.set first other).set second one
  | _, _ => list

/-- The loop of `applyOrder` from a position on: the entry of each id in turn is brought
there, or it is not found. -/
def reorder : List FilterId → Nat → List α → Option (List α)
  | [], _, list => some list
  | id :: order, position, list =>
    (findIdFrom key list position id).bind fun found =>
      reorder order (position + 1)
        (if found = position then list else swapAt list found position)

end Finding

section Applying

variable (depth : Nat) (world : World) (filters : ChatFilters)

/-- One round of the first loop of `received` -/
def receiveAt (position : Nat) (parsed : ChatFilter) : Option ChatFilters :=
  match findIdFrom ChatFilter.id filters.list position parsed.id with
  | none => applyInsert depth world filters parsed position
  | some found =>
    if found = position then applyChange depth world filters position parsed
    else
      applyChange depth world
        { filters with list := swapAt filters.list found position } position parsed

/-- The loop over the received filters, which moves each one to its position. -/
def receiveFrom : Nat → ChatFilters → List ChatFilter → Option ChatFilters
  | _, filters, [] => some filters
  | position, filters, parsed :: list =>
    (receiveAt depth world filters position parsed).bind fun filters =>
      receiveFrom (position + 1) filters list

/-- The second loop of `received`, which runs this many times -/
def removeFrom (position : Nat) : Nat → ChatFilters → Option ChatFilters
  | 0, filters => some filters
  | count + 1, filters =>
    (applyRemove depth world filters position).bind fun filters => removeFrom position count filters

/-- The filter of all chats is put first where there is none. -/
def withDefault : ChatFilters :=
  if (0 : FilterId) ∈ filters.list.map ChatFilter.id then filters
  else { filters with list := ChatFilter.default :: filters.list }

def received (list : List DialogFilter) : Option ChatFilters :=
  (receiveFrom depth world 0 filters (list.map ChatFilter.fromTL)).bind fun filters =>
    (removeFrom depth world list.length (filters.list.length - list.length) filters).map withDefault

def set (filter : ChatFilter) : Option ChatFilters :=
  if filter.id = 0 then some filters
  else
    match findId ChatFilter.id filters.list filter.id with
    | none => applyInsert depth world filters filter filters.list.length
    | some position => applyChange depth world filters position filter

def remove (id : FilterId) : Option ChatFilters :=
  match findId ChatFilter.id filters.list id with
  | none => some filters
  | some position => applyRemove depth world filters position

/-- The order is tried on the ids alone first, and an order that does not fit is rejected. -/
def applyOrder (order : List FilterId) : Option ChatFilters :=
  if order.length ≠ filters.list.length then some filters
  else if filters.list.isEmpty then some filters
  else
    match reorder (fun id => id) order 0 (filters.list.map ChatFilter.id) with
    | none => some filters
    | some _ =>
      (reorder ChatFilter.id order 0 filters.list).map fun list => { filters with list }

/-- The loop of `applyUpdatedPinned`: what is pinned and what is always shown -/
def updatedPinned (limit : Nat) (always : Finset History) :
    List (Option History) → Finset History × List History
  | [] => (always, [])
  | none :: dialogs => updatedPinned limit always dialogs
  | some history :: dialogs =>
    if history ∈ always then
      let (always, pinned) := updatedPinned limit always dialogs
      (always, history :: pinned)
    else if always.card < limit then
      let (always, pinned) := updatedPinned limit (insert history always) dialogs
      (always, history :: pinned)
    else updatedPinned limit always dialogs

/-- The filter with the chats that an update pins. -/
def ofUpdatedPinned (filter : ChatFilter) (dialogs : List (Option History)) : ChatFilter :=
  let (always, pinned) := updatedPinned (world.pinnedChatsLimit filter.id) filter.always dialogs
  { filter with always, pinned }

def applyUpdatedPinned (id : FilterId) (dialogs : List (Option History)) : Option ChatFilters :=
  (findId ChatFilter.id filters.list id).bind fun position =>
    filters.list[position]?.bind fun filter =>
      set depth world filters (ofUpdatedPinned world filter dialogs)

/-- What changes the folders: an answer or an update of the server, or the user. -/
inductive Event
  | received (list : List DialogFilter)
  | set (filter : ChatFilter)
  | remove (id : FilterId)
  | applyOrder (order : List FilterId)
  | applyUpdatedPinned (id : FilterId) (dialogs : List (Option History))

def step (filters : ChatFilters) : Event → Option ChatFilters
  | .received list => received depth world filters list
  | .set filter => set depth world filters filter
  | .remove id => remove depth world filters id
  | .applyOrder order => applyOrder filters order
  | .applyUpdatedPinned id dialogs => applyUpdatedPinned depth world filters id dialogs

end Applying

end ChatFilters

end TelegramDesktop.ChatFolders
