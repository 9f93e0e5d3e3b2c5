import TelegramDesktop.ChatFolderListRuns

/-!
# The list of folders beside their rows

The chats that enter and leave the folders never touch the list of folders, so each event
does to it what it does where there are no rows.
-/

namespace TelegramDesktop.ChatFolders

open Option

namespace ChatFilters

variable {world : World} {filters next : ChatFilters} {filter updated : ChatFilter}
  {position depth : Nat} {id : FilterId} {history : History}

/-- This part of a change is about the rows only. -/
def LeavesList (part : Option ChatFilters) (filters : ChatFilters) : Prop :=
  ∀ next, part = some next → next.list = filters.list

theorem leavesList_some (same : next.list = filters.list) : LeavesList (some next) filters := by
  rintro _ ⟨⟩
  exact same

theorem leavesList_none : LeavesList none filters := by
  rintro _ ⟨⟩

theorem LeavesList.bind {part : Option ChatFilters} {rest : ChatFilters → Option ChatFilters}
    (first : LeavesList part filters) (second : ∀ middle, LeavesList (rest middle) middle) :
    LeavesList (part.bind rest) filters := by
  intro last taken
  obtain ⟨middle, before, after⟩ := bind_eq_some_iff.mp taken
  rw [second middle last after, first middle before]

theorem LeavesList.foldlM {α : Type*} {part : ChatFilters → α → Option ChatFilters}
    (each : ∀ filters entry, LeavesList (part filters entry) filters) (entries : List α)
    (filters : ChatFilters) : LeavesList (entries.foldlM part filters) filters := by
  induction entries generalizing filters with
  | nil => exact leavesList_some rfl
  | cons entry entries ih =>
    rw [List.foldlM_cons]
    exact (each filters entry).bind ih

theorem list_addToChatList (filters : ChatFilters) (history : History) (id : FilterId) :
    (filters.addToChatList history id).list = filters.list := by
  unfold addToChatList
  dsimp only
  split
  · rfl
  · rfl

section Refreshing

variable {remove : ChatFilters → History → FilterId → Option ChatFilters}
  (leaves : ∀ filters history id, LeavesList (remove filters history id) filters)

include leaves

theorem leavesList_refreshInFilter (filters : ChatFilters) (filter : ChatFilter) :
    LeavesList (refreshInFilter remove world filters history filter) filters := by
  unfold refreshInFilter
  split
  · exact leavesList_some rfl
  split
  · split
    · exact leavesList_some rfl
    · exact leavesList_some (list_addToChatList _ _ _)
  split
  · exact leaves _ _ _
  · exact leavesList_some rfl

theorem leavesList_updateChatListSortPosition (filters : ChatFilters) (history : History) :
    LeavesList (updateChatListSortPosition remove world filters history) filters := by
  unfold updateChatListSortPosition refreshChatListEntry
  split
  · exact LeavesList.foldlM (fun filters filter => leavesList_refreshInFilter leaves filters filter)
      _ _
  · exact leavesList_some rfl

theorem leavesList_cachePinnedIndex (filters : ChatFilters) (history : History) (id : FilterId)
    (index : Nat) :
    LeavesList (cachePinnedIndex remove world filters history id index) filters := by
  unfold cachePinnedIndex
  split
  · exact leavesList_some rfl
  · exact leavesList_updateChatListSortPosition leaves _ history

theorem leavesList_unpin (filters : ChatFilters) (history : History) (id : FilterId) :
    LeavesList (unpin remove world filters history id) filters := by
  unfold unpin
  dsimp only
  split
  · refine LeavesList.bind (leavesList_cachePinnedIndex leaves _ history id 0) fun middle => ?_
    split
    · exact leavesList_none
    · refine LeavesList.foldlM (fun filters index => ?_) _ _
      unfold cacheMoved
      cases (filters.pinned id)[index]? with
      | none => exact leavesList_none
      | some moved => exact leavesList_cachePinnedIndex leaves _ _ _ _
  · exact leavesList_some rfl

theorem leavesList_applyList (filters : ChatFilters) (id : FilterId) (list : List History) :
    LeavesList (applyList remove world filters id list) filters := by
  unfold applyList
  split
  · exact leavesList_none
  refine LeavesList.bind (LeavesList.foldlM (fun filters history => ?_) _ _) fun middle =>
    LeavesList.foldlM (fun filters history => ?_) _ _
  · exact leavesList_cachePinnedIndex leaves _ _ _ _
  · split
    · exact leavesList_some rfl
    · exact leavesList_cachePinnedIndex leaves _ _ _ _

end Refreshing

theorem leavesList_removeFromChatList (world : World) (depth : Nat) (filters : ChatFilters)
    (history : History) (id : FilterId) :
    LeavesList (removeFromChatList world depth filters history id) filters := by
  induction depth generalizing filters history id with
  | zero => exact leavesList_none
  | succ depth ih =>
    refine LeavesList.bind ?_ fun middle => leavesList_some ?_
    · split
      · exact leavesList_unpin ih _ history id
      · exact leavesList_some rfl
    · split
      · rfl
      · rfl

theorem leavesList_feedHistory (filters : ChatFilters) (filter updated : ChatFilter)
    (history : History) :
    LeavesList (feedHistory depth world filters filter updated history) filters := by
  unfold feedHistory
  dsimp only
  split
  · exact leavesList_some rfl
  split
  · exact leavesList_some (list_addToChatList _ _ _)
  · exact leavesList_removeFromChatList world depth filters history filter.id

theorem applyChange_list (taken : applyChange depth world filters position updated = some next) :
    FolderList.applyChange filters.list position updated = some next.list := by
  obtain ⟨filter, found, taken⟩ := bind_eq_some_iff.mp taken
  rw [ite_none_left_eq_some] at taken
  obtain ⟨same, taken⟩ := taken
  rw [FolderList.applyChange_eq found (not_not.mp same)]
  dsimp only at taken
  split at taken
  next nothing =>
    cases taken
    have equal : filter = updated := by
      cases filter
      cases updated
      simp_all
    subst equal
    obtain ⟨inside, rfl⟩ := List.getElem?_eq_some_iff.mp found
    rw [List.set_getElem_self inside]
  next =>
    obtain ⟨middle, fed, taken⟩ := bind_eq_some_iff.mp taken
    have fedList : middle.list = filters.list := by
      split at fed
      · exact LeavesList.foldlM (fun filters history =>
          leavesList_feedHistory filters filter updated history) _ _ _ fed
      · exact leavesList_some rfl _ fed
    split at taken
    · rw [leavesList_applyList (leavesList_removeFromChatList world depth) _ _ _ _ taken, fedList]
    · cases taken
      rw [fedList]

theorem applyInsert_list (taken : applyInsert depth world filters filter position = some next) :
    FolderList.applyInsert filters.list filter position = some next.list := by
  unfold applyInsert at taken
  rw [ite_none_left_eq_some] at taken
  unfold FolderList.applyInsert
  rw [if_neg taken.1]
  exact applyChange_list taken.2

theorem applyRemove_list (taken : applyRemove depth world filters position = some next) :
    FolderList.applyRemove filters.list position = some next.list := by
  obtain ⟨filter, found, taken⟩ := bind_eq_some_iff.mp taken
  obtain ⟨middle, changed, rfl⟩ := map_eq_some_iff.mp taken
  unfold FolderList.applyRemove
  rw [found, bind_some, applyChange_list changed]
  rfl

theorem receiveAt_list (taken : receiveAt depth world filters position updated = some next) :
    FolderList.receiveAt filters.list position updated = some next.list := by
  unfold receiveAt at taken
  unfold FolderList.receiveAt
  cases search : findIdFrom ChatFilter.id filters.list position updated.id with
  | none =>
    rw [search] at taken
    exact applyInsert_list taken
  | some found =>
    rw [search] at taken
    dsimp only at taken ⊢
    split at taken
    next here =>
      rw [if_pos here]
      exact applyChange_list taken
    next elsewhere =>
      rw [if_neg elsewhere]
      exact applyChange_list taken

theorem receiveFrom_list (list : List ChatFilter)
    (taken : receiveFrom depth world position filters list = some next) :
    FolderList.receiveFrom position filters.list list = some next.list := by
  induction list generalizing position filters with
  | nil =>
    cases taken
    rfl
  | cons parsed list ih =>
    obtain ⟨middle, first, rest⟩ := bind_eq_some_iff.mp taken
    rw [FolderList.receiveFrom, receiveAt_list first, bind_some]
    exact ih rest

theorem removeFrom_list (count : Nat)
    (taken : removeFrom depth world position count filters = some next) :
    FolderList.removeFrom position count filters.list = some next.list := by
  induction count generalizing filters with
  | zero =>
    cases taken
    rfl
  | succ count ih =>
    obtain ⟨middle, first, rest⟩ := bind_eq_some_iff.mp taken
    rw [FolderList.removeFrom, applyRemove_list first, bind_some]
    exact ih rest

theorem withDefault_list (filters : ChatFilters) :
    filters.withDefault.list = FolderList.withDefault filters.list := by
  unfold withDefault FolderList.withDefault
  split
  · rfl
  · rfl

theorem received_list {list : List DialogFilter} {loaded : Bool}
    (taken : received depth world filters list = some next) :
    FolderList.received ⟨filters.list, loaded⟩ list = some ⟨next.list, true⟩ := by
  obtain ⟨changed, first, rest⟩ := bind_eq_some_iff.mp taken
  obtain ⟨shortened, removed, rfl⟩ := map_eq_some_iff.mp rest
  unfold FolderList.received
  rw [receiveFrom_list _ first, bind_some, removeFrom_list _ removed, withDefault_list]
  rfl

theorem set_list (taken : set depth world filters filter = some next) :
    FolderList.set filters.list filter = some next.list := by
  unfold set at taken
  unfold FolderList.set
  split at taken
  next zero =>
    cases taken
    rw [if_pos zero]
  next nonzero =>
    rw [if_neg nonzero]
    cases search : findId ChatFilter.id filters.list filter.id with
    | none =>
      rw [search] at taken
      exact applyInsert_list taken
    | some position =>
      rw [search] at taken
      exact applyChange_list taken

theorem remove_list (taken : remove depth world filters id = some next) :
    FolderList.remove filters.list id = some next.list := by
  unfold remove at taken
  unfold FolderList.remove
  cases search : findId ChatFilter.id filters.list id with
  | none =>
    rw [search] at taken
    cases taken
    rfl
  | some position =>
    rw [search] at taken
    exact applyRemove_list taken

theorem applyOrder_list {order : List FilterId} (taken : applyOrder filters order = some next) :
    ∃ done, FolderList.applyOrder filters.list order = some (done, next.list) := by
  unfold applyOrder at taken
  unfold FolderList.applyOrder
  split at taken
  next different =>
    cases taken
    exact ⟨false, if_pos different⟩
  next same =>
  rw [if_neg same]
  split at taken
  next empty =>
    cases taken
    exact ⟨true, if_pos empty⟩
  next filled =>
  rw [if_neg filled]
  cases fits : reorder (fun id => id) order 0 (filters.list.map ChatFilter.id) with
  | none =>
    rw [fits] at taken
    cases taken
    exact ⟨false, rfl⟩
  | some ordered =>
    rw [fits] at taken
    obtain ⟨sorted, done, rfl⟩ := map_eq_some_iff.mp taken
    exact ⟨true, congrArg (Option.map fun list => (true, list)) done⟩

theorem applyUpdatedPinned_list {dialogs : List (Option History)}
    (taken : applyUpdatedPinned depth world filters id dialogs = some next) :
    FolderList.applyUpdatedPinned filters.list world.pinnedChatsLimit id dialogs =
      some next.list := by
  obtain ⟨position, search, rest⟩ := bind_eq_some_iff.mp taken
  obtain ⟨filter, found, replaced⟩ := bind_eq_some_iff.mp rest
  obtain ⟨entry, here, same⟩ := findId_eq_some search
  cases found.symm.trans here
  subst same
  unfold FolderList.applyUpdatedPinned
  rw [search, bind_some, found, bind_some]
  exact set_list replaced

/-- What an event does to the list of folders where there are no rows. -/
def stepOfList (limit : FilterId → Nat) (folders : FolderList) : Event → Option FolderList
  | .received list => FolderList.received folders list
  | .set filter => (FolderList.set folders.list filter).map fun list => { folders with list }
  | .remove id => (FolderList.remove folders.list id).map fun list => { folders with list }
  | .applyOrder order =>
    (FolderList.applyOrder folders.list order).map fun applied => { folders with list := applied.2 }
  | .applyUpdatedPinned id dialogs =>
    (FolderList.applyUpdatedPinned folders.list limit id dialogs).map fun list =>
      { folders with list }

theorem step_list {event : Event} (taken : step depth world filters event = some next)
    (loaded : Bool) : ∃ after,
      stepOfList world.pinnedChatsLimit ⟨filters.list, loaded⟩ event = some after ∧
        after.list = next.list := by
  cases event with
  | received list => exact ⟨_, received_list taken, rfl⟩
  | set filter => exact ⟨_, congrArg (Option.map _) (set_list taken), rfl⟩
  | remove id => exact ⟨_, congrArg (Option.map _) (remove_list taken), rfl⟩
  | applyOrder order =>
    obtain ⟨done, applied⟩ := applyOrder_list taken
    exact ⟨_, congrArg (Option.map _) applied, rfl⟩
  | applyUpdatedPinned id dialogs =>
    exact ⟨_, congrArg (Option.map _) (applyUpdatedPinned_list taken), rfl⟩

/-- An event and the update of a server that brings it. -/
def SameEvent : Event → FolderList.Event → Prop
  | .received list, .received other _ => list = other
  | .set filter, .updateDialogFilter _ (some other) => filter = ChatFilter.fromTL other
  | .remove id, .updateDialogFilter other none => id = other
  | .applyOrder order, .updateDialogFilterOrder other => order = other
  | .applyUpdatedPinned id dialogs, .applyUpdatedPinned other rows => id = other ∧ dialogs = rows
  | _, _ => False

theorem SameEvent.step_eq {event : Event} {other : FolderList.Event} (same : SameEvent event other)
    (limit : FilterId → Nat) (folders : FolderList) :
    FolderList.step limit folders other = stepOfList limit folders event := by
  unfold SameEvent at same
  split at same
  · cases same
    rfl
  · cases same
    rfl
  · cases same
    rfl
  · cases same
    rfl
  · obtain ⟨rfl, rfl⟩ := same
    rfl
  · cases same

/-- A run with rows ends with the list that the run without rows ends with, and so does the
run of the server's updates where these bring all the events. -/
theorem run_list {events : List Event} {last : ChatFilters}
    (ends : TelegramDesktop.run (step depth world) filters events = some last)
    (folders : FolderList) (start : folders.list = filters.list) :
    ∃ after, TelegramDesktop.run (stepOfList world.pinnedChatsLimit) folders events = some after ∧
      after.list = last.list ∧
      ∀ others, List.Forall₂ SameEvent events others →
        TelegramDesktop.run (FolderList.step world.pinnedChatsLimit) folders others =
          some after := by
  induction events generalizing filters folders with
  | nil =>
    cases ends
    refine ⟨folders, rfl, start, ?_⟩
    rintro _ ⟨⟩
    rfl
  | cons event events ih =>
    obtain ⟨middle, taken, ends⟩ := bind_eq_some_iff.mp ends
    obtain ⟨through, stepped, list⟩ := step_list taken folders.loaded
    rw [← start] at stepped
    obtain ⟨after, ended, lists, server⟩ := ih ends through list
    refine ⟨after, ?_, lists, ?_⟩
    · rw [TelegramDesktop.run, stepped]
      exact ended
    · rintro _ (_ | ⟨first, rest⟩)
      rw [TelegramDesktop.run, first.step_eq, stepped]
      exact server _ rest

/-- The filter that is set shows no chat that it pins. -/
theorem run_list_removed :
    let events : List Event := [.received [zeroFilter, zeroFilter],
      .set { ChatFilter.default with id := 2, pinned := [1] }, .applyOrder [0, 0, 2], .remove 0]
    ∃ last, TelegramDesktop.run (step 1 exampleWorld) (initial exampleWorld) events = some last ∧
      ∃ after, TelegramDesktop.run (stepOfList exampleWorld.pinnedChatsLimit) .initial events =
        some after ∧ after.list = last.list := by
  intro events
  have ends : TelegramDesktop.run (step 1 exampleWorld) (initial exampleWorld) events = some _ :=
    rfl
  obtain ⟨after, ended, lists, -⟩ := run_list ends .initial rfl
  exact ⟨_, ends, after, ended, lists⟩

end ChatFilters

end TelegramDesktop.ChatFolders
