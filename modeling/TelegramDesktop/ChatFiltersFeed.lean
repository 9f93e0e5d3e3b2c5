import TelegramDesktop.ChatFilters
import TelegramDesktop.Runs

/-!
# Feeding the chats to a changed filter

A chat whose entry agrees with the rules of all the folders is refreshed without any
effect.
-/

namespace TelegramDesktop.ChatFolders

open Function List Option

namespace ChatFilters

variable {world : World} {filters : ChatFilters} {history : History} {id : FilterId}
  {remove : ChatFilters → History → FilterId → Option ChatFilters}

/-- The chat has a row in the folders whose rules select it and in no other ones. -/
def Settled (world : World) (filters : ChatFilters) (history : History) : Prop :=
  ∀ filter ∈ filters.list, filter.id ≠ 0 →
    ((filter.id, history) ∈ filters.links ↔ filter.contains world history = true)

/-- Refreshing the chat has no effect: it is settled or it is not listed at all. -/
def Quiet (world : World) (filters : ChatFilters) (history : History) : Prop :=
  ((0 : FilterId), history) ∈ filters.links → filters.Settled world history

theorem refreshInFilter_of_settled {filter : ChatFilter}
    (settled : filter.id ≠ 0 →
      ((filter.id, history) ∈ filters.links ↔ filter.contains world history = true)) :
    refreshInFilter remove world filters history filter = some filters := by
  unfold refreshInFilter
  by_cases zero : filter.id = 0
  · rw [if_pos zero]
  rw [if_neg zero]
  by_cases selected : filter.contains world history = true
  · rw [if_pos selected, if_pos ((settled zero).mpr selected)]
  · rw [if_neg selected, if_neg (mt (settled zero).mp selected)]

theorem refreshChatListEntry_of_settled (settled : filters.Settled world history) :
    refreshChatListEntry remove world filters history = some filters := by
  have same : ∀ list : List ChatFilter, (∀ filter ∈ list, filter ∈ filters.list) →
      list.foldlM (fun filters filter => refreshInFilter remove world filters history filter)
        filters = some filters := by
    intro list inside
    induction list with
    | nil => rfl
    | cons filter list ih =>
      rw [foldlM_cons, refreshInFilter_of_settled (settled filter (inside filter mem_cons_self))]
      exact ih fun filter member => inside filter (mem_cons_of_mem _ member)
  exact same filters.list fun _ member => member

theorem cachePinnedIndex_of_quiet (remove : ChatFilters → History → FilterId → Option ChatFilters)
    (filters : ChatFilters) (id : FilterId) (quiet : filters.Quiet world history) (index : Nat) :
    cachePinnedIndex remove world filters history id index =
      some { filters with
        pinnedIndex := update filters.pinnedIndex id
          (update (filters.pinnedIndex id) history index) } := by
  unfold cachePinnedIndex
  by_cases same : index = filters.pinnedIndex id history
  · rw [if_pos same, same, update_eq_self, update_eq_self]
  rw [if_neg same]
  unfold updateChatListSortPosition
  split
  next listed => exact refreshChatListEntry_of_settled (quiet listed)
  next => rfl

/-- Every pinned chat has a position. -/
def Indexed (filters : ChatFilters) : Prop :=
  ∀ id, ∀ history ∈ filters.pinned id, filters.pinnedIndex id history ≠ 0

/-- No position is lost. -/
def IndexesKept (pinnedIndex next : FilterId → History → Nat) : Prop :=
  ∀ id history, pinnedIndex id history ≠ 0 → next id history ≠ 0

theorem indexesKept_update (pinnedIndex : FilterId → History → Nat) {index : Nat}
    (positive : index ≠ 0) :
    IndexesKept pinnedIndex (update pinnedIndex id
      (update (pinnedIndex id) history index)) := by
  intro other chat kept
  by_cases here : other = id
  · subst here
    rw [update_self]
    by_cases same : chat = history
    · subst same
      rwa [update_self]
    · rwa [update_of_ne same]
  · rwa [update_of_ne here]

theorem cacheMoved_of_quiet (remove : ChatFilters → History → FilterId → Option ChatFilters)
    (filters : ChatFilters) (id : FilterId) (count start : Nat)
    (whole : start + count = (filters.pinned id).length)
    (quiet : ∀ chat ∈ (filters.pinned id).drop start, filters.Quiet world chat) :
    ∃ pinnedIndex, IndexesKept filters.pinnedIndex pinnedIndex ∧
      (range' start count).foldlM
        (fun filters index => cacheMoved remove world filters id index) filters =
          some { filters with pinnedIndex } := by
  induction count generalizing start filters with
  | zero => exact ⟨filters.pinnedIndex, fun _ _ kept => kept, rfl⟩
  | succ count ih =>
    have inside : start < (filters.pinned id).length := by omega
    have split : (filters.pinned id).drop start =
        (filters.pinned id)[start] :: (filters.pinned id).drop (start + 1) :=
      drop_eq_getElem_cons inside
    rw [split] at quiet
    have first := cachePinnedIndex_of_quiet remove filters id (quiet _ mem_cons_self) (start + 1)
    obtain ⟨pinnedIndex, kept, rest⟩ := ih
      { filters with
        pinnedIndex := update filters.pinnedIndex id
          (update (filters.pinnedIndex id) (filters.pinned id)[start] (start + 1)) }
      (start + 1) (by simp only; omega)
      (fun chat member => quiet chat (mem_cons_of_mem _ member))
    refine ⟨pinnedIndex, fun other chat indexed =>
      kept other chat (indexesKept_update _ (Nat.succ_ne_zero start) other chat indexed), ?_⟩
    rw [range'_succ, foldlM_cons]
    have moved : cacheMoved remove world filters id start = some { filters with
        pinnedIndex := update filters.pinnedIndex id
          (update (filters.pinnedIndex id) (filters.pinned id)[start] (start + 1)) } := by
      unfold cacheMoved
      rw [getElem?_eq_getElem inside]
      exact first
    rw [moved]
    exact rest

theorem unpin_of_quiet (remove : ChatFilters → History → FilterId → Option ChatFilters)
    (filters : ChatFilters) (nodup : (filters.pinned id).Nodup)
    (quiet : ∀ chat, [history, chat].Sublist (filters.pinned id) → filters.Quiet world chat)
    (self : filters.Quiet world history) (indexed : filters.Indexed) :
    ∃ pinnedIndex, unpin remove world filters history id =
        some { filters with
          pinned := update filters.pinned id ((filters.pinned id).erase history)
          pinnedIndex } ∧
      Indexed { filters with
        pinned := update filters.pinned id ((filters.pinned id).erase history)
        pinnedIndex } := by
  unfold unpin
  by_cases member : history ∈ filters.pinned id
  swap
  · refine ⟨filters.pinnedIndex, ?_, ?_⟩
    · rw [if_neg member, erase_of_not_mem member, update_eq_self]
    · rw [erase_of_not_mem member, update_eq_self]
      exact indexed
  rw [if_pos member]
  have erased : (filters.pinned id).eraseIdx ((filters.pinned id).idxOf history) =
      (filters.pinned id).erase history := (erase_eq_eraseIdx_of_idxOf rfl).symm
  dsimp only
  rw [erased]
  -- the state after the chat itself has lost its index
  have first := cachePinnedIndex_of_quiet remove
    { filters with
      pinned := update filters.pinned id ((filters.pinned id).erase history) } id self 0
  rw [first, bind_some]
  have place : (filters.pinned id).idxOf history < (filters.pinned id).length :=
    idxOf_lt_length_of_mem member
  have shorter : ((filters.pinned id).erase history).length = (filters.pinned id).length - 1 :=
    length_erase_of_mem member
  have after : ∀ chat ∈ ((filters.pinned id).erase history).drop
      ((filters.pinned id).idxOf history), filters.Quiet world chat := by
    intro chat later
    refine quiet chat ?_
    have parts : (filters.pinned id) = (filters.pinned id).take ((filters.pinned id).idxOf history)
        ++ history :: (filters.pinned id).drop ((filters.pinned id).idxOf history + 1) := by
      conv_lhs => rw [← take_append_drop ((filters.pinned id).idxOf history)
        (filters.pinned id), drop_eq_getElem_cons place]
      rw [getElem_idxOf]
    have rest : chat ∈ (filters.pinned id).drop ((filters.pinned id).idxOf history + 1) := by
      rw [← erased, eraseIdx_eq_take_drop_succ, drop_append_of_le_length (by simp; omega),
        drop_take_self, nil_append] at later
      exact later
    rw [parts]
    exact (Sublist.cons_cons history (singleton_sublist.mpr rest)).trans
      (sublist_append_right _ _)
  have counted : ¬((filters.pinned id).erase history).length <
      (filters.pinned id).idxOf history := by omega
  simp only [update_self, if_neg counted]
  obtain ⟨pinnedIndex, kept, moved⟩ := cacheMoved_of_quiet remove
    { filters with
      pinned := update filters.pinned id ((filters.pinned id).erase history)
      pinnedIndex := update filters.pinnedIndex id
        (update (filters.pinnedIndex id) history 0) } id
    (((filters.pinned id).erase history).length - (filters.pinned id).idxOf history)
    ((filters.pinned id).idxOf history)
    (by simp only [update_self]; omega)
    (by
      simp only [update_self]
      exact after)
  refine ⟨pinnedIndex, moved, fun other chat pinned => kept other chat ?_⟩
  by_cases here : other = id
  · subst here
    simp only [update_self] at pinned ⊢
    have different : chat ≠ history := by
      rintro rfl
      exact nodup.not_mem_erase pinned
    rw [update_of_ne different]
    exact indexed other chat (mem_of_mem_erase pinned)
  · simp only [update_of_ne here] at pinned ⊢
    exact indexed other chat pinned

theorem removeFromChatList_of_quiet (depth : Nat) (nodup : (filters.pinned id).Nodup)
    (quiet : ∀ chat, [history, chat].Sublist (filters.pinned id) → filters.Quiet world chat)
    (self : filters.Quiet world history) (indexed : filters.Indexed)
    (linked : (id, history) ∈ filters.links) :
    ∃ next, removeFromChatList world (depth + 1) filters history id = some next ∧
      next.Indexed ∧ next.list = filters.list ∧
      next.calls = filters.calls ++ [.removeFromChatList id history] ∧
      next.links = filters.links.erase (id, history) ∧
      next.rows = filters.rows.erase (id, history) ∧
      next.pinned = update filters.pinned id ((filters.pinned id).erase history) := by
  unfold removeFromChatList
  dsimp only
  by_cases pinned : filters.pinnedIndex id history ≠ 0
  · rw [if_pos pinned]
    obtain ⟨pinnedIndex, unpinned, kept⟩ := unpin_of_quiet (removeFromChatList world depth)
      { filters with calls := filters.calls ++ [.removeFromChatList id history] } nodup quiet self
        indexed
    rw [unpinned, bind_some, if_pos linked]
    exact ⟨_, rfl, kept, rfl, rfl, rfl, rfl, rfl⟩
  · have absent : history ∉ filters.pinned id := fun member => pinned (indexed id history member)
    rw [if_neg pinned, bind_some, if_pos linked]
    refine ⟨_, rfl, indexed, rfl, rfl, rfl, rfl, ?_⟩
    rw [erase_of_not_mem absent, update_eq_self]

/-- The rows after one call, where a row is added only if it is not there and taken only
if it is. -/
def play (rows : Finset (FilterId × History)) : Call → Option (Finset (FilterId × History))
  | .addToChatList id history =>
    if (id, history) ∈ rows then none else some (insert (id, history) rows)
  | .removeFromChatList id history =>
    if (id, history) ∈ rows then some (rows.erase (id, history)) else none

/-- The calls made in between, each of which has an effect, lead from the one set of rows to
the other. -/
def Plays (filters next : ChatFilters) : Prop :=
  ∃ made, next.calls = filters.calls ++ made ∧ run play filters.rows made = some next.rows

theorem Plays.refl (filters : ChatFilters) : filters.Plays filters :=
  ⟨[], (append_nil _).symm, rfl⟩

theorem Plays.trans {second last : ChatFilters} (first : filters.Plays second)
    (rest : second.Plays last) : filters.Plays last := by
  obtain ⟨made, calls, played⟩ := first
  obtain ⟨more, moreCalls, morePlayed⟩ := rest
  refine ⟨made ++ more, ?_, ?_⟩
  · rw [moreCalls, calls, append_assoc]
  · rw [run_append, played]
    exact morePlayed

theorem Plays.of_eq {next : ChatFilters} (calls : next.calls = filters.calls)
    (rows : next.rows = filters.rows) : filters.Plays next :=
  ⟨[], by rw [calls, append_nil], by rw [rows]; rfl⟩

/-- Some chat leaves the folder, and a chat pinned after it that comes before it in the
main list enters the folder. -/
def Overtakes (world : World) (pinned : List History) (filter updated : ChatFilter) : Prop :=
  ∃ leaving entering,
    [leaving, entering].Sublist pinned ∧ [entering, leaving].Sublist world.listed ∧
    filter.contains world leaving = true ∧ updated.contains world leaving = false ∧
    filter.contains world entering = false ∧ updated.contains world entering = true

/-- Some of the listed chats have been fed, and the rest is as it was at the start. -/
structure Fed (world : World) (start : ChatFilters) (filter updated : ChatFilter)
    (fed : List History) (filters : ChatFilters) : Prop where
  list : filters.list = start.list
  links : ∀ id history, (id, history) ∈ filters.links ↔
    if id = filter.id ∧ history ∈ fed then updated.contains world history = true
    else (id, history) ∈ start.links
  rows : ∀ id history, (id, history) ∈ filters.rows ↔
    if id = filter.id ∧ history ∈ fed then updated.contains world history = true
    else (id, history) ∈ start.rows
  others : ∀ id, id ≠ filter.id → filters.pinned id = start.pinned id
  pinned : (filters.pinned filter.id).Sublist (start.pinned filter.id)
  /-- A chat that has left is not pinned any more -/
  left : ∀ history ∈ fed, filter.contains world history = true →
    updated.contains world history = false → history ∉ filters.pinned filter.id
  indexed : filters.Indexed
  plays : start.Plays filters

/-- The lists are up to date for one filter before its chats are fed to it. -/
structure Feedable (world : World) (start : ChatFilters) (filter : ChatFilter) : Prop where
  member : filter ∈ start.list
  distinct : (start.list.map ChatFilter.id).Nodup
  nonzero : filter.id ≠ 0
  listed : ∀ history, ((0 : FilterId), history) ∈ start.links ↔ history ∈ world.listed
  settled : ∀ history ∈ world.listed, start.Settled world history
  rows : ∀ history ∈ world.listed,
    ((filter.id, history) ∈ start.rows ↔ filter.contains world history = true)
  nodup : (start.pinned filter.id).Nodup
  indexed : start.Indexed

theorem eq_of_id {list : List ChatFilter} (distinct : (list.map ChatFilter.id).Nodup)
    {first second : ChatFilter} (here : first ∈ list) (there : second ∈ list)
    (same : first.id = second.id) : first = second :=
  inj_on_of_nodup_map distinct here there same

theorem Fed.quiet {start : ChatFilters} {filter updated : ChatFilter} {fed : List History}
    (invariant : Fed world start filter updated fed filters)
    (feedable : Feedable world start filter)
    (same : history ∈ fed → updated.contains world history = filter.contains world history) :
    filters.Quiet world history := by
  intro present
  have listed : history ∈ world.listed := by
    rw [invariant.links] at present
    rwa [if_neg (fun both => feedable.nonzero both.1.symm), feedable.listed] at present
  intro other member nonzero
  rw [invariant.list] at member
  have settled := feedable.settled history listed other member nonzero
  rw [invariant.links]
  by_cases changing : other.id = filter.id ∧ history ∈ fed
  · rw [if_pos changing, same changing.2,
      eq_of_id feedable.distinct member feedable.member changing.1]
  · rw [if_neg changing]
    exact settled

theorem Fed.start {start : ChatFilters} {filter updated : ChatFilter}
    (feedable : Feedable world start filter) : Fed world start filter updated [] start where
  list := rfl
  links id history := by simp
  rows id history := by simp
  others _ _ := rfl
  pinned := Sublist.refl _
  left := by simp
  indexed := feedable.indexed
  plays := Plays.refl start

section Feeding

variable {start : ChatFilters} {filter updated : ChatFilter} {fed rest : List History}

theorem Fed.snoc {next : ChatFilters} (invariant : Fed world start filter updated fed filters)
    (list : next.list = filters.list)
    (links : ∀ id other, (id, other) ∈ next.links ↔
      if id = filter.id ∧ other = history then updated.contains world history = true
      else (id, other) ∈ filters.links)
    (rows : ∀ id other, (id, other) ∈ next.rows ↔
      if id = filter.id ∧ other = history then updated.contains world history = true
      else (id, other) ∈ filters.rows)
    (others : ∀ id, id ≠ filter.id → next.pinned id = filters.pinned id)
    (pinned : (next.pinned filter.id).Sublist (filters.pinned filter.id))
    (left : filter.contains world history = true → updated.contains world history = false →
      history ∉ next.pinned filter.id)
    (indexed : next.Indexed) (plays : filters.Plays next) :
    Fed world start filter updated (fed ++ [history]) next where
  list := list.trans invariant.list
  links id other := by
    rw [links, invariant.links]
    by_cases same : other = history
    · subst same
      by_cases here : id = filter.id <;> simp [here]
    · simp [same]
  rows id other := by
    rw [rows, invariant.rows]
    by_cases same : other = history
    · subst same
      by_cases here : id = filter.id <;> simp [here]
    · simp [same]
  others id different := (others id different).trans (invariant.others id different)
  pinned := pinned.trans invariant.pinned
  left other member was now := by
    rcases mem_append.mp member with before | here
    · exact fun still => invariant.left other before was now (pinned.subset still)
    · rw [mem_singleton] at here
      subst here
      exact left was now
  indexed := indexed
  plays := invariant.plays.trans plays

theorem sublist_of_split {list before after : List History} {first second : History}
    (split : list = before ++ second :: after) (member : first ∈ before) :
    [first, second].Sublist list := by
  rw [split]
  exact (singleton_sublist.mpr member).append (singleton_sublist.mpr mem_cons_self)

/-- Feeding one more chat succeeds and leaves its row where the new rules want it. -/
theorem Fed.step (depth : Nat) (invariant : Fed world start filter updated fed filters)
    (feedable : Feedable world start filter)
    (calm : ¬Overtakes world (start.pinned filter.id) filter updated)
    (split : world.listed = fed ++ history :: rest) :
    ∃ next, feedHistory (depth + 1) world filters filter updated history = some next ∧
      Fed world start filter updated (fed ++ [history]) next := by
  have listed : history ∈ world.listed := by
    rw [split]
    exact mem_append_right _ mem_cons_self
  have fresh : history ∉ fed := by
    have nodup := world.nodup
    rw [split] at nodup
    exact fun again => disjoint_of_nodup_append nodup again mem_cons_self
  have linked : (filter.id, history) ∈ filters.links ↔ filter.contains world history = true := by
    rw [invariant.links, if_neg (fun both => fresh both.2)]
    exact feedable.settled history listed filter feedable.member feedable.nonzero
  have shown : (filter.id, history) ∈ filters.rows ↔ filter.contains world history = true := by
    rw [invariant.rows, if_neg (fun both => fresh both.2)]
    exact feedable.rows history listed
  unfold feedHistory
  by_cases unchanged : updated.contains world history = filter.contains world history
  · rw [if_pos unchanged]
    refine ⟨filters, rfl, invariant.snoc rfl ?_ ?_ (fun _ _ => rfl) (Sublist.refl _) ?_
      invariant.indexed (Plays.refl _)⟩
    · intro id other
      by_cases here : id = filter.id ∧ other = history
      · rw [if_pos here, here.1, here.2, linked, unchanged]
      · rw [if_neg here]
    · intro id other
      by_cases here : id = filter.id ∧ other = history
      · rw [if_pos here, here.1, here.2, shown, unchanged]
      · rw [if_neg here]
    · intro was now
      rw [unchanged, was] at now
      cases now
  rw [if_neg unchanged]
  by_cases now : updated.contains world history = true
  · have was : ¬filter.contains world history = true := fun was => unchanged (now.trans was.symm)
    rw [if_pos now]
    have absent := mt linked.mp was
    have added : filters.addToChatList history filter.id = { filters with
        calls := filters.calls ++ [.addToChatList filter.id history]
        links := insert (filter.id, history) filters.links
        rows := insert (filter.id, history) filters.rows } := by
      exact if_neg absent
    rw [added]
    refine ⟨_, rfl, invariant.snoc rfl ?_ ?_ (fun _ _ => rfl) (Sublist.refl _) ?_
      invariant.indexed ⟨_, rfl, ?_⟩⟩
    · intro id other
      split <;> simp_all
    · intro id other
      split <;> simp_all
    · exact fun selected => absurd selected was
    · rw [run, play, if_neg (mt shown.mp was)]
      rfl
  · have was : filter.contains world history = true := by
      cases selected : filter.contains world history with
      | false => exact absurd ((Bool.not_eq_true _).mp now |>.trans selected.symm) unchanged
      | true => rfl
    have leaves : updated.contains world history = false := (Bool.not_eq_true _).mp now
    rw [if_neg now]
    have nodup : (filters.pinned filter.id).Nodup := feedable.nodup.sublist invariant.pinned
    obtain ⟨next, removed, indexed, list, calls, links, rows, pinned⟩ :=
      removeFromChatList_of_quiet depth nodup
        (fun chat later => invariant.quiet feedable fun before => by
          have still : chat ∈ filters.pinned filter.id :=
            later.subset (mem_cons_of_mem _ mem_cons_self)
          cases old : filter.contains world chat <;> cases new : updated.contains world chat
          · rfl
          · exact absurd ⟨history, chat, later.trans invariant.pinned,
              sublist_of_split split before, was, leaves, old, new⟩ calm
          · exact absurd still (invariant.left chat before old new)
          · rfl)
        (invariant.quiet feedable fun again => absurd again fresh) invariant.indexed
        (linked.mpr was)
    refine ⟨next, removed, invariant.snoc list ?_ ?_ ?_ ?_ ?_ indexed ⟨_, calls, ?_⟩⟩
    · intro id other
      rw [links]
      split <;> simp_all
    · intro id other
      rw [rows]
      split <;> simp_all
    · intro id different
      rw [pinned, update_of_ne different]
    · rw [pinned, update_self]
      exact erase_sublist
    · intro _ _
      rw [pinned, update_self]
      exact nodup.not_mem_erase
    · rw [run, play, if_pos (shown.mpr was), rows]
      rfl

/-- The chats that are left are fed one after another. -/
theorem Fed.run (depth : Nat) (feedable : Feedable world start filter)
    (calm : ¬Overtakes world (start.pinned filter.id) filter updated)
    (split : world.listed = fed ++ rest) (invariant : Fed world start filter updated fed filters) :
    ∃ next, rest.foldlM
        (fun filters history => feedHistory (depth + 1) world filters filter updated history)
        filters = some next ∧
      Fed world start filter updated world.listed next := by
  induction rest generalizing fed filters with
  | nil =>
    rw [append_nil] at split
    exact ⟨filters, rfl, split ▸ invariant⟩
  | cons history rest ih =>
    obtain ⟨middle, taken, kept⟩ := invariant.step depth feedable calm split
    rw [foldlM_cons, taken]
    exact ih (by rw [split, append_assoc]; rfl) kept

end Feeding

/-- The first loop of `applyList`, which pins the chats of the new list one after the other. -/
theorem pinAll_of_quiet (remove : ChatFilters → History → FilterId → Option ChatFilters)
    (filters : ChatFilters) (id : FilterId) (list : List History)
    (quiet : ∀ chat ∈ list, filters.Quiet world chat) :
    ∃ pinnedIndex, list.foldlM
        (fun filters history =>
          let data := filters.pinned id ++ [history]
          cachePinnedIndex remove world
            { filters with pinned := update filters.pinned id data } history id
            data.length)
        filters = some { filters with
          pinned := update filters.pinned id (filters.pinned id ++ list)
          pinnedIndex } ∧
      (∀ other, other ≠ id → pinnedIndex other = filters.pinnedIndex other) ∧
      ∀ chat, filters.pinnedIndex id chat ≠ 0 ∨ chat ∈ list → pinnedIndex id chat ≠ 0 := by
  induction list generalizing filters with
  | nil =>
    refine ⟨filters.pinnedIndex, ?_, fun _ _ => rfl, by simp⟩
    rw [append_nil, update_eq_self]
    rfl
  | cons history list ih =>
    have positive : (filters.pinned id ++ [history]).length ≠ 0 := by simp
    have first := cachePinnedIndex_of_quiet remove
      { filters with
        pinned := update filters.pinned id (filters.pinned id ++ [history]) } id
      (quiet history mem_cons_self) (filters.pinned id ++ [history]).length
    obtain ⟨pinnedIndex, taken, others, here⟩ := ih
      { filters with
        pinned := update filters.pinned id (filters.pinned id ++ [history])
        pinnedIndex := update filters.pinnedIndex id (update (filters.pinnedIndex id) history
            (filters.pinned id ++ [history]).length) }
      (fun chat member => quiet chat (mem_cons_of_mem _ member))
    refine ⟨pinnedIndex, ?_, fun other different => ?_, fun chat known => here chat ?_⟩
    · rw [foldlM_cons]
      rw [first]
      simp only [update_self, update_idem, append_assoc, singleton_append] at taken
      exact taken
    · exact (others other different).trans (update_of_ne different _ _)
    · simp only [update_self]
      by_cases same : chat = history
      · subst same
        exact .inl (by rwa [update_self])
      · rw [update_of_ne same]
        exact known.imp_right fun member => (mem_cons.mp member).resolve_left same

/-- The second loop, which takes the index from the chats that are not pinned any more. -/
theorem unpinRest_of_quiet (remove : ChatFilters → History → FilterId → Option ChatFilters)
    (filters : ChatFilters) (id : FilterId) (old : List History)
    (quiet : ∀ chat ∈ old, filters.Quiet world chat) :
    ∃ pinnedIndex, old.foldlM
        (fun filters history =>
          if history ∈ filters.pinned id then some filters
          else cachePinnedIndex remove world filters history id 0)
        filters = some { filters with pinnedIndex } ∧
      (∀ other, other ≠ id → pinnedIndex other = filters.pinnedIndex other) ∧
      ∀ chat ∈ filters.pinned id, pinnedIndex id chat = filters.pinnedIndex id chat := by
  induction old generalizing filters with
  | nil => exact ⟨filters.pinnedIndex, rfl, fun _ _ => rfl, fun _ _ => rfl⟩
  | cons history old ih =>
    rw [foldlM_cons]
    by_cases still : history ∈ filters.pinned id
    · rw [if_pos still]
      exact ih filters fun chat member => quiet chat (mem_cons_of_mem _ member)
    rw [if_neg still, cachePinnedIndex_of_quiet remove filters id (quiet history mem_cons_self)]
    obtain ⟨pinnedIndex, taken, others, here⟩ := ih
      { filters with
        pinnedIndex := update filters.pinnedIndex id
          (update (filters.pinnedIndex id) history 0) }
      (fun chat member => quiet chat (mem_cons_of_mem _ member))
    refine ⟨pinnedIndex, taken, fun other different => ?_, fun chat member => ?_⟩
    · exact (others other different).trans (update_of_ne different _ _)
    · have different : chat ≠ history := by
        rintro rfl
        exact still member
      rw [here chat member]
      simp only [update_self, update_of_ne different]

theorem applyList_of_quiet (remove : ChatFilters → History → FilterId → Option ChatFilters)
    (filters : ChatFilters) (list : List History) (nonzero : id ≠ 0)
    (quiet : ∀ chat ∈ filters.pinned id ++ list, filters.Quiet world chat)
    (indexed : filters.Indexed) :
    ∃ pinnedIndex, applyList remove world filters id list = some { filters with
        pinned := update filters.pinned id list
        pinnedIndex } ∧
      Indexed { filters with pinned := update filters.pinned id list, pinnedIndex } := by
  unfold applyList
  rw [if_neg nonzero]
  dsimp only
  obtain ⟨pinnedIndex, pinned, others, here⟩ := pinAll_of_quiet remove
    { filters with pinned := update filters.pinned id [] } id list
    (fun chat member => quiet chat (mem_append_right _ member))
  simp only [update_self, update_idem, nil_append] at pinned here
  rw [pinned, bind_some]
  obtain ⟨lastIndex, unpinned, lastOthers, lastHere⟩ := unpinRest_of_quiet remove
    { filters with pinned := update filters.pinned id list, pinnedIndex } id
    (filters.pinned id)
    (fun chat member => quiet chat (mem_append_left _ member))
  refine ⟨lastIndex, unpinned, fun other chat member => ?_⟩
  by_cases same : other = id
  · subst same
    simp only [update_self] at member lastHere
    have kept : lastIndex other chat = pinnedIndex other chat := lastHere chat member
    exact kept.trans_ne (here chat (.inr member))
  · simp only [update_of_ne same] at member
    have kept : lastIndex other = filters.pinnedIndex other :=
      (lastOthers other same).trans (others other same)
    exact (congrFun kept chat).trans_ne (indexed other chat member)

end ChatFilters

end TelegramDesktop.ChatFolders
