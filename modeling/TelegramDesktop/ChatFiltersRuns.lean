import TelegramDesktop.ChatFiltersConsistency
import Mathlib.Data.List.ReduceOption

/-!
# Runs of changes to the folders

Each event changes one filter after the other, and every change keeps what the folders
show.
-/

namespace TelegramDesktop.ChatFolders

open List Option ChatFilters

namespace ChatFilters

variable {world : World} {filters next : ChatFilters} {filter updated : ChatFilter}
  {position : Nat}

section Finding

variable {α : Type*} {key : α → FilterId} {list : List α} {id : FilterId} {found : Nat}

theorem findId_eq_some (search : findId key list id = some found) :
    ∃ entry, list[found]? = some entry ∧ key entry = id := by
  obtain ⟨inside, holds, -⟩ := findIdx?_eq_some_iff_getElem.mp search
  exact ⟨list[found], getElem?_eq_getElem inside, by simpa using holds⟩

theorem findId_eq_none : findId key list id = none ↔ id ∉ list.map key := by
  unfold findId
  rw [findIdx?_eq_none_iff]
  simp

theorem findIdFrom_eq_some (search : findIdFrom key list position id = some found) :
    position ≤ found ∧ ∃ entry, list[found]? = some entry ∧ key entry = id := by
  obtain ⟨index, here, rfl⟩ := map_eq_some_iff.mp search
  obtain ⟨entry, at_, holds⟩ := findId_eq_some here
  rw [getElem?_drop] at at_
  exact ⟨Nat.le_add_right _ _, entry, at_, holds⟩

theorem findIdFrom_eq_none :
    findIdFrom key list position id = none ↔ id ∉ (list.drop position).map key := by
  unfold findIdFrom
  rw [map_eq_none_iff, findId_eq_none]

theorem swapAt_perm (list : List α) (first second : Nat) :
    (swapAt list first second).Perm list := by
  unfold swapAt
  split
  next one other here there =>
    obtain ⟨inside, rfl⟩ := List.getElem?_eq_some_iff.mp here
    obtain ⟨beside, rfl⟩ := List.getElem?_eq_some_iff.mp there
    exact set_set_perm inside beside
  next => exact Perm.refl list

theorem getElem?_swapAt {one other : α} {first second : Nat} (here : list[first]? = some one)
    (there : list[second]? = some other) : (swapAt list first second)[second]? = some one := by
  obtain ⟨beside, -⟩ := List.getElem?_eq_some_iff.mp there
  unfold swapAt
  rw [here, there]
  rw [getElem?_set_self (by simpa using beside)]

theorem take_swapAt {first second : Nat} (later : second ≤ first) :
    (swapAt list first second).take second = list.take second := by
  unfold swapAt
  split
  · rw [take_set_of_le (le_refl second), take_set_of_le later]
  · rfl

theorem reorder_perm {order : List FilterId} {position : Nat} {sorted : List α}
    (done : reorder key order position list = some sorted) : sorted.Perm list := by
  induction order generalizing position list with
  | nil =>
    cases done
    exact Perm.refl _
  | cons id order ih =>
    obtain ⟨found, -, rest⟩ := bind_eq_some_iff.mp done
    refine (ih rest).trans ?_
    split
    · exact Perm.refl _
    · exact swapAt_perm _ _ _

theorem map_swapAt (list : List α) (first second : Nat) :
    (swapAt list first second).map key = swapAt (list.map key) first second := by
  unfold swapAt
  rw [getElem?_map, getElem?_map]
  cases list[first]? with
  | none => rfl
  | some one =>
    cases list[second]? with
    | none => rfl
    | some other => simp [map_set]

theorem findIdFrom_map (list : List α) (position : Nat) (id : FilterId) :
    findIdFrom (fun id => id) (list.map key) position id = findIdFrom key list position id := by
  unfold findIdFrom findId
  rw [← map_drop, findIdx?_map]
  rfl

theorem reorder_map (order : List FilterId) (position : Nat) (list : List α) :
    reorder (fun id => id) order position (list.map key) =
      (reorder key order position list).map fun sorted => sorted.map key := by
  induction order generalizing position list with
  | nil => rfl
  | cons id order ih =>
    rw [reorder, reorder, findIdFrom_map]
    cases findIdFrom key list position id with
    | none => rfl
    | some found =>
      simp only [bind_some]
      split
      · exact ih _ _
      · rw [← map_swapAt]
        exact ih _ _

end Finding

/-- A step has kept the folders, and each of its calls had an effect. -/
structure Kept (world : World) (filters next : ChatFilters) : Prop where
  consistent : next.Consistent world
  plays : filters.Plays next

theorem Changed.kept (changed : filters.Changed world position updated next) :
    filters.Kept world next :=
  ⟨changed.consistent, changed.plays⟩

theorem Consistent.unchanged (consistent : filters.Consistent world) :
    filters.Kept world filters :=
  ⟨consistent, Plays.refl filters⟩

theorem accepts_withoutRules (world : World) (filters : ChatFilters) (id : FilterId) :
    filters.Accepts world (ChatFilter.withoutRules id) where
  plain _ := plain_withoutRules world id
  nodup := nodup_nil
  calm filter _ _ overtakes := by
    obtain ⟨_, entering, -, -, -, -, -, taken⟩ := overtakes
    rw [contains_withoutRules] at taken
    cases taken

theorem set_insertIdx_self {α : Type*} (list : List α) (position : Nat) (first second : α) :
    (list.insertIdx position first).set position second = list.insertIdx position second := by
  induction position generalizing list with
  | zero => rfl
  | succ position ih =>
    cases list with
    | nil => rfl
    | cons entry list => simpa using ih list

theorem Consistent.applyInsert (depth : Nat) (consistent : filters.Consistent world)
    (absent : updated.id ∉ filters.list.map ChatFilter.id) (inside : position ≤ filters.list.length)
    (plain : updated.id = 0 → updated.Plain world) (nodup : updated.pinned.Nodup) :
    ∃ next, applyInsert (depth + 1) world filters updated position = some next ∧
      filters.Kept world next ∧ next.list = filters.list.insertIdx position updated ∧
      ∀ id, id ≠ updated.id → next.pinned id = filters.pinned id := by
  have inserted : Consistent world { filters with
      list := filters.list.insertIdx position (ChatFilter.withoutRules updated.id) } :=
    (consistent.cons absent).of_perm
      (perm_insertIdx (ChatFilter.withoutRules updated.id) filters.list inside)
  have here : (filters.list.insertIdx position (ChatFilter.withoutRules updated.id))[position]? =
      some (ChatFilter.withoutRules updated.id) := by
    rw [getElem?_insertIdx_self, if_pos (by omega)]
  have accepts : Accepts world { filters with
      list := filters.list.insertIdx position (ChatFilter.withoutRules updated.id) } updated := by
    refine ⟨plain, nodup, fun filter member same overtakes => ?_⟩
    have first := eq_of_id inserted.distinct member (mem_of_getElem? here) same
    obtain ⟨leaving, -, -, -, was, -⟩ := overtakes
    rw [first, contains_withoutRules] at was
    cases was
  have same : (ChatFilter.withoutRules updated.id).id = updated.id := rfl
  obtain ⟨next, taken, changed⟩ := inserted.applyChange depth here same accepts
  refine ⟨next, ?_, ⟨changed.consistent, changed.plays⟩, ?_, changed.pinned⟩
  · unfold ChatFilters.applyInsert
    rw [if_neg (not_lt.mpr inside)]
    exact taken
  · rw [changed.list, set_insertIdx_self]

theorem Consistent.applyRemove (depth position : Nat) (consistent : filters.Consistent world)
    (inside : position < filters.list.length) :
    ∃ next, applyRemove (depth + 1) world filters position = some next ∧
      filters.Kept world next ∧ next.list = filters.list.eraseIdx position := by
  have found := getElem?_eq_getElem inside
  have same : filters.list[position].id =
      (ChatFilter.withoutRules filters.list[position].id).id := rfl
  obtain ⟨next, taken, changed⟩ :=
    consistent.applyChange depth found same
      (accepts_withoutRules world filters filters.list[position].id)
  unfold ChatFilters.applyRemove
  rw [found, bind_some, taken]
  have perm : next.list.Perm
      (ChatFilter.withoutRules filters.list[position].id :: next.list.eraseIdx position) := by
    have bound : position < next.list.length := by
      rw [changed.list, length_set]
      exact inside
    have first : next.list[position] = ChatFilter.withoutRules filters.list[position].id := by
      simp only [changed.list, getElem_set_self]
    rw [← first]
    exact (getElem_cons_eraseIdx_perm bound).symm
  refine ⟨_, rfl, ⟨changed.consistent.tail perm, changed.plays⟩, ?_⟩
  simp only [changed.list, eraseIdx_set_eq]

theorem Consistent.set (depth : Nat) (consistent : filters.Consistent world)
    (accepts : updated.id ≠ 0 → filters.Accepts world updated) :
    ∃ next, set (depth + 1) world filters updated = some next ∧
      filters.Kept world next := by
  unfold ChatFilters.set
  by_cases zero : updated.id = 0
  · rw [if_pos zero]
    exact ⟨filters, rfl, consistent.unchanged⟩
  rw [if_neg zero]
  split
  next search =>
    obtain ⟨next, taken, kept, -⟩ := consistent.applyInsert depth (findId_eq_none.mp search)
      le_rfl (accepts zero).plain (accepts zero).nodup
    exact ⟨next, taken, kept⟩
  next position search =>
    obtain ⟨filter, found, same⟩ := findId_eq_some search
    obtain ⟨next, taken, changed⟩ := consistent.applyChange depth found same (accepts zero)
    exact ⟨next, taken, changed.kept⟩

theorem Consistent.remove (depth : Nat) (consistent : filters.Consistent world) (id : FilterId) :
    ∃ next, remove (depth + 1) world filters id = some next ∧
      filters.Kept world next := by
  unfold ChatFilters.remove
  split
  next => exact ⟨filters, rfl, consistent.unchanged⟩
  next position search =>
    obtain ⟨filter, found, -⟩ := findId_eq_some search
    obtain ⟨inside, -⟩ := List.getElem?_eq_some_iff.mp found
    obtain ⟨next, taken, kept, -⟩ := consistent.applyRemove depth position inside
    exact ⟨next, taken, kept⟩

theorem Consistent.applyOrder (consistent : filters.Consistent world) (order : List FilterId) :
    ∃ next, applyOrder filters order = some next ∧ filters.Kept world next := by
  unfold ChatFilters.applyOrder
  split
  · exact ⟨filters, rfl, consistent.unchanged⟩
  split
  · exact ⟨filters, rfl, consistent.unchanged⟩
  rw [reorder_map]
  cases sorted : reorder ChatFilter.id order 0 filters.list with
  | none => exact ⟨filters, rfl, consistent.unchanged⟩
  | some list =>
    exact ⟨_, rfl, consistent.of_perm (reorder_perm sorted), Plays.of_eq rfl rfl⟩

theorem updatedPinned_spec (limit : Nat) (always : Finset History)
    (dialogs : List (Option History)) :
    always ⊆ (updatedPinned limit always dialogs).1 ∧
      (updatedPinned limit always dialogs).2.Sublist dialogs.reduceOption := by
  induction dialogs generalizing always with
  | nil => exact ⟨Finset.Subset.refl _, Sublist.refl _⟩
  | cons row dialogs ih =>
    cases row with
    | none => exact ih always
    | some history =>
      unfold updatedPinned
      rw [reduceOption_cons_of_some]
      split
      · exact ⟨(ih always).1, (ih always).2.cons_cons history⟩
      split
      · exact ⟨(Finset.subset_insert _ _).trans (ih _).1, (ih _).2.cons_cons history⟩
      · exact ⟨(ih always).1, (ih always).2.cons history⟩

theorem accepts_ofUpdatedPinned (consistent : filters.Consistent world)
    (member : filter ∈ filters.list) {dialogs : List (Option History)}
    (nodup : dialogs.reduceOption.Nodup) (nonzero : filter.id ≠ 0) :
    filters.Accepts world (ofUpdatedPinned world filter dialogs) := by
  obtain ⟨grows, pinned⟩ :=
    updatedPinned_spec (world.pinnedChatsLimit filter.id) filter.always dialogs
  refine ⟨fun zero => absurd zero nonzero, nodup.sublist pinned,
    fun other present same overtakes => ?_⟩
  rw [eq_of_id consistent.distinct present member same] at overtakes
  obtain ⟨leaving, -, -, -, was, now, -⟩ := overtakes
  -- the new rules select whatever the old ones did
  have still : (ofUpdatedPinned world filter dialogs).contains world leaving = true := by
    unfold ChatFilter.contains at was ⊢
    unfold ofUpdatedPinned
    split at was
    · cases was
    next kept =>
      rw [if_neg kept]
      rcases Bool.or_eq_true _ _ ▸ was with rules | always
      · rw [rules, Bool.true_or]
      · rw [decide_eq_true (grows (of_decide_eq_true always)), Bool.or_true]
  rw [still] at now
  cases now

/-- A filter has come to a position, and from there on nothing else has. -/
structure Received (world : World) (filters : ChatFilters) (position : Nat) (id : FilterId)
    (next : ChatFilters) : Prop where
  kept : filters.Kept world next
  inside : position < next.list.length
  ids : (next.list.map ChatFilter.id).take (position + 1) =
    (filters.list.map ChatFilter.id).take position ++ [id]
  members : ∀ filter ∈ next.list, filter.id ≠ id → filter ∈ filters.list
  pinned : ∀ other, other ≠ id → next.pinned other = filters.pinned other

theorem take_succ_of_getElem? {α : Type*} {list : List α} {entry : α}
    (here : list[position]? = some entry) :
    list.take (position + 1) = list.take position ++ [entry] := by
  rw [take_add_one, here]
  rfl

theorem Changed.received (changed : filters.Changed world position updated next)
    (consistent : filters.Consistent world) (found : filters.list[position]? = some filter)
    (same : filter.id = updated.id) : filters.Received world position updated.id next where
  kept := changed.kept
  inside := by
    obtain ⟨inside, -⟩ := List.getElem?_eq_some_iff.mp found
    rw [changed.list, length_set]
    exact inside
  ids := by
    rw [changed.list, map_id_set found same]
    apply take_succ_of_getElem?
    rw [getElem?_map, found, map_some, same]
  members other member different := by
    rw [changed.list] at member
    rcases mem_set_of_ne consistent.distinct found same member with rfl | ⟨before, -⟩
    · exact absurd rfl different
    · exact before
  pinned := changed.pinned

theorem Consistent.receiveAt (depth : Nat) (consistent : filters.Consistent world)
    (inside : position ≤ filters.list.length)
    (fresh : updated.id ∉ (filters.list.map ChatFilter.id).take position)
    (accepts : filters.Accepts world updated) :
    ∃ next, receiveAt (depth + 1) world filters position updated = some next ∧
      filters.Received world position updated.id next := by
  unfold ChatFilters.receiveAt
  split
  next search =>
    have absent : updated.id ∉ filters.list.map ChatFilter.id := by
      have later := findIdFrom_eq_none.mp search
      rw [map_drop] at later
      rw [← take_append_drop position (filters.list.map ChatFilter.id), mem_append]
      exact not_or.mpr ⟨fresh, later⟩
    obtain ⟨next, taken, kept, list, pinned⟩ :=
      consistent.applyInsert depth absent inside accepts.plain accepts.nodup
    refine ⟨next, taken, kept, ?_, ?_, fun filter member different => ?_, pinned⟩
    · rw [list, length_insertIdx_of_le_length inside]
      omega
    · rw [list, map_insertIdx,
        take_succ_of_getElem? (getElem?_insertIdx_self.trans (if_pos (by simpa using inside)))]
      congr 1
      apply ext_getElem?
      intro index
      rw [getElem?_take, getElem?_take]
      split
      next before => exact getElem?_insertIdx_of_lt before
      next => rfl
    · rw [list, mem_insertIdx inside] at member
      exact member.resolve_left fun same => different (congrArg ChatFilter.id same)
  next found search =>
    obtain ⟨later, filter, here, same⟩ := findIdFrom_eq_some search
    split
    next equal =>
      subst equal
      obtain ⟨next, taken, changed⟩ := consistent.applyChange depth here same accepts
      exact ⟨next, taken, changed.received consistent here same⟩
    next different =>
      have bound : position < filters.list.length := by
        obtain ⟨bound, -⟩ := List.getElem?_eq_some_iff.mp here
        omega
      have perm := swapAt_perm filters.list found position
      have swapped := consistent.of_perm perm
      have moved := getElem?_swapAt here (getElem?_eq_getElem bound)
      have acceptsSwapped : Accepts world
          { filters with list := swapAt filters.list found position } updated :=
        ⟨accepts.plain, accepts.nodup, fun other member => accepts.calm other (perm.subset member)⟩
      obtain ⟨next, taken, changed⟩ := swapped.applyChange depth moved same acceptsSwapped
      have received := changed.received swapped moved same
      refine ⟨next, taken, ⟨received.kept.consistent, received.kept.plays⟩, received.inside, ?_,
        fun other member apart => perm.subset (received.members other member apart),
        received.pinned⟩
      rw [received.ids, ← map_take, take_swapAt later, map_take]

theorem Received.accepts {id : FilterId} (received : filters.Received world position id next)
    (accepts : filters.Accepts world updated) (different : updated.id ≠ id) :
    next.Accepts world updated where
  plain := accepts.plain
  nodup := accepts.nodup
  calm filter member same := by
    rw [received.pinned updated.id different]
    exact accepts.calm filter (received.members filter member (same ▸ different)) same

theorem Kept.trans {middle : ChatFilters} (first : filters.Kept world middle)
    (rest : middle.Kept world next) : filters.Kept world next :=
  ⟨rest.consistent, first.plays.trans rest.plays⟩

theorem Consistent.receiveFrom (depth : Nat) (list : List ChatFilter)
    (consistent : filters.Consistent world) (inside : position ≤ filters.list.length)
    (fresh : ((filters.list.map ChatFilter.id).take position ++
      list.map ChatFilter.id).Nodup)
    (accepts : ∀ updated ∈ list, filters.Accepts world updated) :
    ∃ next, receiveFrom (depth + 1) world position filters list = some next ∧
      filters.Kept world next ∧ position + list.length ≤ next.list.length := by
  induction list generalizing position filters with
  | nil => exact ⟨filters, rfl, consistent.unchanged, inside⟩
  | cons updated list ih =>
    rw [map_cons] at fresh
    have apart := nodup_append.mp fresh
    have new : updated.id ∉ (filters.list.map ChatFilter.id).take position := fun before =>
      apart.2.2 _ before _ mem_cons_self rfl
    obtain ⟨middle, taken, received⟩ :=
      consistent.receiveAt depth inside new (accepts updated mem_cons_self)
    obtain ⟨next, rest, kept, long⟩ := ih received.kept.consistent received.inside
      (by rw [received.ids, append_assoc]; exact fresh)
      (fun other member => by
        refine received.accepts (accepts other (mem_cons_of_mem _ member)) ?_
        intro same
        have absent := (nodup_cons.mp apart.2.1).1
        rw [← same] at absent
        exact absent (mem_map_of_mem member))
    refine ⟨next, ?_, received.kept.trans kept, ?_⟩
    · rw [receiveFrom, taken]
      exact rest
    · rw [length_cons]
      omega

theorem Consistent.removeFrom (depth position count : Nat) (consistent : filters.Consistent world)
    (whole : position + count = filters.list.length) :
    ∃ next, removeFrom (depth + 1) world position count filters = some next ∧
      filters.Kept world next := by
  induction count generalizing filters with
  | zero => exact ⟨filters, rfl, consistent.unchanged⟩
  | succ count ih =>
    obtain ⟨middle, taken, kept, list⟩ :=
      consistent.applyRemove depth position (by omega)
    have shorter : position + count = middle.list.length := by
      rw [list, length_eraseIdx_of_lt (by omega)]
      omega
    obtain ⟨next, rest, keptRest⟩ := ih kept.consistent shorter
    refine ⟨next, ?_, kept.trans keptRest⟩
    rw [removeFrom, taken]
    exact rest

theorem Consistent.withDefault (consistent : filters.Consistent world) :
    filters.Kept world filters.withDefault := by
  unfold ChatFilters.withDefault
  split
  next => exact consistent.unchanged
  next absent => exact ⟨consistent.cons absent, Plays.of_eq rfl rfl⟩

theorem Consistent.received (depth : Nat) (consistent : filters.Consistent world)
    {list : List DialogFilter}
    (distinct : (list.map fun filter => (ChatFilter.fromTL filter).id).Nodup)
    (accepts : ∀ filter ∈ list, filters.Accepts world (ChatFilter.fromTL filter)) :
    ∃ next, received (depth + 1) world filters list = some next ∧
      filters.Kept world next := by
  have ids : ((list.map ChatFilter.fromTL).map ChatFilter.id).Nodup := by
    rw [List.map_map]
    exact distinct
  obtain ⟨middle, taken, kept, long⟩ := consistent.receiveFrom depth
    (list.map ChatFilter.fromTL) (Nat.zero_le _) (by rwa [take_zero, nil_append])
    (forall_mem_map.mpr accepts)
  rw [Nat.zero_add, length_map] at long
  obtain ⟨last, removed, keptRest⟩ := kept.consistent.removeFrom depth list.length
    (middle.list.length - list.length) (by omega)
  refine ⟨last.withDefault, ?_, (kept.trans keptRest).trans keptRest.consistent.withDefault⟩
  unfold ChatFilters.received
  rw [taken, bind_some, removed, map_some]

section Playing

variable {rows last : Finset (FilterId × History)} {calls : List Call} {id : FilterId}
  {history : History}

section

variable {call : Call} {rest : Finset (FilterId × History)} (played : play rows call = some rest)

include played

end

end Playing

/-- What the events are: the filters of one answer have different ids, and the chats are
pinned in a folder that there is. -/
def Allowed (filters : ChatFilters) : Event → Prop
  | .received list => (list.map fun filter => (ChatFilter.fromTL filter).id).Nodup
  | .applyUpdatedPinned id _ => id ∈ filters.list.map ChatFilter.id
  | _ => True

/-- No new filter meets one of the two defects, and no chat is pinned twice. -/
def Harmless (world : World) (filters : ChatFilters) : Event → Prop
  | .received list => ∀ filter ∈ list, filters.Accepts world (ChatFilter.fromTL filter)
  | .set filter => filter.id ≠ 0 → filters.Accepts world filter
  | .applyUpdatedPinned _ dialogs => dialogs.reduceOption.Nodup
  | _ => True

/-- A step that is allowed goes through and keeps the rows consistent. -/
theorem Consistent.step (depth : Nat) (consistent : filters.Consistent world) {event : Event}
    (allowed : filters.Allowed event) (harmless : filters.Harmless world event) :
    ∃ next, step (depth + 1) world filters event = some next ∧
      filters.Kept world next := by
  cases event with
  | received list => exact consistent.received depth allowed harmless
  | set filter => exact consistent.set depth harmless
  | remove id => exact consistent.remove depth id
  | applyOrder order => exact consistent.applyOrder order
  | applyUpdatedPinned id dialogs =>
    change ∃ next, applyUpdatedPinned (depth + 1) world filters id dialogs =
      some next ∧ _
    unfold applyUpdatedPinned
    cases search : findId ChatFilter.id filters.list id with
    | none => exact absurd allowed (findId_eq_none.mp search)
    | some position =>
      obtain ⟨filter, found, -⟩ := findId_eq_some search
      rw [bind_some, found, bind_some]
      exact consistent.set depth fun nonzero =>
        accepts_ofUpdatedPinned consistent (mem_of_getElem? found) harmless nonzero

theorem Consistent.run (depth : Nat) {events : List Event}
    (consistent : filters.Consistent world)
    (meets : RunMeets (ChatFilters.step (depth + 1) world)
      (fun filters event => filters.Allowed event ∧ filters.Harmless world event) filters events) :
    ∃ last, TelegramDesktop.run (ChatFilters.step (depth + 1) world) filters events = some last ∧
      filters.Kept world last := by
  induction events generalizing filters with
  | nil => exact ⟨filters, rfl, consistent.unchanged⟩
  | cons event events ih =>
    obtain ⟨middle, taken, kept⟩ := consistent.step depth meets.1.1 meets.1.2
    obtain ⟨last, rest, keptRest⟩ := ih kept.consistent (meets.2 middle taken)
    refine ⟨last, ?_, kept.trans keptRest⟩
    rw [TelegramDesktop.run, taken]
    exact rest

/-- The list of every folder shows exactly the listed chats that its rules select. -/
def Shows (world : World) (filters : ChatFilters) : Prop :=
  ∀ filter ∈ filters.list, ∀ history ∈ world.listed,
    ((filter.id, history) ∈ filters.rows ↔ filter.contains world history = true)

/-- A group whose place in the archive is known. -/
def exampleData : HistoryData := ⟨.chat, false, false, true, false, 0, false, false⟩

def exampleWorld : World := ⟨fun _ => exampleData, [2, 1], by decide, fun _ => 100⟩

def isGroups (flag : Flag) : Bool := decide (flag = .groups)

/-- The server sends one filter, with rules but with the id zero. -/
def zeroFilter : DialogFilter := .dialogFilter isGroups 0 "groups" none [] [] []

end ChatFilters

end TelegramDesktop.ChatFolders
