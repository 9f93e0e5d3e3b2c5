import TelegramDesktop.ChatFiltersRuns

/-!
# The list of folders

What happens to `_list` itself does not depend on the rows of the folders: a filter is
replaced, inserted, erased or brought to another place.  The filters of a server replace
the list one place after the other, and the folder with all the chats is put first where
they leave it out.
-/

namespace TelegramDesktop.ChatFolders

open List Option ChatFilters

open ChatFilters (findId findIdFrom swapAt reorder)

/-- The folders and whether they are loaded, without the rows of the chats. -/
structure FolderList where
  /-- `_list` -/
  list : List ChatFilter
  /-- `_loaded` -/
  loaded : Bool

namespace FolderList

/-- The list at the start: the folder of all chats. -/
def initial : FolderList := ⟨[ChatFilter.default], false⟩

section Operations

variable (list : List ChatFilter)

/-- A filter for which `applyChange` does nothing is the updated one already. -/
def applyChange (position : Nat) (updated : ChatFilter) : Option (List ChatFilter) :=
  list[position]?.bind fun filter =>
    if filter.id ≠ updated.id then none else some (list.set position updated)

def applyInsert (filter : ChatFilter) (position : Nat) : Option (List ChatFilter) :=
  if list.length < position then none
  else applyChange (list.insertIdx position (ChatFilter.withoutRules filter.id)) position filter

def applyRemove (position : Nat) : Option (List ChatFilter) :=
  list[position]?.bind fun filter =>
    (applyChange list position (ChatFilter.withoutRules filter.id)).map fun list =>
      list.eraseIdx position

/-- One round of the first loop of `received` -/
def receiveAt (position : Nat) (parsed : ChatFilter) : Option (List ChatFilter) :=
  match findIdFrom ChatFilter.id list position parsed.id with
  | none => applyInsert list parsed position
  | some found =>
    if found = position then applyChange list position parsed
    else applyChange (swapAt list found position) position parsed

def receiveFrom : Nat → List ChatFilter → List ChatFilter → Option (List ChatFilter)
  | _, list, [] => some list
  | position, list, parsed :: rest =>
    (receiveAt list position parsed).bind fun list => receiveFrom (position + 1) list rest

/-- The second loop of `received`, which runs this many times -/
def removeFrom (position : Nat) : Nat → List ChatFilter → Option (List ChatFilter)
  | 0, list => some list
  | count + 1, list => (applyRemove list position).bind fun list => removeFrom position count list

def withDefault : List ChatFilter :=
  if (0 : FilterId) ∈ list.map ChatFilter.id then list else ChatFilter.default :: list

def set (filter : ChatFilter) : Option (List ChatFilter) :=
  if filter.id = 0 then some list
  else
    match findId ChatFilter.id list filter.id with
    | none => applyInsert list filter list.length
    | some position => applyChange list position filter

def remove (id : FilterId) : Option (List ChatFilter) :=
  match findId ChatFilter.id list id with
  | none => some list
  | some position => applyRemove list position

def moveAllToFront : List ChatFilter :=
  match findId ChatFilter.id list 0 with
  | none => ChatFilter.default :: list
  | some 0 => list
  | some position => ChatFilter.default :: list.eraseIdx position

/-- The order is tried on a copy of the ids, and then the filters are brought into it.  What
is returned tells whether the order fits. -/
def applyOrder (order : List FilterId) : Option (Bool × List ChatFilter) :=
  if order.length ≠ list.length then some (false, list)
  else if list.isEmpty then some (true, list)
  else
    match reorder (fun id => id) order 0 (list.map ChatFilter.id) with
    | none => some (false, list)
    | some _ => (reorder ChatFilter.id order 0 list).map fun list => (true, list)

/-- The loop of `applyUpdatedPinned` runs up to the limit of the folder. -/
def applyUpdatedPinned (limit : FilterId → Nat) (id : FilterId) (dialogs : List (Option History)) :
    Option (List ChatFilter) :=
  (findId ChatFilter.id list id).bind fun position =>
    list[position]?.bind fun filter =>
      let updated := ChatFilters.updatedPinned (limit id) filter.always dialogs
      set list { filter with id, always := updated.1, pinned := updated.2 }

end Operations

/-- The folders after an answer of the server. -/
def received (folders : FolderList) (list : List DialogFilter) : Option FolderList :=
  (receiveFrom 0 folders.list (list.map ChatFilter.fromTL)).bind fun changed =>
    (removeFrom list.length (changed.length - list.length) changed).map fun shortened =>
      ⟨withDefault shortened, true⟩

/-- The updates of the server and the commands of the user. -/
inductive Event
  /-- An answer of the server, in which no two filters have one id -/
  | received (list : List DialogFilter)
      (distinct : (list.map fun filter => (ChatFilter.fromTL filter).id).Nodup)
  | updateDialogFilter (id : FilterId) (filter : Option DialogFilter)
  | updateDialogFilterOrder (order : List FilterId)
  | moveAllToFront
  | applyUpdatedPinned (id : FilterId) (dialogs : List (Option History))

def step (limit : FilterId → Nat) (folders : FolderList) : Event → Option FolderList
  | .received list _ => received folders list
  | .updateDialogFilter _ (some filter) =>
    (set folders.list (ChatFilter.fromTL filter)).map fun list => { folders with list }
  | .updateDialogFilter id none =>
    (remove folders.list id).map fun list => { folders with list }
  | .updateDialogFilterOrder order =>
    (applyOrder folders.list order).map fun applied => { folders with list := applied.2 }
  | .moveAllToFront => some { folders with list := moveAllToFront folders.list }
  | .applyUpdatedPinned id dialogs =>
    (applyUpdatedPinned folders.list limit id dialogs).map fun list => { folders with list }

section Specs

variable {list : List ChatFilter} {filter updated : ChatFilter} {position : Nat}

theorem applyChange_eq (found : list[position]? = some filter) (same : filter.id = updated.id) :
    applyChange list position updated = some (list.set position updated) := by
  unfold applyChange
  rw [found, bind_some, if_neg (not_not.mpr same)]

theorem applyInsert_eq (filter : ChatFilter) (inside : position ≤ list.length) :
    applyInsert list filter position = some (list.insertIdx position filter) := by
  have found : (list.insertIdx position (ChatFilter.withoutRules filter.id))[position]? =
      some (ChatFilter.withoutRules filter.id) := by
    rw [getElem?_insertIdx_self, if_pos inside]
  have same : (ChatFilter.withoutRules filter.id).id = filter.id := rfl
  unfold applyInsert
  rw [if_neg (Nat.not_lt_of_le inside), applyChange_eq found same, set_insertIdx_self]

theorem applyRemove_eq (inside : position < list.length) :
    applyRemove list position = some (list.eraseIdx position) := by
  have found := getElem?_eq_getElem inside
  have same : list[position].id = (ChatFilter.withoutRules list[position].id).id := rfl
  unfold applyRemove
  rw [found, bind_some, applyChange_eq found same, map_some, eraseIdx_set_eq]

/-- The filter that is received stands at its position, and what stands before it stays. -/
theorem receiveAt_eq (inside : position ≤ list.length) (parsed : ChatFilter) :
    ∃ next, receiveAt list position parsed = some next ∧
      next.take (position + 1) = list.take position ++ [parsed] ∧ position < next.length := by
  unfold receiveAt
  split
  next =>
    refine ⟨_, applyInsert_eq parsed inside, ?_, ?_⟩
    · rw [take_succ_of_getElem? (getElem?_insertIdx_self.trans (if_pos inside))]
      congr 1
      apply ext_getElem?
      intro index
      rw [getElem?_take, getElem?_take]
      split
      next before => exact getElem?_insertIdx_of_lt before
      next => rfl
    · rw [length_insertIdx_of_le_length inside]
      exact Nat.lt_succ_of_le inside
  next found search =>
    obtain ⟨later, filter, here, same⟩ := findIdFrom_eq_some search
    obtain ⟨bound, -⟩ := List.getElem?_eq_some_iff.mp here
    have below : position < list.length := by omega
    split
    next equal =>
      subst equal
      refine ⟨_, applyChange_eq here same, ?_, by rwa [length_set]⟩
      rw [take_succ_of_getElem? (getElem?_set_self bound), take_set_of_le le_rfl]
    next different =>
      have moved := getElem?_swapAt here (getElem?_eq_getElem below)
      obtain ⟨inner, -⟩ := List.getElem?_eq_some_iff.mp moved
      refine ⟨_, applyChange_eq moved same, ?_, by rwa [length_set]⟩
      rw [take_succ_of_getElem? (getElem?_set_self inner), take_set_of_le le_rfl, take_swapAt later]

theorem receiveFrom_eq (parsed : List ChatFilter) (inside : position ≤ list.length) :
    ∃ next, receiveFrom position list parsed = some next ∧
      next.take (position + parsed.length) = list.take position ++ parsed ∧
      position + parsed.length ≤ next.length := by
  induction parsed generalizing position list with
  | nil => exact ⟨list, rfl, by simp, inside⟩
  | cons filter parsed ih =>
    obtain ⟨middle, taken, front, below⟩ := receiveAt_eq inside filter
    obtain ⟨next, rest, whole, long⟩ := ih below
    have count : position + (filter :: parsed).length = position + 1 + parsed.length := by
      rw [length_cons]
      omega
    refine ⟨next, ?_, ?_, ?_⟩
    · rw [receiveFrom, taken]
      exact rest
    · rw [count, whole, front]
      simp
    · rw [count]
      exact long

theorem removeFrom_eq (count : Nat) (whole : position + count = list.length) :
    removeFrom position count list = some (list.take position) := by
  induction count generalizing list with
  | zero =>
    rw [removeFrom, take_of_length_le (by omega)]
  | succ count ih =>
    have inside : position < list.length := by omega
    rw [removeFrom, applyRemove_eq inside, bind_some, ih]
    · rw [take_eraseIdx_eq_take_of_le list position position le_rfl]
    · rw [length_eraseIdx_of_lt inside]
      omega

theorem received_eq (folders : FolderList) (list : List DialogFilter) :
    received folders list = some ⟨withDefault (list.map ChatFilter.fromTL), true⟩ := by
  obtain ⟨changed, taken, front, long⟩ :=
    receiveFrom_eq (list.map ChatFilter.fromTL) (Nat.zero_le folders.list.length)
  rw [Nat.zero_add, length_map] at front long
  rw [take_zero, nil_append] at front
  unfold received
  rw [taken, bind_some, removeFrom_eq _ (Nat.add_sub_cancel' long), front, map_some]

theorem set_eq (list : List ChatFilter) (filter : ChatFilter) :
    set list filter = some (if filter.id = 0 then list else
      match findId ChatFilter.id list filter.id with
      | none => list ++ [filter]
      | some position => list.set position filter) := by
  unfold set
  split
  · rfl
  split
  next =>
    rw [applyInsert_eq filter le_rfl, insertIdx_length_self]
  next position search =>
    obtain ⟨entry, found, same⟩ := findId_eq_some search
    rw [applyChange_eq found same]

theorem remove_eq (list : List ChatFilter) (id : FilterId) :
    remove list id = some (match findId ChatFilter.id list id with
      | none => list
      | some position => list.eraseIdx position) := by
  unfold remove
  split
  · rfl
  next position search =>
    obtain ⟨entry, found, -⟩ := findId_eq_some search
    obtain ⟨inside, -⟩ := List.getElem?_eq_some_iff.mp found
    rw [applyRemove_eq inside]

theorem map_id_eraseIdx {id : FilterId} (search : findId ChatFilter.id list id = some position) :
    (list.eraseIdx position).map ChatFilter.id = (list.map ChatFilter.id).erase id := by
  induction list generalizing position with
  | nil => cases search
  | cons entry list ih =>
    unfold findId at search
    rw [findIdx?_cons] at search
    split at search
    next same =>
      cases search
      rw [← of_decide_eq_true same, map_cons, erase_cons_head]
      rfl
    next different =>
      obtain ⟨place, later, rfl⟩ := map_eq_some_iff.mp search
      rw [map_cons, erase_cons_tail, ← ih later]
      · rfl
      · simpa using different

theorem map_id_moveAllToFront (list : List ChatFilter) :
    (moveAllToFront list).map ChatFilter.id = 0 :: (list.map ChatFilter.id).erase 0 := by
  unfold moveAllToFront
  split
  next search =>
    rw [erase_of_not_mem (findId_eq_none.mp search)]
    rfl
  next search =>
    rw [← map_id_eraseIdx search]
    obtain ⟨entry, found, same⟩ := findId_eq_some search
    cases list with
    | nil => cases found
    | cons head list =>
      cases found
      rw [map_cons, same]
      rfl
  next position first search =>
    rw [map_cons, map_id_eraseIdx search]
    rfl

end Specs

section Orders

variable {α : Type*} {key : α → FilterId} {list sorted : List α} {position : Nat}

/-- The entry with the id is brought to the position, and nothing before it moves. -/
theorem bring_spec {id : FilterId} {found : Nat}
    (search : findIdFrom key list position id = some found) :
    ∃ entry, key entry = id ∧ ∃ brought,
      (if found = position then list else swapAt list found position) = brought ∧
      brought[position]? = some entry ∧ brought.take position = list.take position ∧
      brought.Perm list := by
  obtain ⟨later, entry, here, same⟩ := findIdFrom_eq_some search
  obtain ⟨bound, -⟩ := List.getElem?_eq_some_iff.mp here
  refine ⟨entry, same, _, rfl, ?_⟩
  split
  next equal =>
    subst equal
    exact ⟨here, rfl, Perm.refl list⟩
  next different =>
    have below : position < list.length := by omega
    exact ⟨getElem?_swapAt here (getElem?_eq_getElem below),
      take_swapAt later, swapAt_perm list found position⟩

theorem take_reorder {order : List FilterId}
    (done : reorder key order position list = some sorted) :
    (sorted.take (position + order.length)).map key = (list.take position).map key ++ order := by
  induction order generalizing position list with
  | nil =>
    cases done
    simp
  | cons id order ih =>
    obtain ⟨found, search, rest⟩ := bind_eq_some_iff.mp done
    obtain ⟨entry, same, brought, eq, here, front, -⟩ := bring_spec search
    rw [eq] at rest
    have count : position + (id :: order).length = position + 1 + order.length := by
      rw [length_cons]
      omega
    rw [count, ih rest, take_succ_of_getElem? here, front, map_append,
      map_singleton, same, append_assoc, singleton_append]

theorem drop_perm_of_getElem? {brought : List α} {entry : α}
    (here : brought[position]? = some entry) (front : brought.take position = list.take position)
    (perm : brought.Perm list) :
    (list.drop position).Perm (entry :: brought.drop (position + 1)) := by
  rw [← perm_append_left_iff (list.take position), take_append_drop, ← front,
    append_cons, ← take_succ_of_getElem? here, take_append_drop]
  exact perm.symm

theorem isSome_reorder_iff (key : α → FilterId) (order : List FilterId) (position : Nat)
    (list : List α) :
    (reorder key order position list).isSome ↔
      order.Subperm ((list.drop position).map key) := by
  induction order generalizing position list with
  | nil => exact iff_of_true rfl nil_subperm
  | cons id order ih =>
    rw [reorder]
    cases search : findIdFrom key list position id with
    | none =>
      have absent := findIdFrom_eq_none.mp search
      exact iff_of_false (by simp) fun within => absent (within.subset mem_cons_self)
    | some found =>
      obtain ⟨entry, same, brought, eq, here, front, perm⟩ := bring_spec search
      rw [bind_some, eq, ih]
      have others := (drop_perm_of_getElem? here front perm).map key
      rw [others.subperm_left, map_cons, same, subperm_cons]

/-- What `applyOrder` answers: the filters stand in exactly the order that was given, or
nothing has changed. -/
structure Ordered (list : List ChatFilter) (order : List FilterId)
    (applied : Bool × List ChatFilter) : Prop where
  fits : applied.1 = true ↔ order.Perm (list.map ChatFilter.id)
  sorted : applied.1 = true →
    applied.2.Perm list ∧ applied.2.map ChatFilter.id = order
  unchanged : applied.1 = false → applied.2 = list

theorem ordered_unchanged {list : List ChatFilter} {order : List FilterId}
    (misfit : ¬order.Perm (list.map ChatFilter.id)) : Ordered list order (false, list) where
  fits := iff_of_false Bool.false_ne_true misfit
  sorted done := absurd done Bool.false_ne_true
  unchanged _ := rfl

theorem applyOrder_spec (list : List ChatFilter) (order : List FilterId) :
    ∃ applied, applyOrder list order = some applied ∧ Ordered list order applied := by
  unfold applyOrder
  split
  next different =>
    refine ⟨_, rfl, ordered_unchanged fun perm => different ?_⟩
    rw [perm.length_eq, length_map]
  next same =>
  rw [not_not] at same
  split
  next empty =>
    rw [List.isEmpty_iff] at empty
    subst empty
    rw [length_nil, length_eq_zero_iff] at same
    subst same
    exact ⟨_, rfl, iff_of_true rfl (Perm.refl _), fun _ => ⟨Perm.refl _, rfl⟩,
      fun _ => rfl⟩
  next =>
  have fits := isSome_reorder_iff (fun id : FilterId => id) order 0 (list.map ChatFilter.id)
  rw [List.drop_zero, List.map_id'] at fits
  rw [reorder_map] at fits ⊢
  cases done : reorder ChatFilter.id order 0 list with
  | none =>
    rw [done] at fits
    refine ⟨_, rfl, ordered_unchanged fun perm => ?_⟩
    cases fits.mpr perm.subperm
  | some sorted =>
    rw [done] at fits
    have perm : order.Perm (list.map ChatFilter.id) :=
      (fits.mp rfl).perm_of_length_le (by rw [length_map, same])
    have length := (reorder_perm done).length_eq
    have ids := take_reorder done
    rw [Nat.zero_add, same, take_of_length_le (by omega), take_zero, map_nil, nil_append] at ids
    exact ⟨_, rfl, iff_of_true rfl perm, fun _ => ⟨reorder_perm done, ids⟩,
      fun same => absurd same Bool.true_eq_false.mp⟩

end Orders

end FolderList

end TelegramDesktop.ChatFolders
