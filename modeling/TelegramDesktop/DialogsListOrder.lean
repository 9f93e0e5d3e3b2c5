import TelegramDesktop.DialogsList

/-!
# Order of a chats list

A row is added, removed or adjusted right after the key of its entry has changed.
-/

namespace TelegramDesktop

open Option Function List
open Dialogs (SortMode Row Entries)

namespace Dialogs

/-- A list of chats with the entries that it is sorted by. -/
structure Listed (K D N : Type*) [LinearOrder K] where
  list : DialogsList K
  entries : Entries K D N

/-- The operations of a list, with the changes of what it is sorted by. -/
inductive Event (K D N : Type*)
  | addToEnd (key : K)
  | addByName (key : K)
  | del (key : K)
  | sortKeyChanged (key : K) (sortKey : D)
  | nameChanged (key : K) (nameSortKey : N)

namespace Listed

variable {K D N : Type*} [LinearOrder K] [LinearOrder D] [LinearOrder N]

/-- What happens to a list.  A row is adjusted when the key by which the list is sorted has
changed, and a list that is sorted by name takes rows by name only. -/
def step (listed : Listed K D N) : Event K D N → Option (Listed K D N)
  | .addToEnd key =>
    if listed.list.sortMode = .name then none
    else some { listed with list := (listed.list.addToEnd listed.entries key).1 }
  | .addByName key =>
    if listed.list.sortMode = .name then
      some { listed with list := (listed.list.addByName listed.entries key).1 }
    else none
  | .del key => some { listed with list := (listed.list.del key).1 }
  | .sortKeyChanged key sortKey =>
    let entries :=
      { listed.entries with sortKey := Function.update listed.entries.sortKey key sortKey }
    match listed.list.sortMode, listed.list.getRow key with
    | .date, some row => some { list := listed.list.adjustByDate entries row, entries }
    | _, _ => some { listed with entries }
  | .nameChanged key nameSortKey =>
    let entries :=
      { listed.entries with
        nameSortKey := Function.update listed.entries.nameSortKey key nameSortKey }
    if listed.list.sortMode = .name then
      some { list := (listed.list.adjustByName entries key).1, entries }
    else some { listed with entries }

end Listed

end Dialogs

namespace DialogsList

variable {K D N : Type*} [LinearOrder K] {list : DialogsList K} {entries : Entries K D N}

/-- The rows of later dates come first. -/
def SortedByDate [LinearOrder D] (entries : Entries K D N) (rows : List (Row K)) : Prop :=
  rows.Pairwise fun first second => entries.sortKey second.key ≤ entries.sortKey first.key

/-- The rows are in the order of the names. -/
def SortedByName [LinearOrder N] (entries : Entries K D N) (rows : List (Row K)) : Prop :=
  rows.Pairwise fun first second => entries.nameSortKey first.key ≤ entries.nameSortKey second.key

/-- The rows are sorted as the mode of the list says. -/
def InOrder [LinearOrder D] [LinearOrder N] (list : DialogsList K) (entries : Entries K D N) :
    Prop :=
  match list.sortMode with
  | .date => SortedByDate entries list.rows
  | .name => SortedByName entries list.rows
  | .add => True

section

variable (addressable : list.Addressable)
include addressable

theorem adjustByDate_sorted [LinearOrder D] {row : Row K} (member : row ∈ list.rows)
    (sorted : SortedByDate entries (list.rows.erase row)) :
    SortedByDate entries (list.adjustByDate entries row).rows :=
  adjust_sorted (fun other => OrderDual.toDual (entries.sortKey other.key)) addressable member
    sorted

theorem adjustRowByName_sorted [LinearOrder N] {row : Row K} (member : row ∈ list.rows)
    (sorted : SortedByName entries (list.rows.erase row)) :
    SortedByName entries (list.adjustRowByName entries row).rows := by
  rw [adjustRowByName_eq]
  exact adjust_sorted (fun other => entries.nameSortKey other.key) addressable member sorted

theorem key_ne_of_erased {key : K} {row : Row K} (known : list.getRow key = some row) :
    ∀ other ∈ list.rows.erase row, other.key ≠ key := by
  rintro other member rfl
  rw [addressable.distinct.mem_erase_iff, addressable.listed, known, some.injEq] at member
  exact member.1 member.2.symm

theorem key_ne_of_unknown {key : K} (unknown : list.getRow key = none) :
    ∀ other ∈ list.rows, other.key ≠ key := by
  rintro other member rfl
  rw [addressable.listed, unknown] at member
  cases member

end

theorem SortedByDate.update [LinearOrder D] {rows : List (Row K)}
    (sorted : SortedByDate entries rows) {key : K} (others : ∀ row ∈ rows, row.key ≠ key)
    (sortKey : D) :
    SortedByDate { entries with sortKey := Function.update entries.sortKey key sortKey } rows := by
  apply sorted.imp_of_mem
  intro first second firstMem secondMem below
  dsimp only
  rwa [update_of_ne (others first firstMem),
    update_of_ne (others second secondMem)]

theorem SortedByName.update [LinearOrder N] {rows : List (Row K)}
    (sorted : SortedByName entries rows) {key : K} (others : ∀ row ∈ rows, row.key ≠ key)
    (nameSortKey : N) :
    SortedByName
      { entries with nameSortKey := Function.update entries.nameSortKey key nameSortKey }
      rows := by
  apply sorted.imp_of_mem
  intro first second firstMem secondMem below
  dsimp only
  rwa [update_of_ne (others first firstMem),
    update_of_ne (others second secondMem)]

section

variable (addressable : list.Addressable)
include addressable

theorem addToEnd_addressable [LinearOrder D] (entries : Entries K D N) (key : K) :
    (list.addToEnd entries key).1.Addressable ∧
      (list.addToEnd entries key).1.sortMode = list.sortMode := by
  cases known : list.getRow key with
  | some row =>
    rw [addToEnd_known known]
    exact ⟨addressable, rfl⟩
  | none =>
    have moves := moved_addToEnd addressable known entries
    exact ⟨moves.addressable, moves.sortMode⟩

theorem del_addressable (key : K) :
    (list.del key).1.Addressable ∧ (list.del key).1.sortMode = list.sortMode ∧
      (list.del key).1.rows.Sublist list.rows := by
  cases known : list.getRow key with
  | none =>
    rw [del_unknown known]
    exact ⟨addressable, rfl, List.Sublist.refl _⟩
  | some row =>
    obtain ⟨rows, -, sortMode, erased⟩ := del_known addressable known
    refine ⟨erased, sortMode, ?_⟩
    rw [rows]
    exact erase_sublist

theorem erase_appended {key : K} (unknown : list.getRow key = none) :
    (list.appended key).rows.erase ⟨key, list.created⟩ = list.rows := by
  have fresh : (⟨key, list.created⟩ : Row K) ∉ list.rows := by
    intro member
    rw [addressable.listed, unknown] at member
    cases member
  unfold appended
  rw [erase_append_right _ fresh, erase_cons_head, append_nil]

theorem addToEnd_sortedByDate [LinearOrder D] (byDate : list.sortMode = .date)
    (sorted : SortedByDate entries list.rows) (key : K) :
    SortedByDate entries (list.addToEnd entries key).1.rows := by
  cases known : list.getRow key with
  | some row => rwa [addToEnd_known known]
  | none =>
    rw [addToEnd_unknown known, if_pos byDate]
    apply adjustByDate_sorted (addressable.appended known)
    · exact mem_append_right _ mem_cons_self
    · rwa [erase_appended addressable known]

theorem adjustByName_sorted [LinearOrder N] (key : K)
    (sorted : ∀ row, list.getRow key = some row → SortedByName entries (list.rows.erase row))
    (settled : list.getRow key = none → SortedByName entries list.rows) :
    SortedByName entries (list.adjustByName entries key).1.rows := by
  unfold adjustByName
  cases known : list.getRow key with
  | none => exact settled known
  | some row =>
    exact adjustRowByName_sorted addressable (addressable.mem known) (sorted row known)

theorem addByName_sorted [LinearOrder D] [LinearOrder N] (byName : list.sortMode = .name)
    (sorted : SortedByName entries list.rows) (key : K) :
    SortedByName entries (list.addByName entries key).1.rows := by
  unfold addByName
  cases known : list.getRow key with
  | some row =>
    rw [addToEnd_known known]
    apply adjustByName_sorted addressable
    · intro other _
      exact sorted.sublist erase_sublist
    · intro _
      exact sorted
  | none =>
    have notByDate : list.sortMode ≠ .date := by
      rw [byName]
      decide
    rw [addToEnd_unknown known, if_neg notByDate]
    have appended := addressable.appended known
    apply adjustByName_sorted appended
    · intro row isNew
      rw [getRow_appended known, if_pos rfl, some.injEq] at isNew
      rw [← isNew, erase_appended addressable known]
      exact sorted
    · intro unknown
      rw [getRow_appended known, if_pos rfl] at unknown
      cases unknown

end

end DialogsList

namespace Dialogs

namespace Listed

open DialogsList

variable {K D N : Type*} [LinearOrder K] [LinearOrder D] [LinearOrder N]

/-- The rows are sorted and can be found by their positions and keys. -/
structure Sound (listed : Listed K D N) : Prop where
  inOrder : listed.list.InOrder listed.entries
  addressable : listed.list.Addressable

variable {listed next : Listed K D N}

section

variable (sound : listed.Sound) (key : K)
include sound key

theorem Sound.addToEnd (notByName : listed.list.sortMode ≠ .name) :
    Sound { listed with list := (listed.list.addToEnd listed.entries key).1 } := by
  obtain ⟨addressable, sortMode⟩ := addToEnd_addressable sound.addressable listed.entries key
  have inOrder := sound.inOrder
  refine ⟨?_, addressable⟩
  unfold InOrder at inOrder ⊢
  rw [sortMode]
  cases mode : listed.list.sortMode with
  | date =>
    rw [mode] at inOrder
    exact addToEnd_sortedByDate sound.addressable mode inOrder key
  | name => exact absurd mode notByName
  | add => trivial

theorem Sound.addByName (byName : listed.list.sortMode = .name) :
    Sound { listed with list := (listed.list.addByName listed.entries key).1 } := by
  obtain ⟨addressable, sortMode⟩ := addToEnd_addressable sound.addressable listed.entries key
  have moves := moved_adjustByName addressable listed.entries key
  have inOrder := sound.inOrder
  refine ⟨?_, moves.addressable⟩
  unfold InOrder at inOrder ⊢
  rw [byName] at inOrder
  have stillByName : (listed.list.addByName listed.entries key).1.sortMode = .name :=
    moves.sortMode.trans (sortMode.trans byName)
  rw [stillByName]
  exact addByName_sorted sound.addressable byName inOrder key

theorem Sound.del : Sound { listed with list := (listed.list.del key).1 } := by
  obtain ⟨addressable, sortMode, fewer⟩ := del_addressable sound.addressable key
  have inOrder := sound.inOrder
  refine ⟨?_, addressable⟩
  unfold InOrder at inOrder ⊢
  rw [sortMode]
  cases mode : listed.list.sortMode with
  | date =>
    rw [mode] at inOrder
    exact inOrder.sublist fewer
  | name =>
    rw [mode] at inOrder
    exact inOrder.sublist fewer
  | add => trivial

theorem Sound.sortKeyChanged (sortKey : D)
    (changes : listed.step (.sortKeyChanged key sortKey) = some next) : next.Sound := by
  have inOrder := sound.inOrder
  have addressable := sound.addressable
  unfold InOrder at inOrder
  unfold step at changes
  dsimp only at changes
  split at changes
  next row byDate known =>
    cases changes
    rw [byDate] at inOrder
    have inOrder : SortedByDate listed.entries listed.list.rows := inOrder
    have member := addressable.mem known
    have moves := moved_adjustByDate addressable
      { listed.entries with sortKey := update listed.entries.sortKey key sortKey } member
    refine ⟨?_, moves.addressable⟩
    unfold InOrder
    rw [moves.sortMode, byDate]
    have rest : SortedByDate listed.entries (listed.list.rows.erase row) :=
      inOrder.sublist erase_sublist
    exact adjustByDate_sorted addressable member
      (rest.update (key_ne_of_erased addressable known) sortKey)
  next unlisted =>
    cases changes
    refine ⟨?_, addressable⟩
    unfold InOrder
    cases mode : listed.list.sortMode with
    | date =>
      rw [mode] at inOrder
      have unknown : listed.list.getRow key = none := by
        by_contra some
        obtain ⟨row, known⟩ := ne_none_iff_exists'.mp some
        exact unlisted row mode known
      exact SortedByDate.update inOrder (key_ne_of_unknown addressable unknown) sortKey
    | name =>
      rw [mode] at inOrder
      exact inOrder
    | add => trivial

theorem Sound.nameChanged (nameSortKey : N)
    (changes : listed.step (.nameChanged key nameSortKey) = some next) : next.Sound := by
  have inOrder := sound.inOrder
  have addressable := sound.addressable
  unfold InOrder at inOrder
  unfold step at changes
  dsimp only at changes
  split at changes
  next byName =>
    cases changes
    rw [byName] at inOrder
    have inOrder : SortedByName listed.entries listed.list.rows := inOrder
    have moves := moved_adjustByName addressable
      { listed.entries with
        nameSortKey := update listed.entries.nameSortKey key nameSortKey } key
    refine ⟨?_, moves.addressable⟩
    unfold InOrder
    rw [moves.sortMode, byName]
    apply adjustByName_sorted addressable
    · intro row known
      have rest : SortedByName listed.entries (listed.list.rows.erase row) :=
        inOrder.sublist erase_sublist
      exact rest.update (key_ne_of_erased addressable known) nameSortKey
    · intro unknown
      exact inOrder.update (key_ne_of_unknown addressable unknown) nameSortKey
  next notByName =>
    cases changes
    refine ⟨?_, addressable⟩
    unfold InOrder
    cases mode : listed.list.sortMode with
    | date =>
      rw [mode] at inOrder
      exact inOrder
    | name => exact absurd mode notByName
    | add => trivial

end

/-- Every operation keeps the order of the rows. -/
theorem Sound.step (sound : listed.Sound) {event : Event K D N}
    (steps : listed.step event = some next) : next.Sound := by
  cases event with
  | addToEnd key =>
    simp only [Listed.step, ite_none_left_eq_some, some.injEq] at steps
    obtain ⟨notByName, rfl⟩ := steps
    exact sound.addToEnd key notByName
  | addByName key =>
    simp only [Listed.step, ite_none_right_eq_some, some.injEq] at steps
    obtain ⟨byName, rfl⟩ := steps
    exact sound.addByName key byName
  | del key =>
    cases steps
    exact sound.del key
  | sortKeyChanged key sortKey => exact sound.sortKeyChanged key sortKey steps
  | nameChanged key nameSortKey => exact sound.nameChanged key nameSortKey steps

theorem Sound.empty (sortMode : SortMode) (entries : Entries K D N) :
    Sound { list := { sortMode }, entries } := by
  refine ⟨?_, Addressable.empty sortMode⟩
  cases sortMode with
  | date => exact List.Pairwise.nil
  | name => exact List.Pairwise.nil
  | add => trivial

theorem Sound.step_sortMode (sound : listed.Sound) {event : Event K D N}
    (steps : listed.step event = some next) :
    next.list.sortMode = listed.list.sortMode := by
  have addressable := sound.addressable
  cases event with
  | addToEnd key =>
    simp only [Listed.step, ite_none_left_eq_some, some.injEq] at steps
    obtain ⟨-, rfl⟩ := steps
    exact (addToEnd_addressable addressable listed.entries key).2
  | addByName key =>
    simp only [Listed.step, ite_none_right_eq_some, some.injEq] at steps
    obtain ⟨-, rfl⟩ := steps
    obtain ⟨added, sortMode⟩ := addToEnd_addressable addressable listed.entries key
    exact (moved_adjustByName added listed.entries key).sortMode.trans sortMode
  | del key =>
    cases steps
    exact (del_addressable addressable key).2.1
  | sortKeyChanged key sortKey =>
    simp only [Listed.step] at steps
    split at steps
    next row _ known =>
      cases steps
      exact (moved_adjustByDate addressable _ (addressable.mem known)).sortMode
    · cases steps
      rfl
  | nameChanged key nameSortKey =>
    simp only [Listed.step] at steps
    split at steps
    · cases steps
      exact (moved_adjustByName addressable _ key).sortMode
    · cases steps
      rfl

/-- In every run the rows stay sorted, each knows its position and those of `_rowByKey` are
listed, one for each key. -/
theorem rows_sorted_and_addressable (sortMode : SortMode) (entries : Entries K D N)
    (events : List (Event K D N)) (listed : Listed K D N)
    (reaches : run Listed.step { list := { sortMode }, entries } events = some listed) :
    (sortMode = .date → SortedByDate listed.entries listed.list.rows) ∧
      (sortMode = .name → SortedByName listed.entries listed.list.rows) ∧
      Positioned listed.list.pos listed.list.rows ∧
      (∀ row, row ∈ listed.list.rows ↔ listed.list.getRow row.key = some row) ∧
      (∀ key row, listed.list.getRow key = some row → row.key = key) ∧
      (listed.list.rows.map Row.key).Nodup := by
  have kept : ∀ (before : Listed K D N) (event : Event K D N) (next : Listed K D N),
      before.Sound ∧ before.list.sortMode = sortMode → before.step event = some next →
        next.Sound ∧ next.list.sortMode = sortMode := by
    rintro before event next ⟨sound, isMode⟩ steps
    exact ⟨sound.step steps, (sound.step_sortMode steps).trans isMode⟩
  obtain ⟨⟨inOrder, addressable⟩, isMode⟩ :=
    run_invariant kept ⟨Sound.empty sortMode entries, rfl⟩ reaches
  unfold InOrder at inOrder
  rw [isMode] at inOrder
  refine ⟨?_, ?_, addressable.positioned, addressable.listed, addressable.keyed,
    addressable.keys_nodup⟩
  · rintro rfl
    exact inOrder
  · rintro rfl
    exact inOrder

theorem rows_sorted_and_addressable_swapped :
    ∃ listed : Listed Nat Nat Nat,
      run Listed.step { list := { sortMode := .date }, entries := ⟨fun key => key, fun _ => 0⟩ }
          [.addToEnd 1, .addToEnd 2, .addToEnd 3, .sortKeyChanged 1 3, .del 3] = some listed ∧
        listed.list.rows.map Row.key = [1, 2] ∧ SortedByDate listed.entries listed.list.rows := by
  have reaches : ∃ listed : Listed Nat Nat Nat,
      run Listed.step { list := { sortMode := .date }, entries := ⟨fun key => key, fun _ => 0⟩ }
          [.addToEnd 1, .addToEnd 2, .addToEnd 3, .sortKeyChanged 1 3, .del 3] = some listed ∧
        listed.list.rows.map Row.key = [1, 2] := ⟨_, rfl, by decide⟩
  obtain ⟨listed, reaches, keys⟩ := reaches
  exact ⟨listed, reaches, keys,
    (rows_sorted_and_addressable .date ⟨fun key => key, fun _ => 0⟩ _ listed reaches).1 rfl⟩

end Listed

end Dialogs

end TelegramDesktop
