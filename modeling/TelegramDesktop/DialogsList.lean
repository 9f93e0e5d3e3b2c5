import TelegramDesktop.FlatMap
import TelegramDesktop.MovingItems
import TelegramDesktop.Runs

/-!
# Rows of a chats list

A list keeps its rows in order and every row knows its position, as in
`dialogs/dialogs_list.cpp`.
-/

namespace TelegramDesktop

open List Option FlatMap

namespace Dialogs

/-- What the rows of a list are sorted by. -/
inductive SortMode
  | date
  | name
  | add
  deriving DecidableEq

/-- A row by its address: those created for one key differ in `serial`. -/
structure Row (K : Type*) where
  key : K
  serial : Nat
  deriving DecidableEq

/-- What the entries of the keys are sorted by: `sortKeyInChatList` of the filter and
`chatListNameSortKey`. -/
structure Entries (K D N : Type*) where
  sortKey : K → D
  nameSortKey : K → N

end Dialogs

open Dialogs (SortMode Row Entries)

/-- The rows of a list of chats in their order, and the row of every key. -/
structure DialogsList (K : Type*) [LinearOrder K] where
  sortMode : SortMode
  rows : List (Row K) := []
  rowByKey : FlatMap K (Row K) := ∅
  /-- `_pos` of the rows. -/
  pos : Row K → Nat := fun _ => 0
  created : Nat := 0

namespace DialogsList

variable {K D N : Type*} [LinearOrder K]
variable (list : DialogsList K) (entries : Entries K D N)

/-- `getRow` -/
def getRow (key : K) : Option (Row K) := list.rowByKey.find? key

/-- `rotate` -/
def rotate (first middle last : Nat) : DialogsList K :=
  let rows := rotateRange list.rows first middle last
  { list with rows, pos := numberFrom list.pos first ((rows.take last).drop first) }

/-- `adjustByDate` with what stops the search to either side. -/
def adjust (stopsNext stopsPrevious : Row K → Bool) (row : Row K) : DialogsList K :=
  let index := list.pos row
  let before := findNext stopsNext list.rows index
  if before ≠ index + 1 then list.rotate index (index + 1) before
  else
    let after := findPrevious stopsPrevious list.rows index
    if after ≠ index then list.rotate after index (index + 1) else list

/-- `adjustByDate` -/
def adjustByDate [LinearOrder D] (row : Row K) : DialogsList K :=
  list.adjust (fun other => entries.sortKey other.key ≤ entries.sortKey row.key)
    (fun other => entries.sortKey row.key ≤ entries.sortKey other.key) row

/-- `adjustByName` of a row: it does not search before the first row. -/
def adjustRowByName [LinearOrder N] (row : Row K) : DialogsList K :=
  let index := list.pos row
  let before := findNext (fun other => entries.nameSortKey row.key ≤ entries.nameSortKey other.key)
    list.rows index
  if before ≠ index + 1 then list.rotate index (index + 1) before
  else if index ≠ 0 then
    let after := findPrevious
      (fun other => entries.nameSortKey other.key ≤ entries.nameSortKey row.key) list.rows index
    if after ≠ index then list.rotate after index (index + 1) else list
  else list

/-- `adjustByName` -/
def adjustByName [LinearOrder N] (key : K) : DialogsList K × Option (Row K) :=
  match list.getRow key with
  | none => (list, none)
  | some row => (list.adjustRowByName entries row, some row)

/-- `addToEnd` -/
def addToEnd [LinearOrder D] (key : K) : DialogsList K × Row K :=
  match list.getRow key with
  | some row => (list, row)
  | none =>
    let row : Row K := ⟨key, list.created⟩
    let added :=
      { list with
        rowByKey := list.rowByKey.emplace key row
        rows := list.rows ++ [row]
        pos := Function.update list.pos row list.rows.length
        created := list.created + 1 }
    (if list.sortMode = .date then added.adjustByDate entries row else added, row)

/-- `addByName` -/
def addByName [LinearOrder D] [LinearOrder N] (key : K) : DialogsList K × Row K :=
  let (added, row) := list.addToEnd entries key
  ((added.adjustByName entries key).1, row)

/-- `del` -/
def del (key : K) : DialogsList K × Bool :=
  match list.getRow key with
  | none => (list, false)
  | some row =>
    let index := list.pos row
    let rows := list.rows.eraseIdx index
    ({ list with
        rows
        pos := numberFrom list.pos index (rows.drop index)
        rowByKey := list.rowByKey.erase key }, true)

/-- The rows know their positions and are those of the keys, one row for each key. -/
structure Addressable : Prop where
  distinct : list.rows.Nodup
  positioned : Positioned list.pos list.rows
  listed : ∀ row, row ∈ list.rows ↔ list.getRow row.key = some row
  keyed : ∀ key row, list.getRow key = some row → row.key = key

variable {list}

variable {row : Row K} {key : K}

namespace Addressable

section

variable (addressable : list.Addressable)
include addressable

theorem mem (known : list.getRow key = some row) : row ∈ list.rows := by
  rw [addressable.listed, addressable.keyed key row known]
  exact known

theorem getElem?_pos (member : row ∈ list.rows) : list.rows[list.pos row]? = some row := by
  obtain ⟨index, found⟩ := mem_iff_getElem?.mp member
  rw [addressable.positioned index row found, found]

theorem pos_lt (member : row ∈ list.rows) : list.pos row < list.rows.length :=
  (List.getElem?_eq_some_iff.mp (addressable.getElem?_pos member)).1

theorem exists_split (member : row ∈ list.rows) :
    ∃ before after, list.rows = before ++ row :: after ∧ list.pos row = before.length := by
  obtain ⟨before, after, split⟩ := append_of_mem member
  have there : list.rows[before.length]? = some row := by
    rw [split, getElem?_append_right (le_refl _), Nat.sub_self, getElem?_cons_zero]
  exact ⟨before, after, split, addressable.positioned _ row there⟩

theorem keys_nodup : (list.rows.map Row.key).Nodup := by
  apply Nodup.map_on _ addressable.distinct
  intro first firstMem second secondMem same
  rw [addressable.listed] at firstMem secondMem
  rw [same, secondMem, some.injEq] at firstMem
  exact firstMem.symm

theorem rotate {first middle last : Nat} (firstLe : first ≤ middle) (middleLe : middle ≤ last)
    (lastLe : last ≤ list.rows.length) :
    (list.rotate first middle last).Addressable := by
  have perm := rotateRange_perm firstLe middleLe lastLe
  have distinct := perm.nodup_iff.mpr addressable.distinct
  refine ⟨distinct, ?_, ?_, addressable.keyed⟩
  · apply Positioned.numberFrom distinct
    intro index row found outside
    rw [getElem?_rotateRange firstLe middleLe lastLe outside] at found
    exact addressable.positioned index row found
  · intro row
    exact perm.mem_iff.trans (addressable.listed row)

end

end Addressable

/-- The same rows in another order, each of them at its new position. -/
structure Moved (moved list : DialogsList K) : Prop where
  sortMode : moved.sortMode = list.sortMode
  rowByKey : moved.rowByKey = list.rowByKey
  perm : moved.rows.Perm list.rows
  addressable : moved.Addressable

theorem Moved.getRow {moved : DialogsList K} (moves : Moved moved list) (key : K) :
    moved.getRow key = list.getRow key := by
  rw [DialogsList.getRow, DialogsList.getRow, moves.rowByKey]

theorem Moved.refl (addressable : list.Addressable) : Moved list list :=
  ⟨rfl, rfl, Perm.refl _, addressable⟩

theorem moved_rotate (addressable : list.Addressable) {first middle last : Nat}
    (firstLe : first ≤ middle) (middleLe : middle ≤ last) (lastLe : last ≤ list.rows.length) :
    Moved (list.rotate first middle last) list :=
  ⟨rfl, rfl, rotateRange_perm firstLe middleLe lastLe, addressable.rotate firstLe middleLe lastLe⟩

theorem moved_adjust (addressable : list.Addressable) (stopsNext stopsPrevious : Row K → Bool)
    (member : row ∈ list.rows) :
    Moved (list.adjust stopsNext stopsPrevious row) list := by
  have inside := addressable.pos_lt member
  unfold adjust
  dsimp only
  split
  · exact moved_rotate addressable (Nat.le_succ _) (Nat.le_add_right _ _)
      (findNext_le stopsNext inside)
  · split
    · exact moved_rotate addressable (findPrevious_le ..) (Nat.le_succ _) inside
    · exact Moved.refl addressable

theorem rows_adjust (stopsNext stopsPrevious : Row K → Bool) (row : Row K) :
    (list.adjust stopsNext stopsPrevious row).rows =
      repaired stopsNext stopsPrevious list.rows (list.pos row) := by
  unfold adjust repaired
  dsimp only
  split
  · rfl
  · split <;> rfl

theorem adjustRowByName_eq [LinearOrder N] (list : DialogsList K) (entries : Entries K D N)
    (row : Row K) :
    list.adjustRowByName entries row =
      list.adjust (fun other => entries.nameSortKey row.key ≤ entries.nameSortKey other.key)
        (fun other => entries.nameSortKey other.key ≤ entries.nameSortKey row.key) row := by
  unfold adjustRowByName adjust
  dsimp only
  split
  · rfl
  · by_cases first : list.pos row = 0
    · rw [if_neg (not_not.mpr first), if_neg]
      rw [first]
      exact not_not.mpr (Nat.le_zero.mp (findPrevious_le ..))
    · rw [if_pos first]

theorem adjust_sorted {κ : Type*} [LinearOrder κ] (rank : Row K → κ)
    (addressable : list.Addressable) (member : row ∈ list.rows)
    (sorted : (list.rows.erase row).Pairwise fun first second => rank first ≤ rank second) :
    (list.adjust (fun other => rank row ≤ rank other) (fun other => rank other ≤ rank row)
      row).rows.Pairwise fun first second => rank first ≤ rank second := by
  obtain ⟨before, after, split, position⟩ := addressable.exists_split member
  have distinct := addressable.distinct
  rw [split, nodup_middle, nodup_cons, mem_append, not_or] at distinct
  rw [split, erase_append_right _ distinct.1.1, erase_cons_head] at sorted
  rw [rows_adjust, position, split]
  exact repaired_sorted sorted

theorem moved_adjustByDate [LinearOrder D] (addressable : list.Addressable)
    (entries : Entries K D N) (member : row ∈ list.rows) :
    Moved (list.adjustByDate entries row) list :=
  moved_adjust addressable _ _ member

theorem moved_adjustByName [LinearOrder N] (addressable : list.Addressable)
    (entries : Entries K D N) (key : K) :
    Moved (list.adjustByName entries key).1 list := by
  unfold adjustByName
  cases known : list.getRow key with
  | none => exact Moved.refl addressable
  | some row =>
    dsimp only
    rw [adjustRowByName_eq]
    exact moved_adjust addressable _ _ (addressable.mem known)

theorem mem_rows_iff (addressable : list.Addressable) :
    key ∈ list.rows.map Row.key ↔ (list.getRow key).isSome := by
  constructor
  · intro member
    obtain ⟨row, listed, rfl⟩ := mem_map.mp member
    rw [(addressable.listed row).mp listed]
    rfl
  · intro known
    obtain ⟨row, isRow⟩ := isSome_iff_exists.mp known
    exact mem_map.mpr ⟨row, addressable.mem isRow, addressable.keyed key row isRow⟩

/-- The list with a new row at its end, before this is moved. -/
def appended (list : DialogsList K) (key : K) : DialogsList K :=
  { list with
    rowByKey := list.rowByKey.emplace key ⟨key, list.created⟩
    rows := list.rows ++ [⟨key, list.created⟩]
    pos := Function.update list.pos ⟨key, list.created⟩ list.rows.length
    created := list.created + 1 }

theorem getRow_appended (unknown : list.getRow key = none) (other : K) :
    (list.appended key).getRow other =
      if other = key then some ⟨key, list.created⟩ else list.getRow other := by
  have fresh : ∀ entry ∈ list.rowByKey.entries, entry.1 ≠ key := by
    rw [← FlatMap.contains_eq_false, FlatMap.contains]
    exact isSome_eq_false_iff.mpr (isNone_iff_eq_none.mpr unknown)
  split
  next same =>
    rw [same]
    exact find?_emplace_self fresh
  next different =>
    exact find?_emplace_of_ne fresh different

theorem Addressable.appended (addressable : list.Addressable)
    (unknown : list.getRow key = none) : (list.appended key).Addressable := by
  have absent : ∀ row ∈ list.rows, row.key ≠ key := by
    intro row member same
    rw [addressable.listed, same, unknown] at member
    cases member
  have fresh : (⟨key, list.created⟩ : Row K) ∉ list.rows := fun member => absent _ member rfl
  refine ⟨?_, ?_, ?_, ?_⟩
  · exact nodup_append.mpr ⟨addressable.distinct, nodup_singleton _, by
      intro row member other isNew same
      rw [same, mem_singleton.mp isNew] at member
      exact fresh member⟩
  · intro index row found
    have found : (list.rows ++ [⟨key, list.created⟩])[index]? = some row := found
    show Function.update list.pos ⟨key, list.created⟩ list.rows.length row = index
    rw [getElem?_append] at found
    split at found
    · have member := mem_of_getElem? found
      have other : row ≠ ⟨key, list.created⟩ := fun same => fresh (same ▸ member)
      rw [Function.update_of_ne other]
      exact addressable.positioned index row found
    · rw [getElem?_singleton] at found
      split at found
      · cases found
        rw [Function.update_self]
        omega
      · cases found
  · intro row
    rw [getRow_appended unknown]
    show row ∈ list.rows ++ [⟨key, list.created⟩] ↔ _
    rw [mem_append, mem_singleton]
    split
    next same =>
      constructor
      · rintro (member | rfl)
        · exact absurd same (absent row member)
        · rfl
      · intro isNew
        exact .inr (some.inj isNew).symm
    next different =>
      rw [addressable.listed]
      refine or_iff_left ?_
      rintro rfl
      exact different rfl
  · intro other row known
    rw [getRow_appended unknown] at known
    split at known
    next same =>
      cases known
      exact same.symm
    · exact addressable.keyed other row known

theorem addToEnd_known [LinearOrder D] (known : list.getRow key = some row)
    (entries : Entries K D N) : list.addToEnd entries key = (list, row) := by
  rw [addToEnd, known]

theorem addToEnd_unknown [LinearOrder D] (unknown : list.getRow key = none)
    (entries : Entries K D N) : list.addToEnd entries key =
      (if list.sortMode = .date then
        (list.appended key).adjustByDate entries ⟨key, list.created⟩
      else list.appended key, ⟨key, list.created⟩) := by
  rw [addToEnd, unknown]
  rfl

theorem moved_addToEnd [LinearOrder D] (addressable : list.Addressable)
    (unknown : list.getRow key = none) (entries : Entries K D N) :
    Moved (list.addToEnd entries key).1 (list.appended key) := by
  have added := addressable.appended unknown
  rw [addToEnd_unknown unknown]
  split
  · exact moved_adjustByDate added entries (mem_append_right _ mem_cons_self)
  · exact Moved.refl added

theorem del_known (addressable : list.Addressable) (known : list.getRow key = some row) :
    (list.del key).1.rows = list.rows.erase row ∧
      (list.del key).1.rowByKey = list.rowByKey.erase key ∧
      (list.del key).1.sortMode = list.sortMode ∧ (list.del key).1.Addressable := by
  have member := addressable.mem known
  obtain ⟨before, after, split, position⟩ := addressable.exists_split member
  have distinct := addressable.distinct
  have erased : list.rows.eraseIdx (list.pos row) = list.rows.erase row := by
    rw [split, nodup_middle, nodup_cons, mem_append, not_or] at distinct
    rw [position, split, erase_append_right _ distinct.1.1, erase_cons_head,
      eraseIdx_append_of_length_le (le_refl _), Nat.sub_self, eraseIdx_cons_zero]
  have still : (list.rows.erase row).Nodup := distinct.sublist erase_sublist
  have getRow : ∀ other, (list.del key).1.getRow other =
      if other = key then none else list.getRow other := by
    intro other
    rw [del, known]
    exact find?_erase
  rw [del, known] at getRow ⊢
  refine ⟨erased, rfl, rfl, ⟨?_, ?_, ?_, ?_⟩⟩
  · show (list.rows.eraseIdx (list.pos row)).Nodup
    rwa [erased]
  · -- the rows before the erased one keep their positions
    have upTo : (list.rows.eraseIdx (list.pos row)).drop (list.pos row) =
        ((list.rows.eraseIdx (list.pos row)).take list.rows.length).drop (list.pos row) := by
      rw [take_of_length_le (length_eraseIdx_le _ _)]
    show Positioned (numberFrom list.pos (list.pos row)
      ((list.rows.eraseIdx (list.pos row)).drop (list.pos row))) _
    rw [upTo]
    apply Positioned.numberFrom (erased ▸ still)
    intro index other found outside
    have short := length_eraseIdx_le list.rows (list.pos row)
    have below := (List.getElem?_eq_some_iff.mp found).1
    rw [getElem?_eraseIdx] at found
    split at found
    · exact addressable.positioned index other found
    · omega
  · intro other
    rw [getRow]
    show other ∈ list.rows.eraseIdx (list.pos row) ↔ _
    rw [erased, distinct.mem_erase_iff, addressable.listed]
    split
    next same =>
      rw [same, known, some.injEq]
      simp
      exact fun different => different ∘ Eq.symm
    next different =>
      refine and_iff_right_of_imp fun _ => ?_
      rintro rfl
      exact different (addressable.keyed key other known)
  · intro other found same
    rw [getRow] at same
    split at same
    · cases same
    · exact addressable.keyed other found same

theorem del_unknown (unknown : list.getRow key = none) :
    list.del key = (list, false) := by
  rw [del, unknown]

theorem Addressable.empty (sortMode : SortMode) :
    Addressable ({ sortMode } : DialogsList K) := by
  refine ⟨nodup_nil, ?_, ?_, ?_⟩
  · rintro index row ⟨⟩
  · intro row
    exact iff_of_false not_mem_nil (by rintro ⟨⟩)
  · rintro key row ⟨⟩

end DialogsList

end TelegramDesktop
