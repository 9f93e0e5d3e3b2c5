import TelegramDesktop.SparseIdsList

/-!
# Two slices as one

The history of a group may go on in another peer.  A `SparseIdsMergedSlice` shows the ids of
the migrated peer before those of the peer itself, as in `data/data_sparse_ids.cpp`, and only
one of the two parts when the other one is not next to what is shown.
-/

namespace TelegramDesktop

open List Option

/-- The id of a message, with its peer. -/
structure FullMessageId where
  peer : UInt64
  msg : Int
  deriving DecidableEq

/-- `ranges::find` -/
def findPosition {α : Type*} [DecidableEq α] (items : List α) (item : α) : Option Nat :=
  if items.idxOf item ≠ items.length then some (items.idxOf item) else none

theorem findPosition_iff {α : Type*} [DecidableEq α] {items : List α} (distinct : items.Nodup)
    {item : α} {position : Nat} :
    findPosition items item = some position ↔ items[position]? = some item := by
  have member : items.idxOf item ≠ items.length ↔ item ∈ items :=
    (idxOf_eq_length_iff.not).trans not_not
  unfold findPosition
  simp only [member]
  split
  next known =>
    have inside := idxOf_lt_length_iff.mpr known
    have found : items[items.idxOf item]? = some item :=
      (getElem?_eq_getElem inside).trans (congrArg some (getElem_idxOf inside))
    rw [some.injEq]
    constructor
    · rintro rfl
      exact found
    · intro other
      exact (getElem?_inj inside distinct).mp (found.trans other.symm)
  next unknown =>
    constructor
    · intro none
      cases none
    · intro found
      exact absurd (mem_of_getElem? found) unknown

/-- `AbstractSparseIds` -/
structure AbstractSparseIds where
  ids : List Int := []
  fullCount : Option Int := none
  skippedBefore : Option Int := none
  skippedAfter : Option Int := none
  deriving DecidableEq

namespace AbstractSparseIds

variable (slice : AbstractSparseIds)

/-- Where the id is in the slice. -/
def indexOf (id : Int) : Option Int :=
  (findPosition slice.ids id).map fun position : Nat => (position : Int)

def size : Int := slice.ids.length

/-- `operator[]` of an index that is expected to be inside. -/
def get? (index : Int) : Option Int :=
  if 0 ≤ index ∧ index < slice.size then slice.ids[index.toNat]? else none

/-- A full count is the sum of the parts where they are known. -/
def AddsUp : Prop :=
  ∀ full before after, slice.fullCount = some full → slice.skippedBefore = some before →
    slice.skippedAfter = some after → full = before + slice.size + after

end AbstractSparseIds

/-- Ids of one peer, by increasing value. -/
structure SparseIdsSlice extends AbstractSparseIds where
  increasing : ids.Pairwise (· < ·)

/-- What a merged slice is about: a chat, and the chat that it was migrated from. -/
structure SparseIdsMergedSlice.Key where
  peerId : UInt64
  migratedPeerId : UInt64
  universalId : Int

/-- The slices of a chat and of the chat that it was migrated from, as one. -/
structure SparseIdsMergedSlice where
  key : SparseIdsMergedSlice.Key
  part : SparseIdsSlice
  migrated : Option SparseIdsSlice
  unsorted : Option AbstractSparseIds := none

namespace SparseIdsMergedSlice

variable (slice : SparseIdsMergedSlice)

def addCounts (a b : Option Int) : Option Int :=
  a.bind fun a => b.map (a + ·)

/-- Only the new chat's part is shown. -/
def isolatedInPart : Bool :=
  IsServerMsgId slice.key.universalId &&
    (slice.migrated.isNone || slice.part.skippedBefore ≠ some 0)

/-- There is a slice of the migrated peer where the key belongs to it. -/
def isolatedInMigrated : Bool :=
  IsServerMsgId (serverMaxMsgId + slice.key.universalId) &&
    (slice.migrated.bind fun migrated => migrated.skippedAfter) ≠ some 0

def isFromPart (fullId : FullMessageId) : Bool := slice.key.peerId = fullId.peer

def isFromMigrated (fullId : FullMessageId) : Bool :=
  slice.migrated.isSome && slice.key.migratedPeerId = fullId.peer

/-- There is a slice of the migrated peer unless the window is isolated in the part. -/
def migratedSize : Int :=
  if slice.isolatedInPart then 0 else slice.migrated.elim 0 fun migrated => migrated.size

/-- The messages of both parts. -/
def fullCount : Option Int :=
  match slice.unsorted with
  | some unsorted => unsorted.fullCount
  | none =>
    addCounts slice.part.fullCount
      (slice.migrated.elim (some 0) fun migrated => migrated.fullCount)

def skippedBefore : Option Int :=
  match slice.unsorted with
  | some unsorted => unsorted.skippedBefore
  | none =>
    addCounts (if slice.isolatedInMigrated then some 0 else slice.part.skippedBefore)
      (slice.migrated.elim (some 0) fun migrated =>
        if slice.isolatedInPart then migrated.fullCount else migrated.skippedBefore)

def skippedAfter : Option Int :=
  match slice.unsorted with
  | some unsorted => unsorted.skippedAfter
  | none =>
    addCounts
      (if slice.isolatedInMigrated then slice.part.fullCount else slice.part.skippedAfter)
      (if slice.isolatedInPart then some 0
        else slice.migrated.bind fun migrated => migrated.skippedAfter)

def indexOf (fullId : FullMessageId) : Option Int :=
  match slice.unsorted with
  | some unsorted => unsorted.indexOf fullId.msg
  | none =>
    if slice.isFromPart fullId then
      (slice.part.indexOf fullId.msg).map (· + slice.migratedSize)
    else if slice.isolatedInPart then none
    else if slice.isFromMigrated fullId then
      slice.migrated.bind fun migrated => migrated.indexOf fullId.msg
    else none

def size : Int :=
  match slice.unsorted with
  | some unsorted => unsorted.size
  | none =>
    (if slice.isolatedInPart then 0 else slice.migratedSize) +
      (if slice.isolatedInMigrated then 0 else slice.part.size)

/-- `operator[]` of an index that is expected to be inside. -/
def get? (index : Int) : Option FullMessageId :=
  if 0 ≤ index ∧ index < slice.size then
    match slice.unsorted with
    | some unsorted => (unsorted.get? index).map (⟨slice.key.peerId, ·⟩)
    | none =>
      let size := slice.migratedSize
      if size ≠ 0 ∧ index < size then
        (slice.migrated.bind fun migrated => migrated.get? index).map
          (⟨slice.key.migratedPeerId, ·⟩)
      else (slice.part.get? (index - size)).map (⟨slice.key.peerId, ·⟩)
  else none

/-- The slice over a chat and the one it was migrated from. -/
def merge (key : Key) (part migrated : SparseIdsSlice) : SparseIdsMergedSlice where
  key := key
  part := part
  migrated := some migrated

section Merge

variable {key : Key} {part migrated : SparseIdsSlice}

def shownMigrated (key : Key) (part migrated : SparseIdsSlice) : List Int :=
  if (merge key part migrated).isolatedInPart then [] else migrated.ids

def shownPart (key : Key) (part migrated : SparseIdsSlice) : List Int :=
  if (merge key part migrated).isolatedInMigrated then [] else part.ids

/-- The shown ids, first those of the migrated chat. -/
def shown (key : Key) (part migrated : SparseIdsSlice) : List FullMessageId :=
  (shownMigrated key part migrated).map (⟨key.migratedPeerId, ·⟩) ++
    (shownPart key part migrated).map (⟨key.peerId, ·⟩)

theorem not_isolated_twice (key : Key) (part migrated : SparseIdsSlice)
    (isolated : (merge key part migrated).isolatedInPart = true) :
    (merge key part migrated).isolatedInMigrated = false := by
  unfold isolatedInPart at isolated
  unfold isolatedInMigrated
  rw [Bool.and_eq_true, decide_eq_true_eq] at isolated
  have notServer : ¬IsServerMsgId (serverMaxMsgId + (merge key part migrated).key.universalId) := by
    intro server
    have above := isolated.1.1
    have below := server.2
    omega
  simp [notServer]

theorem migratedSize_eq :
    (merge key part migrated).migratedSize = (shownMigrated key part migrated).length := by
  unfold migratedSize shownMigrated
  split <;> rfl

theorem size_eq : (merge key part migrated).size = (shown key part migrated).length := by
  change (if (merge key part migrated).isolatedInPart then 0
      else (merge key part migrated).migratedSize) +
    (if (merge key part migrated).isolatedInMigrated then 0 else part.size) = _
  rw [migratedSize_eq, shown, shownMigrated, shownPart]
  cases (merge key part migrated).isolatedInPart <;>
    cases (merge key part migrated).isolatedInMigrated <;>
      simp [AbstractSparseIds.size]

theorem get?_ids {slice : AbstractSparseIds} {index : Nat} :
    slice.get? index = slice.ids[index]? := by
  unfold AbstractSparseIds.get? AbstractSparseIds.size
  split
  · rfl
  · rw [getElem?_eq_none]
    omega

theorem get?_eq (key : Key) (part migrated : SparseIdsSlice) (index : Nat) :
    (merge key part migrated).get? index = (shown key part migrated)[index]? := by
  have unfolded : (merge key part migrated).get? index =
      if 0 ≤ (index : Int) ∧ (index : Int) < (merge key part migrated).size then
        if (merge key part migrated).migratedSize ≠ 0 ∧
            (index : Int) < (merge key part migrated).migratedSize then
          (migrated.get? index).map (⟨key.migratedPeerId, ·⟩)
        else
          (part.get? (index - (merge key part migrated).migratedSize)).map (⟨key.peerId, ·⟩)
      else none := rfl
  simp only [unfolded, size_eq, migratedSize_eq]
  by_cases inside : index < (shown key part migrated).length
  · rw [if_pos ⟨by omega, by omega⟩]
    by_cases early : index < (shownMigrated key part migrated).length
    · have notIsolated : (merge key part migrated).isolatedInPart = false := by
        rw [← Bool.not_eq_true]
        intro isolated
        rw [shownMigrated, if_pos isolated] at early
        exact absurd early (Nat.not_lt_zero _)
      rw [if_pos ⟨by omega, by omega⟩, shown,
        getElem?_append_left (by rw [length_map]; exact early), getElem?_map,
        shownMigrated, notIsolated, get?_ids]
      rfl
    · have place : (index : Int) - (shownMigrated key part migrated).length =
          ((index - (shownMigrated key part migrated).length : Nat) : Int) := by omega
      have notIsolated : (merge key part migrated).isolatedInMigrated = false := by
        rw [← Bool.not_eq_true]
        intro isolated
        rw [shown, shownPart, if_pos isolated, length_append, length_map] at inside
        exact early inside
      rw [if_neg (by omega), place, shown, getElem?_append_right (by rw [length_map]; omega),
        length_map, getElem?_map, shownPart, notIsolated, get?_ids]
      rfl
  · rw [if_neg (by omega), getElem?_eq_none (by omega)]

/-- No index is given to an id that is not shown: a window that is isolated in the slice of
the migrated peer has no ids of the peer itself, and ids of the two peers are told apart. -/
def Separates (key : Key) (part migrated : SparseIdsSlice) : Prop :=
  ((merge key part migrated).isolatedInMigrated = true → part.ids = []) ∧
    (key.peerId = key.migratedPeerId →
      (merge key part migrated).isolatedInPart = true ∨ migrated.ids = [])

theorem Separates.shownPart (separates : Separates key part migrated) :
    SparseIdsMergedSlice.shownPart key part migrated = part.ids := by
  unfold SparseIdsMergedSlice.shownPart
  split
  next isolated =>
    exact (separates.1 isolated).symm
  · rfl

theorem Separates.shownMigrated_of_same (separates : Separates key part migrated)
    (same : key.peerId = key.migratedPeerId) : shownMigrated key part migrated = [] := by
  unfold shownMigrated
  split
  · rfl
  next notIsolated =>
    exact (separates.2 same).resolve_left notIsolated

variable {fullId : FullMessageId}

theorem getElem?_map_peer {ids : List Int} {peer : UInt64} {position : Nat} :
    (ids.map (⟨peer, ·⟩))[position]? = some fullId ↔
      peer = fullId.peer ∧ ids[position]? = some fullId.msg := by
  rw [getElem?_map, map_eq_some_iff]
  constructor
  · rintro ⟨id, found, rfl⟩
    exact ⟨rfl, found⟩
  · rintro ⟨rfl, found⟩
    exact ⟨fullId.msg, found, rfl⟩

theorem shown_getElem?_iff {position : Nat} :
    (shown key part migrated)[position]? = some fullId ↔
      key.migratedPeerId = fullId.peer ∧
          (shownMigrated key part migrated)[position]? = some fullId.msg ∨
        (shownMigrated key part migrated).length ≤ position ∧ key.peerId = fullId.peer ∧
          (shownPart key part migrated)[position - (shownMigrated key part migrated).length]? =
            some fullId.msg := by
  unfold shown
  rcases lt_or_ge position (shownMigrated key part migrated).length with early | late
  · rw [getElem?_append_left (by rw [length_map]; exact early), getElem?_map_peer]
    constructor
    · exact .inl
    · rintro (first | ⟨late, -⟩)
      · exact first
      · omega
  · rw [getElem?_append_right (by rw [length_map]; exact late), length_map, getElem?_map_peer]
    constructor
    · exact fun later => .inr ⟨late, later⟩
    · rintro (⟨-, early⟩ | ⟨-, later⟩)
      · rw [getElem?_eq_none late] at early
        cases early
      · exact later

theorem indexOf_ids_iff (slice : SparseIdsSlice) {id index : Int} :
    slice.indexOf id = some index ↔
      ∃ position : Nat, slice.ids[position]? = some id ∧ index = position := by
  have distinct : slice.ids.Nodup := slice.increasing.imp fun below => ne_of_lt below
  unfold AbstractSparseIds.indexOf
  rw [map_eq_some_iff]
  simp only [findPosition_iff distinct, eq_comm (a := index)]

theorem indexOf_eq :
    (merge key part migrated).indexOf fullId =
      if key.peerId = fullId.peer then
        (part.indexOf fullId.msg).map (· + ((shownMigrated key part migrated).length : Int))
      else if (merge key part migrated).isolatedInPart then none
      else if key.migratedPeerId = fullId.peer then migrated.indexOf fullId.msg
      else none := by
  rw [← migratedSize_eq]
  by_cases same : key.peerId = fullId.peer
  · simp [merge, indexOf, isFromPart, same]
  · by_cases alike : key.migratedPeerId = fullId.peer <;>
      simp [merge, indexOf, isFromPart, isFromMigrated, same, alike]

/-- What `indexOf` finds is shown at that index. -/
theorem Separates.indexOf_iff (separates : Separates key part migrated) {index : Int} :
    (merge key part migrated).indexOf fullId = some index ↔
      ∃ position : Nat, (shown key part migrated)[position]? = some fullId ∧
        index = position := by
  simp only [shown_getElem?_iff, separates.shownPart]
  rw [indexOf_eq]
  by_cases same : key.peerId = fullId.peer
  · rw [if_pos same, map_eq_some_iff]
    simp only [indexOf_ids_iff]
    constructor
    · rintro ⟨_, ⟨position, found, rfl⟩, rfl⟩
      refine ⟨position + (shownMigrated key part migrated).length, .inr ⟨?_, same, ?_⟩, ?_⟩
      · omega
      · rw [Nat.add_sub_cancel]
        exact found
      · push_cast
        rfl
    · rintro ⟨position, ⟨alike, early⟩ | ⟨late, -, found⟩, rfl⟩
      · rw [separates.shownMigrated_of_same (same.trans alike.symm)] at early
        cases early
      · exact ⟨_, ⟨_, found, rfl⟩, by omega⟩
  · rw [if_neg same]
    simp only [same, false_and, and_false, or_false]
    by_cases isolated : (merge key part migrated).isolatedInPart = true
    · rw [if_pos isolated, shownMigrated, if_pos isolated]
      simp
    · rw [if_neg isolated, shownMigrated, if_neg isolated]
      by_cases alike : key.migratedPeerId = fullId.peer
      · rw [if_pos alike, indexOf_ids_iff]
        simp [alike]
      · rw [if_neg alike]
        simp [alike]

/-- Indices are those of the ids, and the counts that are known add up. -/
structure IndexesConsistently (slice : SparseIdsMergedSlice) : Prop where
  found : ∀ fullId index, slice.indexOf fullId = some index →
    0 ≤ index ∧ index < slice.size ∧ slice.get? index = some fullId
  inside : ∀ index, 0 ≤ index → index < slice.size →
    ∃ fullId, slice.get? index = some fullId ∧ slice.indexOf fullId = some index
  counts : ∀ full before after, slice.fullCount = some full →
    slice.skippedBefore = some before → slice.skippedAfter = some after →
      full = before + slice.size + after

theorem addCounts_eq_some {a b : Option Int} {sum : Int} :
    addCounts a b = some sum ↔ ∃ first second, a = some first ∧ b = some second ∧
      first + second = sum := by
  unfold addCounts
  rw [bind_eq_some_iff]
  simp

theorem merge_addsUp (partAddsUp : part.AddsUp) (migratedAddsUp : migrated.AddsUp)
    {full before after : Int} (isFull : (merge key part migrated).fullCount = some full)
    (isBefore : (merge key part migrated).skippedBefore = some before)
    (isAfter : (merge key part migrated).skippedAfter = some after) :
    full = before + (merge key part migrated).size + after := by
  have twice := not_isolated_twice key part migrated
  obtain ⟨partFull, migratedFull, isPartFull, isMigratedFull, rfl⟩ := addCounts_eq_some.mp isFull
  obtain ⟨firstBefore, secondBefore, first, second, rfl⟩ := addCounts_eq_some.mp isBefore
  obtain ⟨firstAfter, secondAfter, third, fourth, rfl⟩ := addCounts_eq_some.mp isAfter
  have size : (merge key part migrated).size =
      (if (merge key part migrated).isolatedInPart then 0 else migrated.size) +
        (if (merge key part migrated).isolatedInMigrated then 0 else part.size) := by
    rw [size_eq, shown, shownMigrated, shownPart]
    split <;> split <;> simp [AbstractSparseIds.size]
  change (if (merge key part migrated).isolatedInPart then migrated.fullCount
    else migrated.skippedBefore) = some secondBefore at second
  change (if (merge key part migrated).isolatedInMigrated then part.fullCount
    else part.skippedAfter) = some firstAfter at third
  change part.fullCount = some partFull at isPartFull
  change migrated.fullCount = some migratedFull at isMigratedFull
  rw [size]
  generalize (merge key part migrated).isolatedInPart = inPart at *
  generalize (merge key part migrated).isolatedInMigrated = inMigrated at *
  cases inPart with
  | true =>
    rw [twice rfl] at first third ⊢
    have sum := partAddsUp partFull firstBefore firstAfter isPartFull first third
    rw [if_pos rfl] at second fourth
    rw [isMigratedFull] at second
    cases second
    cases fourth
    rw [if_pos rfl, if_neg Bool.false_ne_true, sum]
    omega
  | false =>
    have migratedSum := migratedAddsUp migratedFull secondBefore secondAfter isMigratedFull
      second fourth
    rw [if_neg Bool.false_ne_true]
    cases inMigrated with
    | true =>
      rw [if_pos rfl] at first third
      rw [isPartFull] at third
      cases first
      cases third
      rw [if_pos rfl, migratedSum]
      omega
    | false =>
      have partSum := partAddsUp partFull firstBefore firstAfter isPartFull first third
      rw [if_neg Bool.false_ne_true, partSum, migratedSum]
      omega

theorem Separates.indexesConsistently (separates : Separates key part migrated)
    (partAddsUp : part.AddsUp) (migratedAddsUp : migrated.AddsUp) :
    IndexesConsistently (merge key part migrated) := by
  refine ⟨?_, ?_, ?_⟩
  · intro fullId index known
    obtain ⟨position, found, rfl⟩ := separates.indexOf_iff.mp known
    have below := (List.getElem?_eq_some_iff.mp found).1
    refine ⟨Int.natCast_nonneg position, ?_, ?_⟩
    · rw [size_eq]
      omega
    · rw [get?_eq, found]
  · intro index nonneg below
    rw [size_eq] at below
    obtain ⟨position, rfl⟩ := Int.eq_ofNat_of_zero_le nonneg
    have counted : position < (shown key part migrated).length := by omega
    have found := getElem?_eq_getElem counted
    exact ⟨_, (get?_eq _ _ _ position).trans found,
      separates.indexOf_iff.mpr ⟨position, found, rfl⟩⟩
  · intro full before after isFull isBefore isAfter
    exact merge_addsUp partAddsUp migratedAddsUp isFull isBefore isAfter

/-- Ids of a part that is not shown still have an index, and with one peer only the ids of
the two slices are mixed up. -/
theorem IndexesConsistently.separates (consistent : IndexesConsistently (merge key part migrated)) :
    Separates key part migrated := by
  refine ⟨?_, ?_⟩
  · intro isolated
    by_contra some
    obtain ⟨id, ids, split⟩ := exists_cons_of_ne_nil some
    have listed : part.indexOf id = Option.some 0 :=
      (indexOf_ids_iff part).mpr ⟨0, by rw [split]; rfl, rfl⟩
    have known : (merge key part migrated).indexOf ⟨key.peerId, id⟩ =
        Option.some (0 + ((shownMigrated key part migrated).length : Int)) := by
      rw [indexOf_eq, if_pos rfl, listed]
      rfl
    have below := (consistent.found _ _ known).2.1
    rw [size_eq, shown, shownPart, if_pos isolated, length_append, length_map] at below
    simp at below
  · intro same
    by_contra mixed
    rw [not_or, Bool.not_eq_true] at mixed
    obtain ⟨id, ids, split⟩ := exists_cons_of_ne_nil mixed.2
    have listed : shownMigrated key part migrated = id :: ids := by
      rw [shownMigrated, mixed.1, if_neg Bool.false_ne_true, split]
    have below : 0 < (merge key part migrated).size := by
      rw [size_eq, shown, listed]
      simp only [map_cons, cons_append, length_cons]
      omega
    obtain ⟨fullId, atZero, known⟩ := consistent.inside 0 (le_refl 0) below
    have first := (get?_eq key part migrated 0).symm.trans atZero
    rw [shown, listed] at first
    cases first
    rw [indexOf_eq, if_pos same, listed, map_eq_some_iff] at known
    obtain ⟨place, partIndex, sum⟩ := known
    obtain ⟨position, -, rfl⟩ := (indexOf_ids_iff part).mp partIndex
    rw [length_cons] at sum
    omega

end Merge

/-- Merged slices index consistently unless a window that is isolated in the slice of the
migrated peer comes with ids of the peer itself, or both peers are the same and ids of the
migrated one are shown. -/
theorem indexesConsistently_iff (key : Key) (part migrated : SparseIdsSlice)
    (partAddsUp : part.AddsUp) (migratedAddsUp : migrated.AddsUp) :
    IndexesConsistently (merge key part migrated) ↔
      ((merge key part migrated).isolatedInMigrated = true → part.ids = []) ∧
        (key.peerId = key.migratedPeerId →
          (merge key part migrated).isolatedInPart = true ∨ migrated.ids = []) := by
  constructor
  · intro consistent
    exact consistent.separates
  · intro separates
    exact Separates.indexesConsistently separates partAddsUp migratedAddsUp

theorem indexesConsistently_iff_joined :
    IndexesConsistently (merge ⟨1, 2, -5⟩ ⟨⟨[3, 4], some 2, some 0, some 0⟩, by decide⟩
      ⟨⟨[7, 9], some 3, some 1, some 0⟩, by decide⟩) := by
  refine (indexesConsistently_iff _ _ _ ?_ ?_).mpr ⟨by decide, by decide⟩ <;>
    · rintro _ _ _ ⟨⟩ ⟨⟩ ⟨⟩
      rfl

/-- The window is isolated in the slice of the migrated peer: the id 3 of the peer itself is
not shown, and its index is behind the end. -/
theorem isolated_part_has_index :
    ∃ (key : Key) (part migrated : SparseIdsSlice),
      IsServerMsgId (serverMaxMsgId + key.universalId) ∧
      part.AddsUp ∧ migrated.AddsUp ∧ key.peerId ≠ key.migratedPeerId ∧
      (merge key part migrated).indexOf ⟨key.peerId, 3⟩ = some 2 ∧
      (merge key part migrated).size = 2 ∧
      ¬IndexesConsistently (merge key part migrated) := by
  refine ⟨⟨1, 2, -5⟩, ⟨⟨[3, 4], some 2, some 0, some 0⟩, by decide⟩,
    ⟨⟨[7, 9], some 3, some 0, some 1⟩, by decide⟩, by decide, ?_, ?_, by decide, by decide,
    by decide, ?_⟩
  · rintro _ _ _ ⟨⟩ ⟨⟩ ⟨⟩
    rfl
  · rintro _ _ _ ⟨⟩ ⟨⟩ ⟨⟩
    rfl
  · intro consistent
    have below := (consistent.found ⟨1, 3⟩ 2 (by decide)).2.1
    exact absurd below (by decide)

end SparseIdsMergedSlice

end TelegramDesktop
