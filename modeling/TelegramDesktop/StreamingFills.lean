import TelegramDesktop.StreamingCacheRoundTrip
import TelegramDesktop.StreamingOffsets

/-!
# Filling from the slices

Filling changes no part of a slice: it may unload a slice, and it may mark one as being
read from the cache.
-/

namespace TelegramDesktop.Streaming

open List

theorem foldl_stackAdd (size : Nat) (values added : List Nat) :
    added.foldl (stackAdd size) values = values ++ added.take (size - values.length) := by
  induction added generalizing values with
  | nil => simp
  | cons value added ih =>
    rw [foldl_cons, ih, stackAdd]
    split
    · have more : size - values.length = size - (values.length + 1) + 1 := by omega
      rw [length_append, length_singleton, more, take_succ_cons, append_assoc]
      rfl
    · have none : size - values.length = 0 := by omega
      rw [none, take_zero, take_zero]

variable {buffer : Bytes}

namespace Slices

variable {slices next last : Slices} {slice after : Slice} {index : Nat}

/-- A slice keeps its parts or loses all of them, and is marked as being read only if it
was not read yet. -/
structure SliceKept (mode : HeaderMode) (slice after : Slice) : Prop where
  parts : after.parts = slice.parts ∨ after.parts = ∅
  exclusive : (slice.loadingFromCache = true → slice.loadedFromCache = false) →
    after.loadingFromCache = true → after.loadedFromCache = false
  unknown : mode = .unknown → slice.loadingFromCache = false → after.loadingFromCache = false

theorem SliceKept.refl (mode : HeaderMode) (slice : Slice) : SliceKept mode slice slice :=
  ⟨.inl rfl, id, fun _ => id⟩

theorem SliceKept.trans {mode : HeaderMode} {middle : Slice}
    (first : SliceKept mode slice middle) (second : SliceKept mode middle after) :
    SliceKept mode slice after where
  parts := by
    rcases second.parts with same | none
    · rw [same]
      exact first.parts
    · exact .inr none
  exclusive known := second.exclusive (first.exclusive known)
  unknown isUnknown known := second.unknown isUnknown (first.unknown isUnknown known)

theorem sliceKept_unload (mode : HeaderMode) (slice other : Slice) :
    SliceKept mode slice (unloadSlice other) :=
  ⟨.inr rfl, fun _ isLoading => (by cases isLoading), fun _ _ => rfl⟩

/-- Filling keeps the slices as they are, up to unloading and marks. -/
structure Kept (slices next : Slices) : Prop where
  size : next.size = slices.size
  mode : next.headerMode = slices.headerMode
  header : next.header.parts = slices.header.parts
  headerLoading : next.header.loadingFromCache = slices.header.loadingFromCache
  headerLoaded : next.header.loadedFromCache = slices.header.loadedFromCache
  count : next.data.length = slices.data.length
  data : ∀ (index : Nat) (slice after : Slice), slices.data[index]? = some slice →
    next.data[index]? = some after → SliceKept slices.headerMode slice after

theorem Kept.of_data (size : next.size = slices.size) (mode : next.headerMode = slices.headerMode)
    (header : next.header.parts = slices.header.parts)
    (headerLoading : next.header.loadingFromCache = slices.header.loadingFromCache)
    (headerLoaded : next.header.loadedFromCache = slices.header.loadedFromCache)
    (data : next.data = slices.data) : Kept slices next where
  size := size
  mode := mode
  header := header
  headerLoading := headerLoading
  headerLoaded := headerLoaded
  count := congrArg length data
  data index slice after found foundAfter := by
    rw [data, found] at foundAfter
    cases foundAfter
    exact SliceKept.refl _ _

theorem Kept.refl (slices : Slices) : Kept slices slices := .of_data rfl rfl rfl rfl rfl rfl

theorem Kept.trans (first : Kept slices next) (second : Kept next last) : Kept slices last where
  size := second.size.trans first.size
  mode := second.mode.trans first.mode
  header := second.header.trans first.header
  headerLoading := second.headerLoading.trans first.headerLoading
  headerLoaded := second.headerLoaded.trans first.headerLoaded
  count := second.count.trans first.count
  data index slice after found foundLast := by
    have inside := (List.getElem?_eq_some_iff.mp foundLast).1
    rw [second.count] at inside
    have foundNext := List.getElem?_eq_getElem inside
    have later := second.data index _ after foundNext foundLast
    rw [first.mode] at later
    exact (first.data index slice _ found foundNext).trans later

theorem kept_setSlice (found : slices.data[index]? = some slice)
    (kept : SliceKept slices.headerMode slice after) :
    Kept slices (slices.setSlice index after) where
  size := rfl
  mode := rfl
  header := rfl
  headerLoading := rfl
  headerLoaded := rfl
  count := length_set ..
  data other known later foundKnown foundLater := by
    change (slices.data.set index after)[other]? = some later at foundLater
    rw [getElem?_set] at foundLater
    split at foundLater
    next same =>
      split at foundLater
      · cases foundLater
        rw [← same, found] at foundKnown
        cases foundKnown
        exact kept
      · cases foundLater
    · rw [foundKnown] at foundLater
      cases foundLater
      exact SliceKept.refl _ _

theorem kept_unload (slices : Slices) (index : Nat) (other : Slice) :
    Kept slices (slices.setSlice index (unloadSlice other)) := by
  cases found : slices.data[index]? with
  | some slice => exact kept_setSlice found (sliceKept_unload _ _ _)
  | none =>
    refine .of_data rfl rfl rfl rfl rfl ?_
    exact set_eq_of_length_le (getElem?_eq_none_iff.mp found)

theorem kept_finishSerialization (slices : Slices) (sliceNumber : Nat) (slice : Slice) :
    Kept slices (slices.finishSerialization sliceNumber slice) := by
  unfold finishSerialization
  split
  · exact .of_data rfl rfl rfl rfl rfl rfl
  next isSlice =>
    rw [setNumbered, if_neg isSlice]
    exact kept_unload _ _ _

theorem kept_serializeNumbered {sliceNumber : Nat} {serialized : SerializedSlice}
    (done : slices.serializeNumbered sliceNumber = .ok (next, serialized)) : Kept slices next := by
  obtain ⟨slice, -, -, -, -, rfl | ⟨first, rfl⟩⟩ := serializeNumbered_eq_ok done
  · exact kept_finishSerialization _ _ _
  · exact (kept_unload _ _ _).trans (kept_finishSerialization _ _ _)

theorem kept_serializeAndUnloadUnused {serialized : SerializedSlice}
    (done : slices.serializeAndUnloadUnused = .ok (next, serialized)) : Kept slices next := by
  unfold serializeAndUnloadUnused at done
  split at done
  · cases done
    exact Kept.refl _
  split at done
  · split at done
    · obtain ⟨purged, -, done⟩ := bind_eq_ok.mp done
      have popped (rest : List Nat) : Kept slices { slices with usedSlices := rest } :=
        .of_data rfl rfl rfl rfl rfl rfl
      split at done
      · cases done
        exact popped _
      split at done
      · cases done
        exact (popped _).trans (kept_unload _ _ _)
      · obtain ⟨_, -, done⟩ := bind_eq_ok.mp done
        exact (popped _).trans (kept_serializeNumbered done)
    · cases done
      exact Kept.refl _
  · cases done
    exact Kept.refl _

theorem kept_handleReadFromCache (result : FillResult) (found : slices.data[index]? = some slice) :
    Kept slices (slices.handleReadFromCache result index slice).1 := by
  unfold handleReadFromCache
  split
  next notLoaded =>
    unfold cacheNotLoaded at notLoaded
    rw [Bool.and_eq_true, Bool.and_eq_true, Bool.not_eq_true'] at notLoaded
    split
    · exact Kept.refl _
    · refine kept_setSlice found ⟨.inl rfl, fun _ _ => notLoaded.2, fun isUnknown => ?_⟩
      exact absurd isUnknown (by simpa using notLoaded.1.2)
  · exact Kept.refl _

theorem kept_markSliceUsed (slices : Slices) (index : Nat) :
    Kept slices (slices.markSliceUsed index) := .of_data rfl rfl rfl rfl rfl rfl

variable {offset : Nat} {result : FillResult} {filled : Bytes}

theorem kept_fillFromSlice
    (done : slices.fillFromSlice index offset buffer = .ok (next, result, filled)) :
    Kept slices next := by
  obtain ⟨slice, found, done⟩ := bind_eq_ok.mp done
  obtain ⟨first, -, done⟩ := bind_eq_ok.mp done
  split at done
  · obtain ⟨_, -, done⟩ := bind_eq_ok.mp done
    obtain ⟨⟨saved, toCache⟩, isSaved, done⟩ := bind_eq_ok.mp done
    cases done
    exact (kept_markSliceUsed slices index).trans (kept_serializeAndUnloadUnused isSaved)
  · cases done
    exact kept_handleReadFromCache _ (slice_eq_ok.mp found)

theorem kept_fillFromTwoSlices
    (done : slices.fillFromTwoSlices index offset buffer = .ok (next, result, filled)) :
    Kept slices next := by
  obtain ⟨firstSlice, foundFirst, done⟩ := bind_eq_ok.mp done
  obtain ⟨secondSlice, foundSecond, done⟩ := bind_eq_ok.mp done
  obtain ⟨first, -, done⟩ := bind_eq_ok.mp done
  obtain ⟨second, -, done⟩ := bind_eq_ok.mp done
  split at done
  · obtain ⟨_, -, done⟩ := bind_eq_ok.mp done
    obtain ⟨_, -, done⟩ := bind_eq_ok.mp done
    obtain ⟨⟨saved, toCache⟩, isSaved, done⟩ := bind_eq_ok.mp done
    cases done
    exact ((kept_markSliceUsed slices index).trans (kept_markSliceUsed _ (index + 1))).trans
      (kept_serializeAndUnloadUnused isSaved)
  · cases done
    have asked := kept_handleReadFromCache (slices.handlePrepareResult
      (slices.handlePrepareResult {} index firstSlice first) (index + 1) secondSlice second)
      (slice_eq_ok.mp foundFirst)
    refine asked.trans (kept_handleReadFromCache _ ?_)
    -- asking for the first slice leaves the second one as it is
    unfold handleReadFromCache
    split
    · split
      · exact slice_eq_ok.mp foundSecond
      · exact (getElem?_set_ne (by omega)).trans (slice_eq_ok.mp foundSecond)
    · exact slice_eq_ok.mp foundSecond

theorem kept_fillFromHeader
    (done : slices.fillFromHeader offset buffer = .ok (next, result, filled)) :
    Kept slices next := by
  obtain ⟨prepared, -, done⟩ := bind_eq_ok.mp done
  split at done
  · obtain ⟨_, -, done⟩ := bind_eq_ok.mp done
    cases done
    exact Kept.refl _
  · cases done
    exact Kept.refl _

theorem kept_fill
    (done : slices.fill offset buffer = .ok (next, result, filled)) : Kept slices next := by
  obtain ⟨_, -, done⟩ := bind_eq_ok.mp done
  split at done
  · obtain ⟨_, -, done⟩ := bind_eq_ok.mp done
    cases done
    exact Kept.refl _
  split at done
  · exact kept_fillFromHeader done
  · obtain ⟨_, -, done⟩ := bind_eq_ok.mp done
    split at done
    · exact kept_fillFromTwoSlices done
    · exact kept_fillFromSlice done

/-- All offsets and sizes stay far below the bound of `uint32`. -/
structure Bounded (slices : Slices) : Prop where
  small : slices.size < 2 ^ 32
  count : slices.isFullInHeader = false → slices.data.length = slicesCount slices.size
  header : slices.isFullInHeader = true → PartsBounded slices.header
  data : ∀ (index : Nat) (slice : Slice), slices.data[index]? = some slice → PartsBounded slice

/-- The part at an offset of the file is missing in the place where it is looked for. -/
def Missing (slices : Slices) (offset : Nat) : Prop :=
  offset < slices.size ∧
    if slices.isFullInHeader then slices.header.parts.contains offset = false
    else ∃ slice, slices.data[offset / kInSlice]? = some slice ∧
      slice.parts.contains (offset - offset / kInSlice * kInSlice) = false

theorem headerLimit_le (full : slices.isFullInHeader = true) : slices.size ≤ kOffsetsBound := by
  unfold isFullInHeader Streaming.isFullInHeader kMaxOnlyInHeader at full
  have := of_decide_eq_true full
  unfold kOffsetsBound
  omega

theorem sliceLimit_le (size index : Nat) : sliceLimit size index ≤ kOffsetsBound :=
  le_trans (min_le_left ..) (by decide)

variable {start till : Nat}

theorem ranges_of_fillSlices {length size : Nat} (some : 0 < length)
    (inside : offset + length ≤ size) (small : size < 2 ^ 32)
    (counted : (offset + length + kInSlice - 1) % 2 ^ 32 / kInSlice ≤ slicesCount size)
    (near : offset / kInSlice + 1 = (offset + length + kInSlice - 1) % 2 ^ 32 / kInSlice ∨
      offset / kInSlice + 2 = (offset + length + kInSlice - 1) % 2 ^ 32 / kInSlice) :
    (offset + length + kInSlice - 1) % 2 ^ 32 / kInSlice =
      (offset + length + kInSlice - 1) / kInSlice := by
  unfold slicesCount kInSlice at *
  omega

theorem missing_handlePrepareResult (sliced : slices.isFullInHeader = false)
    (found : slices.data[index]? = some slice) {prepared : PrepareFillResult}
    (bounded : PartsBounded slice) (below : start < till) (tillLe : till ≤ kOffsetsBound)
    (isPrepared : slice.prepareFill start till = .ok prepared)
    (known : ∀ offset ∈ result.offsetsFromLoader, slices.Missing offset) :
    ∀ offset ∈ (slices.handlePrepareResult result index slice prepared).offsetsFromLoader,
      slices.Missing offset := by
  intro offset member
  unfold handlePrepareResult at member
  split at member
  · exact known offset member
  · dsimp only at member
    rw [foldl_stackAdd] at member
    rcases mem_append.mp member with old | new
    · exact known offset old
    · obtain ⟨wanted, isWanted, rfl⟩ := mem_map.mp (mem_of_mem_take new)
      obtain ⟨isOffset, inside⟩ := mem_filter.mp isWanted
      have limits := of_decide_eq_true inside
      have missing := prepareFill_missing bounded below tillLe isPrepared isOffset
      have low : (wanted + index * kInSlice) / kInSlice = index := by
        unfold kInSlice at *
        omega
      refine ⟨limits.2, ?_⟩
      rw [if_neg (by simp [sliced]), low]
      exact ⟨slice, found, by rwa [Nat.add_sub_cancel]⟩

theorem missing_fillFromHeader (bounded : slices.Bounded) (full : slices.isFullInHeader = true)
    (some : buffer ≠ []) (inside : offset + buffer.length ≤ slices.size)
    (done : slices.fillFromHeader offset buffer = .ok (next, result, filled)) :
    ∀ wanted ∈ result.offsetsFromLoader, slices.Missing wanted := by
  have length := length_pos_iff.mpr some
  have limitLe := headerLimit_le full
  obtain ⟨prepared, isPrepared, done⟩ := bind_eq_ok.mp done
  have same : result.offsetsFromLoader = (prepared.offsetsFromLoader.filter fun offset =>
      offset < slices.size).foldl (stackAdd kLoadFromRemoteMax) [] := by
    split at done
    · obtain ⟨_, -, done⟩ := bind_eq_ok.mp done
      cases done
      rfl
    · cases done
      rfl
  intro wanted member
  rw [same, foldl_stackAdd, nil_append] at member
  obtain ⟨isOffset, inFile⟩ := mem_filter.mp (mem_of_mem_take member)
  refine ⟨of_decide_eq_true inFile, ?_⟩
  rw [if_pos full]
  exact prepareFill_missing (bounded.header full) (by omega) (by omega) isPrepared isOffset

theorem handleReadFromCache_offsets (result : FillResult) (index : Nat) (slice : Slice) :
    (slices.handleReadFromCache result index slice).2.offsetsFromLoader =
      result.offsetsFromLoader := by
  unfold handleReadFromCache
  split
  · split <;> rfl
  · rfl

theorem missing_fillFromSlice
    (bounded : slices.Bounded) (sliced : slices.isFullInHeader = false) (some : buffer ≠ [])
    (begins : index * kInSlice ≤ offset) (before : offset < (index + 1) * kInSlice)
    (done : slices.fillFromSlice index offset buffer = .ok (next, result, filled)) :
    ∀ wanted ∈ result.offsetsFromLoader, slices.Missing wanted := by
  have length := length_pos_iff.mpr some
  rw [Nat.succ_mul] at before
  have tillLe : min kInSlice (offset + buffer.length - index * kInSlice) ≤ kOffsetsBound :=
    Nat.le_trans (Nat.min_le_left ..) (by decide)
  have below : offset - index * kInSlice <
      min kInSlice (offset + buffer.length - index * kInSlice) := by omega
  obtain ⟨slice, found, done⟩ := bind_eq_ok.mp done
  obtain ⟨first, isFirst, done⟩ := bind_eq_ok.mp done
  have isSlice := slice_eq_ok.mp found
  have none : ∀ wanted ∈ ({} : FillResult).offsetsFromLoader, slices.Missing wanted :=
    fun _ member => absurd member not_mem_nil
  have asked := missing_handlePrepareResult sliced isSlice (bounded.data _ _ isSlice) below tillLe
    isFirst none
  dsimp only at done
  split at done
  · obtain ⟨_, -, done⟩ := bind_eq_ok.mp done
    obtain ⟨_, -, done⟩ := bind_eq_ok.mp done
    cases done
    exact asked
  · cases done
    rw [handleReadFromCache_offsets]
    exact asked

theorem missing_fillFromTwoSlices
    (bounded : slices.Bounded) (sliced : slices.isFullInHeader = false)
    (begins : index * kInSlice ≤ offset) (before : offset < (index + 1) * kInSlice)
    (after : (index + 1) * kInSlice < offset + buffer.length)
    (ends : offset + buffer.length ≤ (index + 2) * kInSlice)
    (done : slices.fillFromTwoSlices index offset buffer = .ok (next, result, filled)) :
    ∀ wanted ∈ result.offsetsFromLoader, slices.Missing wanted := by
  have nextEq : (index + 1) * kInSlice = index * kInSlice + kInSlice := Nat.succ_mul ..
  have afterNext : (index + 2) * kInSlice = (index + 1) * kInSlice + kInSlice := Nat.succ_mul ..
  have tillLe : min kInSlice (offset + buffer.length - index * kInSlice) ≤ kOffsetsBound :=
    le_trans (min_le_left ..) (by decide)
  have below : offset - index * kInSlice <
      min kInSlice (offset + buffer.length - index * kInSlice) := by omega
  have secondLe : offset + buffer.length - (index + 1) * kInSlice ≤ kOffsetsBound :=
    le_trans (by omega : _ ≤ kInSlice) (by decide)
  obtain ⟨firstSlice, foundFirst, done⟩ := bind_eq_ok.mp done
  obtain ⟨secondSlice, foundSecond, done⟩ := bind_eq_ok.mp done
  obtain ⟨first, isFirst, done⟩ := bind_eq_ok.mp done
  obtain ⟨second, isSecond, done⟩ := bind_eq_ok.mp done
  have firstSliceIs := slice_eq_ok.mp foundFirst
  have secondSliceIs := slice_eq_ok.mp foundSecond
  have none : ∀ wanted ∈ ({} : FillResult).offsetsFromLoader, slices.Missing wanted :=
    fun _ member => absurd member not_mem_nil
  have askedFirst := missing_handlePrepareResult sliced firstSliceIs
    (bounded.data _ _ firstSliceIs) below tillLe isFirst none
  have asked := missing_handlePrepareResult sliced secondSliceIs (bounded.data _ _ secondSliceIs)
    (by omega) secondLe isSecond askedFirst
  dsimp only at done
  split at done
  · obtain ⟨_, -, done⟩ := bind_eq_ok.mp done
    obtain ⟨_, -, done⟩ := bind_eq_ok.mp done
    obtain ⟨_, -, done⟩ := bind_eq_ok.mp done
    cases done
    exact asked
  · cases done
    rw [handleReadFromCache_offsets, handleReadFromCache_offsets]
    exact asked

theorem missing_fill (bounded : slices.Bounded)
    (done : slices.fill offset buffer = .ok (next, result, filled)) :
    ∀ wanted ∈ result.offsetsFromLoader, slices.Missing wanted := by
  obtain ⟨_, allowed, done⟩ := bind_eq_ok.mp done
  rw [require_eq_ok] at allowed
  obtain ⟨some, begins, inside, short⟩ := allowed
  split at done
  · obtain ⟨_, -, done⟩ := bind_eq_ok.mp done
    cases done
    exact fun _ member => absurd member not_mem_nil
  split at done
  next full =>
    exact missing_fillFromHeader bounded full some inside done
  next sliced =>
    rw [Bool.not_eq_true] at sliced
    obtain ⟨_, near, done⟩ := bind_eq_ok.mp done
    rw [require_eq_ok, bounded.count sliced] at near
    have tillEq := ranges_of_fillSlices (length_pos_iff.mpr some) inside bounded.small near.2 near.1
    rw [tillEq] at near done
    have low : offset / kInSlice * kInSlice ≤ offset := Nat.div_mul_le_self ..
    have high : offset < (offset / kInSlice + 1) * kInSlice := by
      unfold kInSlice
      omega
    split at done
    next two =>
      refine missing_fillFromTwoSlices bounded sliced low high ?_ ?_ done
      · unfold kInSlice at two ⊢
        omega
      · unfold kInSlice at near ⊢
        omega
    · exact missing_fillFromSlice bounded sliced some low high done

end Slices

end TelegramDesktop.Streaming
