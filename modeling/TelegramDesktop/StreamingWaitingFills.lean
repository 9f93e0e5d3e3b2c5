import TelegramDesktop.Runs
import TelegramDesktop.StreamingFills
import TelegramDesktop.StreamingFirstMissing

/-!
# What a waiting fill asks for

A fill that has to wait for the loader asks for the first part of its range that is missing,
and for missing parts only.
-/

namespace TelegramDesktop.Streaming

open List Slice

namespace Slices

variable {slices next : Slices} {slice first second : Slice} {index offset length missing : Nat}

/-- The part has bytes of the range. -/
def Touches (offset length part : Nat) : Prop :=
  kPartSize ∣ part ∧ part < offset + length ∧ offset < part + kPartSize

/-- The first missing part of the range. -/
structure SmallestMissing (slices : Slices) (offset length missing : Nat) : Prop where
  touches : Touches offset length missing
  isMissing : slices.Missing missing
  least : ∀ other, Touches offset length other → slices.Missing other → missing ≤ other

/-- Only missing parts are asked for, each once and the first of the range among them. -/
structure AsksForMissing (slices : Slices) (offset length : Nat) (asked : List Nat) : Prop where
  smallest : ∃ missing ∈ asked, slices.SmallestMissing offset length missing
  allMissing : ∀ wanted ∈ asked, slices.Missing wanted
  distinct : asked.Nodup
  round : ∀ wanted ∈ asked, kPartSize ∣ wanted ∧ wanted < slices.size

/-- The first query of the cache is not answered yet, or a slice that the range lies in is
still to be read from the cache. -/
def WaitsForCache (slices : Slices) (offset length : Nat) : Prop :=
  (slices.headerMode ≠ .noCache ∧ slices.header.loadedFromCache = false) ∨
    ∃ (index : Nat) (slice : Slice), slices.data[index]? = some slice ∧
      index * kInSlice < offset + length ∧ offset < (index + 1) * kInSlice ∧
        slices.cacheNotLoaded slice = true

variable {start till : Nat}

theorem touches_header (below : start < till) (isFirst : FirstMissing slice start till missing) :
    Touches start (till - start) missing := by
  refine ⟨isFirst.round, ?_, ?_⟩
  · have := isFirst.below
    omega
  · have low := isFirst.low
    unfold kPartSize at *
    omega

theorem le_of_touches {start other : Nat} (touches : Touches start length other) :
    start / kPartSize * kPartSize ≤ other := by
  obtain ⟨⟨count, rfl⟩, -, after⟩ := touches
  unfold kPartSize at *
  omega

variable {buffer filled : Bytes} {result : FillResult}

theorem asksForMissing_fillFromHeader
    (aligned : slices.AlignedParts) (full : slices.isFullInHeader = true) (some : buffer ≠ [])
    (inside : offset + buffer.length ≤ slices.size)
    (done : slices.fillFromHeader offset buffer = .ok (next, result, filled))
    (waits : result.state ≠ .success) (missing : ∀ wanted ∈ result.offsetsFromLoader,
      slices.Missing wanted) :
    slices.AsksForMissing offset buffer.length result.offsetsFromLoader := by
  have positive := length_pos_iff.mpr some
  obtain ⟨prepared, isPrepared, done⟩ := bind_eq_ok.mp done
  split at done
  · obtain ⟨_, -, done⟩ := bind_eq_ok.mp done
    cases done
    exact absurd rfl waits
  rename_i notReady
  cases done
  obtain ⟨requests, first, isAsked, isFirst⟩ := prepareFill_waits aligned.header
    (headerLimit_le full) (by omega : offset < offset + buffer.length) inside isPrepared
    (by simpa using notReady)
  have fewer := filter_sublist (p := fun offset => decide (offset < slices.size))
    (l := prepared.offsetsFromLoader)
  have whole : (prepared.offsetsFromLoader.filter fun offset => decide (offset < slices.size)).foldl
      (stackAdd kLoadFromRemoteMax) [] =
        prepared.offsetsFromLoader.filter fun offset => decide (offset < slices.size) := by
    rw [foldl_stackAdd, nil_append]
    exact take_of_length_le (Nat.le_trans fewer.length_le requests.few)
  rw [whole] at missing ⊢
  have isBelow := isFirst.below
  have touches := touches_header (by omega : offset < offset + buffer.length) isFirst
  rw [Nat.add_sub_cancel_left] at touches
  have isMember : first ∈ prepared.offsetsFromLoader.filter fun offset =>
      decide (offset < slices.size) :=
    mem_filter.mpr ⟨isAsked, decide_eq_true (by omega)⟩
  refine ⟨⟨first, isMember, touches, missing first isMember, fun other otherTouches isMissing =>
    ?_⟩,
    missing, (requests.increasing.sublist fewer).imp Nat.ne_of_lt, fun wanted member => ?_⟩
  · by_contra earlier
    have present := isFirst.present other otherTouches.1 (le_of_touches otherTouches) (by omega)
    have absent := isMissing.2
    rw [if_pos full, present] at absent
    cases absent
  · exact ⟨requests.round wanted (fewer.subset member), (missing wanted member).1⟩

/-- The offsets of a slice that lie in it and in the file, as offsets in the file. -/
def inFile (size index : Nat) (offsets : List Nat) : List Nat :=
  (offsets.filter fun offset => offset < kInSlice ∧ offset + index * kInSlice < size).map
    fun offset => offset + index * kInSlice

theorem handlePrepareResult_loaded (loaded : slices.cacheNotLoaded slice = false)
    (result : FillResult) (index : Nat) (prepared : PrepareFillResult) :
    (slices.handlePrepareResult result index slice prepared).offsetsFromLoader =
      result.offsetsFromLoader ++ (inFile slices.size index prepared.offsetsFromLoader).take
        (kLoadFromRemoteMax - result.offsetsFromLoader.length) := by
  unfold handlePrepareResult
  rw [loaded, if_neg Bool.false_ne_true]
  exact foldl_stackAdd ..

variable {offsets : List Nat}

theorem mem_inFile {size wanted : Nat} :
    wanted ∈ inFile size index offsets ↔
      ∃ offset ∈ offsets, offset < kInSlice ∧ offset + index * kInSlice < size ∧
        offset + index * kInSlice = wanted := by
  unfold inFile
  rw [mem_map]
  constructor
  · rintro ⟨offset, member, same⟩
    obtain ⟨isOffset, inside⟩ := mem_filter.mp member
    obtain ⟨inSlice, inSize⟩ := of_decide_eq_true inside
    exact ⟨offset, isOffset, inSlice, inSize, same⟩
  · rintro ⟨offset, isOffset, inSlice, inSize, same⟩
    exact ⟨offset, mem_filter.mpr ⟨isOffset, decide_eq_true ⟨inSlice, inSize⟩⟩, same⟩

theorem place_inFile {size wanted : Nat} (member : wanted ∈ inFile size index offsets) :
    index * kInSlice ≤ wanted ∧ wanted < (index + 1) * kInSlice := by
  obtain ⟨offset, -, inSlice, -, rfl⟩ := mem_inFile.mp member
  unfold kInSlice at *
  omega

theorem dvd_slice (index : Nat) : kPartSize ∣ index * kInSlice :=
  Nat.dvd_trans (by decide : kPartSize ∣ kInSlice) (Nat.dvd_mul_left ..)

theorem requests_inFile (requests : Requests offsets)
    (size index : Nat) : Requests (inFile size index offsets) where
  few := by
    rw [inFile, length_map]
    exact le_trans (length_filter_le ..) requests.few
  increasing := by
    rw [inFile, pairwise_map]
    exact (requests.increasing.sublist filter_sublist).imp fun below =>
      Nat.add_lt_add_right below _
  round wanted member := by
    obtain ⟨offset, isOffset, -, -, rfl⟩ := mem_inFile.mp member
    exact Nat.dvd_add (requests.round offset isOffset) (dvd_slice index)

theorem absent_of_missing (sliced : slices.isFullInHeader = false)
    (found : slices.data[index]? = some slice) (isMissing : slices.Missing missing)
    (low : index * kInSlice ≤ missing) (high : missing < (index + 1) * kInSlice) :
    slice.parts.contains (missing - index * kInSlice) = false := by
  have place : missing / kInSlice = index := by
    unfold kInSlice at *
    omega
  have absent := isMissing.2
  rw [if_neg (ne_true_of_eq_false sliced), place] at absent
  obtain ⟨same, isSame, free⟩ := absent
  rw [found] at isSame
  cases isSame
  exact free

/-- The first part that is missing in a slice is the first one of the file, if those before it
in the file are not missing. -/
theorem smallestMissing_slice (sliced : slices.isFullInHeader = false)
    (found : slices.data[index]? = some slice)
    (isFirst : FirstMissing slice start till missing) (tillLe : till ≤ kInSlice)
    (inSize : missing + index * kInSlice < slices.size)
    (touches : Touches offset length (missing + index * kInSlice))
    (earlier : ∀ other, Touches offset length other → slices.Missing other →
      start / kPartSize * kPartSize + index * kInSlice ≤ other) :
    slices.SmallestMissing offset length (missing + index * kInSlice) := by
  have below := isFirst.below
  have place : (missing + index * kInSlice) / kInSlice = index := by
    unfold kInSlice at *
    omega
  have notFull : ¬slices.isFullInHeader = true := ne_true_of_eq_false sliced
  refine ⟨touches, ⟨inSize, ?_⟩, fun other otherTouches isMissing => ?_⟩
  · rw [if_neg notFull, place, Nat.add_sub_cancel]
    exact ⟨slice, found, isFirst.absent⟩
  · by_contra sooner
    have low := earlier other otherTouches isMissing
    have absent := absent_of_missing sliced found isMissing (by omega)
      (by unfold kInSlice at *; omega)
    have round : kPartSize ∣ other - index * kInSlice :=
      Nat.dvd_sub otherTouches.1 (dvd_slice index)
    rw [isFirst.present _ round (by omega) (by omega)] at absent
    cases absent

theorem touches_slice (isFirst : FirstMissing slice start till missing)
    (begins : offset ≤ index * kInSlice + start)
    (ends : index * kInSlice + till ≤ offset + length) :
    Touches offset length (missing + index * kInSlice) := by
  have below := isFirst.below
  have low := isFirst.low
  refine ⟨Nat.dvd_add isFirst.round (dvd_slice index), by omega, ?_⟩
  unfold kPartSize at *
  omega

/-- What is asked for in the first slice that lacks a part of the range, and behind it. -/
theorem asksForMissing_slice (sliced : slices.isFullInHeader = false)
    (found : slices.data[index]? = some slice) {offsets later : List Nat}
    (isFirst : FirstMissing slice start till missing) (requests : Requests offsets)
    (isAsked : missing ∈ offsets) (begins : offset ≤ index * kInSlice + start)
    (tillLe : till ≤ kInSlice) (ends : index * kInSlice + till ≤ offset + length)
    (inside : offset + length ≤ slices.size)
    (earlier : ∀ other, Touches offset length other → slices.Missing other →
      start / kPartSize * kPartSize + index * kInSlice ≤ other)
    (increasing : later.Pairwise (· < ·)) (round : ∀ late ∈ later, kPartSize ∣ late)
    (behind : ∀ late ∈ later, (index + 1) * kInSlice ≤ late)
    (allMissing : ∀ wanted ∈ inFile slices.size index offsets ++ later, slices.Missing wanted) :
    slices.AsksForMissing offset length (inFile slices.size index offsets ++ later) := by
  have below := isFirst.below
  have inSize : missing + index * kInSlice < slices.size := by omega
  have isMember : missing + index * kInSlice ∈ inFile slices.size index offsets :=
    mem_inFile.mpr ⟨missing, isAsked, by omega, inSize, rfl⟩
  have asked := requests_inFile requests slices.size index
  refine ⟨⟨_, mem_append_left _ isMember, smallestMissing_slice sliced found isFirst tillLe
    inSize (touches_slice isFirst begins ends) earlier⟩, allMissing, ?_, fun wanted member => ?_⟩
  · refine (pairwise_append.mpr ⟨asked.increasing, increasing,
      fun early isEarly late isLate => ?_⟩).imp ne_of_lt
    exact lt_of_lt_of_le (place_inFile isEarly).2 (behind late isLate)
  · refine ⟨?_, (allMissing wanted member).1⟩
    rcases mem_append.mp member with isEarly | isLate
    · exact asked.round wanted isEarly
    · exact round wanted isLate

/-- A part of the range begins behind the multiple of the part size before the range. -/
theorem le_of_touches_slice {start other : Nat} (isOffset : index * kInSlice + start = offset)
    (touches : Touches offset length other) :
    start / kPartSize * kPartSize + index * kInSlice ≤ other := by
  obtain ⟨⟨count, rfl⟩, -, after⟩ := touches
  unfold kPartSize kInSlice at *
  omega

section

variable (aligned : slices.AlignedParts)

include aligned

theorem asksForMissing_fillFromSlice (sliced : slices.isFullInHeader = false) (some : buffer ≠ [])
    (inside : offset + buffer.length ≤ slices.size) (low : index * kInSlice ≤ offset)
    (high : offset + buffer.length ≤ (index + 1) * kInSlice)
    (loaded : ∀ slice, slices.data[index]? = .some slice → slices.cacheNotLoaded slice = false)
    (done : slices.fillFromSlice index offset buffer = .ok (next, result, filled))
    (waits : result.state ≠ .success) (missing : ∀ wanted ∈ result.offsetsFromLoader,
      slices.Missing wanted) :
    slices.AsksForMissing offset buffer.length result.offsetsFromLoader := by
  have positive := length_pos_iff.mpr some
  obtain ⟨slice, found, done⟩ := bind_eq_ok.mp done
  obtain ⟨prepared, isPrepared, done⟩ := bind_eq_ok.mp done
  have isLoaded := loaded slice (slice_eq_ok.mp found)
  have tillEq : min kInSlice (offset + buffer.length - index * kInSlice) =
      offset + buffer.length - index * kInSlice := by
    unfold kInSlice at *
    omega
  rw [tillEq] at isPrepared
  dsimp only at done
  split at done
  · obtain ⟨_, -, done⟩ := bind_eq_ok.mp done
    obtain ⟨_, -, done⟩ := bind_eq_ok.mp done
    cases done
    exact absurd rfl waits
  rename_i notReady
  obtain ⟨requests, first, isAsked, isFirst⟩ := prepareFill_waits
    (aligned.slices index slice found) (sliceLimit_le _ _)
    (by omega : offset - index * kInSlice < offset + buffer.length - index * kInSlice)
    (Nat.le_min.mpr ⟨by unfold kInSlice at *; omega, by omega⟩) isPrepared
    (by simpa using notReady)
  cases done
  have fileRequests := requests_inFile requests slices.size index
  have asked : (slices.handleReadFromCache (slices.handlePrepareResult {} index slice prepared)
      index slice).2.offsetsFromLoader = inFile slices.size index prepared.offsetsFromLoader := by
    rw [handleReadFromCache_offsets, handlePrepareResult_loaded isLoaded]
    exact take_of_length_le fileRequests.few
  rw [asked, ← append_nil (inFile ..)] at missing ⊢
  exact asksForMissing_slice sliced (slice_eq_ok.mp found) isFirst requests isAsked (by omega)
    (by unfold kInSlice at *; omega) (by omega) inside
    (fun other touches _ => le_of_touches_slice (by omega) touches) .nil
    (fun late none => absurd none not_mem_nil) (fun late none => absurd none not_mem_nil)
    missing

theorem asksForMissing_fillFromTwoSlices (sliced : slices.isFullInHeader = false)
    (inside : offset + buffer.length ≤ slices.size) (low : index * kInSlice ≤ offset)
    (middle : offset < (index + 1) * kInSlice)
    (middleLe : (index + 1) * kInSlice < offset + buffer.length)
    (high : offset + buffer.length ≤ (index + 2) * kInSlice)
    (loaded : ∀ slice, slices.data[index]? = some slice → slices.cacheNotLoaded slice = false)
    (secondLoaded : ∀ slice, slices.data[index + 1]? = some slice →
      slices.cacheNotLoaded slice = false)
    (done : slices.fillFromTwoSlices index offset buffer = .ok (next, result, filled))
    (waits : result.state ≠ .success) (missing : ∀ wanted ∈ result.offsetsFromLoader,
      slices.Missing wanted) :
    slices.AsksForMissing offset buffer.length result.offsetsFromLoader := by
  obtain ⟨slice, found, done⟩ := bind_eq_ok.mp done
  obtain ⟨second, foundSecond, done⟩ := bind_eq_ok.mp done
  obtain ⟨prepared, isPrepared, done⟩ := bind_eq_ok.mp done
  obtain ⟨preparedSecond, isPreparedSecond, done⟩ := bind_eq_ok.mp done
  have isLoaded := loaded slice (slice_eq_ok.mp found)
  have isLoadedSecond := secondLoaded second (slice_eq_ok.mp foundSecond)
  have tillEq : min kInSlice (offset + buffer.length - index * kInSlice) = kInSlice := by
    unfold kInSlice at *
    omega
  rw [tillEq] at isPrepared
  dsimp only at done
  split at done
  · obtain ⟨_, -, done⟩ := bind_eq_ok.mp done
    obtain ⟨_, -, done⟩ := bind_eq_ok.mp done
    obtain ⟨_, -, done⟩ := bind_eq_ok.mp done
    cases done
    exact absurd rfl waits
  rename_i notReady
  cases done
  have limitFirst : kInSlice ≤ sliceLimit slices.size index :=
    Nat.le_min.mpr ⟨Nat.le_refl _, by unfold kInSlice at *; omega⟩
  have alignedFirst := aligned.slices index slice found
  have alignedSecond := aligned.slices (index + 1) second foundSecond
  have startBelow : offset - index * kInSlice < kInSlice := by
    unfold kInSlice at *
    omega
  have secondBelow : 0 < offset + buffer.length - (index + 1) * kInSlice := by omega
  have secondLe : offset + buffer.length - (index + 1) * kInSlice ≤
      sliceLimit slices.size (index + 1) :=
    Nat.le_min.mpr ⟨by unfold kInSlice at *; omega, by omega⟩
  have requestsSecond : Requests preparedSecond.offsetsFromLoader := by
    cases readySecond : preparedSecond.ready with
    | true => exact (prepareFill_loaded alignedSecond (sliceLimit_le _ _) secondBelow secondLe
        isPreparedSecond readySecond).1
    | false => exact (prepareFill_waits alignedSecond (sliceLimit_le _ _) secondBelow secondLe
        isPreparedSecond readySecond).1
  have askedSecond := requests_inFile requestsSecond slices.size (index + 1)
  rw [handleReadFromCache_offsets, handleReadFromCache_offsets,
    handlePrepareResult_loaded isLoadedSecond, handlePrepareResult_loaded isLoaded] at missing ⊢
  rw [nil_append] at missing ⊢
  cases ready : prepared.ready with
  | true =>
    obtain ⟨-, behind, present⟩ := prepareFill_loaded alignedFirst (sliceLimit_le _ _)
      startBelow limitFirst isPrepared ready
    have noneFirst : inFile slices.size index prepared.offsetsFromLoader = [] := by
      rw [eq_nil_iff_forall_not_mem]
      intro wanted member
      obtain ⟨offset, isOffset, inSlice, -⟩ := mem_inFile.mp member
      exact not_lt.mpr (behind offset isOffset) inSlice
    have waitsSecond : preparedSecond.ready = false := by simpa [ready] using notReady
    obtain ⟨-, first, isAsked, isFirst⟩ := prepareFill_waits alignedSecond
      (sliceLimit_le _ _) secondBelow secondLe isPreparedSecond waitsSecond
    have whole : (inFile slices.size (index + 1) preparedSecond.offsetsFromLoader).take
        kLoadFromRemoteMax = inFile slices.size (index + 1) preparedSecond.offsetsFromLoader :=
      take_of_length_le askedSecond.few
    rw [noneFirst, take_nil, nil_append, length_nil, Nat.sub_zero, whole,
      ← append_nil (inFile ..)] at missing ⊢
    refine asksForMissing_slice sliced (slice_eq_ok.mp foundSecond) isFirst requestsSecond isAsked
      (by omega) (by unfold kInSlice at *; omega) (by omega) inside
      (fun other touches isMissing => ?_) .nil
      (fun late none => absurd none not_mem_nil)
      (fun late none => absurd none not_mem_nil) missing
    -- what is missing lies in the second slice, because the first one is loaded
    rw [Nat.zero_div, Nat.zero_mul, Nat.zero_add]
    by_contra sooner
    have startLe := le_of_touches_slice
      (by omega : index * kInSlice + (offset - index * kInSlice) = offset) touches
    have absent := absent_of_missing sliced (slice_eq_ok.mp found) isMissing (by omega) (by omega)
    have round : kPartSize ∣ other - index * kInSlice :=
      Nat.dvd_sub touches.1 (dvd_slice index)
    rw [present _ round (by omega) (by unfold kInSlice at *; omega)] at absent
    cases absent
  | false =>
    obtain ⟨requests, first, isAsked, isFirst⟩ := prepareFill_waits alignedFirst
      (sliceLimit_le _ _) startBelow limitFirst isPrepared ready
    have whole : (inFile slices.size index prepared.offsetsFromLoader).take
        kLoadFromRemoteMax = inFile slices.size index prepared.offsetsFromLoader :=
      take_of_length_le (requests_inFile requests slices.size index).few
    rw [length_nil, Nat.sub_zero, whole] at missing ⊢
    have firstEnds : index * kInSlice + kInSlice ≤ offset + buffer.length := by
      rw [← Nat.succ_mul]
      exact middleLe.le
    have later := take_sublist
      (kLoadFromRemoteMax - (inFile slices.size index prepared.offsetsFromLoader).length)
      (inFile slices.size (index + 1) preparedSecond.offsetsFromLoader)
    exact asksForMissing_slice sliced (slice_eq_ok.mp found) isFirst requests isAsked (by omega)
      (le_refl _) firstEnds inside
      (fun other touches _ => le_of_touches_slice (by omega) touches)
      (askedSecond.increasing.sublist later)
      (fun late isLate => askedSecond.round late (later.subset isLate))
      (fun late isLate => (place_inFile (later.subset isLate)).1) missing

theorem bounded_of_aligned : slices.Bounded where
  small := aligned.small
  count := aligned.count
  header full := partsBounded_of_aligned aligned.header (headerLimit_le full)
  data index slice found :=
    partsBounded_of_aligned (aligned.slices index slice (slice_eq_ok.mpr found)) (sliceLimit_le _ _)

theorem asksForMissing_fill (loaded : ¬slices.WaitsForCache offset buffer.length)
    (done : slices.fill offset buffer = .ok (next, result, filled))
    (waits : result.state ≠ .success) :
    slices.AsksForMissing offset buffer.length result.offsetsFromLoader := by
  rw [WaitsForCache, not_or] at loaded
  obtain ⟨queried, loaded⟩ := loaded
  have bounded := bounded_of_aligned aligned
  have missing := missing_fill bounded done
  obtain ⟨_, allowed, done⟩ := bind_eq_ok.mp done
  rw [require_eq_ok] at allowed
  obtain ⟨some, begins, inside, short⟩ := allowed
  have isLoaded (index : Nat) (from_lt : index * kInSlice < offset + buffer.length)
      (till_gt : offset < (index + 1) * kInSlice) (slice : Slice)
      (found : slices.data[index]? = .some slice) : slices.cacheNotLoaded slice = false := by
    by_contra notLoaded
    exact loaded ⟨index, slice, found, from_lt, till_gt, by simpa using notLoaded⟩
  split at done
  next waiting =>
    exact absurd waiting queried
  split at done
  next full =>
    exact asksForMissing_fillFromHeader aligned full some inside done waits missing
  next sliced =>
    rw [Bool.not_eq_true] at sliced
    obtain ⟨_, near, done⟩ := bind_eq_ok.mp done
    rw [require_eq_ok, bounded.count sliced] at near
    have tillEq := ranges_of_fillSlices (length_pos_iff.mpr some) inside bounded.small near.2 near.1
    rw [tillEq] at near done
    have length := length_pos_iff.mpr some
    have low : offset / kInSlice * kInSlice ≤ offset := Nat.div_mul_le_self ..
    have high : offset < (offset / kInSlice + 1) * kInSlice := by
      unfold kInSlice
      omega
    have firstLoaded := isLoaded (offset / kInSlice) (by omega) high
    split at done
    next two =>
      have middle : (offset / kInSlice + 1) * kInSlice < offset + buffer.length := by
        unfold kInSlice at two ⊢
        omega
      have secondLoaded := isLoaded (offset / kInSlice + 1) middle
        (Nat.lt_of_lt_of_le high (Nat.mul_le_mul_right _ (Nat.le_succ _)))
      refine asksForMissing_fillFromTwoSlices aligned sliced inside low high middle ?_ firstLoaded
        secondLoaded done waits missing
      unfold kInSlice at near ⊢
      omega
    next one =>
      refine asksForMissing_fillFromSlice aligned sliced some inside low ?_ firstLoaded done waits
        missing
      unfold kInSlice at near one ⊢
      omega

end

/-- No call changes the size of the file or the number of the slices. -/
structure Shaped (slices next : Slices) : Prop where
  size : next.size = slices.size
  count : next.data.length = slices.data.length

theorem Shaped.refl (slices : Slices) : Shaped slices slices := ⟨rfl, rfl⟩

theorem Shaped.trans {last : Slices} (first : Shaped slices next) (second : Shaped next last) :
    Shaped slices last :=
  ⟨second.size.trans first.size, second.count.trans first.count⟩

theorem Kept.shaped (kept : Kept slices next) : Shaped slices next := ⟨kept.size, kept.count⟩

theorem shaped_setNumbered (slices : Slices) (sliceNumber : Nat) (slice : Slice) :
    Shaped slices (slices.setNumbered sliceNumber slice) := by
  unfold setNumbered
  split
  · exact ⟨rfl, rfl⟩
  · exact ⟨rfl, length_set ..⟩

theorem shaped_headerDone {fromCache : Bool} (done : slices.headerDone fromCache = .ok next) :
    Shaped slices next := by
  unfold headerDone at done
  split at done
  · cases done
    exact .refl _
  · dsimp only at done
    split at done
    · cases done
      exact ⟨rfl, rfl⟩
    · obtain ⟨_, -, done⟩ := bind_eq_ok.mp done
      cases done
      exact ⟨rfl, length_map ..⟩

variable {sliceNumber : Nat}

theorem shaped_checkSliceFullLoaded
    (done : slices.checkSliceFullLoaded sliceNumber = .ok next) : Shaped slices next := by
  unfold checkSliceFullLoaded at done
  split at done
  · cases done
    exact .refl _
  · obtain ⟨slice, -, done⟩ := bind_eq_ok.mp done
    have sets := slices.shaped_setNumbered sliceNumber
    dsimp only at done
    split at done
    · cases done
      exact ⟨(sets _).size, (sets _).count⟩
    · split at done
      · cases done
        exact ⟨(sets _).size, (sets _).count⟩
      · cases done
        exact .refl _

theorem shaped_applyWhile {predicate : Nat → Bool} {parts : List (Nat × Bytes)}
    (done : applyWhile predicate parts slices = .ok next) : Shaped slices next := by
  induction parts generalizing slices with
  | nil =>
    cases done
    exact .refl _
  | cons part parts ih =>
    unfold applyWhile at done
    dsimp only at done
    split at done
    · obtain ⟨slice, -, done⟩ := bind_eq_ok.mp done
      obtain ⟨added, -, done⟩ := bind_eq_ok.mp done
      have rest := ih done
      exact ⟨rest.size, rest.count.trans (length_set ..)⟩
    · cases done
      exact .refl _

theorem shaped_applyHeaderCacheData (done : slices.applyHeaderCacheData = .ok next) :
    Shaped slices next := by
  unfold applyHeaderCacheData at done
  split at done
  · cases done
    exact .refl _
  · split at done
    · exact shaped_applyWhile done
    · split at done
      · cases done
        exact .refl _
      · split at done
        · exact shaped_headerDone done
        · obtain ⟨applied, isApplied, done⟩ := bind_eq_ok.mp done
          exact (shaped_applyWhile isApplied).trans (shaped_headerDone done)

theorem shaped_applyCacheResult {result : PartsMap}
    (done : slices.applyCacheResult sliceNumber result = .ok next) : Shaped slices next := by
  obtain ⟨slice, -, done⟩ := bind_eq_ok.mp done
  split at done
  · cases done
    exact .refl _
  · obtain ⟨processed, -, done⟩ := bind_eq_ok.mp done
    obtain ⟨checked, isChecked, done⟩ := bind_eq_ok.mp done
    have shaped := (slices.shaped_setNumbered sliceNumber processed).trans
      (shaped_checkSliceFullLoaded isChecked)
    split at done
    · obtain ⟨applied, isApplied, done⟩ := bind_eq_ok.mp done
      have header := shaped.trans (shaped_applyHeaderCacheData isApplied)
      split at done
      · obtain ⟨first, -, done⟩ := bind_eq_ok.mp done
        cases done
        exact ⟨header.size, (length_set ..).trans header.count⟩
      · cases done
        exact header
    · cases done
      exact shaped

theorem shaped_processCacheResult {result : PartsMap}
    (done : slices.processCacheResult sliceNumber result = .ok next) : Shaped slices next := by
  obtain ⟨_, -, done⟩ := bind_eq_ok.mp done
  split at done
  · obtain ⟨first, -, done⟩ := bind_eq_ok.mp done
    split at done
    · cases done
      exact .refl _
    · have shaped := shaped_applyCacheResult done
      exact ⟨shaped.size, shaped.count⟩
  · exact shaped_applyCacheResult done

theorem shaped_addToSlice {bytes : Bytes} (done : slices.addToSlice offset bytes = .ok next) :
    Shaped slices next := by
  obtain ⟨slice, -, done⟩ := bind_eq_ok.mp done
  obtain ⟨added, -, done⟩ := bind_eq_ok.mp done
  have checked := shaped_checkSliceFullLoaded done
  exact ⟨checked.size, checked.count.trans (length_set ..)⟩

theorem shaped_processPart {bytes : Bytes} (done : slices.processPart offset bytes = .ok next) :
    Shaped slices next := by
  obtain ⟨_, -, done⟩ := bind_eq_ok.mp done
  split at done
  · obtain ⟨header, -, done⟩ := bind_eq_ok.mp done
    have checked := shaped_checkSliceFullLoaded done
    exact ⟨checked.size, checked.count⟩
  · split at done
    · split at done
      · cases done
        exact .refl _
      · split at done
        · obtain ⟨header, -, done⟩ := bind_eq_ok.mp done
          have added := shaped_addToSlice done
          exact ⟨added.size, added.count⟩
        · exact shaped_addToSlice done
    · exact shaped_addToSlice done

theorem shaped_unloadToCache {serialized : SerializedSlice}
    (done : slices.unloadToCache = .ok (next, serialized)) : Shaped slices next := by
  have slice {sliceNumber : Nat}
      (done : slices.serializeAndUnloadSlice sliceNumber = .ok (next, serialized)) :
      Shaped slices next := by
    obtain ⟨_, -, done⟩ := bind_eq_ok.mp done
    exact (kept_serializeNumbered done).shaped
  unfold unloadToCache at done
  split at done
  · cases done
    exact .refl _
  · split at done
    · exact slice done
    · split at done
      · exact slice done
      · cases done
        exact .refl _

/-- The calls of the reader. -/
inductive ReaderCall
  | headerDone
  | processCacheResult (sliceNumber : Nat) (result : PartsMap)
  | processCachedSizes (sizes : List Int)
  | processPart (offset : Nat) (bytes : Bytes)
  | fill (offset : Nat) (buffer : Bytes)
  | unloadToCache

/-- What the reader calls. -/
def call (slices : Slices) : ReaderCall → Option Slices
  | .headerDone => (slices.headerDone false).toOption
  | .processCacheResult sliceNumber result =>
    (slices.processCacheResult sliceNumber result).toOption
  | .processCachedSizes sizes => (slices.processCachedSizes sizes).toOption
  | .processPart offset bytes => (slices.processPart offset bytes).toOption
  | .fill offset buffer => ((slices.fill offset buffer).map Prod.fst).toOption
  | .unloadToCache => (slices.unloadToCache.map Prod.fst).toOption

theorem toOption_eq_some {α : Type} {result : Except Failure α} {value : α} :
    result.toOption = some value ↔ result = .ok value := by
  cases result with
  | error failure => exact iff_of_false (fun same => nomatch same) fun same => nomatch same
  | ok other => exact ⟨fun same => congrArg _ (Option.some.inj same),
      fun same => congrArg _ (Except.ok.inj same)⟩

theorem map_fst_eq_ok {α β : Type} {result : Except Failure (α × β)} {value : α}
    (done : result.map Prod.fst = .ok value) : ∃ rest, result = .ok (value, rest) := by
  cases result with
  | error failure => cases done
  | ok pair => exact ⟨pair.2, congrArg _ (Prod.ext (Except.ok.inj done) rfl)⟩

theorem shaped_call {event : ReaderCall} (called : slices.call event = some next) :
    Shaped slices next := by
  cases event with
  | headerDone => exact shaped_headerDone (toOption_eq_some.mp called)
  | processCacheResult sliceNumber result =>
    exact shaped_processCacheResult (toOption_eq_some.mp called)
  | processCachedSizes sizes =>
    obtain ⟨_, -, done⟩ := bind_eq_ok.mp (toOption_eq_some.mp called)
    cases done
    exact ⟨rfl, length_mapIdx⟩
  | processPart offset bytes => exact shaped_processPart (toOption_eq_some.mp called)
  | fill offset buffer =>
    obtain ⟨⟨result, filled⟩, done⟩ := map_fst_eq_ok (toOption_eq_some.mp called)
    exact (kept_fill done).shaped
  | unloadToCache =>
    obtain ⟨serialized, done⟩ := map_fst_eq_ok (toOption_eq_some.mp called)
    exact shaped_unloadToCache done

theorem shape_create {size : Nat} {useCache : Bool} (created : create size useCache = .ok slices) :
    slices.size = size ∧
      (slices.isFullInHeader = false → slices.data.length = slicesCount slices.size) := by
  obtain ⟨_, -, created⟩ := bind_eq_ok.mp created
  dsimp only at created
  split at created
  next full =>
    cases created
    cases useCache <;> exact ⟨rfl, fun sliced => absurd full (ne_true_of_eq_false sliced)⟩
  · obtain ⟨_, -, created⟩ := bind_eq_ok.mp created
    cases created
    cases useCache <;> exact ⟨rfl, fun _ => length_replicate⟩

/-- All parts are at multiples of the part size and have that size, unless they end the
file. -/
structure PartsAligned (slices : Slices) : Prop where
  header : Aligned slices.size slices.header.parts.entries
  slices : ∀ index slice, slices.slice index = .ok slice →
    Aligned (sliceLimit slices.size index) slice.parts.entries

/-- In every state that is reached, a fill that waits for the loader only asks for the
first part of its range that is missing, and for missing parts of the file, each once. -/
theorem waiting_fill_asks {size : UInt32} {useCache : Bool}
    (created : create size.toNat useCache = .ok slices) (calls : List ReaderCall) {reached : Slices}
    (reaches : run call slices calls = some reached) (aligned : reached.PartsAligned) {offset : Nat}
    {buffer : Bytes} (loaded : ¬reached.WaitsForCache offset buffer.length) {result : FillResult}
    {filled : Bytes} (done : reached.fill offset buffer = .ok (next, result, filled))
    (waits : result.state ≠ .success) :
    reached.AsksForMissing offset buffer.length result.offsetsFromLoader := by
  have starts := shape_create created
  have shaped : Shaped slices reached :=
    run_invariant (fun _ _ _ shaped called => shaped.trans (shaped_call called))
      (Shaped.refl slices) reaches
  refine asksForMissing_fill ⟨?_, fun sliced => ?_, aligned.header, aligned.slices⟩ loaded done
    waits
  · rw [shaped.size, starts.1]
    exact size.toNat_lt
  · rw [isFullInHeader, shaped.size] at sliced
    rw [shaped.count, shaped.size, starts.2 sliced]

/-- The cache of a file of three slices is found empty, and the end of it is loaded. -/
def endLoads : List ReaderCall :=
  [.processCacheResult 0 ∅, .headerDone, .processPart 16777216 [1, 2, 3, 4, 5]]

/-- The file before anything is known of it -/
def endCreated : Slices where
  size := 16777221
  data := replicate 3 {}
  header := { loadingFromCache := true }

/-- The file after the end of it was loaded -/
def endLoaded : Slices where
  size := 16777221
  data := [{ loadedFromCache := true }, { loadedFromCache := true },
    { parts := (∅ : PartsMap).emplace 0 [1, 2, 3, 4, 5], loadedFromCache := true,
      changedSinceCache := true, fullInCache := true }]
  header := { loadedFromCache := true }
  headerMode := .good

theorem endLoaded_aligned : PartsAligned endLoaded := by
  refine ⟨(fun part member => nomatch member), fun index slice found => ?_⟩
  rw [slice_eq_ok] at found
  rcases index with _ | _ | _ | index
  · cases found
    exact fun part member => nomatch member
  · cases found
    exact fun part member => nomatch member
  · cases found
    intro part member
    cases mem_singleton.mp member
    exact ⟨⟨0, rfl⟩, by decide, by decide⟩
  · cases found

theorem endLoaded_loaded : ¬endLoaded.WaitsForCache 16777210 8 := by
  rintro (⟨-, waiting⟩ | ⟨index, slice, found, -, -, notLoaded⟩)
  · cases waiting
  · have loaded : ∀ slice ∈ endLoaded.data, endLoaded.cacheNotLoaded slice = false := by decide
    rw [loaded slice (mem_of_getElem? found)] at notLoaded
    cases notLoaded

theorem create_end : create (16777221 : UInt32).toNat true = .ok endCreated := by
  have size : (16777221 : UInt32).toNat = 16777221 := by decide
  rw [size]
  rfl

/-- A fill over the last two slices waits for the part before the loaded one. -/
theorem waiting_fill_asks_small :
    create (16777221 : UInt32).toNat true = .ok endCreated ∧
      run call endCreated endLoads = some endLoaded ∧
        endLoaded.AsksForMissing 16777210 8 [16646144] := by
  have reaches : run call endCreated endLoads = some endLoaded := rfl
  refine ⟨create_end, reaches, ?_⟩
  have waits : ((endLoaded.fill 16777210 (replicate 8 0)).toOption.map fun filled =>
      (filled.2.1.offsetsFromLoader, filled.2.1.state)) = some ([16646144], .waitingRemote) := by
    decide +kernel
  obtain ⟨⟨next, result, filled⟩, done, asked⟩ := Option.map_eq_some_iff.mp waits
  obtain ⟨asks, state⟩ := Prod.mk.inj asked
  have waiting : result.state ≠ .success := by
    rw [state]
    decide
  rw [← asks]
  exact waiting_fill_asks create_end endLoads reaches endLoaded_aligned endLoaded_loaded
    (toOption_eq_some.mp done) waiting

end Slices

end TelegramDesktop.Streaming
