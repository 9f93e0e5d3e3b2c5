import TelegramDesktop.StreamingCacheCodec

/-!
# Slices come back from the cache

What `serializeAndUnloadSlice` writes, and what `ParseCacheEntry` makes of it.
-/

namespace TelegramDesktop.Streaming

open List FlatMap

namespace Slices

theorem mem_eraseAll {parts : PartsMap} {erased : List (Nat × Bytes)} {part : Nat × Bytes} :
    part ∈ (eraseAll parts erased).entries ↔
      part ∈ parts.entries ∧ ∀ other ∈ erased, other.1 ≠ part.1 := by
  induction erased generalizing parts with
  | nil => simp [eraseAll]
  | cons head erased ih =>
    have step : eraseAll parts (head :: erased) = eraseAll (parts.erase head.1) erased := rfl
    rw [step, ih, mem_erase, forall_mem_cons, and_assoc]
    apply and_congr_right
    intro _
    constructor
    · rintro ⟨distinct, rest⟩
      exact ⟨distinct.symm, rest⟩
    · rintro ⟨distinct, rest⟩
      exact ⟨distinct.symm, rest⟩

theorem eraseAll_sublist (parts : PartsMap) (erased : List (Nat × Bytes)) :
    (eraseAll parts erased).entries.Sublist parts.entries := by
  induction erased generalizing parts with
  | nil => exact Sublist.refl _
  | cons head erased ih => exact (ih (parts.erase head.1)).trans filter_sublist

variable {slices : Slices}

/-- The bytes that stand for a numbered slice in the cache. -/
inductive Written (slices : Slices) (sliceNumber : Nat) (slice : Slice) : Bytes → Prop
  /-- The header and the first slice are written together. -/
  | together (first : Slice) (good : slices.isGoodHeader = true) (isHeader : sliceNumber = 0)
      (found : slices.slice 0 = .ok first) (loaded : first.loadedFromCache = true) :
      Written slices sliceNumber slice (padSerialization 3
        (serializeComplexSlice slice ++ serializeComplexSlice
          { first with parts := eraseAll first.parts slices.header.parts.entries })
        (maxSliceSize sliceNumber slices.size))
  | continuous (alone : ¬ (slices.isGoodHeader = true ∧ sliceNumber = 0))
      (gapless : isContinuous slice = true) :
      Written slices sliceNumber slice (slice.parts.entries.flatMap Prod.snd)
  | complex (alone : ¬ (slices.isGoodHeader = true ∧ sliceNumber = 0))
      (gap : isContinuous slice = false) :
      Written slices sliceNumber slice (padSerialization 3 (serializeComplexSlice slice)
        (maxSliceSize sliceNumber slices.size))

variable {sliceNumber : Nat}

theorem serializeNumbered_eq_ok {after : Slices} {serialized : SerializedSlice}
    (done : slices.serializeNumbered sliceNumber = .ok (after, serialized)) :
    ∃ slice, slices.numbered sliceNumber = .ok slice ∧ 0 < slice.parts.size ∧
      serialized.number = sliceNumber ∧ Written slices sliceNumber slice serialized.data ∧
      (after = slices.finishSerialization sliceNumber slice ∨
        ∃ first, after =
          (slices.setSlice 0 (unloadSlice first)).finishSerialization sliceNumber slice) := by
  obtain ⟨slice, found, done⟩ := bind_eq_ok.mp done
  obtain ⟨_, some, done⟩ := bind_eq_ok.mp done
  rw [require_eq_ok] at some
  refine ⟨slice, found, some, ?_⟩
  split at done
  next together =>
    obtain ⟨⟨unloaded, written⟩, unload, done⟩ := bind_eq_ok.mp done
    obtain ⟨first, foundFirst, unload⟩ := bind_eq_ok.mp unload
    obtain ⟨_, loaded, unload⟩ := bind_eq_ok.mp unload
    rw [require_eq_ok] at loaded
    cases unload
    cases done
    exact ⟨rfl, .together first together.1 together.2 foundFirst loaded, .inr ⟨_, rfl⟩⟩
  next alone =>
    cases gapless : isContinuous slice with
    | true =>
      rw [gapless, if_pos rfl] at done
      cases done
      exact ⟨rfl, .continuous alone gapless, .inl rfl⟩
    | false =>
      rw [gapless, if_neg (by simp)] at done
      cases done
      exact ⟨rfl, .complex alone gapless, .inl rfl⟩

variable {slice : Slice}

theorem serializeNumbered_succeeds
    (found : slices.numbered sliceNumber = .ok slice) (some : 0 < slice.parts.size)
    (firstLoaded : slices.isGoodHeader = true → sliceNumber = 0 →
      ∃ first, slices.slice 0 = .ok first ∧ first.loadedFromCache = true) :
    ∃ after serialized, slices.serializeNumbered sliceNumber = .ok (after, serialized) := by
  unfold serializeNumbered
  have positive : require (0 < slice.parts.size) .serializeEmpty = .ok () :=
    require_eq_ok.mpr some
  rw [found]
  simp only [bind, Except.bind, positive]
  split
  next together =>
    obtain ⟨first, foundFirst, loaded⟩ := firstLoaded together.1 together.2
    have isLoaded : require (first.loadedFromCache = true) .firstSliceNotLoaded = .ok () :=
      require_eq_ok.mpr loaded
    unfold serializeAndUnloadFirstSliceNoHeader
    rw [foundFirst]
    simp only [bind, Except.bind, isLoaded]
    exact ⟨_, _, rfl⟩
  · split <;> exact ⟨_, _, rfl⟩

/-- All parts are aligned, those of the header in the file and the others in
their slices. -/
structure AlignedParts (slices : Slices) : Prop where
  small : slices.size < 2 ^ 32
  count : slices.isFullInHeader = false → slices.data.length = slicesCount slices.size
  header : Aligned slices.size slices.header.parts.entries
  slices : ∀ index slice, slices.slice index = .ok slice →
    Aligned (sliceLimit slices.size index) slice.parts.entries

section

variable (aligned : slices.AlignedParts)
include aligned

theorem AlignedParts.numbered (found : slices.numbered sliceNumber = .ok slice) :
    Aligned (numberedLimit slices.size sliceNumber) slice.parts.entries := by
  unfold Slices.numbered at found
  unfold numberedLimit
  split at found
  next isHeader =>
    cases found
    rw [if_pos isHeader]
    exact aligned.header
  next isSlice =>
    rw [if_neg isSlice]
    exact aligned.slices _ _ found

theorem AlignedParts.number_le (sliced : slices.isFullInHeader = false)
    (found : slices.numbered sliceNumber = .ok slice) :
    sliceNumber ≤ slicesCount slices.size := by
  unfold Slices.numbered at found
  split at found
  · omega
  · have inside := lt_length_of_slice found
    rw [aligned.count sliced] at inside
    omega

theorem AlignedParts.slice_size_le {index : Nat} (found : slices.slice index = .ok slice) :
    slice.parts.size ≤ kPartsInSlice := by
  have fewer := (aligned.slices index slice found).length_le slice.parts.increasing
  have bounded : sliceLimit slices.size index ≤ kInSlice := min_le_left ..
  unfold FlatMap.size
  unfold kPartSize at fewer
  unfold kPartsInSlice
  unfold kInSlice at bounded
  omega

theorem AlignedParts.first_full (sliced : slices.isFullInHeader = false) {first : Slice}
    (found : slices.slice 0 = .ok first) :
    sliceLimit slices.size 0 = kInSlice ∧
      ∀ part ∈ first.parts.entries, part.2.length = kPartSize := by
  have large : kMaxOnlyInHeader < slices.size := by
    unfold isFullInHeader Streaming.isFullInHeader at sliced
    simpa using sliced
  have limit : sliceLimit slices.size 0 = kInSlice := by
    unfold sliceLimit kInSlice
    unfold kMaxOnlyInHeader at large
    omega
  refine ⟨limit, ?_⟩
  intro part member
  obtain ⟨⟨index, partEq⟩, below, length⟩ := aligned.slices 0 first found part member
  rw [limit] at below length
  unfold kInSlice kPartSize at *
  omega

end

theorem consecutive_of_isContinuous {limit : Nat} (small : limit < 2 ^ 32)
    (aligned : Aligned limit slice.parts.entries) (gapless : isContinuous slice = true) :
    Consecutive 0 slice.parts.entries := by
  apply consecutive_of_loaded small aligned slice.parts.increasing (fun _ _ => Nat.zero_le _)
  unfold isContinuous at gapless
  intro part member
  split at gapless
  next back last =>
    rw [decide_eq_true_eq] at gapless
    obtain ⟨before, entries⟩ := getLast?_eq_some_iff.mp last
    have increasing := slice.parts.increasing
    rw [entries] at increasing member
    rcases mem_append.mp member with earlier | isBack
    · have ordered := (pairwise_append.mp increasing).2.2 part earlier back (by simp)
      omega
    · rw [mem_singleton.mp isBack]
      exact gapless
  · cases gapless

theorem computeIsGoodHeader_of_consecutive {size : Nat} {header : PartsMap}
    (sliced : Streaming.isFullInHeader size = false) (aligned : Aligned size header.entries)
    (few : header.size ≤ kMaxPartsInHeader) (consecutive : Consecutive 0 header.entries) :
    computeIsGoodHeader size header = true := by
  have inside : ∀ part ∈ header.entries, part.1 < kInSlice := by
    intro part member
    rw [(consecutive.eq_map aligned header.increasing).1] at member
    obtain ⟨index, indexMem, rfl⟩ := mem_map.mp member
    rw [mem_range] at indexMem
    unfold FlatMap.size kMaxPartsInHeader at few
    unfold kInSlice kPartSize
    omega
  have none : header.lowerBound kInSlice = [] := by
    unfold lowerBound
    rw [dropWhile_eq_nil_iff]
    intro part member
    exact decide_eq_true (inside part member)
  unfold computeIsGoodHeader
  rw [sliced, none]
  rfl

/-- The size limit for reading, where it does not overflow an `int`. -/
theorem maxSliceSize_eq {size : Nat} (small : size < 2 ^ 32)
    (inside : sliceNumber ≤ slicesCount size) (fits : sliceNumber = 0 → size < 2 ^ 31) :
    maxSliceSize sliceNumber size = numberedLimit size sliceNumber := by
  unfold numberedLimit
  cases sliceNumber with
  | zero =>
    unfold maxSliceSize
    rw [if_pos rfl, if_pos rfl, toInt32_eq_self (by omega) (by omega)]
  | succ index =>
    rw [if_neg (Nat.succ_ne_zero index)]
    exact maxSliceSize_slice small inside

theorem parseCachedMap_complex (aligned : slices.AlignedParts)
    (sliced : slices.isFullInHeader = false) (found : slices.numbered sliceNumber = .ok slice)
    (few : slice.parts.size ≤ 80) (following : Bytes) :
    ∃ padding, padding ≤ 2 ∧
      parseCachedMap ∅ (padSerialization 3 (serializeComplexSlice slice ++ following)
          (maxSliceSize sliceNumber slices.size)) (maxSliceSize sliceNumber slices.size) =
        (slice.parts, following ++ replicate padding 0) := by
  obtain ⟨padding, short, parsed⟩ := parseCachedMap_padded
    (serializeComplexSlice slice ++ following) (maxSliceSize sliceNumber slices.size)
  refine ⟨padding, short, ?_⟩
  rw [parsed, append_assoc]
  exact parseComplexCachedMap_serialize
    (maxSliceSize_mod aligned.small (aligned.number_le sliced found))
    (numberedLimit_lt aligned.small sliceNumber) (aligned.numbered found) few _

theorem length_serializeParts {parts : List (Nat × Bytes)}
    (full : ∀ part ∈ parts, part.2.length = kPartSize) :
    (serializeParts parts).length = parts.length * (8 + kPartSize) := by
  induction parts with
  | nil => simp [serializeParts]
  | cons part parts ih =>
    have partFull := full part (by simp)
    have restLength := ih fun other member => full other (by simp [member])
    unfold serializeParts at restLength ⊢
    rw [flatMap_cons, length_append, restLength, length_append,
      length_append, partFull, length_cons, Nat.succ_mul]
    simp only [appendInt, length_littleEndian]
    omega

theorem parseCachedMap_included (aligned : slices.AlignedParts)
    (sliced : slices.isFullInHeader = false) {first : Slice}
    (found : slices.slice 0 = .ok first) {kept : PartsMap}
    (fewer : kept.entries.Sublist first.parts.entries) {padding : Nat} (short : padding ≤ 2) :
    parseCachedMap ∅ (appendInt kept.size ++ serializeParts kept.entries ++
        replicate padding 0) (maxSliceSize 1 slices.size) =
      (kept, replicate padding 0) := by
  obtain ⟨limit, full⟩ := aligned.first_full sliced found
  have inside : 0 < slicesCount slices.size := by
    rw [← aligned.count sliced]
    exact lt_length_of_slice found
  have maxSize : maxSliceSize 1 slices.size = kInSlice := by
    rw [maxSliceSize_slice aligned.small inside, limit]
  have fewParts : kept.size ≤ kPartsInSlice :=
    fewer.length_le.trans (aligned.slice_size_le found)
  have length := length_serializeParts fun part member => full part (fewer.subset member)
  have complex : isContiguousSerialization (appendInt kept.size ++
      serializeParts kept.entries ++ replicate padding 0).length
      (maxSliceSize 1 slices.size) = false := by
    rw [Bool.eq_false_iff, ne_eq, isContiguousSerialization_iff, maxSize]
    rw [length_append, length_append, length, length_replicate]
    simp only [appendInt, length_littleEndian]
    unfold kPartSize kInSlice
    omega
  have keptAligned : Aligned kInSlice kept.entries := by
    rw [← limit]
    exact (aligned.slices 0 first found).sublist fewer
  have limitEq : ((kInSlice : Int) % 2 ^ 32).toNat = kInSlice := by decide
  unfold parseCachedMap
  rw [complex, maxSize]
  rw [if_neg Bool.false_ne_true]
  exact parseComplexCachedMap_serialize limitEq (by decide) keptAligned
    (fewParts.trans (by decide)) _

/-- What is read back is the slice, and for a good header also the parts of the
first slice that the header lacks. -/
structure ReadBack (slices : Slices) (sliceNumber : Nat) (entry : ParsedCacheEntry) :
    Prop where
  parts : ∃ slice, slices.numbered sliceNumber = .ok slice ∧ entry.parts = slice.parts
  included : slices.isGoodHeader = true → sliceNumber = 0 →
    ∃ first included, slices.slice 0 = .ok first ∧ entry.included = some included ∧
      ∀ part, part ∈ included.entries ↔
        part ∈ first.parts.entries ∧ ∀ other ∈ slices.header.parts.entries, other.1 ≠ part.1

/-- The header has the mode it is given when it is done: it is good exactly
then when it passes the check.  A small header that does is harmless while the
size fits into an `int`. -/
structure ModeFits (slices : Slices) : Prop where
  good : slices.headerMode = .good →
    computeIsGoodHeader slices.size slices.header.parts = true
  small : slices.headerMode = .small →
    computeIsGoodHeader slices.size slices.header.parts = true → slices.size < 2 ^ 31

theorem isGoodHeader_iff : slices.isGoodHeader = true ↔ slices.headerMode = .good := by
  unfold isGoodHeader
  rw [decide_eq_true_eq]

theorem parseCacheEntry_parts (data : Bytes) (sliceNumber size : Nat) :
    (parseCacheEntry data sliceNumber size).parts =
      (parseCachedMap ∅ data (maxSliceSize sliceNumber size)).1 := by
  unfold parseCacheEntry
  dsimp only
  split <;> rfl

theorem Written.readBack {data : Bytes} (written : Written slices sliceNumber slice data)
    (aligned : slices.AlignedParts) (sliced : slices.isFullInHeader = false)
    (few : slices.header.parts.size ≤ kMaxPartsInHeader)
    (mode : slices.headerMode = .small ∨ slices.headerMode = .good) (fits : slices.ModeFits)
    (found : slices.numbered sliceNumber = .ok slice) (some : 0 < slice.parts.size) :
    ReadBack slices sliceNumber (parseCacheEntry data sliceNumber slices.size) := by
  have fewParts : slice.parts.size ≤ 80 := by
    unfold Slices.numbered at found
    split at found
    · cases found
      exact few.trans (by decide)
    · exact (aligned.slice_size_le found).trans (by decide)
  cases written with
  | together first good isHeader foundFirst loaded =>
    subst isHeader
    have isHeader : slice = slices.header := by
      cases found
      rfl
    let kept : PartsMap := eraseAll first.parts slices.header.parts.entries
    obtain ⟨padding, short, parsed⟩ := parseCachedMap_complex aligned sliced found fewParts
      (serializeComplexSlice { first with parts := kept })
    have included := parseCachedMap_included aligned sliced foundFirst
      (eraseAll_sublist first.parts slices.header.parts.entries) short
    have isGood := fits.good (isGoodHeader_iff.mp good)
    refine ⟨⟨slice, found, ?_⟩, ?_⟩
    · rw [parseCacheEntry_parts, parsed]
    · intro _ _
      refine ⟨first, kept, foundFirst, ?_, fun part => mem_eraseAll⟩
      unfold parseCacheEntry
      rw [parsed]
      rw [isHeader, if_pos ⟨rfl, isGood⟩]
      exact congrArg (fun result : PartsMap × Bytes => Option.some result.1) included
  | continuous alone gapless =>
    refine ⟨⟨slice, found, ?_⟩, fun good isHeader => (alone ⟨good, isHeader⟩).elim⟩
    have consecutive := consecutive_of_isContinuous
      (numberedLimit_lt aligned.small sliceNumber) (aligned.numbered found) gapless
    have fitsInt : sliceNumber = 0 → slices.size < 2 ^ 31 := by
      intro isHeader
      subst isHeader
      cases found
      have isSmall : slices.headerMode = .small :=
        mode.resolve_right fun good => alone ⟨isGoodHeader_iff.mpr good, rfl⟩
      exact fits.small isSmall
        (computeIsGoodHeader_of_consecutive sliced aligned.header few consecutive)
    have notEmpty : slice.parts.entries ≠ [] := ne_nil_of_length_pos some
    rw [parseCacheEntry_parts,
      maxSliceSize_eq aligned.small (aligned.number_le sliced found) fitsInt,
      parseCachedMap_contiguous (aligned.numbered found) notEmpty consecutive]
  | complex alone gap =>
    refine ⟨⟨slice, found, ?_⟩, fun good isHeader => (alone ⟨good, isHeader⟩).elim⟩
    obtain ⟨padding, short, parsed⟩ :=
      parseCachedMap_complex aligned sliced found fewParts []
    rw [append_nil] at parsed
    rw [parseCacheEntry_parts, parsed]

theorem serializeAndUnloadSlice_succeeds
    (mode : slices.headerMode = .small ∨ slices.headerMode = .good)
    (inside : sliceNumber ≤ slices.data.length)
    (someParts : ∀ slice, slices.numbered (slices.writtenNumber sliceNumber) = .ok slice →
      0 < slice.parts.size)
    (firstLoaded : slices.isGoodHeader = true → slices.writtenNumber sliceNumber = 0 →
      ∃ first, slices.slice 0 = .ok first ∧ first.loadedFromCache = true) :
    ∃ after serialized slice,
      slices.serializeAndUnloadSlice sliceNumber = .ok (after, serialized) ∧
        serialized.number = slices.writtenNumber sliceNumber ∧
        slices.numbered (slices.writtenNumber sliceNumber) = .ok slice ∧
        Written slices (slices.writtenNumber sliceNumber) slice serialized.data := by
  have arguments : require (slices.headerMode ≠ .unknown ∧ slices.headerMode ≠ .noCache ∧
      sliceNumber ≤ slices.data.length) .serializeArguments = .ok () := by
    rw [require_eq_ok]
    rcases mode with isSmall | isGood
    · rw [isSmall]
      exact ⟨by decide, by decide, inside⟩
    · rw [isGood]
      exact ⟨by decide, by decide, inside⟩
  obtain ⟨slice, found⟩ : ∃ slice,
      slices.numbered (slices.writtenNumber sliceNumber) = .ok slice := by
    have bounded : slices.writtenNumber sliceNumber ≤ sliceNumber := by
      unfold writtenNumber
      split <;> omega
    unfold Slices.numbered
    split
    · exact ⟨slices.header, rfl⟩
    · have inside : slices.writtenNumber sliceNumber - 1 < slices.data.length := by omega
      exact ⟨slices.data[slices.writtenNumber sliceNumber - 1],
        slice_eq_ok.mpr (getElem?_eq_getElem inside)⟩
  obtain ⟨after, serialized, done⟩ :=
    serializeNumbered_succeeds found (someParts slice found) firstLoaded
  obtain ⟨_, foundAgain, _, number, written, _⟩ := serializeNumbered_eq_ok done
  rw [found] at foundAgain
  cases foundAgain
  refine ⟨after, serialized, slice, ?_, number, found, written⟩
  unfold serializeAndUnloadSlice
  rw [arguments]
  exact done

/-- A slice that is written to the cache is read back as it was. -/
theorem parseCacheEntry_serializeAndUnloadSlice (aligned : slices.AlignedParts)
    (sliced : slices.isFullInHeader = false)
    (few : slices.header.parts.size ≤ kMaxPartsInHeader)
    (mode : slices.headerMode = .small ∨ slices.headerMode = .good) (fits : slices.ModeFits)
    {sliceNumber : Nat} (inside : sliceNumber ≤ slices.data.length)
    (someParts : ∀ slice, slices.numbered (slices.writtenNumber sliceNumber) = .ok slice →
      0 < slice.parts.size)
    (firstLoaded : slices.isGoodHeader = true → slices.writtenNumber sliceNumber = 0 →
      ∃ first, slices.slice 0 = .ok first ∧ first.loadedFromCache = true) :
    ∃ after serialized,
      slices.serializeAndUnloadSlice sliceNumber = .ok (after, serialized) ∧
        serialized.number = slices.writtenNumber sliceNumber ∧
        ReadBack slices (slices.writtenNumber sliceNumber)
          (parseCacheEntry serialized.data (slices.writtenNumber sliceNumber) slices.size) := by
  obtain ⟨after, serialized, slice, done, number, found, written⟩ :=
    serializeAndUnloadSlice_succeeds mode inside someParts firstLoaded
  exact ⟨after, serialized, done, number,
    written.readBack aligned sliced few mode fits found (someParts slice found)⟩

theorem not_readBack_of_not_goodHeader (aligned : slices.AlignedParts)
    (sliced : slices.isFullInHeader = false) (few : slices.header.parts.size ≤ kMaxPartsInHeader)
    (good : slices.isGoodHeader = true)
    (bad : computeIsGoodHeader slices.size slices.header.parts = false) {data : Bytes}
    (written : Written slices 0 slices.header data) :
    ¬ ReadBack slices 0 (parseCacheEntry data 0 slices.size) := by
  intro readBack
  obtain ⟨first, included, _, found, _⟩ := readBack.included good rfl
  cases written with
  | together first _ _ foundFirst loaded =>
    have isHeader : slices.numbered 0 = .ok slices.header := rfl
    obtain ⟨padding, short, parsed⟩ := parseCachedMap_complex aligned sliced isHeader
      (few.trans (by decide)) (serializeComplexSlice
        { first with parts := eraseAll first.parts slices.header.parts.entries })
    unfold parseCacheEntry at found
    rw [parsed] at found
    simp [bad] at found
  | continuous alone => exact alone ⟨good, rfl⟩
  | complex alone => exact alone ⟨good, rfl⟩

/-- Whole parts of zeros. -/
def zeroParts (start count : Nat) : PartsMap :=
  (∅ : PartsMap).emplaceAll ((List.range count).map fun index =>
    ((start + index) * kPartSize, List.replicate kPartSize 0))

theorem entries_zeroParts (start count : Nat) :
    (zeroParts start count).entries = (range count).map fun index =>
      ((start + index) * kPartSize, replicate kPartSize 0) := by
  unfold zeroParts
  rw [entries_emplaceAll _ (by simp)]
  · rfl
  · rw [pairwise_map]
    apply pairwise_lt_range.imp
    intro first second below
    exact Nat.mul_lt_mul_of_pos_right (by omega) (by decide)

theorem aligned_zeroParts {limit start count : Nat} (inside : (start + count) * kPartSize ≤ limit) :
    Aligned limit (zeroParts start count).entries := by
  intro part member
  rw [entries_zeroParts] at member
  obtain ⟨index, indexMem, rfl⟩ := mem_map.mp member
  rw [mem_range] at indexMem
  have below : (start + index + 1) * kPartSize ≤ limit :=
    (Nat.mul_le_mul_right _ (by omega)).trans inside
  rw [Nat.succ_mul] at below
  have positive : 0 < kPartSize := by decide
  refine ⟨Nat.dvd_mul_left .., by omega, ?_⟩
  rw [length_replicate]
  omega

/-- Slices of a file of 160 parts, with some parts in the header and one in the
first slice. -/
def exampleSlices (header : PartsMap) : Slices where
  size := 160 * kPartSize
  data := [{ parts := zeroParts 0 1, loadedFromCache := true }, {}, {}]
  header := { parts := header, loadedFromCache := true }
  headerMode := .good

theorem exampleSlices_slice {header : PartsMap} {index : Nat}
    (found : (exampleSlices header).slice index = .ok slice) :
    (index = 0 ∧ slice.parts = zeroParts 0 1) ∨ slice.parts = ∅ := by
  rw [slice_eq_ok] at found
  match index with
  | 0 =>
    cases found
    exact .inl ⟨rfl, rfl⟩
  | 1 | 2 =>
    cases found
    exact .inr rfl
  | index + 3 => cases found

theorem exampleSlices_aligned {start count : Nat} (inside : start + count ≤ 160) :
    (exampleSlices (zeroParts start count)).AlignedParts where
  small := (by decide : 160 * kPartSize < 2 ^ 32)
  count _ := (by decide : 3 = slicesCount (160 * kPartSize))
  header := aligned_zeroParts (Nat.mul_le_mul_right _ inside)
  slices index slice found := by
    rcases exampleSlices_slice found with ⟨rfl, parts⟩ | none
    · rw [parts]
      exact aligned_zeroParts (by decide : (0 + 1) * kPartSize ≤ sliceLimit (160 * kPartSize) 0)
    · rw [none]
      intro part member
      cases member

theorem exampleSlices_firstLoaded (header : PartsMap) :
    ∃ first, (exampleSlices header).slice 0 = .ok first ∧ first.loadedFromCache = true :=
  ⟨_, rfl, rfl⟩

theorem size_zeroParts (start count : Nat) : (zeroParts start count).size = count := by
  unfold FlatMap.size
  rw [entries_zeroParts, length_map, length_range]

theorem parseCacheEntry_serializeAndUnloadSlice_good :
    ∃ after serialized,
      (exampleSlices (zeroParts 70 1)).serializeAndUnloadSlice 1 = .ok (after, serialized) ∧
        serialized.number = (exampleSlices (zeroParts 70 1)).writtenNumber 1 ∧
        ReadBack (exampleSlices (zeroParts 70 1))
          ((exampleSlices (zeroParts 70 1)).writtenNumber 1)
          (parseCacheEntry serialized.data
            ((exampleSlices (zeroParts 70 1)).writtenNumber 1)
            (exampleSlices (zeroParts 70 1)).size) := by
  have good : computeIsGoodHeader (160 * kPartSize) (zeroParts 70 1) = true := by
    unfold computeIsGoodHeader lowerBound
    rw [entries_zeroParts]
    rfl
  refine parseCacheEntry_serializeAndUnloadSlice (exampleSlices_aligned (by decide)) rfl ?_
    (Or.inr rfl) ⟨fun _ => good, fun small => by cases small⟩ (by decide) ?_
    fun _ _ => exampleSlices_firstLoaded _
  · change (zeroParts 70 1).size ≤ _
    rw [size_zeroParts]
    decide
  · intro slice found
    cases found
    change 0 < (zeroParts 70 1).size
    rw [size_zeroParts]
    decide

/-- Nine header parts lie outside of the first slice, so a reader takes the
header for a small one and drops the part of the first slice. -/
theorem good_mode_drops_first_slice :
    (exampleSlices (zeroParts 64 9)).AlignedParts ∧
      (exampleSlices (zeroParts 64 9)).isFullInHeader = false ∧
      (exampleSlices (zeroParts 64 9)).header.parts.size = 9 ∧
      (exampleSlices (zeroParts 64 9)).headerMode = .good ∧
      ∃ after serialized,
        (exampleSlices (zeroParts 64 9)).serializeAndUnloadSlice 0 = .ok (after, serialized) ∧
          ¬ ReadBack (exampleSlices (zeroParts 64 9)) 0
            (parseCacheEntry serialized.data 0 (exampleSlices (zeroParts 64 9)).size) := by
  have bad : computeIsGoodHeader (160 * kPartSize) (zeroParts 64 9) = false := by
    unfold computeIsGoodHeader lowerBound
    rw [entries_zeroParts]
    rfl
  have aligned : (exampleSlices (zeroParts 64 9)).AlignedParts :=
    exampleSlices_aligned (by decide)
  refine ⟨aligned, rfl, size_zeroParts 64 9, rfl, ?_⟩
  obtain ⟨after, serialized, slice, done, -, found, written⟩ :
      ∃ after serialized slice,
        (exampleSlices (zeroParts 64 9)).serializeAndUnloadSlice 0 = .ok (after, serialized) ∧
          serialized.number = (0 : Nat) ∧
          (exampleSlices (zeroParts 64 9)).numbered 0 = .ok slice ∧
          Written (exampleSlices (zeroParts 64 9)) 0 slice serialized.data := by
    refine serializeAndUnloadSlice_succeeds (Or.inr rfl) (Nat.zero_le _) ?_
      fun _ _ => exampleSlices_firstLoaded _
    intro slice found
    cases found
    change 0 < (zeroParts 64 9).size
    rw [size_zeroParts]
    decide
  cases found
  refine ⟨after, serialized, done, not_readBack_of_not_goodHeader aligned rfl ?_ rfl bad written⟩
  change (zeroParts 64 9).size ≤ _
  rw [size_zeroParts]
  decide

end Slices

end TelegramDesktop.Streaming
