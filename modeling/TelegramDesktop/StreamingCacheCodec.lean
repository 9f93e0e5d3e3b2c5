import TelegramDesktop.StreamingSlices
import Mathlib.Data.List.Perm.Subperm
import Mathlib.Data.List.TakeWhile

/-!
# Reading back what was written to the cache

The parts of a slice start at multiples of the part size and fill it, except at the end
of the slice.
-/

namespace TelegramDesktop

open List

namespace Streaming

/-- Parts start at multiples of the part size and have that size, unless they
end at the limit. -/
def Aligned (limit : Nat) (parts : List (Nat × Bytes)) : Prop :=
  ∀ part ∈ parts, kPartSize ∣ part.1 ∧ part.1 < limit ∧
    part.2.length = min kPartSize (limit - part.1)

section Aligned

variable {limit : Nat} {part : Nat × Bytes} {parts : List (Nat × Bytes)}

theorem Aligned.tail (aligned : Aligned limit (part :: parts)) : Aligned limit parts :=
  fun other member => aligned other (mem_cons_of_mem _ member)

section

variable (aligned : Aligned limit parts)
include aligned

theorem Aligned.sublist {fewer : List (Nat × Bytes)} (sub : fewer.Sublist parts) :
    Aligned limit fewer :=
  fun other member => aligned other (sub.subset member)

theorem Aligned.end_le (member : part ∈ parts) : part.1 + part.2.length ≤ limit := by
  obtain ⟨-, below, length⟩ := aligned part member
  omega

theorem Aligned.length_pos (member : part ∈ parts) :
    0 < part.2.length ∧ part.2.length ≤ kPartSize := by
  obtain ⟨-, below, length⟩ := aligned part member
  unfold kPartSize at length ⊢
  omega

theorem Aligned.partEnd_eq (small : limit < 2 ^ 32) (member : part ∈ parts) :
    partEnd part = part.1 + part.2.length := by
  have inside := aligned.end_le member
  exact Nat.mod_eq_of_lt (by omega)

theorem Aligned.end_le_next {next : Nat × Bytes} (member : part ∈ parts) (nextMem : next ∈ parts)
    (below : part.1 < next.1) :
    part.2.length = kPartSize ∧ part.1 + kPartSize ≤ next.1 := by
  obtain ⟨⟨index, partEq⟩, -, length⟩ := aligned part member
  obtain ⟨⟨nextIndex, nextEq⟩, nextBelow, -⟩ := aligned next nextMem
  unfold kPartSize at *
  omega

theorem Aligned.length_le (increasing : parts.Pairwise fun first second => first.1 < second.1) :
    parts.length ≤ (limit + kPartSize - 1) / kPartSize := by
  have indices : (parts.map fun part => part.1 / kPartSize).Nodup := by
    rw [Nodup, pairwise_map]
    apply increasing.imp_of_mem
    intro first second firstMem secondMem below same
    obtain ⟨⟨secondIndex, secondEq⟩, -⟩ := aligned second secondMem
    unfold kPartSize at *
    omega
  have inside : (parts.map fun part => part.1 / kPartSize) ⊆
      range ((limit + kPartSize - 1) / kPartSize) := by
    intro index member
    obtain ⟨part, partMem, rfl⟩ := mem_map.mp member
    obtain ⟨⟨partIndex, partEq⟩, below, -⟩ := aligned part partMem
    rw [mem_range]
    unfold kPartSize at *
    omega
  have fewer := (subperm_of_subset indices inside).length_le
  rwa [length_map, length_range] at fewer

end

end Aligned

section Complex

theorem takeInt_appendInt {value : Nat} (fits : value < 2 ^ 32) (rest : Bytes) :
    takeInt (Slices.appendInt value ++ rest) = (some value, rest) := by
  have length : (Slices.appendInt value).length = 4 := length_littleEndian 4 value
  unfold takeInt
  rw [if_neg (by rw [length_append, length]; omega), take_left' length, drop_left' length]
  rw [Slices.appendInt, ofLittleEndian_littleEndian (by simpa using fits)]

theorem takeBytes_append {bytes : Bytes} (some : 0 < bytes.length)
    (small : bytes.length < 2 ^ 31) (rest : Bytes) :
    takeBytes (toInt32 bytes.length) (bytes ++ rest) = (bytes, rest) := by
  rw [toInt32_eq_self (by omega) (by omega)]
  unfold takeBytes
  rw [if_neg, Int.toNat_natCast, take_left' rfl, drop_left' rfl]
  rw [length_append]
  omega

theorem parseComplexParts_serializeParts {limit : Nat} (small : limit < 2 ^ 32)
    {parts : List (Nat × Bytes)} (aligned : Aligned limit parts) (result : PartsMap)
    (rest : Bytes) :
    parseComplexParts limit parts.length result (Slices.serializeParts parts ++ rest) =
      (result.emplaceAll parts, rest) := by
  induction parts generalizing result with
  | nil => rfl
  | cons part parts ih =>
    obtain ⟨positive, bounded⟩ := aligned.length_pos (mem_cons_self)
    have inside := aligned.end_le (mem_cons_self)
    have bound : kPartSize < 2 ^ 31 := by decide
    have bytes : Slices.serializeParts (part :: parts) ++ rest =
        Slices.appendInt part.1 ++ (Slices.appendInt part.2.length ++
          (part.2 ++ (Slices.serializeParts parts ++ rest))) := by
      simp [Slices.serializeParts]
    rw [bytes, length_cons, parseComplexParts]
    simp only [takeInt_appendInt (by omega : part.1 < 2 ^ 32),
      takeInt_appendInt (by omega : part.2.length < 2 ^ 32), Option.getD_some,
      takeBytes_append positive (by omega)]
    rw [if_neg]
    · exact ih aligned.tail (result.emplace part.1 part.2)
    · rw [Nat.mod_eq_of_lt (by omega)]
      omega

theorem parseComplexCachedMap_serialize {limit : Nat} {parts : PartsMap}
    {maxSize : Int} (limitEq : (maxSize % 2 ^ 32).toNat = limit) (small : limit < 2 ^ 32)
    (aligned : Aligned limit parts.entries) (few : parts.size ≤ 80) (rest : Bytes) :
    parseComplexCachedMap ∅
        (Slices.appendInt parts.size ++ Slices.serializeParts parts.entries ++ rest)
        maxSize = (parts, rest) := by
  unfold parseComplexCachedMap
  rw [append_assoc, takeInt_appendInt (by omega)]
  dsimp only
  split
  · have none : parts.entries = [] := by
      have bound : kMaxOnlyInHeader / kPartSize = 80 := by decide
      apply eq_nil_of_length_eq_zero
      change parts.size = 0
      omega
    rw [none]
    have empty : parts = ∅ := FlatMap.ext_entries none
    rw [empty]
    rfl
  · rw [limitEq]
    have parsed := parseComplexParts_serializeParts small aligned ∅ rest
    rwa [FlatMap.emplaceAll_entries] at parsed

end Complex

/-- Each part starts where the one before it ends. -/
def Consecutive : Nat → List (Nat × Bytes) → Prop
  | _, [] => True
  | start, part :: parts => part.1 = start ∧ Consecutive (start + part.2.length) parts

section Consecutive

variable {limit start : Nat} {part : Nat × Bytes} {parts : List (Nat × Bytes)}

theorem consecutive_of_loaded (small : limit < 2 ^ 32) (aligned : Aligned limit parts)
    (increasing : parts.Pairwise fun first second => first.1 < second.1)
    (after : ∀ part ∈ parts, start ≤ part.1)
    (loaded : ∀ part ∈ parts, part.1 < findNotLoadedStart parts start) :
    Consecutive start parts := by
  induction parts generalizing start with
  | nil => trivial
  | cons head parts ih =>
    have headAfter := after head (by simp)
    have headLoaded := loaded head (by simp)
    rw [findNotLoadedStart, aligned.partEnd_eq small mem_cons_self] at loaded headLoaded
    have joins : head.1 ≤ start ∧ start ≤ head.1 + head.2.length := by
      by_contra broken
      rw [if_neg broken] at headLoaded
      omega
    have startEq : head.1 = start := le_antisymm joins.1 headAfter
    rw [if_pos joins, startEq] at loaded
    rw [pairwise_cons] at increasing
    refine ⟨startEq, ih aligned.tail increasing.2 ?_ ?_⟩
    · intro next nextMem
      have apart := aligned.end_le_next mem_cons_self
        (mem_cons_of_mem _ nextMem) (increasing.1 next nextMem)
      omega
    · intro next nextMem
      exact loaded next (by simp [nextMem])

theorem Consecutive.length (consecutive : Consecutive start parts)
    (aligned : Aligned limit parts) (some : parts ≠ []) :
    start + (parts.flatMap Prod.snd).length ≤ limit ∧
      (kPartSize ∣ start + (parts.flatMap Prod.snd).length ∨
        start + (parts.flatMap Prod.snd).length = limit) := by
  induction parts generalizing start with
  | nil => exact (some rfl).elim
  | cons head parts ih =>
    obtain ⟨startEq, following⟩ := consecutive
    obtain ⟨⟨index, headEq⟩, below, length⟩ := aligned head (by simp)
    rw [flatMap_cons, length_append, ← add_assoc]
    by_cases none : parts = []
    · subst none
      rw [flatMap_nil, length_nil, add_zero, ← startEq]
      refine ⟨aligned.end_le mem_cons_self, ?_⟩
      rcases le_total kPartSize (limit - head.1) with full | short
      · left
        rw [length, min_eq_left full, headEq]
        exact Nat.dvd_add (Nat.dvd_mul_right ..) (Nat.dvd_refl _)
      · right
        rw [length, min_eq_right short]
        omega
    · exact ih following aligned.tail none

theorem Consecutive.eq_map (consecutive : Consecutive start parts) (aligned : Aligned limit parts)
    (increasing : parts.Pairwise fun first second => first.1 < second.1) :
    parts = (range parts.length).map (fun index => (start + index * kPartSize,
      ((parts.flatMap Prod.snd).drop (index * kPartSize)).take kPartSize)) ∧
    ((parts.flatMap Prod.snd).length + kPartSize - 1) / kPartSize = parts.length := by
  induction parts generalizing start with
  | nil => exact ⟨rfl, rfl⟩
  | cons head parts ih =>
    obtain ⟨startEq, following⟩ := consecutive
    obtain ⟨positive, bounded⟩ := aligned.length_pos mem_cons_self
    rw [pairwise_cons] at increasing
    obtain ⟨mapEq, countEq⟩ := ih following aligned.tail increasing.2
    by_cases none : parts = []
    · subst none
      have whole : head.2.take kPartSize = head.2 := take_of_length_le bounded
      have one : (head.2.length + kPartSize - 1) / kPartSize = 1 := by
        unfold kPartSize at *
        omega
      constructor
      · simp [← startEq, whole]
      · simpa using one
    · obtain ⟨next, nextMem⟩ := exists_mem_of_ne_nil parts none
      have full := (aligned.end_le_next mem_cons_self
        (mem_cons_of_mem _ nextMem) (increasing.1 next nextMem)).1
      rw [full] at mapEq
      have headBytes : (head.2 ++ parts.flatMap Prod.snd).take kPartSize = head.2 :=
        take_left' full
      have later : ∀ index, (head.2 ++ parts.flatMap Prod.snd).drop
          ((index + 1) * kPartSize) = (parts.flatMap Prod.snd).drop (index * kPartSize) := by
        intro index
        rw [Nat.succ_mul, Nat.add_comm, ← drop_drop, drop_left' full]
      constructor
      · rw [flatMap_cons, length_cons, range_succ_eq_map, map_cons,
          map_map, Nat.zero_mul, drop_zero, headBytes, Nat.add_zero, ← startEq]
        refine congrArg (head :: ·) ?_
        conv_lhs => rw [mapEq]
        apply map_congr_left
        intro index _
        simp only [Function.comp_apply, Nat.succ_eq_add_one, later, startEq]
        congr 1
        rw [Nat.succ_mul]
        omega
      · rw [flatMap_cons, length_append, full, length_cons, ← countEq]
        unfold kPartSize
        omega

theorem parseCachedMap_contiguous {parts : PartsMap} (aligned : Aligned limit parts.entries)
    (some : parts.entries ≠ []) (consecutive : Consecutive 0 parts.entries) :
    parseCachedMap ∅ (parts.entries.flatMap Prod.snd) limit = (parts, []) := by
  have length := consecutive.length aligned some
  rw [zero_add] at length
  have contiguous : isContiguousSerialization (parts.entries.flatMap Prod.snd).length
      limit = true := by
    unfold isContiguousSerialization
    rw [Bool.or_eq_true, beq_iff_eq, beq_iff_eq]
    rcases length.2 with multiple | whole
    · left
      exact_mod_cast Nat.mod_eq_zero_of_dvd multiple
    · right
      exact_mod_cast whole
  have inside : ¬ (limit : Int) < (parts.entries.flatMap Prod.snd).length := by
    omega
  have cut : contiguousParts (parts.entries.flatMap Prod.snd) = parts.entries := by
    obtain ⟨mapEq, countEq⟩ := consecutive.eq_map aligned parts.increasing
    unfold contiguousParts
    rw [countEq]
    simpa using mapEq.symm
  unfold parseCachedMap
  rw [if_pos contiguous, if_neg inside, cut, FlatMap.emplaceAll_entries]

end Consecutive

theorem isContiguousSerialization_iff {size maxSize : Int} :
    isContiguousSerialization size maxSize = true ↔ size % kPartSize = 0 ∨ size = maxSize := by
  unfold isContiguousSerialization
  rw [Bool.or_eq_true, beq_iff_eq, beq_iff_eq]

theorem exists_not_contiguous (size maxSize : Int) :
    isContiguousSerialization size maxSize = false ∨
      isContiguousSerialization (size + 1) maxSize = false ∨
      isContiguousSerialization (size + 2) maxSize = false := by
  by_contra all
  simp only [not_or, Bool.not_eq_false, isContiguousSerialization_iff] at all
  unfold kPartSize at all
  omega

theorem padSerialization_spec (data : Bytes) (maxSize : Int) :
    ∃ padding, padding ≤ 2 ∧
      Slices.padSerialization 3 data maxSize = data ++ replicate padding 0 ∧
      isContiguousSerialization (Slices.padSerialization 3 data maxSize).length
        maxSize = false := by
  have somewhere := exists_not_contiguous data.length maxSize
  have one : ((data ++ [0]).length : Int) = data.length + 1 := by simp
  have two : ((data ++ [0] ++ [0]).length : Int) = data.length + 2 := by
    rw [length_append, Int.natCast_add, one]
    rfl
  rw [← one, ← two] at somewhere
  cases first : isContiguousSerialization data.length maxSize with
  | false =>
    refine ⟨0, by decide, ?_, ?_⟩ <;> simp [Slices.padSerialization, first]
  | true =>
    cases second : isContiguousSerialization (data ++ [0]).length maxSize with
    | false =>
      refine ⟨1, by decide, ?_, ?_⟩ <;>
        simp only [Slices.padSerialization, first, second, if_true, Bool.false_eq_true, if_false]
      rfl
    | true =>
      have third : isContiguousSerialization (data ++ [0] ++ [0]).length maxSize = false := by
        rw [first, second] at somewhere
        simpa using somewhere
      refine ⟨2, by decide, ?_, ?_⟩ <;>
        simp only [Slices.padSerialization, first, second, third, if_true,
          Bool.false_eq_true, if_false]
      rw [append_assoc]
      rfl

theorem parseCachedMap_padded (data : Bytes) (maxSize : Int) :
    ∃ padding, padding ≤ 2 ∧
      parseCachedMap ∅ (Slices.padSerialization 3 data maxSize) maxSize =
        parseComplexCachedMap ∅ (data ++ replicate padding 0) maxSize := by
  obtain ⟨padding, few, padded, complex⟩ := padSerialization_spec data maxSize
  refine ⟨padding, few, ?_⟩
  unfold parseCachedMap
  rw [complex, padded]
  rfl

/-- The bytes of the file within a slice. -/
def sliceLimit (size index : Nat) : Nat := min kInSlice (size - index * kInSlice)

def numberedLimit (size sliceNumber : Nat) : Nat :=
  if sliceNumber = 0 then size else sliceLimit size (sliceNumber - 1)

section

variable {size : Nat} (small : size < 2 ^ 32)
include small

theorem slicesCount_eq {index : Nat} (inside : index < slicesCount size) :
    slicesCount size = (size + kInSlice - 1) / kInSlice := by
  unfold slicesCount kInSlice at *
  omega

theorem maxSliceSize_slice {index : Nat} (inside : index < slicesCount size) :
    maxSliceSize (index + 1) size = sliceLimit size index := by
  have count := slicesCount_eq small inside
  unfold maxSliceSize
  rw [if_neg (Nat.succ_ne_zero index)]
  by_cases last : index + 1 = slicesCount size
  · have value : (size : Int) - ((index + 1 : Nat) - 1) * kInSlice = sliceLimit size index := by
      rw [count] at last
      unfold sliceLimit kInSlice at *
      omega
    have bounded : sliceLimit size index ≤ kInSlice := Nat.min_le_left ..
    unfold kInSlice at bounded
    rw [if_pos last, value, toInt32_eq_self (by omega) (by omega)]
  · have before : index + 1 < slicesCount size := by omega
    rw [count] at before
    rw [if_neg last]
    unfold sliceLimit kInSlice at *
    omega

theorem maxSliceSize_header_mod : (maxSliceSize 0 size % 2 ^ 32).toNat = size := by
  have same : toInt32 size % 2 ^ 32 = size % 2 ^ 32 := Int.bmod_emod
  unfold maxSliceSize
  rw [if_pos rfl, same]
  omega

theorem maxSliceSize_mod {sliceNumber : Nat} (inside : sliceNumber ≤ slicesCount size) :
    (maxSliceSize sliceNumber size % 2 ^ 32).toNat = numberedLimit size sliceNumber := by
  unfold numberedLimit
  cases sliceNumber with
  | zero => exact maxSliceSize_header_mod small
  | succ index =>
    rw [maxSliceSize_slice small inside, if_neg (Nat.succ_ne_zero index), Nat.add_sub_cancel]
    have bounded : sliceLimit size index ≤ kInSlice := min_le_left ..
    unfold kInSlice at bounded
    omega

theorem numberedLimit_lt (sliceNumber : Nat) : numberedLimit size sliceNumber < 2 ^ 32 := by
  unfold numberedLimit sliceLimit kInSlice
  split <;> omega

end

end Streaming

end TelegramDesktop
