import TelegramDesktop.StreamingCacheCodec
import TelegramDesktop.StreamingOffsets

/-!
# The first part that is missing

Where the parts of a slice are aligned, the scan for the end of the loaded bytes stops at the
first part of the range that is missing, and this part is asked for before all others.
-/

namespace TelegramDesktop.Streaming

open List FlatMap

section Scan

variable {limit start found : Nat} {part : Nat × Bytes} {parts : List (Nat × Bytes)}

theorem Aligned.partEnd_round (aligned : Aligned limit parts) (small : limit < 2 ^ 32)
    (member : part ∈ parts) : kPartSize ∣ partEnd part ∨ partEnd part = limit := by
  obtain ⟨round, below, length⟩ := aligned part member
  rw [aligned.partEnd_eq small member, length]
  rcases le_total kPartSize (limit - part.1) with full | short
  · rw [min_eq_left full]
    exact .inl (Nat.dvd_add round (Nat.dvd_refl _))
  · rw [min_eq_right short]
    exact .inr (by omega)

/-- The scan stops at the first offset of a part that is not there. -/
structure Scanned (limit : Nat) (parts : List (Nat × Bytes)) (start found : Nat) : Prop where
  low : start ≤ found
  round : kPartSize ∣ found ∨ found = limit
  absent : ∀ part ∈ parts, part.1 ≠ found
  present : ∀ offset, kPartSize ∣ offset → start ≤ offset → offset < found →
    ∃ part ∈ parts, part.1 = offset

theorem scanned_stop (round : kPartSize ∣ start ∨ start = limit)
    (after : ∀ part ∈ parts, start < part.1) : Scanned limit parts start start where
  low := le_refl start
  round := round
  absent part member := ne_of_gt (after part member)
  present _ _ low below := absurd low (not_le.mpr below)

theorem Scanned.cons (scanned : Scanned limit parts (partEnd part) found)
    (round : kPartSize ∣ part.1) (some : part.1 < partEnd part)
    (short : partEnd part ≤ part.1 + kPartSize) : Scanned limit (part :: parts) part.1 found where
  low := le_trans (le_of_lt some) scanned.low
  round := scanned.round
  absent other member := by
    rcases mem_cons.mp member with rfl | member
    · exact ne_of_lt (lt_of_lt_of_le some scanned.low)
    · exact scanned.absent other member
  present offset isRound low below := by
    rcases lt_or_ge offset (partEnd part) with inside | beyond
    · refine ⟨part, mem_cons_self, ?_⟩
      obtain ⟨other, otherEq⟩ := isRound
      unfold kPartSize at *
      omega
    · obtain ⟨other, member, same⟩ := scanned.present offset isRound beyond below
      exact ⟨other, mem_cons_of_mem _ member, same⟩

theorem Scanned.of_before (scanned : Scanned limit parts start found) (before : part.1 < start) :
    Scanned limit (part :: parts) start found where
  low := scanned.low
  round := scanned.round
  absent other member := by
    rcases mem_cons.mp member with rfl | member
    · exact ne_of_lt (lt_of_lt_of_le before scanned.low)
    · exact scanned.absent other member
  present offset isRound low below := by
    obtain ⟨other, member, same⟩ := scanned.present offset isRound low below
    exact ⟨other, mem_cons_of_mem _ member, same⟩

theorem scanned_findNotLoadedStart (small : limit < 2 ^ 32) (aligned : Aligned limit parts)
    (increasing : parts.Pairwise fun first second => first.1 < second.1)
    (after : ∀ part ∈ parts, start ≤ part.1) (round : kPartSize ∣ start ∨ start = limit) :
    Scanned limit parts start (findNotLoadedStart parts start) := by
  induction parts generalizing start with
  | nil => exact scanned_stop round fun _ member => absurd member not_mem_nil
  | cons part parts ih =>
    have order := pairwise_cons.mp increasing
    have endEq := aligned.partEnd_eq small mem_cons_self
    obtain ⟨some, short⟩ := aligned.length_pos mem_cons_self
    rw [findNotLoadedStart]
    split
    next joins =>
      have startEq : part.1 = start := le_antisymm joins.1 (after part mem_cons_self)
      have isRound := (aligned part mem_cons_self).1
      rw [← startEq]
      refine Scanned.cons (ih aligned.tail order.2 (fun next member => ?_) ?_) isRound
        (by omega) (by omega)
      · have apart := aligned.end_le_next mem_cons_self (mem_cons_of_mem _ member)
          (order.1 next member)
        omega
      · exact aligned.partEnd_round small mem_cons_self
    · have first := after part mem_cons_self
      refine scanned_stop round fun next member => ?_
      rcases mem_cons.mp member with rfl | member
      · omega
      · have := order.1 next member
        omega

end Scan

namespace Slice

variable {slice : Slice} {limit start till missing : Nat} {part : Nat × Bytes}
  {later : List (Nat × Bytes)}

/-- The first part of a range that is not loaded. -/
structure FirstMissing (slice : Slice) (start till missing : Nat) : Prop where
  round : kPartSize ∣ missing
  low : start / kPartSize * kPartSize ≤ missing
  below : missing < till
  absent : slice.parts.contains missing = false
  present : ∀ offset, kPartSize ∣ offset → start / kPartSize * kPartSize ≤ offset →
    offset < missing → slice.parts.contains offset = true

theorem partsBounded_of_aligned (aligned : Aligned limit slice.parts.entries)
    (limitLe : limit ≤ kOffsetsBound) : PartsBounded slice where
  begins part member := lt_of_lt_of_le (aligned part member).2.1 limitLe
  filled part member := (aligned.length_pos member).1
  ends part member := by
    have inside := aligned.end_le member
    unfold kOffsetsBound at limitLe
    omega

theorem scanned_checkFrom (small : limit < 2 ^ 32) (aligned : Aligned limit slice.parts.entries)
    (below : start < till) (isCheck : slice.checkFrom start = part :: later)
    (begins : part.1 ≤ start) :
    Scanned limit (part :: later.takeWhile fun part => part.1 < till)
      (start / kPartSize * kPartSize)
      (findNotLoadedStart ((part :: later).takeWhile fun part => part.1 < till)
        (start / kPartSize * kPartSize)) := by
  obtain ⟨before, last, split⟩ := exists_splitAt slice start
  have after := lt_of_checkFrom isCheck begins
  have sorted := split.sorted
  have sub := split.sub
  rw [isCheck] at sorted sub
  have inside := takeWhile_sublist (l := later) fun part : Nat × Bytes => part.1 < till
  have taken : ((part :: later).takeWhile fun part => part.1 < till) =
      part :: later.takeWhile fun part => part.1 < till :=
    takeWhile_cons_of_pos (decide_eq_true (lt_of_le_of_lt begins below))
  have alignedInside : Aligned limit (part :: later.takeWhile fun part => part.1 < till) :=
    fun other member => aligned other (sub other ((inside.cons_cons part).subset member))
  have sortedInside := sorted.sublist (inside.cons_cons part)
  have isRound : kPartSize ∣ start / kPartSize * kPartSize := Nat.dvd_mul_left ..
  have floorLe : start / kPartSize * kPartSize ≤ start := Nat.div_mul_le_self ..
  have afterInside : ∀ next ∈ later.takeWhile fun part => part.1 < till,
      start / kPartSize * kPartSize < next.1 := fun next member =>
    lt_of_le_of_lt floorLe (after next (inside.subset member))
  rw [taken]
  rcases lt_trichotomy part.1 (start / kPartSize * kPartSize) with earlier | same | beyond
  · refine Scanned.of_before ?_ earlier
    have endEq := alignedInside.partEnd_eq small mem_cons_self
    have short := (alignedInside.length_pos mem_cons_self).2
    have apart : part.1 + kPartSize ≤ start / kPartSize * kPartSize := by
      obtain ⟨index, indexEq⟩ := (alignedInside part mem_cons_self).1
      unfold kPartSize at *
      omega
    rw [findNotLoadedStart]
    split
    · have endIs : partEnd part = start / kPartSize * kPartSize := by omega
      rw [endIs]
      exact scanned_findNotLoadedStart small alignedInside.tail (pairwise_cons.mp sortedInside).2
        (fun next member => le_of_lt (afterInside next member)) (.inl isRound)
    · exact scanned_stop (.inl isRound) afterInside
  · refine scanned_findNotLoadedStart small alignedInside sortedInside (fun next member => ?_)
      (.inl isRound)
    rcases mem_cons.mp member with rfl | member
    · exact le_of_eq same.symm
    · exact le_of_lt (afterInside next member)
  · -- the part would begin between the start of the range and the multiple before it
    obtain ⟨index, indexEq⟩ := (alignedInside part mem_cons_self).1
    unfold kPartSize at *
    omega

theorem not_mem_of_scanned (isCheck : slice.checkFrom start = part :: later)
    (begins : part.1 ≤ start)
    (scanned : Scanned limit (part :: later.takeWhile fun part => part.1 < till)
      (start / kPartSize * kPartSize) missing)
    (low : part.1 ≤ missing) (below : missing < till) :
    ∀ other ∈ slice.parts.entries, other.1 ≠ missing := by
  obtain ⟨before, last, split⟩ := exists_splitAt slice start
  have sorted := slice.parts.increasing
  have entries := split.entries
  rw [isCheck] at entries
  rw [entries, pairwise_append] at sorted
  intro other member
  rw [entries] at member
  rcases mem_append.mp member with earlier | member
  · exact ne_of_lt (lt_of_lt_of_le (sorted.2.2 other earlier part mem_cons_self) low)
  rcases mem_cons.mp member with rfl | member
  · exact scanned.absent _ mem_cons_self
  rw [← takeWhile_append_dropWhile (l := later) (p := fun part => part.1 < till)] at member
  rcases mem_append.mp member with inside | beyond
  · exact scanned.absent other (mem_cons_of_mem _ inside)
  · have := ((mem_dropWhile_iff (pairwise_cons.mp sorted.2.1).2).mp beyond).2
    omega

section Prepared

variable {prepared : PrepareFillResult}

/-- What one call asks for: a few parts by increasing offsets. -/
structure Requests (offsets : List Nat) : Prop where
  few : offsets.length ≤ kLoadFromRemoteMax
  increasing : offsets.Pairwise (· < ·)
  round : ∀ offset ∈ offsets, kPartSize ∣ offset

theorem requests_of_asks {check : List (Nat × Bytes)} {offset : Nat} {added : List Nat}
    (asks : Asks check offset till kLoadFromRemoteMax added) (round : kPartSize ∣ offset) :
    Requests added where
  few := asks.few
  increasing := asks.increasing
  round value member := by
    obtain ⟨count, rfl⟩ := asks.steps value member
    exact Nat.dvd_add round (Nat.dvd_mul_left ..)

theorem firstMissing_of_lacks {offsets : List Nat} (lacks : Lacks slice start till missing offsets)
    (aligned : Aligned limit slice.parts.entries) (small : limit < 2 ^ 32) (below : start < till)
    (tillLe : till ≤ limit) : FirstMissing slice start till missing := by
  have floorLe : start / kPartSize * kPartSize ≤ start := Nat.div_mul_le_self ..
  have short := lacks.short
  rcases lacks.scan with ⟨after, rfl⟩ | ⟨part, later, isCheck, begins, isScan⟩
  · refine ⟨Nat.dvd_mul_left .., Nat.le_refl _, short, ?_, fun offset _ low high => ?_⟩
    · have isNil : (slice.parts.entries.takeWhile fun part => part.1 ≤ start) = [] := by
        by_contra some
        obtain ⟨before, first, later, split, first_le, isCheck⟩ :=
          splitAt_of_takeWhile_ne_nil some
        have := after first (isCheck ▸ mem_cons_self)
        omega
      have split := splitAt_of_takeWhile_nil isNil
      rw [contains_eq_false, split.entries]
      intro part member
      have := after part member
      omega
    · omega
  · have scanned := scanned_checkFrom small aligned below isCheck begins
    rw [← isScan] at scanned
    obtain ⟨before, last, split⟩ := exists_splitAt slice start
    have sub := split.sub
    rw [isCheck] at sub
    have low : part.1 ≤ missing := by
      have reached := scanned.low
      obtain ⟨index, indexEq⟩ := (aligned part (sub part mem_cons_self)).1
      unfold kPartSize at *
      omega
    refine ⟨scanned.round.resolve_right (by omega), scanned.low, short, ?_,
      fun offset isRound from_le isBelow => ?_⟩
    · exact contains_eq_false.mpr (not_mem_of_scanned isCheck begins scanned low short)
    · obtain ⟨other, member, rfl⟩ := scanned.present offset isRound from_le isBelow
      have inside := takeWhile_sublist (l := later) fun part : Nat × Bytes => part.1 < till
      exact contains_of_mem (sub other ((inside.cons_cons part).subset member))

section

variable (aligned : Aligned limit slice.parts.entries) (limitLe : limit ≤ kOffsetsBound)
  (below : start < till) (tillLe : till ≤ limit)
  (isPrepared : slice.prepareFill start till = .ok prepared)

include aligned limitLe below tillLe isPrepared

theorem prepareFill_waits (waits : prepared.ready = false) :
    Requests prepared.offsetsFromLoader ∧
      ∃ missing ∈ prepared.offsetsFromLoader, FirstMissing slice start till missing := by
  have small : limit < 2 ^ 32 := Nat.lt_of_le_of_lt limitLe (by decide)
  obtain ⟨result, isResult, outcome⟩ := prepareFill_spec (partsBounded_of_aligned aligned limitLe)
    below (Nat.le_trans tillLe limitLe)
  rw [isPrepared] at isResult
  cases isResult
  rcases outcome with ⟨ready, -⟩ | ⟨-, missing, lacks⟩
  · rw [waits] at ready
    cases ready
  have first := firstMissing_of_lacks lacks aligned small below tillLe
  refine ⟨requests_of_asks lacks.asks first.round, missing, ?_, first⟩
  have isBelow := first.below
  have reaches := lacks.asks.reaches (by decide) 0
  rw [Nat.zero_mul, Nat.add_zero] at reaches
  obtain ⟨value, member, le⟩ := reaches (fun earlier isZero => by
      unfold kPartSize kPreloadPartsAhead
      omega)
    (contains_eq_false.mp first.absent)
  have := lacks.asks.offset_le member
  rwa [show value = missing by omega] at member

theorem prepareFill_loaded (ready : prepared.ready = true) :
    Requests prepared.offsetsFromLoader ∧
      (∀ offset ∈ prepared.offsetsFromLoader, till ≤ offset) ∧
      ∀ offset, kPartSize ∣ offset → start / kPartSize * kPartSize ≤ offset → offset < till →
        slice.parts.contains offset = true := by
  have small : limit < 2 ^ 32 := lt_of_le_of_lt limitLe (by decide)
  obtain ⟨result, isResult, outcome⟩ := prepareFill_spec (partsBounded_of_aligned aligned limitLe)
    below (le_trans tillLe limitLe)
  rw [isPrepared] at isResult
  cases isResult
  rcases outcome with ⟨-, loaded⟩ | ⟨waits, -⟩
  · refine ⟨requests_of_asks loaded.asks (Nat.dvd_mul_left ..), fun offset member => ?_,
      fun offset isRound low high => ?_⟩
    · have := loaded.asks.offset_le member
      unfold kPartSize at this
      omega
    · obtain ⟨part, later, isCheck, begins, -, parts⟩ := loaded.parts
      have scanned := scanned_checkFrom small aligned below isCheck begins
      have reached := loaded.reached
      rw [parts] at reached
      obtain ⟨other, member, rfl⟩ :=
        scanned.present offset isRound low (lt_of_lt_of_le high reached)
      obtain ⟨before, last, split⟩ := exists_splitAt slice start
      have sub := split.sub
      rw [isCheck] at sub
      have inside := takeWhile_sublist (l := later) fun part : Nat × Bytes => part.1 < till
      exact contains_of_mem (sub other ((inside.cons_cons part).subset member))
  · rw [ready] at waits
    cases waits

end

end Prepared

end Slice

end TelegramDesktop.Streaming
