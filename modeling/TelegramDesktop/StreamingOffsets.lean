import TelegramDesktop.StreamingSlices
import Mathlib.Data.List.TakeWhile

/-!
# Offsets that a slice asks for

The loop over the offsets goes through the sorted parts beside them. It ends after few
rounds, because every round finds a part or adds an offset, and of those there is room
for a few.
-/

namespace TelegramDesktop.Streaming

open List

/-- Where the parts of a slice begin, and where ranges in it end. -/
def kOffsetsBound : Nat := 2 ^ 24

/-- What the loop over the offsets adds for a list of parts. -/
structure Asks (check : List (Nat × Bytes)) (offset till room : Nat) (added : List Nat) :
    Prop where
  few : added.length ≤ room
  increasing : added.Pairwise (· < ·)
  steps : ∀ value ∈ added, ∃ count, value = offset + count * kPartSize
  missing : ∀ value ∈ added, ∀ part ∈ check, part.1 ≠ value
  reaches : 0 < room → ∀ count, (∀ earlier ≤ count, offset + earlier * kPartSize ≠ till) →
    (∀ part ∈ check, part.1 ≠ offset + count * kPartSize) →
    ∃ value ∈ added, value ≤ offset + count * kPartSize

section Asks

variable {check ahead : List (Nat × Bytes)} {offset till room : Nat} {added : List Nat}

theorem Asks.offset_le (asks : Asks check offset till room added) {value : Nat}
    (member : value ∈ added) : offset ≤ value := by
  obtain ⟨count, rfl⟩ := asks.steps value member
  exact Nat.le_add_right ..

theorem Asks.of_ahead (asks : Asks ahead offset till room added)
    (kept : ∀ part ∈ check, offset ≤ part.1 → part ∈ ahead)
    (sub : ∀ part ∈ ahead, part ∈ check) : Asks check offset till room added where
  few := asks.few
  increasing := asks.increasing
  steps := asks.steps
  missing value member part isPart same :=
    asks.missing value member part (kept part isPart (same ▸ asks.offset_le member)) same
  reaches some count before absent :=
    asks.reaches some count before fun part isPart => absent part (sub part isPart)

theorem asks_nil : Asks check offset offset room [] where
  few := Nat.zero_le room
  increasing := .nil
  steps _ member := absurd member not_mem_nil
  missing _ member := absurd member not_mem_nil
  reaches _ count before := absurd (by omega) (before 0 (Nat.zero_le count))

theorem asks_full : Asks check offset till 0 [] where
  few := le_refl 0
  increasing := .nil
  steps _ member := absurd member not_mem_nil
  missing _ member := absurd member not_mem_nil
  reaches none := absurd none (lt_irrefl 0)

theorem step_succ (offset count : Nat) :
    offset + kPartSize + count * kPartSize = offset + (count + 1) * kPartSize := by
  rw [Nat.succ_mul]
  omega

theorem Asks.present (asks : Asks check (offset + kPartSize) till room added)
    (isPart : ∃ part ∈ check, part.1 = offset) : Asks check offset till room added where
  few := asks.few
  increasing := asks.increasing
  steps value member := by
    obtain ⟨count, rfl⟩ := asks.steps value member
    exact ⟨count + 1, step_succ offset count⟩
  missing := asks.missing
  reaches some count before absent := by
    cases count with
    | zero =>
      obtain ⟨part, member, same⟩ := isPart
      exact absurd (by omega) (absent part member)
    | succ count =>
      rw [← step_succ] at absent ⊢
      refine asks.reaches some count (fun earlier below => ?_) absent
      rw [step_succ]
      exact before (earlier + 1) (Nat.succ_le_succ below)

theorem Asks.absent (asks : Asks check (offset + kPartSize) till room added)
    (absent : ∀ part ∈ check, part.1 ≠ offset) :
    Asks check offset till (room + 1) (offset :: added) where
  few := by
    rw [length_cons]
    exact Nat.succ_le_succ asks.few
  increasing := by
    refine pairwise_cons.mpr ⟨fun value member => ?_, asks.increasing⟩
    have after := asks.offset_le member
    unfold kPartSize at after
    omega
  steps value member := by
    rcases mem_cons.mp member with rfl | member
    · exact ⟨0, by omega⟩
    · obtain ⟨count, rfl⟩ := asks.steps value member
      exact ⟨count + 1, step_succ offset count⟩
  missing value member := by
    rcases mem_cons.mp member with rfl | member
    · exact absent
    · exact asks.missing value member
  reaches _ count _ _ := ⟨offset, mem_cons_self, Nat.le_add_right ..⟩

end Asks

/-- Rounds in which a part is found, and rounds in which an offset is added. -/
def roundsLeft (bound offset room : Nat) : Nat :=
  (bound - offset + kPartSize - 1) / kPartSize + room

variable {check : List (Nat × Bytes)}

theorem mem_dropWhile_iff {offset : Nat}
    (sorted : check.Pairwise fun first second => first.1 < second.1) {part : Nat × Bytes} :
    part ∈ check.dropWhile (fun part => part.1 < offset) ↔ part ∈ check ∧ offset ≤ part.1 := by
  induction check with
  | nil => simp
  | cons first rest ih =>
    rw [pairwise_cons] at sorted
    by_cases before : first.1 < offset
    · rw [dropWhile_cons_of_pos (by simpa using before), ih sorted.2, mem_cons]
      constructor
      · rintro ⟨member, after⟩
        exact ⟨.inr member, after⟩
      · rintro ⟨rfl | member, after⟩
        · omega
        · exact ⟨member, after⟩
    · rw [dropWhile_cons_of_neg (by simpa using before)]
      refine ⟨fun member => ⟨member, ?_⟩, fun both => both.1⟩
      rcases mem_cons.mp member with rfl | member
      · omega
      · have := sorted.1 part member
        omega

theorem head?_dropWhile_iff {offset : Nat}
    (sorted : check.Pairwise fun first second => first.1 < second.1) :
    ((check.dropWhile fun part => part.1 < offset).head?.map Prod.fst) = some offset ↔
      ∃ part ∈ check, part.1 = offset := by
  have sub := dropWhile_sublist (l := check) fun part : Nat × Bytes => part.1 < offset
  have order := sorted.sublist sub
  constructor
  · intro isHead
    cases split : check.dropWhile fun part => part.1 < offset with
    | nil =>
      rw [split] at isHead
      cases isHead
    | cons first rest =>
      rw [split] at isHead sub
      exact ⟨first, sub.subset mem_cons_self, Option.some.inj isHead⟩
  · rintro ⟨part, member, same⟩
    have isAhead := (mem_dropWhile_iff sorted).mpr ⟨member, same.ge⟩
    cases split : check.dropWhile fun part => part.1 < offset with
    | nil =>
      rw [split] at isAhead
      exact absurd isAhead not_mem_nil
    | cons first rest =>
      have first_le : offset ≤ first.1 :=
        ((mem_dropWhile_iff sorted).mp (split ▸ mem_cons_self)).2
      rw [split] at isAhead order
      rcases mem_cons.mp isAhead with rfl | later
      · exact congrArg some same
      · have := (pairwise_cons.mp order).1 part later
        omega

theorem roundsLeft_present {bound offset room : Nat} (below : offset < bound) :
    roundsLeft bound (offset + kPartSize) room + 1 = roundsLeft bound offset room := by
  unfold roundsLeft kPartSize
  omega

theorem roundsLeft_absent (bound offset room : Nat) :
    roundsLeft bound (offset + kPartSize) room + 1 ≤ roundsLeft bound offset (room + 1) := by
  unfold roundsLeft kPartSize
  omega

theorem offsetsLoop_spec {bound till rounds : Nat} {offset : Nat} {result : List Nat} {room : Nat}
    (sorted : check.Pairwise fun first second => first.1 < second.1)
    (below : ∀ part ∈ check, part.1 < bound) (roomEq : result.length + room = kLoadFromRemoteMax)
    (enough : roundsLeft bound offset room < rounds)
    (noWrap : offset + (roundsLeft bound offset room + 1) * kPartSize < 2 ^ 32) :
    ∃ added, Slice.offsetsLoop rounds check offset till result = .ok (result ++ added) ∧
      Asks check offset till room added := by
  induction rounds generalizing check offset result room with
  | zero => exact absurd enough (Nat.not_lt_zero _)
  | succ rounds ih =>
    unfold Slice.offsetsLoop
    by_cases atEnd : offset = till
    · rw [if_pos atEnd]
      exact ⟨[], by rw [append_nil], atEnd ▸ asks_nil⟩
    rw [if_neg atEnd]
    have next : (offset + kPartSize) % 2 ^ 32 = offset + kPartSize := by
      apply Nat.mod_eq_of_lt
      unfold kPartSize at noWrap ⊢
      omega
    have sub := dropWhile_sublist (l := check) fun part : Nat × Bytes => part.1 < offset
    have belowAhead : ∀ part ∈ check.dropWhile (fun part => part.1 < offset), part.1 < bound :=
      fun part member => below part (sub.subset member)
    have ahead {till room : Nat} {added : List Nat} (asks : Asks (check.dropWhile
        fun part => part.1 < offset) (offset + kPartSize) till room added) :
        Asks check (offset + kPartSize) till room added :=
      asks.of_ahead (fun part member after => (mem_dropWhile_iff sorted).mpr
        ⟨member, Nat.le_trans (Nat.le_add_right ..) after⟩) fun part member => sub.subset member
    rw [next]
    by_cases isPart : ∃ part ∈ check, part.1 = offset
    · rw [if_pos ((head?_dropWhile_iff sorted).mpr isPart)]
      obtain ⟨part, member, same⟩ := isPart
      have fewer : roundsLeft bound (offset + kPartSize) room + 1 = roundsLeft bound offset room :=
        roundsLeft_present (same ▸ below part member)
      have noWrapNext : offset + kPartSize +
          (roundsLeft bound (offset + kPartSize) room + 1) * kPartSize < 2 ^ 32 := by
        rw [step_succ, fewer]
        exact noWrap
      obtain ⟨added, ends, asks⟩ := ih (sorted.sublist sub) belowAhead roomEq (by omega) noWrapNext
      exact ⟨added, ends, (ahead asks).present ⟨part, member, same⟩⟩
    · rw [if_neg (fun found => isPart ((head?_dropWhile_iff sorted).mp found))]
      cases room with
      | zero =>
        rw [if_neg (by omega)]
        exact ⟨[], by rw [append_nil], asks_full⟩
      | succ room =>
        have short : result.length < kLoadFromRemoteMax := by omega
        rw [if_pos short, stackAdd, if_pos short]
        have fewer := roundsLeft_absent bound offset room
        have roomNext : (result ++ [offset]).length + room = kLoadFromRemoteMax := by
          rw [length_append, length_singleton]
          omega
        have noWrapNext : offset + kPartSize +
            (roundsLeft bound (offset + kPartSize) room + 1) * kPartSize < 2 ^ 32 := by
          rw [step_succ]
          refine Nat.lt_of_le_of_lt (Nat.add_le_add_left ?_ _) noWrap
          exact Nat.mul_le_mul_right _ (Nat.succ_le_succ fewer)
        obtain ⟨added, ends, asks⟩ :=
          ih (sorted.sublist sub) belowAhead roomNext (by omega) noWrapNext
        refine ⟨offset :: added, ?_, (ahead asks).absent fun part member same =>
          isPart ⟨part, member, same⟩⟩
        rw [ends, append_assoc]
        rfl

section Slice

variable {slice : Slice} {start till : Nat}

/-- The last part that begins at or before a position, if there is one, and the parts that
begin later. -/
structure SplitAt (slice : Slice) (start : Nat) (before later : List (Nat × Bytes)) : Prop where
  entries : slice.parts.entries = before ++ slice.checkFrom start
  before_lt : ∀ part ∈ before, part.1 < start
  later_gt : ∀ part ∈ later, start < part.1

theorem mem_later_iff {part : Nat × Bytes} :
    part ∈ slice.parts.entries.dropWhile (fun part => part.1 ≤ start) ↔
      part ∈ slice.parts.entries ∧ start < part.1 := by
  have same : (fun part : Nat × Bytes => decide (part.1 ≤ start)) =
      fun part => decide (part.1 < start + 1) :=
    funext fun part => decide_eq_decide.mpr Nat.lt_succ_iff.symm
  rw [same, mem_dropWhile_iff slice.parts.increasing, Nat.succ_le_iff]

theorem splitAt_of_takeWhile_nil
    (none : (slice.parts.entries.takeWhile fun part => part.1 ≤ start) = []) :
    SplitAt slice start [] (slice.checkFrom start) := by
  have whole := takeWhile_append_dropWhile (l := slice.parts.entries)
    (p := fun part => part.1 ≤ start)
  rw [none, nil_append] at whole
  have same : slice.checkFrom start =
      slice.parts.entries.dropWhile fun part => part.1 ≤ start := by
    rw [Slice.checkFrom, none]
    rfl
  refine ⟨by rw [same, whole]; rfl, fun _ member => absurd member not_mem_nil, ?_⟩
  rw [same]
  exact fun part member => (mem_later_iff.mp member).2

theorem splitAt_of_takeWhile_ne_nil
    (some : (slice.parts.entries.takeWhile fun part => part.1 ≤ start) ≠ []) :
    ∃ before first later, SplitAt slice start before later ∧ first.1 ≤ start ∧
      slice.checkFrom start = first :: later := by
  have whole := takeWhile_append_dropWhile (l := slice.parts.entries)
    (p := fun part => part.1 ≤ start)
  have sorted := slice.parts.increasing
  obtain ⟨before, first, split⟩ : ∃ before first,
      (slice.parts.entries.takeWhile fun part => part.1 ≤ start) = before ++ [first] :=
    ⟨_, _, (dropLast_concat_getLast some).symm⟩
  have fromEq : slice.checkFrom start =
      first :: slice.parts.entries.dropWhile (fun part => part.1 ≤ start) := by
    rw [Slice.checkFrom, split, getLast?_concat]
    rfl
  have first_le : first.1 ≤ start := by
    have member : first ∈ slice.parts.entries.takeWhile fun part => part.1 ≤ start := by
      rw [split]
      exact mem_append_right _ mem_cons_self
    simpa using mem_takeWhile_imp member
  rw [split] at whole
  have entries : slice.parts.entries = before ++ slice.checkFrom start := by
    rw [fromEq, ← singleton_append, ← append_assoc, whole]
  refine ⟨before, first, _, ⟨entries, fun part member => ?_, ?_⟩, first_le, fromEq⟩
  · rw [entries, fromEq] at sorted
    exact lt_of_lt_of_le ((pairwise_append.mp sorted).2.2 part member first mem_cons_self) first_le
  · exact fun part member => (mem_later_iff.mp member).2

theorem exists_splitAt (slice : Slice) (start : Nat) :
    ∃ before later, SplitAt slice start before later := by
  by_cases none : (slice.parts.entries.takeWhile fun part => part.1 ≤ start) = []
  · exact ⟨_, _, splitAt_of_takeWhile_nil none⟩
  · obtain ⟨before, first, later, split, -⟩ := splitAt_of_takeWhile_ne_nil none
    exact ⟨before, later, split⟩

variable {before later : List (Nat × Bytes)}

theorem lt_of_checkFrom {part : Nat × Bytes} (isCheck : slice.checkFrom start = part :: later)
    (begins : part.1 ≤ start) : ∀ next ∈ later, start < next.1 := by
  by_cases none : (slice.parts.entries.takeWhile fun part => part.1 ≤ start) = []
  · have after := (splitAt_of_takeWhile_nil none).later_gt part (isCheck ▸ mem_cons_self)
    omega
  · obtain ⟨before, first, rest, split, -, same⟩ := splitAt_of_takeWhile_ne_nil none
    rw [isCheck] at same
    cases same
    exact split.later_gt

section

variable (split : SplitAt slice start before later)
include split

theorem SplitAt.sorted :
    (slice.checkFrom start).Pairwise fun first second => first.1 < second.1 := by
  have sorted := slice.parts.increasing
  rw [split.entries] at sorted
  exact (pairwise_append.mp sorted).2.1

theorem SplitAt.sub :
    ∀ part ∈ slice.checkFrom start, part ∈ slice.parts.entries := fun part member => by
  rw [split.entries]
  exact mem_append_right before member

theorem SplitAt.kept :
    ∀ part ∈ slice.parts.entries, start ≤ part.1 → part ∈ slice.checkFrom start :=
  fun part member after => by
    rw [split.entries] at member
    exact (mem_append.mp member).resolve_left fun isBefore =>
      not_lt.mpr after (split.before_lt part isBefore)

end

/-- No part is empty, and none reaches beyond the bounds of a slice. -/
structure PartsBounded (slice : Slice) : Prop where
  begins : ∀ part ∈ slice.parts.entries, part.1 < kOffsetsBound
  filled : ∀ part ∈ slice.parts.entries, 0 < part.2.length
  ends : ∀ part ∈ slice.parts.entries, part.1 + part.2.length < 2 ^ 32

theorem offsetsFromLoader_spec (bounded : PartsBounded slice) (below : start ≤ 2 * kOffsetsBound)
    (tillBelow : till < 2 ^ 32) :
    ∃ added, slice.offsetsFromLoader start till = .ok added ∧
      Asks slice.parts.entries start till kLoadFromRemoteMax added := by
  obtain ⟨before, later, split⟩ := exists_splitAt slice start
  have startEq : start % 2 ^ 32 = start := by
    unfold kOffsetsBound at below
    omega
  have rounds : roundsLeft kOffsetsBound start kLoadFromRemoteMax ≤ 136 := by
    unfold roundsLeft kOffsetsBound kLoadFromRemoteMax kPartSize
    omega
  have enough : roundsLeft kOffsetsBound start kLoadFromRemoteMax < 2 ^ 16 :=
    Nat.lt_of_le_of_lt rounds (by decide)
  have noWrap : start + (roundsLeft kOffsetsBound start kLoadFromRemoteMax + 1) * kPartSize <
      2 ^ 32 := by
    have span := Nat.mul_le_mul_right kPartSize (Nat.add_le_add_right rounds 1)
    unfold kOffsetsBound at below
    have bound : 2 * 2 ^ 24 + (136 + 1) * kPartSize < 2 ^ 32 := by decide
    omega
  have room : ([] : List Nat).length + kLoadFromRemoteMax = kLoadFromRemoteMax := Nat.zero_add _
  have below : ∀ part ∈ slice.checkFrom start, part.1 < kOffsetsBound :=
    fun part member => bounded.begins part (split.sub part member)
  obtain ⟨added, ends, asks⟩ : ∃ added, Slice.offsetsLoop (2 ^ 16) (slice.checkFrom start) start
      till [] = .ok ([] ++ added) ∧
      Asks (slice.checkFrom start) start till kLoadFromRemoteMax added :=
    offsetsLoop_spec split.sorted below room enough noWrap
  refine ⟨added, ?_, asks.of_ahead split.kept split.sub⟩
  rw [Slice.offsetsFromLoader, startEq, Nat.mod_eq_of_lt tillBelow, ends]
  rfl

/-- What `prepareFill` gives for a range that is not loaded. -/
structure Lacks (slice : Slice) (start till haveTill : Nat) (offsets : List Nat) : Prop where
  short : haveTill < till
  scan : ((∀ part ∈ slice.checkFrom start, start < part.1) ∧
      haveTill = start / kPartSize * kPartSize) ∨
    ∃ part later, slice.checkFrom start = part :: later ∧ part.1 ≤ start ∧
      haveTill = findNotLoadedStart ((part :: later).takeWhile fun part => part.1 < till)
        (start / kPartSize * kPartSize)
  asks : Asks slice.parts.entries haveTill
    (((till + kPartSize - 1) / kPartSize + kPreloadPartsAhead) * kPartSize) kLoadFromRemoteMax
    offsets

/-- The whole range is loaded, and the parts after it are asked for. -/
structure Loaded (slice : Slice) (start till : Nat) (prepared : PrepareFillResult) : Prop where
  parts : ∃ part later, slice.checkFrom start = part :: later ∧ part.1 ≤ start ∧
    (∀ next ∈ later, start < next.1) ∧
    prepared.parts = (part :: later).takeWhile fun part => part.1 < till
  reached : till ≤ findNotLoadedStart prepared.parts (start / kPartSize * kPartSize)
  asks : Asks slice.parts.entries ((till + kPartSize - 1) / kPartSize * kPartSize)
    (((till + kPartSize - 1) / kPartSize + kPreloadPartsAhead) * kPartSize) kLoadFromRemoteMax
    prepared.offsetsFromLoader

/-- Either all is loaded, or what is missing is named. -/
theorem prepareFill_spec (bounded : PartsBounded slice) (some : start < till)
    (below : till ≤ kOffsetsBound) :
    ∃ prepared, slice.prepareFill start till = .ok prepared ∧
      ((prepared.ready = true ∧ Loaded slice start till prepared) ∨
        (prepared.ready = false ∧ ∃ haveTill,
          Lacks slice start till haveTill prepared.offsetsFromLoader)) := by
  have tillBelow : ((till + kPartSize - 1) / kPartSize + kPreloadPartsAhead) * kPartSize <
      2 ^ 32 := by
    unfold kOffsetsBound at below
    unfold kPartSize kPreloadPartsAhead
    omega
  have round : start / kPartSize * kPartSize ≤ start := Nat.div_mul_le_self ..
  have rounded : (till + kPartSize - 1) / kPartSize * kPartSize ≤ 2 * kOffsetsBound := by
    have := Nat.div_mul_le_self (till + kPartSize - 1) kPartSize
    have : kPartSize ≤ kOffsetsBound := by decide
    omega
  unfold Slice.prepareFill
  by_cases none : (slice.parts.entries.takeWhile fun part => part.1 ≤ start) = []
  · rw [if_pos none]
    obtain ⟨offsets, isOffsets, asks⟩ := offsetsFromLoader_spec bounded
      (by omega : start / kPartSize * kPartSize ≤ 2 * kOffsetsBound) tillBelow
    rw [isOffsets]
    refine ⟨_, rfl, .inr ⟨rfl, _, by omega, .inl ⟨?_, rfl⟩, asks⟩⟩
    exact (splitAt_of_takeWhile_nil none).later_gt
  rw [if_neg none]
  obtain ⟨before, part, later, split, part_le, isCheck⟩ := splitAt_of_takeWhile_ne_nil none
  rw [isCheck]
  by_cases short : findNotLoadedStart ((part :: later).takeWhile fun part => part.1 < till)
      (start / kPartSize * kPartSize) < till
  · rw [if_pos short]
    obtain ⟨offsets, isOffsets, asks⟩ := offsetsFromLoader_spec bounded
      (by omega : findNotLoadedStart ((part :: later).takeWhile fun part => part.1 < till)
        (start / kPartSize * kPartSize) ≤ 2 * kOffsetsBound) tillBelow
    rw [isOffsets]
    exact ⟨_, rfl, .inr ⟨rfl, _, short, .inr ⟨part, later, isCheck, part_le, rfl⟩, asks⟩⟩
  · rw [if_neg short]
    obtain ⟨offsets, isOffsets, asks⟩ := offsetsFromLoader_spec bounded rounded tillBelow
    rw [isOffsets]
    exact ⟨_, rfl, .inl ⟨rfl, ⟨part, later, isCheck, part_le, split.later_gt, rfl⟩,
      not_lt.mp short, asks⟩⟩

theorem prepareFill_missing (bounded : PartsBounded slice) (some : start < till)
    (below : till ≤ kOffsetsBound) {prepared : PrepareFillResult}
    (isPrepared : slice.prepareFill start till = .ok prepared) {offset : Nat}
    (member : offset ∈ prepared.offsetsFromLoader) : slice.parts.contains offset = false := by
  obtain ⟨result, isResult, outcome⟩ := prepareFill_spec bounded some below
  rw [isPrepared] at isResult
  cases isResult
  obtain ⟨first, last, asks⟩ : ∃ first last, Asks slice.parts.entries first last
      kLoadFromRemoteMax prepared.offsetsFromLoader := by
    rcases outcome with ⟨-, loaded⟩ | ⟨-, haveTill, lacks⟩
    · exact ⟨_, _, loaded.asks⟩
    · exact ⟨_, _, lacks.asks⟩
  rw [FlatMap.contains_eq_false]
  exact fun part isPart same => asks.missing offset member part isPart same

end Slice

end TelegramDesktop.Streaming
