import TelegramDesktop.Descents
import TelegramDesktop.StreamingParts

/-!
# Offsets requested by a downloader

A downloader that shares its file with a streaming reader asks for parts by their
offsets. The definitions follow `Reader::enqueueDownloaderOffsets` and
`Reader::checkForDownloaderChange` of `media/streaming/media_streaming_reader.cpp`.
-/

namespace TelegramDesktop.Streaming

open List

/-- The part of a reader that serves a downloader. -/
structure Downloader where
  offsetsForDownloader : List Nat
  downloaderReadCache : FlatMap Nat (Option PartsMap)
  downloaderOffsetRequests : List Nat
  downloaderOffsetAcks : List Nat

namespace Downloader

/-- Looks at so many of the last offsets, and cuts the offsets at the first descent
there.  It expects that there are so many. -/
def checkForDownloaderChange (checkItemsCount : Nat) (reader : Downloader) :
    Option Downloader :=
  let offsets := reader.offsetsForDownloader
  if checkItemsCount ≤ offsets.length then
    let start := offsets.length - checkItemsCount
    match adjacentFind isDescent (offsets.drop start) with
    | none => some reader
    | some changed =>
      some { reader with
        offsetsForDownloader := offsets.drop (start + changed + 1)
        downloaderReadCache := ∅
        downloaderOffsetAcks := [] }
  else none

def enqueueDownloaderOffsets (reader : Downloader) : Option Downloader :=
  let offsets := reader.downloaderOffsetRequests
  let taken := { reader with downloaderOffsetRequests := [] }
  if offsets.isEmpty then some taken
  else if taken.offsetsForDownloader.isEmpty then
    -- The number of items to check is read from the container that was moved from.
    let movedFrom : List Nat := []
    checkForDownloaderChange movedFrom.length { taken with offsetsForDownloader := offsets }
  else
    checkForDownloaderChange (offsets.length + 1)
      { taken with offsetsForDownloader := taken.offsetsForDownloader ++ offsets }

variable {reader : Downloader}

theorem checkForDownloaderChange_zero (reader : Downloader) :
    reader.checkForDownloaderChange 0 = some reader := by
  unfold checkForDownloaderChange
  dsimp only
  rw [if_pos (Nat.zero_le _), Nat.sub_zero, drop_length]
  rfl

/-- Nothing is dropped where the checked items have no descent, else everything up to
the first one is. -/
theorem checkForDownloaderChange_spec (reader : Downloader) (before checked : List Nat)
    (offsets : reader.offsetsForDownloader = before ++ checked) :
    ∃ next, reader.checkForDownloaderChange checked.length = some next ∧
      (descents checked = 0 ∧ next = reader ∨
        descents checked = descents next.offsetsForDownloader + 1 ∧
          next.offsetsForDownloader <:+ checked ∧
          ∀ other, other <:+ checked → other.Pairwise (· < ·) →
            other.length ≤ next.offsetsForDownloader.length) := by
  have enough : checked.length ≤ reader.offsetsForDownloader.length := by
    rw [offsets, length_append]
    exact Nat.le_add_left _ _
  have start : reader.offsetsForDownloader.length - checked.length = before.length := by
    rw [offsets, length_append, Nat.add_sub_cancel]
  have tail : reader.offsetsForDownloader.drop before.length = checked := by
    rw [offsets, drop_left]
  unfold checkForDownloaderChange
  dsimp only
  rw [if_pos enough, start, tail]
  split
  next noDescent =>
    exact ⟨reader, rfl, .inl ⟨(adjacentFind_eq_none_iff checked).mp noDescent, rfl⟩⟩
  next changed found =>
    obtain ⟨count, longest⟩ := adjacentFind_spec found
    have dropped : reader.offsetsForDownloader.drop (before.length + changed + 1) =
        checked.drop (changed + 1) := by
      rw [add_assoc, ← drop_drop, tail]
    refine ⟨_, rfl, .inr ?_⟩
    rw [dropped]
    exact ⟨count, drop_suffix _ _, longest⟩

/-- Requests behind waiting offsets: the offsets stay strictly increasing, and as many
as possible stay, exactly where at most one descent has come. -/
theorem enqueue_behind_iff {before batch : List Nat} {last : Nat}
    (waiting : reader.offsetsForDownloader = before ++ [last])
    (requests : reader.downloaderOffsetRequests = batch)
    (increasing : (before ++ [last]).Pairwise (· < ·)) :
    (∃ next, reader.enqueueDownloaderOffsets = some next ∧
      IsLongestIncreasingSuffix next.offsetsForDownloader (before ++ last :: batch)) ↔
      descents (last :: batch) ≤ 1 := by
  cases batch with
  | nil =>
    have unchanged : reader.enqueueDownloaderOffsets =
        some { reader with downloaderOffsetRequests := [] } := by
      unfold enqueueDownloaderOffsets
      rw [requests]
      rfl
    rw [unchanged]
    refine ⟨fun _ => Nat.zero_le 1, fun _ => ⟨_, rfl, ?_⟩⟩
    rw [waiting]
    exact ⟨suffix_refl _, increasing, fun other isSuffix _ => isSuffix.length_le⟩
  | cons first rest =>
    have joined : before ++ last :: first :: rest = before ++ [last] ++ first :: rest :=
      append_cons ..
    obtain ⟨next, checked, effect⟩ := checkForDownloaderChange_spec { reader with
        offsetsForDownloader := before ++ [last] ++ first :: rest
        downloaderOffsetRequests := [] } before (last :: first :: rest) joined.symm
    have result : reader.enqueueDownloaderOffsets = some next := by
      unfold enqueueDownloaderOffsets
      rw [requests]
      rw [waiting, if_neg (by simp), if_neg (by simp)]
      exact checked
    rw [result]
    rcases effect with ⟨none, rfl⟩ | ⟨count, isSuffix, longest⟩
    · have whole : (before ++ last :: first :: rest).Pairwise (· < ·) := by
        rw [← descents_eq_zero_iff, descents_append _ increasing, none]
      refine ⟨fun _ => none.le.trans (Nat.zero_le 1), fun _ => ⟨_, rfl, ?_⟩⟩
      rw [← joined]
      exact ⟨suffix_refl _, whole, fun other isSuffix _ => isSuffix.length_le⟩
    · rw [count, Nat.succ_le_succ_iff, Nat.le_zero]
      constructor
      · rintro ⟨_, ⟨⟩, best⟩
        exact (descents_eq_zero_iff _).mpr best.increasing
      · intro none
        refine ⟨next, rfl, isSuffix.trans (suffix_append _ _),
          (descents_eq_zero_iff _).mp none, fun other isSuffix increasing => ?_⟩
        rcases suffix_or_suffix_of_suffix isSuffix
          (suffix_append before (last :: first :: rest)) with inside | reaches
        · exact longest other inside increasing
        · -- An end that reaches the waiting offsets would contain the descent.
          have noDescent := (descents_eq_zero_iff _).mpr (increasing.sublist reaches.sublist)
          omega

theorem enqueue_first_iff {batch : List Nat} (waiting : reader.offsetsForDownloader = [])
    (requests : reader.downloaderOffsetRequests = batch) :
    (∃ next, reader.enqueueDownloaderOffsets = some next ∧
      IsLongestIncreasingSuffix next.offsetsForDownloader batch) ↔ descents batch = 0 := by
  have result : ∃ next, reader.enqueueDownloaderOffsets = some next ∧
      next.offsetsForDownloader = batch := by
    unfold enqueueDownloaderOffsets
    rw [requests]
    cases batch with
    | nil => exact ⟨_, rfl, waiting⟩
    | cons first rest =>
      dsimp only
      rw [waiting, if_neg (by simp), if_pos isEmpty_nil, length_nil, checkForDownloaderChange_zero]
      exact ⟨_, rfl, rfl⟩
  obtain ⟨next, result, kept⟩ := result
  rw [result, descents_eq_zero_iff]
  constructor
  · rintro ⟨_, ⟨⟩, best⟩
    rw [← kept]
    exact best.increasing
  · intro increasing
    refine ⟨next, rfl, ?_⟩
    rw [kept]
    exact ⟨suffix_refl _, increasing, fun other isSuffix _ => isSuffix.length_le⟩

/-- The waiting offsets become the longest strictly increasing end of what has been
requested so far exactly where the sequence has at most one descent, and none if no
offset was waiting. -/
theorem enqueueDownloaderOffsets_iff (reader : Downloader)
    (increasing : reader.offsetsForDownloader.Pairwise (· < ·)) :
    (∃ next, reader.enqueueDownloaderOffsets = some next ∧
      IsLongestIncreasingSuffix next.offsetsForDownloader
        (reader.offsetsForDownloader ++ reader.downloaderOffsetRequests)) ↔
      descents (reader.offsetsForDownloader ++ reader.downloaderOffsetRequests) ≤
        if reader.offsetsForDownloader = [] then 0 else 1 := by
  rcases eq_nil_or_concat reader.offsetsForDownloader with none | ⟨before, last, waiting⟩
  · rw [if_pos none, Nat.le_zero, none, nil_append]
    exact enqueue_first_iff none rfl
  · rw [concat_eq_append] at waiting
    have some : reader.offsetsForDownloader ≠ [] := by
      rw [waiting]
      exact append_ne_nil_of_right_ne_nil _ (cons_ne_nil _ _)
    rw [if_neg some]
    rw [waiting] at increasing ⊢
    rw [← append_cons, descents_append _ increasing]
    exact enqueue_behind_iff waiting rfl increasing

theorem enqueueDownloaderOffsets_iff_waiting :
    (∃ next, enqueueDownloaderOffsets ⟨[131072], ∅, [262144, 0], []⟩ = some next ∧
      IsLongestIncreasingSuffix next.offsetsForDownloader [131072, 262144, 0]) :=
  (enqueueDownloaderOffsets_iff ⟨[131072], ∅, [262144, 0], []⟩
    (pairwise_singleton _ _)).mpr (by decide)

/-- A restart is missed where no offset was waiting. -/
theorem missed_restart :
    ¬ ∀ reader : Downloader, reader.offsetsForDownloader.Pairwise (· < ·) →
      ∃ next, reader.enqueueDownloaderOffsets = some next ∧
        IsLongestIncreasingSuffix next.offsetsForDownloader
          (reader.offsetsForDownloader ++ reader.downloaderOffsetRequests) := by
  intro always
  obtain ⟨next, result, best⟩ := always ⟨[], ∅, [131072, 0], []⟩ List.Pairwise.nil
  cases result
  exact absurd best.increasing (by decide)

end Downloader

end TelegramDesktop.Streaming
