import TelegramDesktop.SparseIdsListSoundness

/-!
# Snapshots of a sound list

A snapshot answers from the slice that covers the asked id.
-/

namespace TelegramDesktop.SparseIdsList

open List FlatSet

/-- `result` shows a block of `held` around the asked id: `before` and `after`
are the ids left out on either side. -/
structure WindowAround (held : Finset Int) (query : SparseIdsListQuery)
    (result : SparseIdsListResult) (before after : List Int) : Prop where
  listing : IsListing held (before ++ result.messageIds.keys ++ after)
  before_lt : ∀ id ∈ before, id < query.aroundId
  le_after : ∀ id ∈ after, query.aroundId ≤ id
  shownBefore :
    (result.messageIds.keys.filter (· < query.aroundId)).length ≤ query.limitBefore
  shownAfter :
    (result.messageIds.keys.filter (query.aroundId ≤ ·)).length ≤ query.limitAfter + 1
  count : ∀ known, result.count = some known → known = held.card
  skippedBefore : ∀ known, result.skippedBefore = some known → known = before.length
  skippedAfter : ∀ known, result.skippedAfter = some known → known = after.length

theorem SlicesSound.isListing {held : Finset Int} {slices : List Slice}
    (sound : SlicesSound held slices) {slice : Slice} (member : slice ∈ slices) :
    IsListing (held.filter fun id => slice.range.from ≤ id ∧ id ≤ slice.range.till)
      slice.messages.keys where
  increasing := slice.messages.increasing
  mem_iff id := (sound slice member id).trans Finset.mem_filter.symm

section Shown

variable (messages : FlatSet Int) (aroundId : Int) (before equalOrAfter : Nat)

section

variable (reached : before ≤ messages.lowerBound aroundId)
include reached

/-- Around the lower bound, a shown part splits into the ids below the asked
id and those from it on. -/
theorem range_keys_split :
    (messages.range (messages.lowerBound aroundId - before)
        (messages.lowerBound aroundId + equalOrAfter)).keys =
      (messages.keys.take (messages.lowerBound aroundId)).drop
          (messages.lowerBound aroundId - before) ++
        (messages.keys.drop (messages.lowerBound aroundId)).take equalOrAfter := by
  have bounded : messages.lowerBound aroundId ≤ messages.keys.length :=
    messages.lowerBound_le_size aroundId
  rw [keys_range, take_add, drop_append_of_le_length]
  rw [length_take, min_eq_left bounded]
  omega

theorem shown_below :
    (((messages.range (messages.lowerBound aroundId - before)
        (messages.lowerBound aroundId + equalOrAfter)).keys).filter
      (· < aroundId)).length ≤ before := by
  have noneAfter : ((messages.keys.drop (messages.lowerBound aroundId)).take
      equalOrAfter).filter (· < aroundId) = [] := by
    rw [filter_eq_nil_iff]
    intro id member
    have fromHere := le_of_mem_drop_lowerBound (mem_of_mem_take member)
    simpa using fromHere
  rw [range_keys_split messages aroundId before equalOrAfter reached,
    filter_append, noneAfter, append_nil]
  refine (length_filter_le _ _).trans ?_
  rw [length_drop, length_take]
  omega

theorem shown_from :
    (((messages.range (messages.lowerBound aroundId - before)
        (messages.lowerBound aroundId + equalOrAfter)).keys).filter
      (aroundId ≤ ·)).length ≤ equalOrAfter := by
  have noneBefore : ((messages.keys.take (messages.lowerBound aroundId)).drop
      (messages.lowerBound aroundId - before)).filter (aroundId ≤ ·) = [] := by
    rw [filter_eq_nil_iff]
    intro id member
    have below := lt_of_mem_take_lowerBound (mem_of_mem_drop member)
    simpa using below
  rw [range_keys_split messages aroundId before equalOrAfter reached,
    filter_append, noneBefore, nil_append]
  exact (length_filter_le _ _).trans (length_take_le _ _)

end

end Shown

section Snapshot

variable {server : ServerIds} {list : SparseIdsList}

theorem ServerIds.filter_lt_zero (server : ServerIds) {listing : List Int}
    (lists : IsListing server.held listing) : listing.filter (· < (0 : Int)) = [] := by
  rw [filter_eq_nil_iff]
  intro id member
  have positive := (server.held_server id ((lists.mem_iff id).mp member)).1
  simpa using positive.le

theorem ServerIds.filter_max_lt (server : ServerIds) {listing : List Int}
    (lists : IsListing server.held listing) :
    listing.filter (serverMaxMsgId < ·) = [] := by
  rw [filter_eq_nil_iff]
  intro id member
  have bounded := (server.held_server id ((lists.mem_iff id).mp member)).2
  simpa using bounded.le

/-- The ids of a slice within the limits. -/
def shownIds (query : SparseIdsListQuery) (slice : Slice) : FlatSet Int :=
  let position := slice.messages.lowerBound query.aroundId
  slice.messages.range (position - min position query.limitBefore)
    (position + min (slice.messages.size - position) (query.limitAfter + 1))

@[simp] theorem queryFromSlice_messageIds (query : SparseIdsListQuery) (slice : Slice) :
    (list.queryFromSlice query slice).messageIds = shownIds query slice := by
  unfold queryFromSlice
  dsimp only
  split <;> rfl

@[simp] theorem queryFromSlice_count (query : SparseIdsListQuery) (slice : Slice) :
    (list.queryFromSlice query slice).count = list.count := by
  unfold queryFromSlice
  dsimp only
  split
  · next countEq _ _ => exact countEq.symm
  · next countEq _ _ => exact countEq.symm
  · rfl

/-- The skip numbers are right when those counted in the slice are and a known
count is the sum of what is skipped and what is shown. -/
theorem queryFromSlice_skipped {query : SparseIdsListQuery} {slice : Slice}
    {before after : Int}
    (counted : ∀ known, list.count = some known →
      known = before + (shownIds query slice).size + after)
    (fromStart : slice.range.from = 0 →
      before = (slice.messages.lowerBound query.aroundId : Int) -
        (min (slice.messages.lowerBound query.aroundId) query.limitBefore : Nat))
    (toEnd : slice.range.till = serverMaxMsgId →
      after = ((slice.messages.size - slice.messages.lowerBound query.aroundId : Nat) : Int) -
        (min (slice.messages.size - slice.messages.lowerBound query.aroundId)
          (query.limitAfter + 1) : Nat)) :
    (∀ known, (list.queryFromSlice query slice).skippedBefore = some known →
      known = before) ∧
    (∀ known, (list.queryFromSlice query slice).skippedAfter = some known →
      known = after) := by
  unfold queryFromSlice
  by_cases starts : slice.range.from = 0
  · by_cases ends : slice.range.till = serverMaxMsgId
    · simp only [if_pos starts, if_pos ends, fromStart starts, toEnd ends]
      simp
    · simp only [if_pos starts, if_neg ends]
      cases countEq : list.count with
      | none => simp [fromStart starts]
      | some known =>
        have total := counted known countEq
        simp only [shownIds] at total
        constructor <;> simp <;> omega
  · by_cases ends : slice.range.till = serverMaxMsgId
    · simp only [if_neg starts, if_pos ends]
      cases countEq : list.count with
      | none => simp [toEnd ends]
      | some known =>
        have total := counted known countEq
        simp only [shownIds] at total
        constructor <;> simp <;> omega
    · simp [if_neg starts, if_neg ends]

theorem queryFromSlice_window (sound : Sound server list) (query : SparseIdsListQuery)
    {slice : Slice} (member : slice ∈ list.slices) (covers : slice.range.Covers query.aroundId) :
    ∃ before after,
      WindowAround server.held query (list.queryFromSlice query slice) before after := by
  obtain ⟨listing, lists⟩ : ∃ listing, IsListing server.held listing :=
    ⟨_, IsListing.sort server.held⟩
  let position := slice.messages.lowerBound query.aroundId
  let shownBefore := min position query.limitBefore
  let shownAfter := min (slice.messages.size - position) (query.limitAfter + 1)
  let ids := slice.messages.range (position - shownBefore) (position + shownAfter)
  have reached : shownBefore ≤ position := min_le_left _ _
  have bounded : position ≤ slice.messages.size := slice.messages.lowerBound_le_size _
  have keysEq : slice.messages.keys = slice.messages.keys.take (position - shownBefore) ++
      ids.keys ++ slice.messages.keys.drop (position + shownAfter) :=
    slice.messages.keys_eq_take_append_range (by omega)
  let before := listing.filter (· < slice.range.from) ++
    slice.messages.keys.take (position - shownBefore)
  let after := slice.messages.keys.drop (position + shownAfter) ++
    listing.filter (slice.range.till < ·)
  have listingEq : before ++ ids.keys ++ after = listing := by
    have blocks := lists.eq_append_of_between (covers.1.trans covers.2)
      (sound.messages.isListing member)
    conv_rhs => rw [blocks, keysEq]
    simp only [before, after, append_assoc]
  have total : (before.length + ids.size + after.length : Int) = server.held.card := by
    have lengths := congrArg length listingEq
    rw [length_append, length_append, lists.length_eq_card] at lengths
    exact_mod_cast lengths
  have countedBefore : slice.range.from = 0 → before.length = position - shownBefore := by
    intro starts
    simp only [before, starts, server.filter_lt_zero lists, nil_append, length_take]
    change min (position - shownBefore) slice.messages.size = _
    omega
  have countedAfter : slice.range.till = serverMaxMsgId →
      after.length = slice.messages.size - position - shownAfter := by
    intro ends
    simp only [after, ends, server.filter_max_lt lists, append_nil, length_drop]
    change slice.messages.size - (position + shownAfter) = _
    omega
  have skipped :
      (∀ known, (list.queryFromSlice query slice).skippedBefore = some known →
        known = before.length) ∧
      (∀ known, (list.queryFromSlice query slice).skippedAfter = some known →
        known = after.length) := by
    refine queryFromSlice_skipped ?_ ?_ ?_
    · exact fun known countEq => (sound.count known countEq).trans total.symm
    · intro starts
      omega
    · intro ends
      omega
  refine ⟨before, after, ?_, ?_, ?_, ?_, ?_, ?_, skipped.1, skipped.2⟩
  · rw [queryFromSlice_messageIds]
    exact listingEq ▸ lists
  · intro id idMem
    rcases mem_append.mp idMem with outside | inside
    · have below : id < slice.range.from := by simpa using (mem_filter.mp outside).2
      exact lt_of_lt_of_le below covers.1
    · exact lt_of_mem_take_lowerBound (take_subset_take_left _ (Nat.sub_le _ _) inside)
  · intro id idMem
    rcases mem_append.mp idMem with inside | outside
    · rw [← drop_drop] at inside
      exact le_of_mem_drop_lowerBound (mem_of_mem_drop inside)
    · have above : slice.range.till < id := by simpa using (mem_filter.mp outside).2
      exact covers.2.trans above.le
  · rw [queryFromSlice_messageIds]
    exact (shown_below _ _ _ _ reached).trans (min_le_right _ _)
  · rw [queryFromSlice_messageIds]
    exact (shown_from _ _ _ _ reached).trans (min_le_right _ _)
  · intro known countEq
    exact sound.count known (queryFromSlice_count query slice ▸ countEq)

theorem countOnly_window (sound : Sound server list) (query : SparseIdsListQuery) :
    ∃ before after, WindowAround server.held query { count := list.count } before after := by
  obtain ⟨listing, lists⟩ : ∃ listing, IsListing server.held listing :=
    ⟨_, IsListing.sort server.held⟩
  refine ⟨listing.filter (· < query.aroundId), listing.filter (query.aroundId ≤ ·),
    ?_, ?_, ?_, ?_, ?_, ?_, ?_, ?_⟩
  · change IsListing _ (_ ++ [] ++ _)
    rw [append_nil, ← lists.eq_append_at]
    exact lists
  · intro id idMem
    simpa using (mem_filter.mp idMem).2
  · intro id idMem
    simpa using (mem_filter.mp idMem).2
  · exact Nat.zero_le _
  · exact Nat.zero_le _
  · exact sound.count
  · exact fun known absent => absurd absent (by simp)
  · exact fun known absent => absurd absent (by simp)

theorem snapshot_cases (separated : SlicesSeparated list.slices) (query : SparseIdsListQuery) :
    (∃ slice ∈ list.slices, slice.range.Covers query.aroundId ∧
      list.snapshot query = list.queryFromSlice query slice) ∨
    list.snapshot query = { count := list.count } := by
  unfold snapshot
  cases found : list.sliceAround query.aroundId with
  | some slice =>
    obtain ⟨_, member, covers⟩ := (sliceAround_eq_some separated).mp found
    exact .inl ⟨slice, member, covers, rfl⟩
  | none =>
    cases list.count <;> exact .inr rfl

/-- Every snapshot of a sound list is a window of the server's ids with exact
numbers. -/
theorem snapshot_window (sound : Sound server list) (query : SparseIdsListQuery) :
    ∃ before after,
      WindowAround server.held query (list.snapshot query) before after := by
  rcases snapshot_cases sound.normal.separated query with
    ⟨slice, member, covers, answered⟩ | answered
  · rw [answered]
    exact queryFromSlice_window sound query member covers
  · rw [answered]
    exact countOnly_window sound query

end Snapshot

/-- Whatever truthful calls were made, every slice holds exactly the server's
ids of its range, a known count is their number, and every snapshot shows a
block of them with exact numbers of what it leaves out. -/
theorem truthfullyReachable_exact {server : ServerIds} {list : SparseIdsList}
    (reachable : TruthfullyReachable (server, list)) :
    (∀ slice ∈ list.slices, ∀ id, id ∈ slice.messages ↔
      id ∈ server.held ∧ slice.range.from ≤ id ∧ id ≤ slice.range.till) ∧
    (∀ known, list.count = some known → known = server.held.card) ∧
    ∀ query, ∃ before after,
      WindowAround server.held query (list.snapshot query) before after := by
  have sound := reachable.sound
  exact ⟨sound.messages, sound.count, snapshot_window sound⟩

/-- A server with one id, all of it loaded, where a second one arrives. -/
def loadedOne : ServerIds := ⟨{3}, [3, 0], by decide⟩

def arrivedTwo : ServerIds := ⟨{3, 5}, [5, 3, 0], by decide⟩

theorem loadedOne_step : ServerStep ⟨{3}, [], by decide⟩
    (.addSlice [3] fullMsgRange (some 1)) loadedOne := by
  refine .addSlice fullMsgRange_ordered ?_ (by simp) rfl (by decide)
  intro id
  simp only [mem_singleton, Finset.mem_singleton, MsgRange.Covers, fullMsgRange, serverMaxMsgId]
  omega

theorem arrivedTwo_step : ServerStep loadedOne (.addNew 5) arrivedTwo :=
  .addNew (by decide) (by decide) (by decide) (by decide) rfl

theorem truthfullyReachable_exact_loaded_new :
    ∃ before after, WindowAround {3, 5} ⟨3, 0, 0⟩
      (((({} : SparseIdsList).apply (.addSlice [3] fullMsgRange (some 1))).apply
        (.addNew 5)).snapshot ⟨3, 0, 0⟩) before after := by
  have run := (Relation.ReflTransGen.single (loadedOne_step.truthfulStep {})).tail
    (arrivedTwo_step.truthfulStep _)
  exact (truthfullyReachable_exact ⟨⟨{3}, [], by decide⟩, rfl, run⟩).2.2 ⟨3, 0, 0⟩

end TelegramDesktop.SparseIdsList
