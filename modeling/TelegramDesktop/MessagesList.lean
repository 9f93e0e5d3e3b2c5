import TelegramDesktop.FlatSet
import TelegramDesktop.SeparatedRanges
import Mathlib.Data.Prod.Lex
import Mathlib.Algebra.Order.Group.Int

/-!
# Dropping old messages

A `MessagesList` caches slices of a set of message positions.  `removeLessThan` drops what is
before a position.
-/

namespace TelegramDesktop

open List

/-- The date, the peer and the id of a message, which are compared in this order. -/
abbrev MessagePosition := Int ×ₗ Nat ×ₗ Int

def minMessagePosition : MessagePosition := toLex (0, toLex (0, 1))

/-- A range of positions, both ends included. -/
structure MessagesRange where
  «from» : MessagePosition
  till : MessagePosition

/-- The known messages of a range, in which none is missing. -/
structure MessagesList.Slice where
  messages : FlatSet MessagePosition
  range : MessagesRange

/-- Slices of messages, with the count of all of them where it is known. -/
structure MessagesList where
  count : Option Int := none
  slices : List MessagesList.Slice := []

namespace MessagesList

/-- The slice that holds the position loses what is before it. -/
def Slice.cut (messageId : MessagePosition) (slice : Slice) : Slice where
  messages := slice.messages.range (slice.messages.lowerBound messageId) slice.messages.size
  range := ⟨minMessagePosition, slice.range.till⟩

/-- The number of removed messages and the slices that are left. -/
def removeLoop (messageId : MessagePosition) : List Slice → Nat × List Slice
  | [] => (0, [])
  | slice :: slices =>
    if slice.range.till ≤ messageId then
      let rest := removeLoop messageId slices
      (slice.messages.size + rest.1, rest.2)
    else if slice.range.from ≤ messageId then
      (slice.messages.lowerBound messageId, slice.cut messageId :: slices)
    else (0, slice :: slices)

/-- What is before the position is removed. -/
def removeLessThan (list : MessagesList) (messageId : MessagePosition) : MessagesList :=
  let result := removeLoop messageId list.slices
  { slices := result.2
    count := if result.1 ≠ 0 then list.count.map (· - (result.1 : Int)) else list.count }

/-- The position lies in the range of the slice. -/
def Slice.Covers (slice : Slice) (position : MessagePosition) : Prop :=
  slice.range.from ≤ position ∧ position ≤ slice.range.till

/-- Slices whose ranges follow each other without touching. -/
abbrev SlicesSeparated (slices : List Slice) : Prop :=
  Separated (fun slice : Slice => slice.range.from) (fun slice : Slice => slice.range.till) slices

/-- The slices are sorted and disjoint, each holds the positions of the set in its range, and
a count that is present is that of the set. -/
structure Sound (held : Finset MessagePosition) (list : MessagesList) : Prop where
  separated : SlicesSeparated list.slices
  messages : ∀ slice ∈ list.slices, ∀ position,
    position ∈ slice.messages ↔ position ∈ held ∧ slice.Covers position
  count : ∀ known, list.count = some known → known = held.card

variable {messageId : MessagePosition} {held : Finset MessagePosition} {slices : List Slice}

theorem Slice.mem_cut {slice : Slice} {position : MessagePosition} :
    position ∈ (slice.cut messageId).messages ↔
      position ∈ slice.messages ∧ messageId ≤ position := by
  have kept : (slice.cut messageId).messages.keys =
      slice.messages.keys.filter (messageId ≤ ·) := by
    rw [← slice.messages.drop_lowerBound, Slice.cut, FlatSet.keys_range, FlatSet.size,
      take_length]
  rw [← FlatSet.mem_keys, kept, mem_filter, FlatSet.mem_keys, decide_eq_true_eq]

/-- What becomes of a slice that is not dropped. -/
def Slice.trim (messageId : MessagePosition) (slice : Slice) : Slice :=
  if slice.range.from ≤ messageId then slice.cut messageId else slice

theorem SlicesSeparated.from_lt {slice : Slice} (separated : SlicesSeparated (slice :: slices))
    (passed : messageId < slice.range.till) :
    ∀ other ∈ slices, messageId < other.range.from :=
  fun other member => passed.trans ((pairwise_cons.mp separated.apart).1 other member)

theorem removeLoop_slices (separated : SlicesSeparated slices) :
    (removeLoop messageId slices).2 =
      (slices.filter fun slice => messageId < slice.range.till).map (Slice.trim messageId) := by
  have untouched : ∀ slices : List Slice, SlicesSeparated slices →
      (∀ slice ∈ slices, messageId < slice.range.from) →
      (slices.filter fun slice => messageId < slice.range.till).map (Slice.trim messageId) =
        slices := by
    intro slices separated later
    rw [filter_eq_self.mpr fun slice member => decide_eq_true
      ((later slice member).trans_le (separated.ordered slice member)),
      map_congr_left fun slice member =>
        (if_neg (later slice member).not_ge : slice.trim messageId = slice), map_id']
  induction slices with
  | nil => rfl
  | cons slice slices ih =>
    have rest : SlicesSeparated slices := separated.sublist (sublist_cons_self slice slices)
    unfold removeLoop
    split
    next before =>
      rw [filter_cons_of_neg (by simpa using before)]
      exact ih rest
    next reaches =>
      have passed := not_le.mp reaches
      rw [filter_cons_of_pos (by simpa using passed), map_cons,
        untouched slices rest (separated.from_lt passed), Slice.trim]
      split <;> rfl

/-- Only messages before the position are removed, unless a slice ends at it with a message. -/
theorem removeLoop_removed (separated : SlicesSeparated slices)
    (within : ∀ slice ∈ slices, ∀ position ∈ slice.messages, slice.Covers position)
    (stays : ∀ slice ∈ slices, slice.range.till = messageId → messageId ∉ slice.messages) :
    (removeLoop messageId slices).1 =
      ((slices.flatMap (·.messages.keys)).filter (· < messageId)).length := by
  induction slices with
  | nil => rfl
  | cons slice slices ih =>
    obtain ⟨covers, within⟩ := forall_mem_cons.mp within
    obtain ⟨stays, others⟩ := forall_mem_cons.mp stays
    unfold removeLoop
    rw [flatMap_cons, filter_append, length_append]
    split
    next before =>
      have all : ∀ position ∈ slice.messages.keys, position < messageId := fun position member =>
        lt_of_le_of_ne ((covers position member).2.trans before) fun same =>
          stays (le_antisymm before (same ▸ (covers position member).2)) (same ▸ member)
      rw [filter_eq_self.mpr fun position member => decide_eq_true (all position member),
        ← ih (separated.sublist (sublist_cons_self slice slices)) within others]
      rfl
    next reaches =>
      have later : (slices.flatMap (·.messages.keys)).filter (· < messageId) = [] := by
        refine filter_eq_nil_iff.mpr fun position member => ?_
        obtain ⟨other, otherMem, member⟩ := mem_flatMap.mp member
        have after := separated.from_lt (not_le.mp reaches) other otherMem
        simpa using after.le.trans (within other otherMem position member).1
      rw [later, length_nil, Nat.add_zero]
      split
      · rw [← slice.messages.take_lowerBound,
          length_take_of_le (slice.messages.lowerBound_le_size messageId)]
      next starts =>
        rw [filter_eq_nil_iff.mpr fun position member => ?_, length_nil]
        simpa using (not_le.mp starts).le.trans (covers position member).1

section

variable {list : MessagesList} {position : MessagePosition} (sound : Sound held list)
include sound

theorem Sound.mem_trim {slice : Slice} (member : slice ∈ list.slices) :
    position ∈ (slice.trim messageId).messages ↔
      position ∈ slice.messages ∧ messageId ≤ position := by
  unfold Slice.trim
  split
  · exact Slice.mem_cut
  next starts =>
    refine (and_iff_left_of_imp fun inside => ?_).symm
    exact (not_le.mp starts).le.trans ((sound.messages slice member position).mp inside).2.1

theorem Sound.loaded_nodup : (list.slices.flatMap (·.messages.keys)).Nodup := by
  refine nodup_flatMap.mpr ⟨fun slice _ => slice.messages.increasing.imp ne_of_lt,
    sound.separated.apart.imp_of_mem fun {first second} firstMem secondMem apart => ?_⟩
  refine disjoint_left.mpr fun position inFirst inSecond => ?_
  have upper := ((sound.messages first firstMem position).mp inFirst).2.2
  have lower := ((sound.messages second secondMem position).mp inSecond).2.1
  exact absurd (upper.trans_lt apart) lower.not_gt

theorem Sound.count_iff
    (stays : ∀ slice ∈ list.slices, slice.range.till = messageId → messageId ∉ held) :
    (∀ known, (list.removeLessThan messageId).count = some known →
        known = (held.filter (messageId ≤ ·)).card) ↔
      (list.count.isSome → ∀ position ∈ held, position < messageId →
        ∃ slice ∈ list.slices, position ∈ slice.messages) := by
  have removed : (removeLoop messageId list.slices).1 = _ := removeLoop_removed sound.separated
    (fun slice member position inside => ((sound.messages slice member position).mp inside).2)
    fun slice member ends inside =>
      stays slice member ends ((sound.messages slice member messageId).mp inside).1
  rw [← toFinset_card_of_nodup (sound.loaded_nodup.filter _)] at removed
  generalize goneEq : ((list.slices.flatMap (·.messages.keys)).filter
    (· < messageId)).toFinset = gone at removed
  have mem_gone : ∀ position, position ∈ gone ↔
      (∃ slice ∈ list.slices, position ∈ slice.messages) ∧ position < messageId := by
    intro position
    rw [← goneEq, mem_toFinset, mem_filter, mem_flatMap, decide_eq_true_eq]
    rfl
  have fewer : gone ⊆ held.filter (¬messageId ≤ ·) := by
    intro position member
    obtain ⟨⟨slice, sliceMem, loaded⟩, before⟩ := (mem_gone position).mp member
    exact Finset.mem_filter.mpr
      ⟨((sound.messages slice sliceMem position).mp loaded).1, not_le.mpr before⟩
  have parts := Finset.card_filter_add_card_filter_not (s := held) (messageId ≤ ·)
  have count : (list.removeLessThan messageId).count =
      list.count.map (· - (gone.card : Int)) := by
    rw [← removed, removeLessThan]
    cases list.count <;> simp
    omega
  cases known : list.count with
  | none => simp [count, known]
  | some whole =>
    have wholeEq := sound.count whole known
    rw [count, known]
    simp only [Option.map_some, Option.some.injEq, forall_eq', Option.isSome_some, forall_const]
    constructor
    · intro counted position inside before
      have same := Finset.eq_of_subset_of_card_le fewer (by omega)
      refine ((mem_gone position).mp ?_).1
      rw [same]
      exact Finset.mem_filter.mpr ⟨inside, not_le.mpr before⟩
    · intro loaded
      have same : gone = held.filter (¬messageId ≤ ·) := by
        refine fewer.antisymm fun position member => ?_
        obtain ⟨inside, before⟩ := Finset.mem_filter.mp member
        exact (mem_gone position).mpr ⟨loaded position inside (not_le.mp before), not_le.mp before⟩
      rw [← same] at parts
      omega

end

/-- The list is sound for what is left, and no loaded message that stays is lost. -/
structure Drops (held : Finset MessagePosition) (list : MessagesList)
    (messageId : MessagePosition) : Prop where
  sound : Sound (held.filter (messageId ≤ ·)) (list.removeLessThan messageId)
  keeps : ∀ slice ∈ list.slices, ∀ position ∈ slice.messages, messageId ≤ position →
    ∃ left ∈ (list.removeLessThan messageId).slices, position ∈ left.messages

/-- No slice ends at the position of a message, all that a known count loses is loaded, and
the lowest position is below what is left of a slice. -/
structure Droppable (held : Finset MessagePosition) (list : MessagesList)
    (messageId : MessagePosition) : Prop where
  end_stays : ∀ slice ∈ list.slices, slice.range.till = messageId → messageId ∉ held
  loaded : list.count.isSome → ∀ position ∈ held, position < messageId →
    ∃ slice ∈ list.slices, position ∈ slice.messages
  above : ∀ slice ∈ list.slices, slice.range.from ≤ messageId → messageId < slice.range.till →
    minMessagePosition ≤ slice.range.till ∧
      ∀ position ∈ held, messageId ≤ position → position ≤ slice.range.till →
        minMessagePosition ≤ position

theorem mem_dropped {slice : Slice} (sound : Sound held list) :
    slice ∈ (list.removeLessThan messageId).slices ↔
      ∃ old ∈ list.slices, messageId < old.range.till ∧ old.trim messageId = slice := by
  rw [removeLessThan, removeLoop_slices sound.separated]
  simp [and_assoc]

theorem Droppable.sound (sound : Sound held list) (droppable : Droppable held list messageId) :
    Sound (held.filter (messageId ≤ ·)) (list.removeLessThan messageId) where
  separated := by
    rw [removeLessThan, removeLoop_slices sound.separated]
    refine ⟨forall_mem_map.mpr fun slice member => ?_, pairwise_map.mpr ?_⟩
    · obtain ⟨member, reaches⟩ := mem_filter.mp member
      unfold Slice.trim
      split
      next starts =>
        exact (droppable.above slice member starts (of_decide_eq_true reaches)).1
      · exact sound.separated.ordered slice member
    · refine (sound.separated.apart.sublist filter_sublist).imp_of_mem
        fun {first second} member _ apart => ?_
      have later := (of_decide_eq_true (mem_filter.mp member).2).trans apart
      have till : (first.trim messageId).range.till = first.range.till := by
        unfold Slice.trim
        split <;> rfl
      rw [till, show second.trim messageId = second from if_neg later.not_ge]
      exact apart
  messages slice member position := by
    obtain ⟨old, oldMem, reaches, rfl⟩ := (mem_dropped sound).mp member
    rw [sound.mem_trim oldMem, sound.messages old oldMem, Finset.mem_filter]
    unfold Slice.trim
    split
    next starts =>
      constructor
      · rintro ⟨⟨inside, covers⟩, least⟩
        exact ⟨⟨inside, least⟩, (droppable.above old oldMem starts reaches).2 position inside least
          covers.2, covers.2⟩
      · rintro ⟨⟨inside, least⟩, covers⟩
        exact ⟨⟨inside, starts.trans least, covers.2⟩, least⟩
    · exact and_right_comm
  count := (sound.count_iff droppable.end_stays).mpr droppable.loaded

/-- Removing the messages below a position keeps what a list knows of the others exactly if
no slice ends with a message there, the messages that go are loaded where the count is known,
and what stays of a slice is above the first position of all. -/
theorem drops_iff (sound : Sound held list) :
    Drops held list messageId ↔ Droppable held list messageId := by
  constructor
  · rintro ⟨after, keeps⟩
    have stays : ∀ slice ∈ list.slices, slice.range.till = messageId → messageId ∉ held := by
      intro slice member ends inside
      have covers : slice.Covers messageId := ⟨ends ▸ sound.separated.ordered slice member, ends.ge⟩
      obtain ⟨left, leftMem, loaded⟩ := keeps slice member messageId
        ((sound.messages slice member messageId).mpr ⟨inside, covers⟩) le_rfl
      obtain ⟨old, oldMem, reaches, rfl⟩ := (mem_dropped sound).mp leftMem
      have oldCovers := ((sound.messages old oldMem messageId).mp
        ((sound.mem_trim oldMem).mp loaded).1).2
      have same := sound.separated.eq_of_overlap member oldMem
        (covers.1.trans oldCovers.2) (oldCovers.1.trans covers.2)
      exact (same ▸ reaches).ne' ends
    refine ⟨stays, (sound.count_iff stays).mp after.count, fun slice member starts reaches => ?_⟩
    have left := (mem_dropped sound).mpr ⟨slice, member, reaches, if_pos starts⟩
    refine ⟨after.separated.ordered _ left, fun position inside least most => ?_⟩
    have loaded := (sound.messages slice member position).mpr ⟨inside, starts.trans least, most⟩
    exact ((after.messages _ left position).mp (Slice.mem_cut.mpr ⟨loaded, least⟩)).2.1
  · intro droppable
    refine ⟨droppable.sound sound, fun slice member position loaded least => ?_⟩
    have inside := (sound.messages slice member position).mp loaded
    have reaches : messageId < slice.range.till := by
      refine lt_of_le_of_ne (least.trans inside.2.2) fun ends => ?_
      have same : position = messageId := le_antisymm (ends ▸ inside.2.2) least
      exact droppable.end_stays slice member ends.symm (same ▸ inside.1)
    exact ⟨_, (mem_dropped sound).mpr ⟨slice, member, reaches, rfl⟩,
      (sound.mem_trim member).mpr ⟨loaded, least⟩⟩

/-- The first message of a peer at a date -/
def positionAt (date : Int) : MessagePosition := toLex (date, toLex (0, 1))

theorem positionAt_le {date other : Int} : positionAt date ≤ positionAt other ↔ date ≤ other := by
  rw [positionAt, positionAt, Prod.Lex.toLex_le_toLex]
  simp [le_iff_lt_or_eq]

theorem positionAt_lt {date other : Int} : positionAt date < positionAt other ↔ date < other := by
  rw [← not_le, ← not_le, positionAt_le]

/-- Three messages in two slices; the second one reaches beyond its message on both sides. -/
def twoSlices : MessagesList where
  count := some 3
  slices :=
    [⟨⟨[positionAt 1, positionAt 2], by simp [positionAt_lt]⟩, ⟨positionAt 1, positionAt 2⟩⟩,
      ⟨⟨[positionAt 5], pairwise_singleton _ _⟩, ⟨positionAt 4, positionAt 6⟩⟩]

theorem twoSlices_sound : Sound {positionAt 1, positionAt 2, positionAt 5} twoSlices where
  separated := by
    constructor
    · simp [twoSlices, positionAt_le]
    · simp [twoSlices, positionAt_lt]
  messages slice member position := by
    simp only [twoSlices, mem_cons, not_mem_nil, or_false] at member
    rw [← FlatSet.mem_keys]
    simp only [Finset.mem_insert, Finset.mem_singleton]
    rcases member with rfl | rfl <;> simp only [mem_cons, not_mem_nil, or_false] <;> constructor
    · rintro (rfl | rfl) <;> simp [Slice.Covers, positionAt_le]
    · rintro ⟨rfl | rfl | rfl, -, before⟩ <;> simp_all [positionAt_le]
    · rintro rfl
      simp [Slice.Covers, positionAt_le]
    · rintro ⟨rfl | rfl | rfl, after, -⟩ <;> simp_all [positionAt_le]
  count known isKnown := by
    cases isKnown
    decide

theorem drops_iff_one : Drops {positionAt 1, positionAt 2, positionAt 5} twoSlices
    (positionAt 5) ↔
      Droppable {positionAt 1, positionAt 2, positionAt 5} twoSlices (positionAt 5) :=
  drops_iff twoSlices_sound

/-- The slice that ends at its only message. -/
def oneMessage (position : MessagePosition) : MessagesList where
  slices := [⟨⟨[position], pairwise_singleton _ _⟩, ⟨position, position⟩⟩]

theorem oneMessage_sound (position : MessagePosition) : Sound {position} (oneMessage position) where
  separated := .singleton le_rfl
  messages slice member other := by
    obtain rfl := mem_singleton.mp member
    rw [← FlatSet.mem_keys, mem_singleton, Finset.mem_singleton]
    exact (and_iff_left_of_imp fun same => ⟨same.ge, same.le⟩).symm
  count known none := by cases none

/-- A slice that ends at the position is dropped with the message there. -/
theorem not_drops_end : ¬∀ held list messageId, Sound held list → Drops held list messageId := by
  intro drops
  obtain ⟨left, member, -⟩ := (drops _ _ minMessagePosition (oneMessage_sound _)).keeps _
    mem_cons_self minMessagePosition mem_cons_self le_rfl
  simp [removeLessThan, removeLoop, oneMessage] at member

end MessagesList

end TelegramDesktop
