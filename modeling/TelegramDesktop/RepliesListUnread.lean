import TelegramDesktop.RepliesList

/-!
# The unread count of a thread

The count that is computed from the loaded ids, or from them and the count before, is the
number of incoming messages of the thread after the position that was read.
-/

namespace TelegramDesktop

open List
open Replies (Thread)

namespace RepliesList

/-- The incoming messages after a position. -/
def incomingAfter (messages : Finset Int) (out : Int → Bool) (position : Int) : Finset Int :=
  messages.filter fun id => position < id ∧ out id = false

/-- The loaded ids are those of the thread between their ends.  There is no end where no ids
are skipped. -/
structure ShowsThread (replies : RepliesList) (messages : Finset Int) : Prop where
  descending : Descending replies.list
  listed : ∀ id ∈ replies.list, id ∈ messages
  between : ∀ id ∈ messages,
    replies.skippedBefore = some 0 ∨ (∃ back, replies.list.getLast? = some back ∧ back ≤ id) →
      replies.skippedAfter = some 0 ∨ (∃ front, replies.list.head? = some front ∧ id ≤ front) →
        id ∈ replies.list

variable {replies : RepliesList} {messages : Finset Int} {out : Int → Bool}

theorem countIncoming_eq_card {ids : List Int} (distinct : ids.Nodup) {counted : Finset Int}
    (same : ∀ id, id ∈ counted ↔ id ∈ ids ∧ out id = false) :
    countIncoming out ids = counted.card := by
  have filtered : counted = (ids.filter fun id => !out id).toFinset := by
    ext id
    rw [same, mem_toFinset, mem_filter, Bool.not_eq_true']
  rw [filtered, toFinset_card_of_nodup (distinct.filter _), countIncoming, countP_eq_length_filter]

/-- The ids above a position count the incoming messages after it if all of them are loaded. -/
theorem countIncoming_above {position : Int} (shows : replies.ShowsThread messages)
    (loaded : ∀ id ∈ messages, position < id → id ∈ replies.list) :
    countIncoming out (replies.list.take (lowerBoundGreater replies.list position)) =
      (incomingAfter messages out position).card := by
  rw [shows.descending.take_lowerBound]
  apply countIncoming_eq_card (shows.descending.nodup.filter _)
  intro id
  rw [incomingAfter, Finset.mem_filter, mem_filter, decide_eq_true_eq]
  constructor
  · rintro ⟨member, above, incoming⟩
    exact ⟨⟨loaded id member above, above⟩, incoming⟩
  · rintro ⟨⟨member, above⟩, incoming⟩
    exact ⟨shows.listed id member, above, incoming⟩

theorem countIncoming_between (out : Int → Bool) {was now : Int} (forward : was ≤ now)
    (shows : replies.ShowsThread messages)
    (loaded : ∀ id ∈ messages, was < id → id ≤ now → id ∈ replies.list) :
    countIncoming out
        ((replies.list.drop (lowerBoundGreater replies.list now)).take
          (lowerBoundGreater (replies.list.drop (lowerBoundGreater replies.list now)) was)) +
      (incomingAfter messages out now).card = (incomingAfter messages out was).card := by
  rw [shows.descending.drop_lowerBound]
  have rest : Descending (replies.list.filter (· ≤ now)) := shows.descending.filter _
  rw [rest.take_lowerBound]
  have read : countIncoming out ((replies.list.filter (· ≤ now)).filter (was < ·)) =
      ((incomingAfter messages out was).filter (· ≤ now)).card := by
    apply countIncoming_eq_card (rest.nodup.filter _)
    intro id
    rw [incomingAfter, Finset.mem_filter, Finset.mem_filter, mem_filter, mem_filter,
      decide_eq_true_eq, decide_eq_true_eq]
    constructor
    · rintro ⟨⟨member, above, incoming⟩, below⟩
      exact ⟨⟨⟨loaded id member above below, below⟩, above⟩, incoming⟩
    · rintro ⟨⟨⟨member, below⟩, above⟩, incoming⟩
      exact ⟨⟨shows.listed id member, above, incoming⟩, below⟩
  have left : (incomingAfter messages out was).filter (fun id => ¬id ≤ now) =
      incomingAfter messages out now := by
    ext id
    rw [incomingAfter, incomingAfter, Finset.mem_filter, Finset.mem_filter, Finset.mem_filter,
      not_le]
    constructor
    · rintro ⟨⟨member, -, incoming⟩, above⟩
      exact ⟨member, above, incoming⟩
    · rintro ⟨member, above, incoming⟩
      exact ⟨⟨member, lt_of_le_of_lt forward above, incoming⟩, above⟩
  rw [read, ← left]
  exact_mod_cast Finset.card_filter_add_card_filter_not (s := incomingAfter messages out was) _

namespace ShowsThread

variable (shows : replies.ShowsThread messages)

include shows

theorem mem_of_above {back id : Int} (frontLoaded : replies.skippedAfter = some 0)
    (isBack : replies.list.getLast? = some back) (member : id ∈ messages) (above : back < id) :
    id ∈ replies.list :=
  shows.between id member (.inr ⟨back, isBack, above.le⟩) (.inl frontLoaded)

theorem incomingAfter_front {front position : Int} (frontLoaded : replies.skippedAfter = some 0)
    (isFront : replies.list.head? = some front) (below : front ≤ position) :
    incomingAfter messages out position = ∅ := by
  rw [incomingAfter, Finset.filter_eq_empty_iff]
  rintro id member ⟨above, -⟩
  have nonempty : replies.list ≠ [] := by
    rintro empty
    rw [empty] at isFront
    cases isFront
  have isBack := getLast?_eq_some_getLast nonempty
  have ordered := shows.descending.le_head isFront (mem_of_getLast? isBack)
  have loaded := shows.mem_of_above frontLoaded isBack member (by omega)
  have bounded := shows.descending.le_head isFront loaded
  omega

theorem countIncoming_all {position : Int} (backLoaded : replies.skippedBefore = some 0)
    (frontLoaded : replies.skippedAfter = some 0) (above : ∀ id ∈ replies.list, position < id) :
    countIncoming out replies.list = (incomingAfter messages out position).card := by
  apply countIncoming_eq_card shows.descending.nodup
  intro id
  rw [incomingAfter, Finset.mem_filter]
  constructor
  · rintro ⟨member, -, incoming⟩
    exact ⟨shows.between id member (.inl backLoaded) (.inl frontLoaded), incoming⟩
  · rintro ⟨member, incoming⟩
    exact ⟨shows.listed id member, above id member, incoming⟩

/-- The ids between two positions are loaded if both are at loaded ids or nothing is skipped
on their side. -/
theorem mem_of_between {was now id : Int}
    (newer : replies.skippedAfter = some 0 ∨
      ∃ front, replies.list.head? = some front ∧ now ≤ front)
    (older : replies.skippedBefore = some 0 ∨
      ∃ back, replies.list.getLast? = some back ∧ back ≤ was)
    (member : id ∈ messages) (above : was < id) (below : id ≤ now) : id ∈ replies.list := by
  apply shows.between id member
  · rcases older with loaded | ⟨back, isBack, atMost⟩
    · exact .inl loaded
    · exact .inr ⟨back, isBack, by omega⟩
  · rcases newer with loaded | ⟨front, isFront, atLeast⟩
    · exact .inl loaded
    · exact .inr ⟨front, isFront, by omega⟩

end ShowsThread

/-- The count, whenever one is given, is that of the incoming messages of the thread that are
newer than what was read. -/
theorem fullUnreadCountAfter_exact (replies : RepliesList) (thread : Thread)
    (messages : Finset Int) (out : Int → Bool)
    (aboveRoot : ∀ id ∈ messages, thread.rootId < id) (shows : replies.ShowsThread messages)
    (readTillId wasReadTillId : Int) (forward : wasReadTillId ≤ readTillId)
    (wasUnreadCountAfter : Option Int)
    (wasExact : ∀ count, wasUnreadCountAfter = some count →
      count = (incomingAfter messages out (max wasReadTillId thread.rootId)).card) :
    ∀ count, replies.fullUnreadCountAfter thread out readTillId wasReadTillId
        wasUnreadCountAfter = some count →
      count = (incomingAfter messages out (max readTillId thread.rootId)).card := by
  intro count given
  have ordered : max wasReadTillId thread.rootId ≤ max readTillId thread.rootId :=
    max_le_max_right _ forward
  unfold fullUnreadCountAfter at given
  dsimp only at given
  generalize max readTillId thread.rootId = now at *
  generalize max wasReadTillId thread.rootId = was at *
  split at given
  next all =>
    -- everything is loaded, and unread unless there is nothing
    simp only [Bool.and_eq_true, Bool.or_eq_true, decide_eq_true_eq, List.isEmpty_iff] at all
    obtain ⟨unread, backLoaded, frontLoaded⟩ := all
    cases given
    apply shows.countIncoming_all backLoaded frontLoaded
    intro id member
    rcases unread with atRoot | ⟨-, empty⟩
    · rw [atRoot]
      exact aboveRoot id (shows.listed id member)
    · rw [empty] at member
      cases member
  · split at given
    next tillEnd =>
      -- read till the end
      simp only [Bool.and_eq_true, decide_eq_true_eq, Option.any_eq_true] at tillEnd
      obtain ⟨frontLoaded, front, isFront, below⟩ := tillEnd
      cases given
      rw [shows.incomingAfter_front frontLoaded isFront below]
      rfl
    · split at given
      next same =>
        rw [← same]
        exact wasExact count given
      · split at given
        next newer =>
          -- all newer ids are loaded
          simp only [Bool.and_eq_true, decide_eq_true_eq, Option.any_eq_true] at newer
          obtain ⟨frontLoaded, back, isBack, below⟩ := newer
          cases given
          apply countIncoming_above shows
          intro id member above
          exact shows.mem_of_above frontLoaded isBack member (by omega)
        · split at given
          · cases given
          · split at given
            next wasCount =>
              -- what was read since is taken from the count before
              split at given
              next known =>
                simp only [Bool.and_eq_true, Bool.or_eq_true, decide_eq_true_eq,
                  Option.any_eq_true] at known
                cases given
                have before := wasExact wasCount rfl
                have difference := countIncoming_between out ordered shows
                  fun id member above below =>
                    shows.mem_of_between known.1 known.2 member above below
                omega
              · cases given
            · cases given

/-- Two of three incoming messages are loaded, and the newest one was read since. -/
theorem fullUnreadCountAfter_exact_read :
    (0 : Int) = (incomingAfter {5, 7, 9} (fun _ => false) (max 9 2)).card := by
  let replies : RepliesList := { list := [9, 7], skippedBefore := some 1, skippedAfter := none }
  have shows : replies.ShowsThread {5, 7, 9} := by
    refine ⟨by decide, by decide, ?_⟩
    intro id member below _
    rcases below with loaded | ⟨back, isBack, atMost⟩
    · cases loaded
    · cases isBack
      simp only [Finset.mem_insert, Finset.mem_singleton] at member
      rcases member with rfl | rfl | rfl
      · exact absurd atMost (by decide)
      · decide
      · decide
  refine fullUnreadCountAfter_exact replies ⟨1, 2⟩ {5, 7, 9} (fun _ => false) (by decide) shows
    9 7 (by decide) (some 1) ?_ 0 (by decide)
  rintro count ⟨⟩
  decide

end RepliesList

end TelegramDesktop
