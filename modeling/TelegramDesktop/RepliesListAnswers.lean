import TelegramDesktop.RepliesListRequests

/-!
# Placing the messages of an answer

The ids of an answer are placed so that the loaded ones keep decreasing, and the corrected
counters account for them.
-/

namespace TelegramDesktop

open List Option

namespace Replies

section Placing

variable {rootId : Int} {toFront : Bool}

/-- The message belongs to another thread. -/
def Message.Foreign (rootId : Int) (message : Message) : Prop :=
  message.replyToTop ≠ some rootId

instance : DecidablePred (Message.Foreign rootId) := fun _ => instDecidableNot

/-- The ids placed so far decrease, and those that are left are below the refreshed ones. -/
structure Placed.Ordered (placed : Placed) (rest : List Message) : Prop where
  descending : Descending (placed.refreshed ++ placed.list)
  above : ∀ message ∈ rest, ∀ id ∈ placed.refreshed, message.id < id

variable {placed : Placed}

theorem Placed.Ordered.place {message : Message} {rest : List Message}
    (ordered : placed.Ordered (message :: rest))
    (decreasing : Descending ((message :: rest).map Message.id)) :
    (placed.place rootId toFront message).Ordered rest := by
  have below : ∀ later ∈ rest, later.id < message.id := by
    intro later member
    exact List.rel_of_pairwise_cons decreasing (List.mem_map_of_mem member)
  have aboveRest : ∀ later ∈ rest, ∀ id ∈ placed.refreshed, later.id < id :=
    fun later member => ordered.above later (List.mem_cons_of_mem message member)
  have belowRefreshed := ordered.above message List.mem_cons_self
  have listed : Descending placed.list := (List.pairwise_append.mp ordered.descending).2.1
  unfold Placed.place
  split
  · split
    next newer =>
      simp only [Bool.and_eq_true, Option.any_eq_true, decide_eq_true_eq] at newer
      obtain ⟨-, front, isFront, newer⟩ := newer
      constructor
      · rw [List.append_assoc, Descending, List.pairwise_append, List.singleton_append,
          List.pairwise_cons]
        obtain ⟨refreshed, -, across⟩ := List.pairwise_append.mp ordered.descending
        refine ⟨refreshed, ⟨?_, listed⟩, ?_⟩
        · intro id member
          exact lt_of_le_of_lt (listed.le_head isFront member) newer
        · intro first firstMem second secondMem
          rcases List.mem_cons.mp secondMem with rfl | member
          · exact belowRefreshed first firstMem
          · exact across first firstMem second member
      · intro later member id isRefreshed
        rcases List.mem_append.mp isRefreshed with was | now
        · exact aboveRest later member id was
        · rw [List.mem_singleton.mp now]
          exact below later member
    · split
      next older =>
        constructor
        · rw [← List.append_assoc, Descending, List.pairwise_append]
          refine ⟨ordered.descending, List.pairwise_singleton _ _, ?_⟩
          intro first firstMem second secondMem
          rw [List.mem_singleton.mp secondMem]
          rcases List.mem_append.mp firstMem with isRefreshed | isListed
          · exact belowRefreshed first isRefreshed
          · obtain ⟨back, isBack⟩ := Option.ne_none_iff_exists'.mp
              (mt List.getLast?_eq_none_iff.mp (List.ne_nil_of_mem isListed))
            rw [isBack, Option.all_some, decide_eq_true_eq] at older
            exact lt_of_lt_of_le older (listed.getLast_le isBack isListed)
        · exact aboveRest
      · exact ⟨ordered.descending, aboveRest⟩
  · exact ⟨ordered.descending, aboveRest⟩

variable {messages : List Message}

theorem Placed.Ordered.foldl
    (ordered : placed.Ordered messages) (decreasing : Descending (messages.map Message.id)) :
    Descending ((messages.foldl (Placed.place rootId toFront) placed).refreshed ++
      (messages.foldl (Placed.place rootId toFront) placed).list) := by
  induction messages generalizing placed with
  | nil => exact ordered.descending
  | cons message rest ih =>
    rw [foldl_cons]
    exact ih (ordered.place decreasing) decreasing.of_cons

theorem Placed.foldl_skipped (placed : Placed) (messages : List Message) :
    (messages.foldl (Placed.place rootId toFront) placed).skipped =
      placed.skipped + messages.countP fun message => decide (message.Foreign rootId) := by
  induction messages generalizing placed with
  | nil => rfl
  | cons message rest ih =>
    rw [foldl_cons, ih, countP_cons]
    unfold Placed.place Message.Foreign
    split
    next own =>
      split
      · simp [own]
      · split <;> simp [own]
    next foreign =>
      simp [foreign]
      omega

theorem Placed.foldl_foreign (placed : Placed)
    (foreign : ∀ message ∈ messages, message.Foreign rootId) :
    messages.foldl (Placed.place rootId toFront) placed =
      { placed with skipped := placed.skipped + messages.length } := by
  induction messages generalizing placed with
  | nil => rfl
  | cons message rest ih =>
    have isForeign := foreign message mem_cons_self
    rw [foldl_cons, ih _ fun later member => foreign later (mem_cons_of_mem _ member),
      Placed.place, if_neg isForeign, length_cons]
    simp only [Placed.mk.injEq, true_and]
    omega

theorem Placed.place_ne_nil {message : Message}
    (some : placed.list ≠ [] ∨ ¬message.Foreign rootId) (notFront : toFront = false) :
    (placed.place rootId toFront message).list ≠ [] := by
  unfold Placed.place
  split
  · rw [notFront, Bool.false_and, if_neg Bool.false_ne_true]
    split
    · simp
    next covered =>
      intro empty
      rw [show placed.list = [] from empty] at covered
      exact covered rfl
  next foreign =>
    exact some.resolve_right (not_not.mpr foreign)

theorem Placed.foldl_ne_nil
    (some : placed.list ≠ [] ∨ ∃ message ∈ messages, ¬message.Foreign rootId)
    (notFront : toFront = false) :
    (messages.foldl (Placed.place rootId toFront) placed).list ≠ [] := by
  induction messages generalizing placed with
  | nil =>
    refine some.resolve_right ?_
    rintro ⟨message, member, -⟩
    cases member
  | cons message rest ih =>
    rw [foldl_cons]
    apply ih
    rcases some with listed | ⟨own, member, isOwn⟩
    · exact .inl (Placed.place_ne_nil (.inl listed) notFront)
    · rcases mem_cons.mp member with rfl | later
      · exact .inl (Placed.place_ne_nil (.inr isOwn) notFront)
      · exact .inr ⟨own, later, isOwn⟩

end Placing

/-- No count of skipped replies is negative. -/
structure Counted (skippedBefore skippedAfter : Option Int) : Prop where
  before : ∀ count, skippedBefore = some count → 0 ≤ count
  after : ∀ count, skippedAfter = some count → 0 ≤ count

variable {skippedBefore skippedAfter : Option Int}

theorem correctSkipped_counted (toFront : Bool) {checkedCount nowSize : Int}
    (counted : Counted skippedBefore skippedAfter) (enough : nowSize ≤ checkedCount) :
    ∃ before after, correctSkipped toFront checkedCount nowSize skippedBefore skippedAfter =
        some (before, after) ∧ Counted before after ∧
      ∀ first second, before = some first → after = some second →
        checkedCount = first + nowSize + second := by
  cases skippedBefore with
  | none =>
    cases skippedAfter with
    | none =>
      refine ⟨none, none, rfl, counted, ?_⟩
      rintro _ _ ⟨⟩
    | some skippedAfter =>
      have notNegative := counted.after _ rfl
      refine ⟨_, _, rfl, ⟨?_, ?_⟩, ?_⟩
      · rintro _ ⟨⟩
        omega
      · rintro _ ⟨⟩
        omega
      · rintro _ _ ⟨⟩ ⟨⟩
        omega
  | some skippedBefore =>
    have beforeNotNegative := counted.before _ rfl
    cases skippedAfter with
    | none =>
      refine ⟨_, _, rfl, ⟨?_, ?_⟩, ?_⟩
      · rintro _ ⟨⟩
        omega
      · rintro _ ⟨⟩
        omega
      · rintro _ _ ⟨⟩ ⟨⟩
        omega
    | some skippedAfter =>
      have afterNotNegative := counted.after _ rfl
      cases toFront with
      | true =>
        refine ⟨_, _, if_pos (by omega), ⟨?_, ?_⟩, ?_⟩
        · rintro _ ⟨⟩
          omega
        · rintro _ ⟨⟩
          omega
        · rintro _ _ ⟨⟩ ⟨⟩
          omega
      | false =>
        refine ⟨_, _, if_pos (by omega), ⟨?_, ?_⟩, ?_⟩
        · rintro _ ⟨⟩
          omega
        · rintro _ ⟨⟩
          omega
        · rintro _ _ ⟨⟩ ⟨⟩
          omega

/-- The counter that an answer keeps, or else the other one. -/
def keptCounter (toFront : Bool) (skippedBefore skippedAfter : Option Int) : Option Int :=
  if toFront then skippedAfter.or skippedBefore else skippedBefore.or skippedAfter

section

variable (counted : Counted skippedBefore skippedAfter)
include counted

/-- One of the corrected counters is zero exactly when the kept one covers the rest. -/
theorem correctSkipped_zero_iff {toFront : Bool} {checkedCount nowSize : Int}
    {before after : Option Int} (enough : nowSize ≤ checkedCount)
    (corrected : correctSkipped toFront checkedCount nowSize skippedBefore skippedAfter =
      some (before, after)) :
    ((∀ count, after = some count → count = 0 ∨ checkedCount = nowSize + count) ↔
      ∀ kept, keptCounter toFront skippedBefore skippedAfter = some kept →
        kept = 0 ∨ checkedCount ≤ nowSize + kept) ∧
    ((∀ count, before = some count → count = 0 ∨ checkedCount = nowSize + count) ↔
      ∀ kept, keptCounter toFront skippedBefore skippedAfter = some kept →
        kept = 0 ∨ checkedCount ≤ nowSize + kept) := by
  cases skippedBefore with
  | none =>
    cases skippedAfter with
    | none =>
      cases corrected
      cases toFront <;> simp [keptCounter]
    | some skippedAfter =>
      cases corrected
      cases toFront <;> simp [keptCounter] <;> omega
  | some skippedBefore =>
    cases skippedAfter with
    | none =>
      cases corrected
      cases toFront <;> simp [keptCounter] <;> omega
    | some skippedAfter =>
      cases toFront with
      | true =>
        simp only [correctSkipped, if_true, ite_none_right_eq_some] at corrected
        obtain ⟨-, ⟨⟩⟩ := corrected
        simp [keptCounter]
        omega
      | false =>
        simp only [correctSkipped, Bool.false_eq_true, if_false,
          ite_none_right_eq_some] at corrected
        obtain ⟨-, ⟨⟩⟩ := corrected
        simp [keptCounter]
        omega

theorem Counted.map_decrement_zero (size : Int) :
    skippedBefore.map (fun skipped => max (skipped - (size - size)) 0) = skippedBefore ∧
      skippedAfter.map (fun skipped => max (skipped - (size - size)) 0) = skippedAfter := by
  constructor
  · cases skippedBefore with
    | none => rfl
    | some skipped =>
      have notNegative := counted.before _ rfl
      rw [map_some, sub_self, sub_zero, max_eq_left notNegative]
  · cases skippedAfter with
    | none => rfl
    | some skipped =>
      have notNegative := counted.after _ rfl
      rw [map_some, sub_self, sub_zero, max_eq_left notNegative]

theorem Counted.decrement (toFront : Bool) (added : Int) :
    Counted
      (if toFront then skippedBefore
        else skippedBefore.map fun skipped => max (skipped - added) 0)
      (if toFront then skippedAfter.map fun skipped => max (skipped - added) 0
        else skippedAfter) := by
  have lowered : ∀ (skipped : Option Int) (count : Int),
      (skipped.map fun skipped => max (skipped - added) 0) = some count → 0 ≤ count := by
    intro skipped count isCount
    obtain ⟨was, -, rfl⟩ := map_eq_some_iff.mp isCount
    exact le_max_right _ _
  cases toFront with
  | true => exact ⟨counted.before, lowered skippedAfter⟩
  | false => exact ⟨lowered skippedBefore, counted.after⟩

end

theorem Answer.decreasing_list (answer : Answer) : Descending (answer.list.map Message.id) := by
  unfold Answer.list
  split
  · exact Pairwise.nil
  · exact answer.decreasing

end Replies

open Replies

namespace RepliesList

variable (replies : RepliesList) (thread : Thread) (answer : Answer)

/-- The list descends and its counts are not negative. -/
structure Loaded : Prop where
  descending : Descending replies.list
  counted : Counted replies.skippedBefore replies.skippedAfter

/-- If both counters are known, they account for the ids that are not loaded. -/
def Accounted : Prop :=
  ∀ before after, replies.skippedBefore = some before → replies.skippedAfter = some after →
    0 ≤ before ∧ 0 ≤ after ∧ replies.fullCount = some (before + replies.list.length + after)

/-- All messages of the answer belong to other threads. -/
def IsForeign : Prop := ∀ message ∈ answer.list, message.Foreign thread.rootId

variable {replies thread answer}

theorem placeAll_descending (loaded : replies.Loaded) (thread : Thread) (answer : Answer) :
    Descending ((replies.placeAll thread answer).refreshed ++
      (replies.placeAll thread answer).list) := by
  apply Placed.Ordered.foldl _ answer.decreasing_list
  constructor
  · exact loaded.descending
  · rintro message - id ⟨⟩

theorem processMessagesIsEmpty_nil (isEmpty : answer.list = []) :
    replies.processMessagesIsEmpty thread answer = some (replies, true) := by
  rw [processMessagesIsEmpty, isEmpty, isEmpty_nil, if_pos rfl]

theorem toFront_nil (empty : replies.list = []) (answer : Answer) :
    replies.toFront answer = false := by
  unfold toFront
  rw [empty]
  cases answer.list.head? <;> rfl

/-- The list with the answer placed. -/
def placedList (replies : RepliesList) (thread : Thread) (answer : Answer) : List Int :=
  let placed := replies.placeAll thread answer
  if replies.toFront answer then placed.refreshed ++ placed.list else placed.list

theorem placedList_descending (loaded : replies.Loaded) :
    Descending (replies.placedList thread answer) := by
  have descending := placeAll_descending loaded thread answer
  unfold placedList
  split
  · exact descending
  · exact (pairwise_append.mp descending).2.1

theorem placedList_ne_nil (empty : replies.list = []) (own : ¬IsForeign thread answer) :
    replies.placedList thread answer ≠ [] := by
  have notFront := toFront_nil empty answer
  have isOwn : ∃ message ∈ answer.list, ¬message.Foreign thread.rootId := by
    simpa [IsForeign] using own
  unfold placedList
  rw [notFront, if_neg Bool.false_ne_true]
  exact Placed.foldl_ne_nil (.inr isOwn) notFront

theorem placedList_foreign (foreign : IsForeign thread answer) :
    replies.placedList thread answer = replies.list := by
  unfold placedList placeAll
  rw [Placed.foldl_foreign _ foreign]
  exact ite_self _

theorem placeAll_skipped_eq_iff :
    (answer.list.length == (replies.placeAll thread answer).skipped) = true ↔
      IsForeign thread answer := by
  rw [placeAll, Placed.foldl_skipped, Nat.zero_add, beq_iff_eq, eq_comm, countP_eq_length]
  simp only [decide_eq_true_eq, IsForeign]

/-- What an answer with messages leaves. -/
theorem processMessagesIsEmpty_spec (loaded : replies.Loaded) (thread : Thread)
    (some : answer.list ≠ []) :
    ∃ processed isEmpty, replies.processMessagesIsEmpty thread answer =
        Option.some (processed, isEmpty) ∧ processed.Loaded ∧ processed.Accounted ∧
      (isEmpty = true ↔ IsForeign thread answer) ∧
      processed.list = replies.placedList thread answer := by
  have isSome : answer.list.isEmpty = false := by simpa using some
  have enough : ((replies.placedList thread answer).length : Int) ≤
      max (answer.fullCount - (replies.placeAll thread answer).skipped)
        (replies.placedList thread answer).length := le_max_right _ _
  obtain ⟨before, after, corrected, counted, sum⟩ := correctSkipped_counted (replies.toFront answer)
    (loaded.counted.decrement (replies.toFront answer)
      ((replies.placedList thread answer).length - replies.list.length)) enough
  rw [processMessagesIsEmpty, isSome, if_neg Bool.false_ne_true]
  refine ⟨_, _, congrArg (Option.map _) corrected, ⟨placedList_descending loaded, counted⟩, ?_,
    placeAll_skipped_eq_iff, rfl⟩
  intro first second isFirst isSecond
  refine ⟨counted.before first isFirst, counted.after second isSecond, ?_⟩
  exact congrArg Option.some (sum first second isFirst isSecond)

theorem processMessagesIsEmpty_own (loaded : replies.Loaded) (own : ¬IsForeign thread answer) :
    ∃ processed, replies.processMessagesIsEmpty thread answer = some (processed, false) ∧
      processed.Loaded ∧ processed.Accounted ∧
      processed.list = replies.placedList thread answer := by
  have some : answer.list ≠ [] := by
    intro isNil
    apply own
    intro message member
    rw [isNil] at member
    cases member
  obtain ⟨processed, isEmpty, ends, ended, accounted, isEmptyIff, list⟩ :=
    processMessagesIsEmpty_spec loaded thread some
  have notEmpty : isEmpty = false := by
    rw [← Bool.not_eq_true, isEmptyIff]
    exact own
  rw [notEmpty] at ends
  exact ⟨processed, ends, ended, accounted, list⟩

theorem processMessagesIsEmpty_foreign (loaded : replies.Loaded) (some : answer.list ≠ [])
    (foreign : IsForeign thread answer) :
    replies.processMessagesIsEmpty thread answer =
      (correctSkipped (replies.toFront answer)
          (max (answer.fullCount - answer.list.length) replies.list.length) replies.list.length
          replies.skippedBefore replies.skippedAfter).map
        fun (skippedBefore, skippedAfter) =>
          ({ replies with
              skippedBefore
              skippedAfter
              fullCount :=
                Option.some (max (answer.fullCount - answer.list.length) replies.list.length) },
            true) := by
  have isSome : answer.list.isEmpty = false := by simpa using some
  have skipped : (replies.placeAll thread answer).skipped = answer.list.length := by
    rw [placeAll, Placed.foldl_foreign _ foreign]
    exact Nat.zero_add _
  have placed : (if replies.toFront answer then (replies.placeAll thread answer).refreshed ++
      (replies.placeAll thread answer).list else (replies.placeAll thread answer).list) =
      replies.list := placedList_foreign foreign
  have kept := loaded.counted.map_decrement_zero replies.list.length
  rw [processMessagesIsEmpty, isSome, if_neg Bool.false_ne_true]
  dsimp only
  rw [placed, skipped, kept.1, kept.2, ite_self, ite_self, beq_self_eq_true]

end RepliesList

end TelegramDesktop
