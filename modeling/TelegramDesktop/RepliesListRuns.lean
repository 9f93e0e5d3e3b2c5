import TelegramDesktop.RepliesListAnswers

/-!
# Runs of a list of replies

Every answer with messages leaves counters that account for the loaded ids.
-/

namespace TelegramDesktop.RepliesList

open Replies Option List

variable {replies : RepliesList} {thread : Thread} {answer : Answer}

def loadedPart (replies : RepliesList) : List Int × Option Int × Option Int × Option Int :=
  (replies.list, replies.skippedBefore, replies.skippedAfter, replies.fullCount)

section LoadedPart

variable {next : RepliesList} (same : next.loadedPart = replies.loadedPart)

include same

theorem Loaded.of_same (loaded : replies.Loaded) : next.Loaded := by
  simp only [loadedPart, Prod.mk.injEq] at same
  obtain ⟨list, before, after, -⟩ := same
  constructor
  · rw [list]
    exact loaded.descending
  · rw [before, after]
    exact loaded.counted

theorem accounted_of_same : next.Accounted ↔ replies.Accounted := by
  simp only [loadedPart, Prod.mk.injEq] at same
  obtain ⟨list, before, after, full⟩ := same
  rw [Accounted, Accounted, list, before, after, full]

end LoadedPart

theorem loadAround_same (id : Int) : (replies.loadAround id).loadedPart = replies.loadedPart := by
  unfold loadAround
  split <;> rfl

variable {next : RepliesList}

theorem loadBefore_same (sent : replies.loadBefore = some next) :
    next.loadedPart = replies.loadedPart := by
  unfold loadBefore at sent
  split at sent
  · cases sent
  · split at sent <;>
    · cases sent
      rfl

theorem loadAfter_same (sent : replies.loadAfter = some next) :
    next.loadedPart = replies.loadedPart := by
  unfold loadAfter at sent
  split at sent
  · cases sent
  · split at sent <;>
    · cases sent
      rfl

theorem loadBefore_sent (replies : RepliesList) (some : replies.list ≠ []) :
    ∃ next, replies.loadBefore = Option.some next := by
  obtain ⟨last, isLast⟩ := ne_none_iff_exists'.mp (mt getLast?_eq_none_iff.mp some)
  unfold loadBefore
  rw [isLast]
  dsimp only
  split <;> exact ⟨_, rfl⟩

theorem loadAfter_sent (replies : RepliesList) (some : replies.list ≠ []) :
    ∃ next, replies.loadAfter = Option.some next := by
  obtain ⟨first, isFirst⟩ := ne_none_iff_exists'.mp (mt head?_eq_none_iff.mp some)
  unfold loadAfter
  rw [isFirst]
  dsimp only
  split <;> exact ⟨_, rfl⟩

theorem getD_same {sent : Option RepliesList}
    (same : ∀ next, sent = some next → next.loadedPart = replies.loadedPart) :
    (sent.getD replies).loadedPart = replies.loadedPart := by
  cases sent with
  | none => rfl
  | some next => exact same next rfl

theorem loadMore_same (owner : Owner) (viewer : Viewer) :
    (replies.loadMore owner viewer).loadedPart = replies.loadedPart := by
  have before : (if replies.skippedBefore ≠ some 0 ∧
        replies.useBefore owner viewer < viewer.limitBefore + 1 then
      replies.loadBefore.getD replies else replies).loadedPart = replies.loadedPart := by
    split
    · exact getD_same fun next sent => loadBefore_same sent
    · rfl
  unfold loadMore
  dsimp only
  split
  · exact (getD_same fun next sent => loadAfter_same sent).trans before
  · exact before

theorem injectRootMessage_same (owner : Owner) (viewer : Viewer) :
    (replies.injectRootMessageAndReverse thread owner viewer).1.loadedPart =
      replies.loadedPart := by
  unfold injectRootMessageAndReverse injectRootMessage injectRootDivider
  dsimp only
  split
  · rfl
  · split <;> rfl

theorem buildFromData_same (owner : Owner) (viewer : Viewer) :
    (replies.buildFromData thread owner viewer).2.1.loadedPart = replies.loadedPart := by
  unfold buildFromData
  split
  · exact injectRootMessage_same owner _
  · split
    · exact loadAround_same _
    · exact (loadMore_same owner viewer).trans (injectRootMessage_same owner _)

/-- The list with other ids, and the count corrected for them. -/
def recounted (replies : RepliesList) (list : List Int) (change : Int → Int) : RepliesList :=
  { replies with list, fullCount := recount { replies with list } change }

theorem recounted_accounted (counted : Counted replies.skippedBefore replies.skippedAfter)
    (list : List Int) (change : Int → Int) : (replies.recounted list change).Accounted := by
  intro before after isBefore isAfter
  refine ⟨counted.before before isBefore, counted.after after isAfter, ?_⟩
  unfold recounted recount at *
  rw [isBefore, isAfter]

theorem applyUpdate_cases (loaded : replies.Loaded) (thread : Thread) (update : MessageUpdate)
    (injected : List FullMessageId) :
    replies.applyUpdate thread update injected = replies ∨
      ∃ list change, Descending list ∧
        replies.applyUpdate thread update injected = replies.recounted list change := by
  unfold applyUpdate
  dsimp only
  split
  · exact .inl rfl
  · split
    · exact .inl rfl
    · split
      · exact .inl rfl
      · split
        · split
          · exact .inl rfl
          · exact .inr ⟨_, _, loaded.descending.sublist (eraseIdx_sublist ..), rfl⟩
        · split
          · exact .inl rfl
          · split
            · exact .inl rfl
            next unknown =>
              rw [loaded.descending.getElem?_lowerBound] at unknown
              exact .inr ⟨_, _, loaded.descending.insertGreater unknown, rfl⟩

theorem applyUpdate_loaded (loaded : replies.Loaded) (update : MessageUpdate)
    (injected : List FullMessageId) :
    (replies.applyUpdate thread update injected).Loaded := by
  rcases applyUpdate_cases loaded thread update injected with same | changed
  · rwa [same]
  · obtain ⟨list, change, descending, changed⟩ := changed
    rw [changed]
    exact ⟨descending, loaded.counted⟩

theorem applyUpdate_accounted (loaded : replies.Loaded) (accounted : replies.Accounted)
    (update : MessageUpdate) (injected : List FullMessageId) :
    (replies.applyUpdate thread update injected).Accounted := by
  rcases applyUpdate_cases loaded thread update injected with same | changed
  · rwa [same]
  · obtain ⟨list, change, -, changed⟩ := changed
    rw [changed]
    exact recounted_accounted loaded.counted list change

theorem channelDifferenceTooLong_loaded (loaded : replies.Loaded) :
    replies.channelDifferenceTooLong.Loaded ∧ replies.channelDifferenceTooLong.Accounted := by
  refine ⟨⟨loaded.descending, loaded.counted.before, ?_⟩, ?_⟩
  · rintro count ⟨⟩
  · rintro before after - ⟨⟩

variable {processed : RepliesList}

theorem processMessagesIsEmpty_unknown {isEmpty : Bool}
    (unknownBefore : replies.skippedBefore = none) (unknownAfter : replies.skippedAfter = none)
    (ends : replies.processMessagesIsEmpty thread answer = some (processed, isEmpty)) :
    processed.skippedBefore = none ∧ processed.skippedAfter = none := by
  unfold processMessagesIsEmpty at ends
  split at ends
  · cases ends
    exact ⟨unknownBefore, unknownAfter⟩
  · simp only [unknownBefore, unknownAfter, map_none, ite_self] at ends
    cases ends
    exact ⟨rfl, rfl⟩

theorem clearAround_loaded (replies : RepliesList) (id : Int) :
    (replies.clearAround id).Loaded := by
  refine ⟨List.Pairwise.nil, ?_, ?_⟩
  · rintro count ⟨⟩
  · intro count isCount
    unfold clearAround at isCount
    split at isCount <;> cases isCount
    exact le_refl 0

/-- Whatever `loadAround` is answered, no assertion fails. -/
theorem aroundDone_spec (replies : RepliesList) (thread : Thread) (answer : Answer) (id : Int) :
    ∃ next, replies.aroundDone thread answer id = some next ∧ next.Loaded ∧ next.Accounted := by
  have nothing : ∀ processed : RepliesList, processed.list = [] →
      let ended : RepliesList :=
        { processed with
          fullCount := some 0
          skippedBefore := some 0
          skippedAfter := some 0 }
      ended.Loaded ∧ ended.Accounted := by
    intro processed empty
    refine ⟨⟨?_, ?_, ?_⟩, ?_⟩
    · rw [empty]
      exact List.Pairwise.nil
    · rintro _ ⟨⟩
      exact le_refl 0
    · rintro _ ⟨⟩
      exact le_refl 0
    · rintro _ _ ⟨⟩ ⟨⟩
      simp [empty]
  unfold aroundDone
  by_cases isNil : answer.list = []
  · rw [processMessagesIsEmpty_nil isNil]
    exact ⟨_, rfl, nothing _ rfl⟩
  · obtain ⟨processed, isEmpty, ends, loaded, accounted, isEmptyIff, list⟩ :=
      processMessagesIsEmpty_spec (replies.clearAround_loaded id) thread isNil
    rw [ends, bind_some]
    dsimp only
    cases isEmpty with
    | true =>
      have empty : processed.list = [] :=
        list.trans (placedList_foreign (isEmptyIff.mp rfl))
      exact ⟨_, rfl, nothing processed empty⟩
    | false =>
      by_cases fromEnd : id = 0
      · rw [if_neg Bool.false_ne_true, if_neg (not_not.mpr fromEnd)]
        exact ⟨processed, rfl, loaded, accounted⟩
      · have own : ¬IsForeign thread answer := fun foreign => by
          cases isEmptyIff.mpr foreign
        have some : processed.list ≠ [] := by
          rw [list]
          exact placedList_ne_nil rfl own
        have unknown := processMessagesIsEmpty_unknown rfl
          (show (replies.clearAround id).skippedAfter = none from if_neg fromEnd) ends
        obtain ⟨front, isFront⟩ := ne_none_iff_exists'.mp (mt head?_eq_none_iff.mp some)
        obtain ⟨back, isBack⟩ := ne_none_iff_exists'.mp (mt getLast?_eq_none_iff.mp some)
        rw [if_neg Bool.false_ne_true, if_pos fromEnd, isFront, isBack]
        dsimp only
        split
        · refine ⟨_, rfl, ⟨loaded.descending, loaded.counted.before, ?_⟩, ?_⟩
          · rintro _ ⟨⟩
            exact le_refl 0
          · intro before after isBefore
            cases unknown.1.symm.trans isBefore
        · split
          · refine ⟨_, rfl, ⟨loaded.descending, ?_, loaded.counted.after⟩, ?_⟩
            · rintro _ ⟨⟩
              exact le_refl 0
            · intro before after _ isAfter
              cases unknown.2.symm.trans isAfter
          · exact ⟨processed, rfl, loaded, accounted⟩

/-- Nothing is left at this end, or what is left makes up the count with the loaded ids. -/
def EndsAt (replies : RepliesList) (skipped : Option Int) : Prop :=
  ∀ count, skipped = some count →
    count = 0 ∨ replies.fullCount = some (replies.list.length + count)

/-- What an answer without messages of the thread has to agree with.  If it has messages of
other threads, the counter that is kept is at the end where these would be placed. -/
def AnswerAgrees (replies : RepliesList) (thread : Thread) (answer : Answer)
    (other : Option Int) : Prop :=
  (answer.list = [] → replies.EndsAt other) ∧
    (answer.list ≠ [] → IsForeign thread answer →
      ∀ kept, keptCounter (replies.toFront answer) replies.skippedBefore replies.skippedAfter =
          some kept →
        kept = 0 ∨ answer.fullCount - answer.list.length ≤ replies.list.length + kept)

theorem keptCounter_nonneg {toFront : Bool} {skippedBefore skippedAfter : Option Int} {kept : Int}
    (counted : Counted skippedBefore skippedAfter)
    (isKept : keptCounter toFront skippedBefore skippedAfter = some kept) : 0 ≤ kept := by
  unfold keptCounter at isKept
  split at isKept
  · rcases or_eq_some_iff.mp isKept with after | ⟨-, before⟩
    · exact counted.after kept after
    · exact counted.before kept before
  · rcases or_eq_some_iff.mp isKept with before | ⟨-, after⟩
    · exact counted.before kept before
    · exact counted.after kept after

/-- An answer without messages of the thread agrees with the list exactly when the other end
is as `EndsAt` asks once it is processed. -/
theorem processMessagesIsEmpty_agrees (loaded : replies.Loaded)
    (foreign : IsForeign thread answer) :
    ∃ processed, replies.processMessagesIsEmpty thread answer = some (processed, true) ∧
      processed.Loaded ∧
      (processed.EndsAt processed.skippedAfter ↔
        replies.AnswerAgrees thread answer replies.skippedAfter) ∧
      (processed.EndsAt processed.skippedBefore ↔
        replies.AnswerAgrees thread answer replies.skippedBefore) := by
  by_cases isNil : answer.list = []
  · refine ⟨replies, processMessagesIsEmpty_nil isNil, loaded, ?_, ?_⟩ <;>
    · constructor
      · intro ends
        exact ⟨fun _ => ends, fun some => absurd isNil some⟩
      · intro agrees
        exact agrees.1 isNil
  · have enough : (replies.list.length : Int) ≤
        max (answer.fullCount - answer.list.length) replies.list.length := le_max_right _ _
    obtain ⟨before, after, corrected, counted, -⟩ :=
      correctSkipped_counted (replies.toFront answer) loaded.counted enough
    have zero := correctSkipped_zero_iff loaded.counted enough corrected
    have agrees : ∀ other, replies.AnswerAgrees thread answer other ↔
        ∀ kept, keptCounter (replies.toFront answer) replies.skippedBefore replies.skippedAfter =
          some kept → kept = 0 ∨ max (answer.fullCount - answer.list.length)
            replies.list.length ≤ replies.list.length + kept := by
      intro other
      constructor
      · rintro ⟨-, covers⟩ kept isKept
        have notNegative := keptCounter_nonneg loaded.counted isKept
        rcases covers isNil foreign kept isKept with zero | covered
        · exact .inl zero
        · exact .inr (max_le covered (le_add_of_nonneg_right notNegative))
      · intro covers
        refine ⟨fun isNilToo => absurd isNilToo isNil, fun _ _ kept isKept => ?_⟩
        exact (covers kept isKept).imp_right fun covered => (le_max_left _ _).trans covered
    refine ⟨_, (processMessagesIsEmpty_foreign loaded isNil foreign).trans
      (congrArg (Option.map _) corrected), ⟨loaded.descending, counted⟩, ?_, ?_⟩
    · rw [agrees, ← zero.1]
      simp only [EndsAt, Option.some.injEq]
    · rw [agrees, ← zero.2]
      simp only [EndsAt, Option.some.injEq]

theorem ended_count_iff {full : Option Int} {size count : Int} :
    (if some count = some 0 then some size else full) = some (size + count) ↔
      count = 0 ∨ full = some (size + count) := by
  by_cases zero : count = 0
  · simp [zero]
  · simp [zero]

theorem endBefore_accounted (loaded : processed.Loaded) :
    let ended : RepliesList :=
      { processed with
        skippedBefore := some 0
        fullCount :=
          if processed.skippedAfter = some 0 then some processed.list.length
          else processed.fullCount }
    ended.Loaded ∧ (ended.Accounted ↔ processed.EndsAt processed.skippedAfter) := by
  refine ⟨⟨loaded.descending, ?_, loaded.counted.after⟩, ?_⟩
  · rintro _ ⟨⟩
    exact le_refl 0
  · constructor
    · intro accounted count isCount
      have sum := (accounted 0 count rfl isCount).2.2
      simp only [isCount, zero_add] at sum
      exact ended_count_iff.mp sum
    · rintro ends _ after ⟨⟩ isAfter
      have isAfter : processed.skippedAfter = some after := isAfter
      have sum := ended_count_iff.mpr (ends after isAfter)
      simp only [isAfter, zero_add]
      exact ⟨le_refl 0, loaded.counted.after after isAfter, sum⟩

theorem endAfter_accounted (loaded : processed.Loaded) :
    let ended : RepliesList :=
      { processed with
        skippedAfter := some 0
        fullCount :=
          if processed.skippedBefore = some 0 then some processed.list.length
          else processed.fullCount }
    ended.Loaded ∧ (ended.Accounted ↔ processed.EndsAt processed.skippedBefore) := by
  refine ⟨⟨loaded.descending, loaded.counted.before, ?_⟩, ?_⟩
  · rintro _ ⟨⟩
    exact le_refl 0
  · constructor
    · intro accounted count isCount
      have sum := (accounted count 0 isCount rfl).2.2
      simp only [isCount, add_zero, add_comm count] at sum
      exact ended_count_iff.mp sum
    · rintro ends before _ isBefore ⟨⟩
      have isBefore : processed.skippedBefore = some before := isBefore
      have sum := ended_count_iff.mpr (ends before isBefore)
      simp only [isBefore, add_zero, add_comm before]
      exact ⟨loaded.counted.before before isBefore, le_refl 0, sum⟩

/-- Whatever `loadBefore` is answered, no assertion fails.  The counters account for the ids
unless an answer without messages of the thread does not agree with them. -/
theorem beforeDone_spec (loaded : replies.Loaded) (thread : Thread) (answer : Answer) (last : Int) :
    ∃ next, replies.beforeDone thread answer last = some next ∧ next.Loaded ∧
      (replies.Accounted →
        (next.Accounted ↔
          (replies.list.getLast? = some last → IsForeign thread answer →
            replies.AnswerAgrees thread answer replies.skippedAfter))) := by
  let waiting : RepliesList := { replies with beforeId := none }
  have waits : waiting.Loaded := ⟨loaded.descending, loaded.counted⟩
  unfold beforeDone
  by_cases empty : replies.list = []
  · refine ⟨waiting, if_pos (isEmpty_iff.mpr empty), waits, fun accounted => ?_⟩
    refine iff_of_true accounted fun isLast => ?_
    rw [empty] at isLast
    cases isLast
  · rw [if_neg (mt List.isEmpty_iff.mp empty)]
    by_cases isLast : replies.list.getLast? = some last
    · rw [if_neg (not_not.mpr isLast)]
      by_cases foreign : IsForeign thread answer
      · obtain ⟨processed, ends, ended, agrees, -⟩ :=
          processMessagesIsEmpty_agrees waits foreign
        have result := endBefore_accounted ended
        rw [ends, map_some]
        refine ⟨_, rfl, result.1, fun _ => result.2.trans (agrees.trans ?_)⟩
        exact ⟨fun holds _ _ => holds, fun holds => holds isLast foreign⟩
      · obtain ⟨processed, ends, ended, accounted, -⟩ := processMessagesIsEmpty_own waits foreign
        rw [ends, map_some]
        exact ⟨processed, rfl, ended, fun _ => iff_of_true accounted fun _ isForeign =>
          absurd isForeign foreign⟩
    · rw [if_pos isLast]
      obtain ⟨next, sent⟩ := loadBefore_sent waiting empty
      have same := loadBefore_same sent
      refine ⟨next, sent, waits.of_same same, fun accounted => ?_⟩
      exact iff_of_true ((accounted_of_same same).mpr accounted) fun isLastToo =>
        absurd isLastToo isLast

/-- Whatever `loadAfter` is answered, no assertion fails.  The counters account for the ids
unless an answer without messages of the thread does not agree with them. -/
theorem afterDone_spec (loaded : replies.Loaded) (thread : Thread) (answer : Answer) (first : Int) :
    ∃ next, replies.afterDone thread answer first = some next ∧ next.Loaded ∧
      (replies.Accounted →
        (next.Accounted ↔
          (replies.list.head? = some first → IsForeign thread answer →
            replies.AnswerAgrees thread answer replies.skippedBefore))) := by
  let waiting : RepliesList := { replies with afterId := none }
  have waits : waiting.Loaded := ⟨loaded.descending, loaded.counted⟩
  unfold afterDone
  by_cases empty : replies.list = []
  · refine ⟨waiting, if_pos (isEmpty_iff.mpr empty), waits, fun accounted => ?_⟩
    refine iff_of_true accounted fun isFirst => ?_
    rw [empty] at isFirst
    cases isFirst
  · rw [if_neg (mt List.isEmpty_iff.mp empty)]
    by_cases isFirst : replies.list.head? = some first
    · rw [if_neg (not_not.mpr isFirst)]
      by_cases foreign : IsForeign thread answer
      · obtain ⟨processed, ends, ended, -, agrees⟩ :=
          processMessagesIsEmpty_agrees waits foreign
        have result := endAfter_accounted ended
        rw [ends, map_some]
        refine ⟨_, rfl, result.1, fun _ => result.2.trans (agrees.trans ?_)⟩
        exact ⟨fun holds _ _ => holds, fun holds => holds isFirst foreign⟩
      · obtain ⟨processed, ends, ended, accounted, -⟩ := processMessagesIsEmpty_own waits foreign
        rw [ends, map_some]
        exact ⟨processed, rfl, ended, fun _ => iff_of_true accounted fun _ isForeign =>
          absurd isForeign foreign⟩
    · rw [if_pos isFirst]
      obtain ⟨next, sent⟩ := loadAfter_sent waiting empty
      have same := loadAfter_same sent
      refine ⟨next, sent, waits.of_same same, fun accounted => ?_⟩
      exact iff_of_true ((accounted_of_same same).mpr accounted) fun isFirstToo =>
        absurd isFirstToo isFirst

/-- The list that an event calls `processMessagesIsEmpty` on, with the answer. -/
def processedBy (replies : RepliesList) : Event → Option (RepliesList × Answer)
  | .historyDone answer =>
    match replies.beforeId with
    | some (.around id) => some (replies.clearAround id, answer)
    | some (.before last) =>
      if replies.list.getLast? = some last then
        some ({ replies with beforeId := none }, answer)
      else none
    | none => none
  | .afterDone answer =>
    match replies.afterId with
    | some first =>
      if replies.list.head? = some first then some ({ replies with afterId := none }, answer)
      else none
    | none => none
  | _ => none

/-- The assertion holds, and the counters account for the ids if there were messages. -/
def CallSucceeds (thread : Thread) (replies : RepliesList) (event : Event) : Prop :=
  ∀ called answer, replies.processedBy event = some (called, answer) →
    ∃ processed isEmpty, called.processMessagesIsEmpty thread answer =
        some (processed, isEmpty) ∧ (answer.list ≠ [] → processed.Accounted)

/-- Once the messages are processed, the counters account for the ids. -/
def CallAccounts (thread : Thread) (replies : RepliesList) (event : Event) : Prop :=
  ∀ called answer, replies.processedBy event = some (called, answer) →
    ∃ processed isEmpty, called.processMessagesIsEmpty thread answer =
        some (processed, isEmpty) ∧ processed.Accounted

/-- An answer that ends the list on its side agrees with what is known of the other one. -/
def EndsAgree (thread : Thread) (replies : RepliesList) : Event → Prop
  | .historyDone answer =>
    ∀ last, replies.beforeId = some (.before last) → replies.list.getLast? = some last →
      IsForeign thread answer → replies.AnswerAgrees thread answer replies.skippedAfter
  | .afterDone answer =>
    ∀ first, replies.afterId = some first → replies.list.head? = some first →
      IsForeign thread answer → replies.AnswerAgrees thread answer replies.skippedBefore
  | _ => True

theorem processedBy_cases {called : RepliesList} {event : Event}
    (calls : replies.processedBy event = some (called, answer)) :
    (∃ id, called = replies.clearAround id) ∨ called.loadedPart = replies.loadedPart := by
  cases event with
  | historyDone given =>
    rw [processedBy] at calls
    split at calls
    · cases calls
      exact .inl ⟨_, rfl⟩
    · split at calls
      · cases calls
        exact .inr rfl
      · cases calls
    · cases calls
  | afterDone given =>
    rw [processedBy] at calls
    split at calls
    · split at calls
      · cases calls
        exact .inr rfl
      · cases calls
    · cases calls
  | _ => cases calls

theorem clearAround_accounted (id : Int) : (replies.clearAround id).Accounted := by
  rintro before after ⟨⟩

theorem Loaded.callSucceeds (loaded : replies.Loaded) (event : Event) :
    replies.CallSucceeds thread event := by
  intro called answer calls
  have ready : called.Loaded := by
    rcases processedBy_cases calls with ⟨id, rfl⟩ | same
    · exact replies.clearAround_loaded id
    · exact loaded.of_same same
  by_cases isNil : answer.list = []
  · exact ⟨called, true, processMessagesIsEmpty_nil isNil, fun some => absurd isNil some⟩
  · obtain ⟨processed, isEmpty, ends, -, accounted, -⟩ :=
      processMessagesIsEmpty_spec ready thread isNil
    exact ⟨processed, isEmpty, ends, fun _ => accounted⟩

theorem Loaded.callAccounts (loaded : replies.Loaded) (accounted : replies.Accounted)
    (event : Event) : replies.CallAccounts thread event := by
  intro called answer calls
  obtain ⟨processed, isEmpty, ends, nonempty⟩ := loaded.callSucceeds event called answer calls
  refine ⟨processed, isEmpty, ends, ?_⟩
  by_cases isNil : answer.list = []
  · rw [processMessagesIsEmpty_nil isNil] at ends
    cases ends
    rcases processedBy_cases calls with ⟨id, rfl⟩ | same
    · exact clearAround_accounted id
    · exact (accounted_of_same same).mpr accounted
  · exact nonempty isNil

/-- What a step gives: the loaded ids in order, and counters that account for them exactly
under a condition. -/
def Leads (replies : RepliesList) (next : Option RepliesList) (condition : Prop) : Prop :=
  (∀ last, next = some last → last.Loaded) ∧
    (replies.Accounted → ((∀ last, next = some last → last.Accounted) ↔ condition))

variable {condition : Prop}

theorem leads_none (holds : condition) : replies.Leads none condition := by
  refine ⟨?_, fun _ => iff_of_true ?_ holds⟩
  · rintro last ⟨⟩
  · rintro last ⟨⟩

theorem leads_some (loaded : next.Loaded)
    (accounted : replies.Accounted → (next.Accounted ↔ condition)) :
    replies.Leads (some next) condition := by
  refine ⟨?_, fun before => Iff.trans ?_ (accounted before)⟩
  · rintro last ⟨⟩
    exact loaded
  · constructor
    · intro all
      exact all next rfl
    · rintro holds last ⟨⟩
      exact holds

theorem leads_same (loaded : replies.Loaded)
    (same : next.loadedPart = replies.loadedPart) (holds : condition) :
    replies.Leads (some next) condition :=
  leads_some (loaded.of_same same) fun accounted =>
    iff_of_true ((accounted_of_same same).mpr accounted) holds

theorem historyDone_leads (loaded : replies.Loaded) (answer : Answer) :
    replies.Leads (replies.step thread (.historyDone answer))
      (replies.EndsAgree thread (.historyDone answer)) := by
  unfold step EndsAgree
  cases waits : replies.beforeId with
  | none =>
    apply leads_none
    rintro last ⟨⟩
  | some request =>
    cases request with
    | around id =>
      obtain ⟨next, done, ended, accounted⟩ := replies.aroundDone_spec thread answer id
      dsimp only
      rw [done]
      apply leads_some ended
      refine fun _ => iff_of_true accounted ?_
      rintro last ⟨⟩
    | before last =>
      obtain ⟨next, done, ended, accounted⟩ :=
        beforeDone_spec loaded thread answer last
      dsimp only
      rw [done]
      apply leads_some ended
      refine fun before => (accounted before).trans ?_
      constructor
      · rintro agrees _ ⟨⟩
        exact agrees
      · intro agrees
        exact agrees last rfl

theorem afterDone_leads (loaded : replies.Loaded) (answer : Answer) :
    replies.Leads (replies.step thread (.afterDone answer))
      (replies.EndsAgree thread (.afterDone answer)) := by
  unfold step EndsAgree
  cases waits : replies.afterId with
  | none =>
    apply leads_none
    rintro first ⟨⟩
  | some first =>
    obtain ⟨next, done, ended, accounted⟩ :=
      afterDone_spec loaded thread answer first
    dsimp only
    rw [done]
    apply leads_some ended
    refine fun before => (accounted before).trans ?_
    constructor
    · rintro agrees _ ⟨⟩
      exact agrees
    · intro agrees
      exact agrees first rfl

/-- The loaded part and when its ends agree. -/
theorem step_leads (loaded : replies.Loaded) (event : Event) :
    replies.Leads (replies.step thread event) (replies.EndsAgree thread event) := by
  cases event with
  | build owner viewer => exact leads_same loaded (buildFromData_same owner viewer) trivial
  | historyDone answer => exact historyDone_leads loaded answer
  | historyFailed =>
    unfold step
    cases replies.beforeId with
    | none => exact leads_none trivial
    | some request =>
      cases request with
      | around id => exact leads_same loaded rfl trivial
      | before last => exact leads_same loaded rfl trivial
  | afterDone answer => exact afterDone_leads loaded answer
  | afterFailed =>
    unfold step
    cases replies.afterId with
    | none => exact leads_none trivial
    | some first => exact leads_same loaded rfl trivial
  | update update injected =>
    exact leads_some (applyUpdate_loaded loaded update injected) fun accounted =>
      iff_of_true (applyUpdate_accounted loaded accounted update injected) trivial
  | channelDifferenceTooLong =>
    obtain ⟨ended, accounted⟩ := channelDifferenceTooLong_loaded loaded
    exact leads_some ended fun _ => iff_of_true accounted trivial

theorem loaded_empty : Loaded {} := by
  refine ⟨List.Pairwise.nil, ?_, ?_⟩ <;> rintro count ⟨⟩

theorem accounted_empty : Accounted {} := by
  rintro before after ⟨⟩

/-- In every run the ids decrease and no assertion fails.  The counters account for the ids in
the runs where each answer that ends the list on its side agrees with the other side. -/
theorem counters_account_iff (thread : Thread) (events : List Event) :
    RunKeeps (step thread) (fun replies => Descending replies.list) {} events ∧
      RunMeets (step thread) (CallSucceeds thread) {} events ∧
      (RunMeets (step thread) (EndsAgree thread) {} events →
        RunMeets (step thread) (CallAccounts thread) {} events) ∧
      (RunKeeps (step thread) Accounted {} events ↔
        RunMeets (step thread) (EndsAgree thread) {} events) := by
  have kept : ∀ replies event next, Loaded replies → step thread replies event = some next →
      next.Loaded := fun replies event next loaded taken => (step_leads loaded event).1 next taken
  have loaded := runKeeps_invariant kept events loaded_empty
  have accounted : RunKeeps (step thread) Accounted {} events ↔
      RunMeets (step thread) (EndsAgree thread) {} events :=
    runKeeps_iff_runMeets (fun replies event next loaded _ => kept replies event next loaded)
      (fun replies event loaded accounted => (step_leads loaded event).2 accounted) events
      loaded_empty accounted_empty
  refine ⟨loaded.mono fun replies loaded => loaded.descending,
    loaded.meets fun replies event loaded => loaded.callSucceeds event, ?_, accounted⟩
  intro agree
  exact (loaded.and (accounted.mpr agree)).meets fun replies event holds =>
    holds.1.callAccounts holds.2 event

/-- Seven messages before the loaded ones and three after them are known of, but none is given:
the count is still thirteen when the list ends before the loaded ids. -/
theorem ended_list_keeps_count :
    ∃ (thread : Thread) (events : List Event) (reached : RepliesList) (nothing : Answer),
      run (step thread) {} events = some reached ∧
        reached.skippedBefore = some 0 ∧ reached.list = [100, 99, 98] ∧
        reached.skippedAfter = some 3 ∧ reached.fullCount = some 13 ∧
        ¬RunMeets (step thread) (CallAccounts thread) {} (events ++ [.afterDone nothing]) := by
  let thread : Thread := ⟨7, 2⟩
  let owner : Owner := ⟨none, 90⟩
  let unread : Viewer := { around := 0, limitBefore := 10, limitAfter := 10 }
  let nothing : Answer := ⟨.messagesSlice 13, [], by decide⟩
  let events : List Event :=
    [.build owner unread,
      .historyDone ⟨.messagesSlice 10, [⟨100, some 2⟩, ⟨99, some 2⟩], by decide⟩,
      .build owner unread,
      .historyDone ⟨.messagesSlice 13, [⟨98, some 2⟩], by decide⟩,
      .build owner { unread with around := 99 },
      .historyDone nothing]
  let reached : RepliesList :=
    { list := [100, 99, 98]
      skippedBefore := some 0
      skippedAfter := some 3
      fullCount := some 13
      afterId := some 100 }
  have ends : run (step thread) {} events = some reached := by decide
  refine ⟨thread, events, reached, nothing, ends, rfl, rfl, rfl, rfl, ?_⟩
  intro meets
  obtain ⟨processed, isEmpty, empty, accounted⟩ :=
    RunMeets.at_event meets ends { reached with afterId := none } nothing rfl
  cases empty
  exact absurd (accounted 0 3 rfl rfl).2.2 (by decide)

end TelegramDesktop.RepliesList
