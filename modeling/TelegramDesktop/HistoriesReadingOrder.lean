import TelegramDesktop.HistoriesReading
import TelegramDesktop.HistoriesStates

/-!
# The order in which an inbox is read

Whatever answers come when, the position that waits to be sent is above the one that was
sent, and a request without an answer is not above what was sent, or was read locally
since.
-/

namespace TelegramDesktop.Histories

open List Histories FlatMap Option

variable {H G C A : Type*}

section Marks

variable (session : Api H G A) (history : H) (type : RequestType) (generator : G)
  (id : Nat) (requested : Bool) (state : State G) (api : A)

theorem sendNow_marks :
    (sendNow session history type generator id requested state api).1.willReadTill =
        state.willReadTill ∧
      (sendNow session history type generator id requested state api).1.sentReadTill =
        state.sentReadTill := by
  unfold sendNow
  dsimp only
  split
  · split
    · exact ⟨rfl, rfl⟩
    · exact ⟨rfl, rfl⟩
  · split
    · exact ⟨rfl, rfl⟩
    · exact ⟨rfl, rfl⟩

end Marks

namespace State

/-- What holds of the state of a history that is only read. -/
structure Reads (state : State G) : Prop where
  nonneg : 0 ≤ state.sentReadTill
  order : state.willReadTill = 0 ∨ state.sentReadTill < state.willReadTill
  reads : ∀ entry ∈ state.sent.entries, entry.2.type = .readInbox
  postponed : state.postponed = ∅

/-- Two states agree in their requests and in what is read. -/
structure Like (first second : State G) : Prop extends Same first second where
  willReadTill : first.willReadTill = second.willReadTill
  sentReadTill : first.sentReadTill = second.sentReadTill

theorem Like.refl (state : State G) : Like state state := ⟨.refl state, rfl, rfl⟩

theorem Like.trans {first second third : State G} (one : Like first second)
    (two : Like second third) : Like first third :=
  ⟨one.toSame.trans two.toSame, one.willReadTill.trans two.willReadTill,
    one.sentReadTill.trans two.sentReadTill⟩

theorem Reads.of_like {first second : State G} (reads : Reads second)
    (like : Like first second) : Reads first := by
  refine ⟨?_, ?_, ?_, ?_⟩
  · rw [like.sentReadTill]
    exact reads.nonneg
  · rw [like.willReadTill, like.sentReadTill]
    exact reads.order
  · rw [like.sent]
    exact reads.reads
  · rw [like.postponed]
    exact reads.postponed

theorem reads_default : Reads ({} : State G) :=
  ⟨le_refl 0, .inl rfl, fun _ member => absurd member not_mem_nil, rfl⟩

theorem like_of_isEmpty {state : State G} (empty : state.isEmpty = true) : Like {} state := by
  have same := same_of_isEmpty empty
  unfold isEmpty at empty
  simp only [Bool.and_eq_true, beq_iff_eq] at empty
  exact ⟨same, empty.1.2.symm, empty.2.symm⟩

theorem Reads.accepted (session : Api H G A) (history : H) (generator : G) (id : Nat)
    (requested : Bool) {state : State G} (api : A) (reads : state.Reads) :
    ∃ request : SentRequest G, request.type = .readInbox ∧
      (Histories.accepted session history .readInbox generator id requested state api).1.sent =
        state.sent.emplace id request ∧
      (Histories.accepted session history .readInbox generator id requested state
        api).1.postponed = state.postponed ∧
      (Histories.accepted session history .readInbox generator id requested state
        api).1.willReadTill = state.willReadTill ∧
      (Histories.accepted session history .readInbox generator id requested state
        api).1.sentReadTill = state.sentReadTill := by
  obtain ⟨added, sent, postponed, -, -, deletes⟩ :=
    sendNow_cases session history .readInbox generator id requested state api
  have marks := sendNow_marks session history .readInbox generator id requested state api
  have isNow : Histories.accepted session history .readInbox generator id requested state api =
      sendNow session history .readInbox generator id requested state api :=
    if_neg fun isHistory => RequestType.noConfusion isHistory.1
  refine ⟨⟨generator, (session.generate generator history id api).2, .readInbox⟩, rfl, ?_⟩
  rw [isNow]
  rcases deletes with ⟨⟨entry, member, isDelete⟩, _⟩ | ⟨_, result⟩
  · rw [sent] at member
    rcases FlatMap.mem_of_mem_emplaceEntry member with rfl | old
    · cases isDelete
    · rw [reads.reads entry old] at isDelete
      cases isDelete
  · rw [result] at marks ⊢
    exact ⟨sent, postponed, marks⟩

end State

section Log

variable [DecidableEq H]

/-- The position that was sent last since the last reset, or zero. -/
def lastSent (history : H) : List (ReadMark H) → Int
  | [] => 0
  | .sent other tillId :: log => if other = history then tillId else lastSent history log
  | .reset other :: log => if other = history then 0 else lastSent history log

/-- Every position is above the one that was sent before it. -/
def Increasing : List (ReadMark H) → Prop
  | [] => True
  | .sent history tillId :: log => lastSent history log < tillId ∧ Increasing log
  | .reset _ :: log => Increasing log

theorem le_lastSent {history : H} {tillId : Int} {between older : List (ReadMark H)}
    (increasing : Increasing (between ++ .sent history tillId :: older))
    (noReset : .reset history ∉ between) :
    tillId ≤ lastSent history (between ++ .sent history tillId :: older) := by
  induction between with
  | nil =>
    have here : lastSent history (.sent history tillId :: older) = tillId := if_pos rfl
    exact le_of_eq here.symm
  | cons mark between ih =>
    rw [mem_cons, not_or] at noReset
    cases mark with
    | sent other otherTill =>
      rw [cons_append, Increasing] at increasing
      rw [cons_append, lastSent]
      have before := ih increasing.2 noReset.2
      split
      next same =>
        rw [same] at increasing
        omega
      · exact before
    | reset other =>
      rw [cons_append, Increasing] at increasing
      rw [cons_append, lastSent]
      have distinct : other ≠ history := by
        rintro rfl
        exact noReset.1 rfl
      rw [if_neg distinct]
      exact ih increasing noReset.2

theorem Increasing.lt {history : H} {earlier later : Int}
    {newer between older : List (ReadMark H)}
    (increasing : Increasing (newer ++ .sent history later ::
      (between ++ .sent history earlier :: older)))
    (noReset : .reset history ∉ between) : earlier < later := by
  induction newer with
  | nil =>
    rw [nil_append, Increasing] at increasing
    exact lt_of_le_of_lt (le_lastSent increasing.2 noReset) increasing.1
  | cons mark newer ih =>
    cases mark with
    | sent other tillId => exact ih increasing.2
    | reset other => exact ih increasing

end Log

/-- A request without an answer: its position is not above what was sent, or it was read
locally when that was reset. -/
structure Awaited (before : Option Int) (state : State G) (request : ReadRequest H) : Prop where
  sent : state.sent.contains request.id = true
  positive : 0 < request.tillId
  position : state.sentReadTill ≠ 0 ∧ request.tillId ≤ state.sentReadTill ∨
    state.sentReadTill = 0 ∧ (∃ known, before = some known ∧ request.tillId < known) ∧
      (state.willReadTill = 0 ∨ request.tillId < state.willReadTill)

/-- What was known does not get less. -/
def Raises (before after : Option Int) : Prop :=
  ∀ known, before = some known → ∃ more, after = some more ∧ known ≤ more

theorem Raises.refl (before : Option Int) : Raises before before :=
  fun known isKnown => ⟨known, isKnown, le_refl known⟩

theorem Awaited.of_like {before after : Option Int} {first second : State G}
    {request : ReadRequest H} (awaited : Awaited before second request)
    (like : State.Like first second) (raises : Raises before after) :
    Awaited after first request := by
  refine ⟨?_, awaited.positive, ?_⟩
  · rw [like.sent]
    exact awaited.sent
  · rw [like.sentReadTill, like.willReadTill]
    rcases awaited.position with isSent | ⟨isReset, ⟨known, isKnown, below⟩, waits⟩
    · exact .inl isSent
    · obtain ⟨more, isMore, atLeast⟩ := raises known isKnown
      exact .inr ⟨isReset, ⟨more, isMore, lt_of_lt_of_le below atLeast⟩, waits⟩

namespace Reading

variable [LinearOrder H]

/-- What was sent of each history is in order, and an answer waits for each request. -/
structure InOrder (reading : Reading H G C A) : Prop where
  reads : ∀ history, (reading.histories.stateOf history).Reads
  awaited : ∀ request ∈ reading.pending, Awaited (reading.inboxReadBefore request.history)
    (reading.histories.stateOf request.history) request
  distinct : (reading.pending.map ReadRequest.id).Nodup
  known : ∀ request ∈ reading.pending, request.id ≤ reading.histories.requestAutoincrement
  increasing : Increasing reading.log
  last : ∀ history, lastSent history reading.log =
    (reading.histories.stateOf history).sentReadTill

variable {reading next : Reading H G C A} {history : H}

/-- Nothing is sent here, and the reads of a history only grow. -/
structure Frames (reading next : Reading H G C A) : Prop where
  like : ∀ history, State.Like (next.histories.stateOf history)
    (reading.histories.stateOf history)
  autoincrement : next.histories.requestAutoincrement = reading.histories.requestAutoincrement
  pending : next.pending = reading.pending
  raises : ∀ history, Raises (reading.inboxReadBefore history) (next.inboxReadBefore history)
  log : next.log = reading.log

theorem InOrder.of_frames (inOrder : InOrder reading) (frames : Frames reading next) :
    InOrder next := by
  refine ⟨fun history => (inOrder.reads history).of_like (frames.like history), ?_, ?_, ?_, ?_, ?_⟩
  · rw [frames.pending]
    exact fun request member => (inOrder.awaited request member).of_like
      (frames.like request.history) (frames.raises request.history)
  · rw [frames.pending]
    exact inOrder.distinct
  · rw [frames.pending, frames.autoincrement]
    exact inOrder.known
  · rw [frames.log]
    exact inOrder.increasing
  · intro history
    rw [frames.log, (frames.like history).sentReadTill]
    exact inOrder.last history

theorem frames_setWillReadWhen (history : H) (willReadWhen : Int) :
    Frames reading (reading.setWillReadWhen history willReadWhen) :=
  ⟨fun _ => .refl _, rfl, rfl, fun _ => .refl _, rfl⟩

theorem frames_settle : Frames reading reading.settle :=
  ⟨fun _ => .refl _, rfl, rfl, fun _ => .refl _, rfl⟩

theorem frames_setInboxReadTill (history : H) (upTo : Int) :
    Frames reading (reading.setInboxReadTill history upTo) := by
  refine ⟨fun _ => .refl _, rfl, rfl, fun other => ?_, rfl⟩
  unfold setInboxReadTill
  by_cases same : other = history
  · subst same
    intro known isKnown
    dsimp only
    rw [Function.update_self, isKnown]
    exact ⟨_, rfl, le_max_left _ _⟩
  · dsimp only
    rw [Function.update_of_ne same]
    exact .refl _

theorem stateOf_setState {state : State G} (other : H) :
    (reading.setState history state).histories.stateOf other =
      if other = history then state else reading.histories.stateOf other :=
  stateOf_set

section Sending

variable (session : Api H G A) (generator : Int → G) (now : Int)

/-- What sending read requests keeps, and that the new ones have new ids. -/
structure Sends (reading next : Reading H G C A) : Prop where
  inOrder : InOrder next
  fresh : ∀ request ∈ next.pending,
    request ∈ reading.pending ∨ reading.histories.requestAutoincrement < request.id
  autoincrement : reading.histories.requestAutoincrement ≤ next.histories.requestAutoincrement

theorem Sends.refl (inOrder : InOrder reading) : Sends reading reading :=
  ⟨inOrder, fun _ member => .inl member, le_refl _⟩

theorem Sends.trans {first second third : Reading H G C A} (one : Sends first second)
    (two : Sends second third) : Sends first third := by
  refine ⟨two.inOrder, fun request member => ?_, le_trans one.autoincrement two.autoincrement⟩
  rcases two.fresh request member with old | isNew
  · exact one.fresh request old
  · exact .inr (lt_of_le_of_lt one.autoincrement isNew)

/-- What `sendReadRequest` leaves. -/
structure SendsTill (reading next : Reading H G C A) (history : H) : Prop where
  sent : ∃ request : SentRequest G, request.type = .readInbox ∧
    (next.histories.stateOf history).sent =
      (reading.histories.stateOf history).sent.emplace
        (reading.histories.requestAutoincrement + 1) request
  postponed : (next.histories.stateOf history).postponed =
    (reading.histories.stateOf history).postponed
  willReadTill : (next.histories.stateOf history).willReadTill = 0
  sentReadTill : (next.histories.stateOf history).sentReadTill =
    (reading.histories.stateOf history).willReadTill
  others : ∀ other, other ≠ history →
    next.histories.stateOf other = reading.histories.stateOf other
  autoincrement : next.histories.requestAutoincrement =
    reading.histories.requestAutoincrement + 1
  before : next.inboxReadBefore = reading.inboxReadBefore
  pending : next.pending = reading.pending ++ [⟨history,
    reading.histories.requestAutoincrement + 1, (reading.histories.stateOf history).willReadTill⟩]
  log : next.log = .sent history (reading.histories.stateOf history).willReadTill :: reading.log

theorem sendReadRequest_sendsTill (reads : (reading.histories.stateOf history).Reads)
    (waits : (reading.histories.stateOf history).willReadTill ≠ 0) :
    ∃ next, reading.sendReadRequest session generator history = .ok next ∧
      SendsTill reading next history := by
  have above := reads.order.resolve_left waits
  have positive := lt_of_le_of_lt reads.nonneg above
  unfold sendReadRequest
  dsimp only
  rw [if_neg (not_le.mpr above)]
  generalize isState : reading.histories.stateOf history = state at reads above positive ⊢
  generalize isMarkedState : ({ state with
    sentReadTill := state.willReadTill
    willReadTill := 0
    sentReadDone := false } : State G) = markedState
  generalize isMarked : (reading.setState history markedState).setWillReadWhen history 0 = marked
  have markedMine : marked.histories.stateOf history = markedState := by
    rw [← isMarked]
    exact (stateOf_setState history).trans (if_pos rfl)
  have markedReads : markedState.Reads := by
    rw [← isMarkedState]
    exact ⟨le_of_lt positive, .inl rfl, reads.reads, reads.postponed⟩
  cases sent : marked.histories.sendRequest session history .readInbox
      (generator state.willReadTill) with
  | none =>
    unfold sendRequest at sent
    rw [if_neg RequestType.noConfusion] at sent
    cases sent
  | some result =>
    obtain ⟨histories, id⟩ := result
    obtain ⟨-, isId, isNext⟩ := sendRequest_accepts session sent
    have isAutoincrement : marked.histories.requestAutoincrement =
        reading.histories.requestAutoincrement := by
      rw [← isMarked]
      rfl
    rw [isAutoincrement] at isId
    obtain ⟨request, isRead, isSent, isPostponed, will, isTill⟩ :=
      markedReads.accepted session history (generator state.willReadTill) id
        (marked.histories.dialogRequests.contains history) marked.histories.api
    have mine : histories.stateOf history = (accepted session history .readInbox
        (generator state.willReadTill) id (marked.histories.dialogRequests.contains history)
        markedState marked.histories.api).1 := by
      rw [isNext, stateOf_set, if_pos rfl, markedMine]
    rw [← isMarkedState] at mine isSent isPostponed will isTill
    refine ⟨_, rfl, ⟨request, isRead, ?_⟩, ?_, ?_, ?_, ?_, ?_, ?_, ?_, ?_⟩
    · rw [mine, isSent, isState, isId]
    · rw [mine, isPostponed, isState]
    · rw [mine, will]
    · rw [mine, isTill, isState]
    · intro other distinct
      rw [isNext, stateOf_set, if_neg distinct, ← isMarked]
      exact (stateOf_setState other).trans (if_neg distinct)
    · rw [isNext, isId]
    · rw [← isMarked]
      rfl
    · rw [← isMarked, isId, isState]
      rfl
    · rw [← isMarked, isState]
      rfl

theorem InOrder.sendsTill (inOrder : InOrder reading)
    (waits : (reading.histories.stateOf history).willReadTill ≠ 0)
    (sends : SendsTill reading next history) : Sends reading next := by
  have reads := inOrder.reads history
  have above := reads.order.resolve_left waits
  have positive := lt_of_le_of_lt reads.nonneg above
  obtain ⟨request, isRead, isSent⟩ := sends.sent
  have mine : (next.histories.stateOf history).Reads := by
    refine ⟨?_, .inl sends.willReadTill, ?_, sends.postponed.trans reads.postponed⟩
    · rw [sends.sentReadTill]
      exact le_of_lt positive
    · rw [isSent]
      intro entry member
      rcases mem_of_mem_emplaceEntry member with rfl | old
      · exact isRead
      · exact reads.reads entry old
  have fresh : ∀ other ∈ next.pending,
      other ∈ reading.pending ∨ reading.histories.requestAutoincrement < other.id := by
    rw [sends.pending]
    intro other member
    rcases mem_append.mp member with old | isNew
    · exact .inl old
    · rw [mem_singleton.mp isNew]
      exact .inr (Nat.lt_succ_self _)
  refine ⟨⟨fun other => ?_, fun other member => ?_, ?_, ?_, ?_, fun other => ?_⟩, fresh, ?_⟩
  · by_cases same : other = history
    · rw [same]
      exact mine
    · rw [sends.others other same]
      exact inOrder.reads other
  · rw [sends.before]
    rw [sends.pending] at member
    rcases mem_append.mp member with old | isNew
    · have awaited := inOrder.awaited other old
      by_cases same : other.history = history
      · rw [same] at awaited ⊢
        refine ⟨?_, awaited.positive, .inl ⟨?_, ?_⟩⟩
        · rw [isSent]
          exact contains_emplace.mpr (.inr awaited.sent)
        · rw [sends.sentReadTill]
          exact waits
        · rw [sends.sentReadTill]
          rcases awaited.position with ⟨_, atMost⟩ | ⟨_, _, isBelow⟩
          · exact le_of_lt (lt_of_le_of_lt atMost above)
          · exact le_of_lt (isBelow.resolve_left waits)
      · rw [sends.others _ same]
        exact awaited
    · rw [mem_singleton.mp isNew]
      refine ⟨?_, positive, .inl ⟨?_, ?_⟩⟩
      · rw [isSent]
        exact contains_emplace.mpr (.inl rfl)
      · rw [sends.sentReadTill]
        exact waits
      · exact le_of_eq sends.sentReadTill.symm
  · rw [sends.pending, map_append, map_singleton, nodup_append]
    refine ⟨inOrder.distinct, pairwise_singleton _ _, ?_⟩
    intro id isOld other isNew
    obtain ⟨known, member, rfl⟩ := mem_map.mp isOld
    have atMost := inOrder.known known member
    rw [mem_singleton.mp isNew]
    dsimp only
    omega
  · rw [sends.pending, sends.autoincrement]
    intro other member
    rcases mem_append.mp member with old | isNew
    · exact Nat.le_succ_of_le (inOrder.known other old)
    · rw [mem_singleton.mp isNew]
  · rw [sends.log]
    refine ⟨?_, inOrder.increasing⟩
    rw [inOrder.last history]
    exact above
  · rw [sends.log, lastSent]
    split
    next same =>
      rw [← same, sends.sentReadTill]
    next distinct =>
      rw [sends.others other (Ne.symm distinct)]
      exact inOrder.last other
  · rw [sends.autoincrement]
    exact Nat.le_succ _

theorem sendReadRequests_sends (inOrder : InOrder reading) :
    ∃ next, reading.sendReadRequests session generator now = .ok next ∧ Sends reading next := by
  have loop (histories : List H) {reading : Reading H G C A} (inOrder : InOrder reading) :
      ∃ next, histories.foldlM (fun reading history =>
          reading.sendIfDue session generator now history) reading = .ok next ∧
        Sends reading next := by
    induction histories generalizing reading with
    | nil => exact ⟨reading, rfl, .refl inOrder⟩
    | cons history histories ih =>
      obtain ⟨middle, isMiddle, sends⟩ : ∃ middle,
          reading.sendIfDue session generator now history = .ok middle ∧
            Sends reading middle := by
        unfold sendIfDue
        split
        · exact ⟨reading, rfl, .refl inOrder⟩
        next waits =>
          split
          · obtain ⟨middle, isMiddle, sendsTill⟩ :=
              sendReadRequest_sendsTill session generator (inOrder.reads history) waits
            exact ⟨middle, isMiddle, inOrder.sendsTill waits sendsTill⟩
          · exact ⟨reading, rfl, .refl inOrder⟩
      obtain ⟨next, isNext, rest⟩ := ih sends.inOrder
      refine ⟨next, ?_, sends.trans rest⟩
      rw [foldlM_cons, isMiddle]
      exact isNext
  exact loop _ inOrder

theorem sendPendingReadInbox_inOrder (inOrder : InOrder reading) :
    ∃ next, reading.sendPendingReadInbox session generator now history = .ok next ∧
      InOrder next := by
  unfold sendPendingReadInbox
  split
  · exact ⟨reading, rfl, inOrder⟩
  · split
    · obtain ⟨next, isNext, sends⟩ := sendReadRequests_sends session generator now
        (inOrder.of_frames (frames_setWillReadWhen history 0))
      exact ⟨next, isNext, sends.inOrder⟩
    · exact ⟨reading, rfl, inOrder⟩

theorem InOrder.takes (inOrder : InOrder reading) {tillId : Int}
    (above : (reading.histories.stateOf history).sentReadTill < tillId)
    (unread : (∀ known, reading.inboxReadBefore history = some known → known ≤ tillId) ∨
      (reading.histories.stateOf history).willReadTill ≠ 0 ∧
        (reading.histories.stateOf history).willReadTill < tillId) :
    InOrder (reading.setState history { reading.histories.stateOf history with
      willReadTill := tillId }) := by
  have reads := inOrder.reads history
  refine ⟨fun other => ?_, fun request member => ?_, inOrder.distinct, inOrder.known,
    inOrder.increasing, fun other => ?_⟩
  · rw [stateOf_setState]
    split
    · exact ⟨reads.nonneg, .inr above, reads.reads, reads.postponed⟩
    · exact inOrder.reads other
  · have awaited := inOrder.awaited request member
    rw [stateOf_setState]
    split
    next same =>
      rw [same] at awaited
      refine ⟨awaited.sent, awaited.positive, ?_⟩
      rcases awaited.position with isSent | ⟨isReset, ⟨known, isKnown, below⟩, waits⟩
      · exact .inl isSent
      · refine .inr ⟨isReset, ⟨known, ?_, below⟩, .inr ?_⟩
        · rw [← isKnown, same]
          rfl
        · rcases unread with atLeast | ⟨some, isAbove⟩
          · exact lt_of_lt_of_le below (atLeast known isKnown)
          · exact lt_trans (waits.resolve_left some) isAbove
    · exact awaited
  · rw [stateOf_setState]
    split
    next same =>
      rw [same]
      exact inOrder.last history
    · exact inOrder.last other

theorem willReadTill_inOrder {tillId : Int} {force : Bool} {unread : Unread}
    (inOrder : InOrder (reading.setState history { reading.histories.stateOf history with
      willReadTill := tillId })) :
    ∃ next, reading.willReadTill session generator now history tillId force unread = .ok next ∧
      InOrder next := by
  unfold willReadTill
  dsimp only
  generalize reading.setState history { reading.histories.stateOf history with
    willReadTill := tillId } = taken at inOrder ⊢
  split
  · obtain ⟨next, isNext, sends⟩ := sendReadRequests_sends session generator now
      (inOrder.of_frames (frames_setWillReadWhen history 0))
    rw [isNext]
    by_cases unknown : unread.stillUnread = none
    · refine ⟨next, ?_, sends.inOrder⟩
      simp [unknown, bind, Except.bind]
    · refine ⟨next.setInboxReadTill history tillId, ?_,
        sends.inOrder.of_frames (frames_setInboxReadTill _ tillId)⟩
      simp [unknown, bind, Except.bind]
  · split
    · exact ⟨_, rfl, (inOrder.of_frames (frames_setWillReadWhen _ _)).of_frames
        (frames_setInboxReadTill _ tillId)⟩
    · exact ⟨_, rfl, inOrder.of_frames (frames_setInboxReadTill _ tillId)⟩

theorem readInboxTill_inOrder (inOrder : InOrder reading) (history : H) (tillId : Int)
    (force : Bool) (unread : Unread) :
    reading.readInboxTill session generator now history tillId force unread =
        .error .badTillId ∨
      ∃ next, reading.readInboxTill session generator now history tillId force unread =
        .ok next ∧ InOrder next := by
  unfold readInboxTill
  dsimp only
  split
  · exact .inl rfl
  refine .inr ?_
  split
  · exact ⟨reading, rfl, inOrder⟩
  split
  · exact ⟨reading, rfl, inOrder⟩
  split
  · exact ⟨reading, rfl, inOrder⟩
  rename_i notSent
  split
  · split
    · exact sendPendingReadInbox_inOrder session generator now inOrder
    · exact ⟨reading, rfl, inOrder⟩
  rename_i notWaiting
  split
  · exact ⟨reading, rfl, inOrder⟩
  rename_i needed
  split
  · exact ⟨_, rfl, inOrder.of_frames (frames_setInboxReadTill _ tillId)⟩
  · apply willReadTill_inOrder
    have isNeeded : reading.readInboxTillNeedsRequest history tillId = true → 0 < tillId ∧
        ∀ known, reading.inboxReadBefore history = some known → known ≤ tillId := by
      unfold readInboxTillNeedsRequest isServerMsgId
      intro needs
      simp only [Bool.and_eq_true, decide_eq_true_eq] at needs
      refine ⟨needs.1.1, fun known isKnown => ?_⟩
      rw [isKnown] at needs
      exact needs.2
    cases found : reading.histories.lookup history with
    | none =>
      rw [found] at needed
      have needs := isNeeded (by simpa using needed)
      apply inOrder.takes
      · rw [stateOf, found]
        exact needs.1
      · exact .inl needs.2
    | some state =>
      rw [found] at needed notSent notWaiting
      simp only [any_some, all_some, decide_eq_true_eq, Bool.and_eq_true,
        Bool.not_eq_true', not_and] at needed notSent notWaiting
      apply inOrder.takes
      · rw [stateOf_of_lookup found]
        omega
      · rw [stateOf_of_lookup found]
        by_cases needs : reading.readInboxTillNeedsRequest history tillId = true
        · exact .inl (isNeeded needs).2
        · refine .inr ⟨fun none => needed (by simpa using needs) none, ?_⟩
          omega

/-- Where a request is finished, its id is erased and nothing else of a read history
changes. -/
theorem finishSentRequest_read {histories next : Histories H G C A} {history : H}
    {state : State G} {id : Nat} (reads : state.Reads)
    (done : histories.finishSentRequest session history state id = some next) :
    State.Like (next.stateOf history) { state with sent := state.sent.erase id } := by
  have isResult : (Histories.finished session history id state histories.api).1 =
      { state with sent := state.sent.erase id } := by
    unfold Histories.finished sendAllPostponed
    rw [eraseSent_state, reads.postponed]
    rfl
  generalize isAfter : ({ state with sent := state.sent.erase id } : State G) = after at isResult ⊢
  let stored := { histories with
    states := histories.states.set history
      (Histories.finished session history id state histories.api).1
    historyByRequest := histories.historyByRequest.erase id
    api := (Histories.finished session history id state histories.api).2 }
  have unfolded : (stored.releaseEntryRequest history
      (Histories.finished session history id state histories.api).1).map
      (fun released => released.checkEmptyState history) = some next := done
  obtain ⟨middle, released, rfl⟩ := Option.map_eq_some_iff.mp unfolded
  have like : State.Like (middle.stateOf history) after := by
    rcases releaseEntryRequest_cases released with rfl | ⟨callbacks, -, -, rfl⟩
    · rw [stateOf_set, if_pos rfl, isResult]
      exact .refl _
    · rw [stateOf_set, if_pos rfl, isResult]
      exact ⟨⟨rfl, rfl⟩, rfl, rfl⟩
  rcases middle.stateOf_checkEmptyState history history with same | ⟨empty, erased⟩
  · rw [same]
    exact like
  · rw [erased]
    exact (State.like_of_isEmpty empty).trans like

theorem InOrder.checkPostponed (inOrder : InOrder reading) {id : Nat}
    (answered : ∀ request ∈ reading.pending, request.id ≠ id) {histories : Histories H G C A}
    (done : reading.histories.checkPostponed session history id = some histories) :
    InOrder { reading with histories } := by
  unfold Histories.checkPostponed at done
  split at done
  · cases done
    exact inOrder
  next state found =>
    have isState := stateOf_of_lookup found
    have reads := inOrder.reads history
    rw [isState] at reads
    have finishes := finishSentRequest_finishes session done
    have like := finishSentRequest_read session reads done
    refine ⟨fun other => ?_, fun request member => ?_, inOrder.distinct, ?_,
      inOrder.increasing, fun other => ?_⟩
    · by_cases same : other = history
      · have erased : State.Reads { state with sent := state.sent.erase id } :=
          { reads with reads := fun entry member =>
              reads.reads entry (mem_erase.mp member).1 }
        rw [same]
        exact erased.of_like like
      · rw [finishes.stateOf_of_ne same]
        exact inOrder.reads other
    · have awaited := inOrder.awaited request member
      by_cases same : request.history = history
      · rw [same] at awaited ⊢
        rw [isState] at awaited
        have erased : Awaited (reading.inboxReadBefore history)
            { state with sent := state.sent.erase id } request :=
          ⟨contains_erase.mpr ⟨answered request member, awaited.sent⟩,
            awaited.positive, awaited.position⟩
        exact erased.of_like like (.refl _)
      · rw [finishes.stateOf_of_ne same]
        exact awaited
    · rw [finishes.autoincrement]
      exact inOrder.known
    · rw [inOrder.last other]
      by_cases same : other = history
      · rw [same, like.sentReadTill, isState]
      · rw [finishes.stateOf_of_ne same]

end Sending

/-- The position that was sent is forgotten, but was read locally. -/
structure Resets (reading next : Reading H G C A) (history : H) : Prop where
  was : (reading.histories.stateOf history).sentReadTill ≠ 0
  same : State.Same (next.histories.stateOf history) (reading.histories.stateOf history)
  willReadTill : (next.histories.stateOf history).willReadTill =
    (reading.histories.stateOf history).willReadTill
  sentReadTill : (next.histories.stateOf history).sentReadTill = 0
  others : ∀ other, other ≠ history →
    next.histories.stateOf other = reading.histories.stateOf other
  autoincrement : next.histories.requestAutoincrement = reading.histories.requestAutoincrement
  pending : next.pending = reading.pending
  raises : ∀ other, Raises (reading.inboxReadBefore other) (next.inboxReadBefore other)
  read : ∃ known, next.inboxReadBefore history = some known ∧
    (reading.histories.stateOf history).sentReadTill < known
  log : next.log = .reset history :: reading.log

theorem InOrder.resets (inOrder : InOrder reading) (resets : Resets reading next history) :
    InOrder next := by
  have reads := inOrder.reads history
  refine ⟨fun other => ?_, fun request member => ?_, ?_, ?_, ?_, fun other => ?_⟩
  · by_cases same : other = history
    · rw [same]
      refine ⟨?_, ?_, ?_, ?_⟩
      · exact le_of_eq resets.sentReadTill.symm
      · rw [resets.sentReadTill, resets.willReadTill]
        have nonneg := reads.nonneg
        exact reads.order.imp_right fun above => by omega
      · rw [resets.same.sent]
        exact reads.reads
      · rw [resets.same.postponed]
        exact reads.postponed
    · rw [resets.others other same]
      exact inOrder.reads other
  · rw [resets.pending] at member
    have awaited := inOrder.awaited request member
    by_cases same : request.history = history
    · rw [same] at awaited ⊢
      obtain ⟨known, isKnown, below⟩ := resets.read
      have atMost := (awaited.position.resolve_right fun isReset => resets.was isReset.1).2
      refine ⟨?_, awaited.positive, .inr ⟨resets.sentReadTill, ⟨known, isKnown, ?_⟩, ?_⟩⟩
      · rw [resets.same.sent]
        exact awaited.sent
      · exact lt_of_le_of_lt atMost below
      · rw [resets.willReadTill]
        exact reads.order.imp_right fun above => lt_of_le_of_lt atMost above
    · rw [resets.others _ same]
      exact awaited.of_like (.refl _) (resets.raises _)
  · rw [resets.pending]
    exact inOrder.distinct
  · rw [resets.pending, resets.autoincrement]
    exact inOrder.known
  · rw [resets.log]
    exact inOrder.increasing
  · rw [resets.log, lastSent]
    split
    next same =>
      rw [← same, resets.sentReadTill]
    next distinct =>
      rw [resets.others other (Ne.symm distinct)]
      exact inOrder.last other

theorem states_requestDialogEntry (histories : Histories H G C A) (history : H)
    (callback : Option C) :
    (histories.requestDialogEntry history callback).states = histories.states ∧
      (histories.requestDialogEntry history callback).requestAutoincrement =
        histories.requestAutoincrement := by
  unfold requestDialogEntry
  split
  · exact ⟨rfl, rfl⟩
  · exact ⟨rfl, rfl⟩

theorem frames_requestDialogEntry (history : H) (callback : Option C) :
    Frames reading { reading with
      histories := reading.histories.requestDialogEntry history callback } := by
  obtain ⟨states, autoincrement⟩ :=
    states_requestDialogEntry reading.histories history callback
  refine ⟨fun other => ?_, autoincrement, rfl, fun _ => .refl _, rfl⟩
  rw [stateOf, lookup, states]
  exact .refl _

theorem like_postponeEntry (histories : Histories H G C A) (history : H) :
    (∀ other, State.Like ((postponeEntry histories history).stateOf other)
        (histories.stateOf other)) ∧
      (postponeEntry histories history).requestAutoincrement =
        histories.requestAutoincrement := by
  unfold postponeEntry
  split
  · exact ⟨fun _ => .refl _, rfl⟩
  next state found =>
    split
    · refine ⟨fun other => ?_, rfl⟩
      rw [stateOf_set]
      split
      next same =>
        rw [same, stateOf_of_lookup found]
        exact ⟨⟨rfl, rfl⟩, rfl, rfl⟩
      · exact .refl _
    · exact ⟨fun _ => .refl _, rfl⟩

theorem frames_sendDialogRequests :
    Frames reading { reading with histories := reading.histories.sendDialogRequests } := by
  have loop (waiting : List H) (histories : Histories H G C A) :
      (∀ other, State.Like ((waiting.foldl postponeEntry histories).stateOf other)
          (histories.stateOf other)) ∧
        (waiting.foldl postponeEntry histories).requestAutoincrement =
          histories.requestAutoincrement := by
    induction waiting generalizing histories with
    | nil => exact ⟨fun _ => .refl _, rfl⟩
    | cons history waiting ih =>
      obtain ⟨like, autoincrement⟩ := like_postponeEntry histories history
      obtain ⟨rest, restAutoincrement⟩ := ih (postponeEntry histories history)
      exact ⟨fun other => (rest other).trans (like other), restAutoincrement.trans autoincrement⟩
  obtain ⟨like, autoincrement⟩ := loop
    (reading.histories.dialogRequestsPending.entries.map Prod.fst) reading.histories
  exact ⟨like, autoincrement, rfl, fun _ => .refl _, rfl⟩

/-- The position that was sent is answered, and no entry request waits. -/
def isApplied (state : State G) : Bool :=
  !state.postponedRequestEntry && state.sentReadTill ≠ 0 && state.sentReadDone

theorem dialogEntryApplied_states (histories : Histories H G C A) (history : H) :
    (∀ other, other ≠ history →
        (histories.dialogEntryApplied history).stateOf other = histories.stateOf other) ∧
      (histories.dialogEntryApplied history).requestAutoincrement =
        histories.requestAutoincrement ∧
      State.Like ((histories.dialogEntryApplied history).stateOf history)
        { histories.stateOf history with
          sentReadTill :=
            if isApplied (histories.stateOf history) then 0
            else (histories.stateOf history).sentReadTill } := by
  unfold Histories.dialogEntryApplied isApplied
  split
  next postponed =>
    rw [postponed]
    exact ⟨fun _ _ => rfl, rfl, ⟨⟨rfl, rfl⟩, rfl, rfl⟩⟩
  next notPostponed =>
    rw [Bool.not_eq_true] at notPostponed
    split
    next missing =>
      have isState : histories.stateOf history = {} := by
        rw [stateOf, missing]
        rfl
      refine ⟨fun _ _ => rfl, rfl, ⟨⟨rfl, rfl⟩, rfl, ?_⟩⟩
      rw [isState]
      exact congrArg State.sentReadTill isState
    next state found =>
      have isState := stateOf_of_lookup found
      rw [isState] at notPostponed ⊢
      rw [notPostponed]
      split
      next done =>
        have condition :
            (!false && decide (state.sentReadTill ≠ 0) && state.sentReadDone) = true := by
          rw [decide_eq_true done.1, done.2]
          rfl
        rw [if_pos condition]
        refine ⟨fun other distinct => ?_, (checkEmptyState_fields history).1, ?_⟩
        · rw [stateOf, lookup_checkEmptyState, if_neg distinct]
          exact congrArg (fun found : Option (State G) => found.getD {})
            (find?_set.trans (if_neg distinct))
        · rcases stateOf_checkEmptyState history history with same | ⟨empty, erased⟩
          · rw [same, stateOf_set, if_pos rfl]
            exact ⟨⟨rfl, rfl⟩, rfl, rfl⟩
          · rw [erased]
            rw [stateOf_set, if_pos rfl] at empty
            exact (State.like_of_isEmpty empty).trans ⟨⟨rfl, rfl⟩, rfl, rfl⟩
      next notDone =>
        have condition :
            ¬(!false && decide (state.sentReadTill ≠ 0) && state.sentReadDone) = true := by
          simpa using notDone
        rw [if_neg condition]
        refine ⟨fun _ _ => rfl, rfl, ?_⟩
        have same : (Histories.mk histories.states histories.historyByRequest
            histories.requestAutoincrement (histories.dialogRequests.erase history)
            (histories.dialogRequestsPending.erase history) histories.api).stateOf history =
            state := isState
        rw [same]
        exact ⟨⟨rfl, rfl⟩, rfl, rfl⟩

/-- Applying an entry resets the position that was sent and answered, or nothing. -/
theorem dialogEntryApplied_inOrder (inOrder : InOrder reading) (history : H) :
    InOrder (reading.dialogEntryApplied history) := by
  obtain ⟨others, autoincrement, like⟩ := dialogEntryApplied_states reading.histories history
  have raised : Frames reading (reading.setInboxReadTill history
      (reading.histories.stateOf history).sentReadTill) := frames_setInboxReadTill _ _
  unfold dialogEntryApplied
  by_cases applied : isApplied (reading.histories.stateOf history) = true
  · rw [if_pos applied] at like
    unfold isApplied at applied
    rw [if_pos applied]
    have sent : (reading.histories.stateOf history).sentReadTill ≠ 0 := by
      simp only [Bool.and_eq_true, decide_eq_true_eq] at applied
      exact applied.1.2
    refine inOrder.resets ⟨sent, ⟨like.sent, like.postponed⟩, like.willReadTill, like.sentReadTill,
      others,
      autoincrement, rfl, raised.raises, ?_, rfl⟩
    -- the new bound of what was read is above the position
    unfold settle setInboxReadTill
    dsimp only
    rw [Function.update_self]
    refine ⟨_, rfl, ?_⟩
    split
    · exact Int.lt_of_lt_of_le (Int.lt_succ _) (Int.le_max_right _ _)
    · exact Int.lt_succ _
  · rw [if_neg applied] at like
    unfold isApplied at applied
    rw [if_neg applied]
    refine inOrder.of_frames ⟨fun other => ?_, autoincrement, rfl, fun _ => .refl _, rfl⟩
    by_cases same : other = history
    · rw [same]
      exact like
    · rw [others other same]
      exact .refl _

section Steps

variable (session : Api H G A) (generator : Int → G) (now : Int)

theorem readTill_inOrder (inOrder : InOrder reading) (history : H) (unreadCountKnown : Bool)
    {tillId : Int} (positive : 0 < tillId)
    (atMost : (reading.histories.stateOf history).sentReadTill ≠ 0 →
      tillId ≤ (reading.histories.stateOf history).sentReadTill) :
    ∃ next, reading.readTill unreadCountKnown history tillId
        (reading.histories.stateOf history) = .ok next ∧ InOrder next ∧
      next.pending = reading.pending ∧
      next.histories.requestAutoincrement = reading.histories.requestAutoincrement := by
  unfold readTill
  split
  next isTill =>
    split
    · have marked : Frames reading (reading.setState history
          { reading.histories.stateOf history with sentReadDone := true }) := by
        refine ⟨fun other => ?_, rfl, rfl, fun _ => .refl _, rfl⟩
        rw [stateOf_setState]
        split
        next same =>
          rw [same]
          exact ⟨⟨rfl, rfl⟩, rfl, rfl⟩
        · exact .refl _
      obtain ⟨_, autoincrement⟩ := states_requestDialogEntry (reading.setState history
        { reading.histories.stateOf history with sentReadDone := true }).histories history none
      exact ⟨_, rfl, (inOrder.of_frames marked).of_frames (frames_requestDialogEntry history none),
        rfl, autoincrement⟩
    next notNeeded =>
      refine ⟨_, rfl, inOrder.resets (?_ : Resets reading _ history), rfl, rfl⟩
      refine ⟨?_, ?_, ?_, ?_, fun other distinct => ?_, rfl, rfl, fun _ => .refl _, ?_, rfl⟩
      · omega
      · rw [stateOf_setState, if_pos rfl]
        exact ⟨rfl, rfl⟩
      · rw [stateOf_setState, if_pos rfl]
      · rw [stateOf_setState, if_pos rfl]
      · rw [stateOf_setState, if_neg distinct]
      · -- what was read before is above the position, as no refresh is needed
        unfold unreadCountRefreshNeeded at notNeeded
        simp only [Bool.or_eq_true, decide_eq_true_eq, not_or, not_lt] at notNeeded
        rw [isTill]
        change ∃ known, reading.inboxReadBefore history = some known ∧ tillId < known
        cases found : reading.inboxReadBefore history with
        | none =>
          rw [found, getD_none] at notNeeded
          omega
        | some known =>
          rw [found, getD_some] at notNeeded
          exact ⟨known, rfl, by omega⟩
  · have inRange : (reading.histories.stateOf history).sentReadTill = 0 ∨
        tillId < (reading.histories.stateOf history).sentReadTill := by
      by_cases reset : (reading.histories.stateOf history).sentReadTill = 0
      · exact .inl reset
      · omega
    rw [if_pos inRange]
    exact ⟨reading, rfl, inOrder, rfl, rfl⟩

theorem finished_inOrder (inOrder : InOrder reading) (unreadCountKnown : Bool)
    {request : ReadRequest H} (waits : request ∈ reading.pending) :
    reading.finished session generator now unreadCountKnown request = .error .entryRequest ∨
      ∃ next, reading.finished session generator now unreadCountKnown request = .ok next ∧
        InOrder next := by
  let answered : Reading H G C A := { reading with
    pending := reading.pending.filter fun other => other.id ≠ request.id }
  have answeredOrder : InOrder answered := by
    refine ⟨inOrder.reads, fun other member => ?_, ?_, fun other member => ?_,
      inOrder.increasing, inOrder.last⟩
    · exact inOrder.awaited other (mem_filter.mp member).1
    · exact inOrder.distinct.sublist (filter_sublist.map _)
    · exact inOrder.known other (mem_filter.mp member).1
  have awaited := inOrder.awaited request waits
  obtain ⟨state, found⟩ : ∃ state,
      reading.histories.lookup request.history = some state := by
    cases found : reading.histories.lookup request.history with
    | none =>
      have sent := awaited.sent
      rw [stateOf, found] at sent
      cases sent
    | some state => exact ⟨state, rfl⟩
  have isState := stateOf_of_lookup found
  obtain ⟨middle, isMiddle, middleOrder, pending, autoincrement⟩ :=
    readTill_inOrder answeredOrder request.history unreadCountKnown awaited.positive
      fun sent => (awaited.position.resolve_right fun reset => sent reset.1).2
  obtain ⟨sent, isSent, sends⟩ := sendReadRequests_sends session generator now middleOrder
  have others : ∀ other ∈ sent.pending, other.id ≠ request.id := by
    intro other member same
    rcases sends.fresh other member with old | isNew
    · rw [pending] at old
      simpa [same] using (mem_filter.mp old).2
    · have known := inOrder.known request waits
      rw [autoincrement] at isNew
      change reading.histories.requestAutoincrement < other.id at isNew
      omega
  have unfolded : reading.finished session generator now unreadCountKnown request =
      (sent.histories.checkPostponed session request.history request.id).elim
        (.error .entryRequest) fun histories => .ok (settle { sent with histories }) := by
    unfold finished
    dsimp only
    rw [found]
    rw [← isState]
    change (answered.readTill unreadCountKnown request.history request.tillId
      (answered.histories.stateOf request.history) >>= _) = _
    rw [isMiddle]
    change (middle.sendReadRequests session generator now >>= _) = _
    rw [isSent]
    dsimp only [bind, Except.bind]
    cases sent.histories.checkPostponed session request.history request.id with
    | none => rfl
    | some histories => rfl
  rw [unfolded]
  cases done : sent.histories.checkPostponed session request.history request.id with
  | none => exact .inl rfl
  | some histories =>
    exact .inr ⟨_, rfl, (sends.inOrder.checkPostponed session others done).of_frames
      frames_settle⟩

/-- The failures that cannot happen. -/
def ReadFailure.Excluded (failure : ReadFailure) : Prop :=
  failure = .sentAlready ∨ failure = .noState ∨ failure = .wrongOrder ∨ failure = .badType

/-- A step either fails as it may or keeps the order. -/
theorem step_inOrder (inOrder : InOrder reading) (event : Event H C) :
    (∃ failure, reading.step session generator event = .error failure ∧
        ¬ReadFailure.Excluded failure) ∨
      ∃ next, reading.step session generator event = .ok next ∧ InOrder next := by
  cases event with
  | readInboxTill now history tillId force unread =>
    rcases readInboxTill_inOrder session generator now inOrder history tillId force unread with
      bad | good
    · exact .inl ⟨_, bad, by simp [ReadFailure.Excluded]⟩
    · exact .inr good
  | sendPendingReadInbox now history =>
    exact .inr (sendPendingReadInbox_inOrder session generator now inOrder)
  | sendReadRequests now =>
    obtain ⟨next, isNext, sends⟩ := sendReadRequests_sends session generator now inOrder
    exact .inr ⟨next, isNext, sends.inOrder⟩
  | answer now unreadCountKnown id =>
    unfold step answer
    dsimp only
    split
    · exact .inr ⟨reading, rfl, inOrder⟩
    next request found =>
      rcases finished_inOrder session generator now inOrder unreadCountKnown
        (mem_of_find?_eq_some found) with bad | good
      · exact .inl ⟨_, bad, by simp [ReadFailure.Excluded]⟩
      · exact .inr good
  | dialogEntryApplied history =>
    exact .inr ⟨_, rfl, dialogEntryApplied_inOrder inOrder history⟩
  | setInboxReadTill history upTo =>
    exact .inr ⟨_, rfl, inOrder.of_frames (frames_setInboxReadTill _ upTo)⟩
  | requestDialogEntry history callback =>
    exact .inr ⟨_, rfl, inOrder.of_frames (frames_requestDialogEntry history callback)⟩
  | sendDialogRequests =>
    exact .inr ⟨_, rfl, inOrder.of_frames frames_sendDialogRequests⟩

theorem inOrder_start (api : A) (inboxReadBefore : H → Option Int) :
    InOrder (start api inboxReadBefore : Reading H G C A) :=
  ⟨fun _ => State.reads_default, fun _ member => absurd member not_mem_nil, nodup_nil,
    fun _ member => absurd member not_mem_nil, trivial, fun _ => rfl⟩

/-- A step that forgets which assertion failed. -/
def stepOption (reading : Reading H G C A) (event : Event H C) : Option (Reading H G C A) :=
  (reading.step session generator event).toOption

/-- In every run the waiting positions are above the sent ones, no assertion about them
fails, and the positions sent between two resets increase. -/
theorem reading_keeps_order (api : A) (inboxReadBefore : H → Option Int)
    (events : List (Event H C)) (reading : Reading H G C A)
    (ends : run (stepOption session generator) (start api inboxReadBefore) events =
      some reading) :
    (∀ history, (reading.histories.stateOf history).willReadTill = 0 ∨
      (reading.histories.stateOf history).sentReadTill <
        (reading.histories.stateOf history).willReadTill) ∧
    (∀ event failure, reading.step session generator event = .error failure →
      ¬ReadFailure.Excluded failure) ∧
    ∀ history earlier later newer between older, reading.log =
        newer ++ .sent history later :: (between ++ .sent history earlier :: older) →
      .reset history ∉ between → earlier < later := by
  have inOrder : InOrder reading := by
    refine run_invariant ?_ (inOrder_start api inboxReadBefore) ends
    intro before event after inOrder taken
    rcases step_inOrder session generator inOrder event with
      ⟨failure, failed, _⟩ | ⟨next, isNext, nextOrder⟩
    · rw [stepOption, failed] at taken
      cases taken
    · rw [stepOption, isNext] at taken
      cases taken
      exact nextOrder
  refine ⟨fun history => (inOrder.reads history).order, fun event failure failed => ?_, ?_⟩
  · rcases step_inOrder session generator inOrder event with
      ⟨other, isOther, allowed⟩ | ⟨next, isNext, _⟩
    · rw [isOther] at failed
      cases failed
      exact allowed
    · rw [isNext] at failed
      cases failed
  · intro history earlier later newer between older isLog noReset
    have increasing := inOrder.increasing
    rw [isLog] at increasing
    exact increasing.lt noReset

end Steps

/-- A history that is read till two messages, whose answers come in the other order. -/
def twoReads : List (Event Nat Unit) :=
  [.readInboxTill 5 1 10 true ⟨true, none, none⟩, .readInboxTill 6 1 20 true ⟨true, none, none⟩,
    .answer 7 false 2, .dialogEntryApplied 1, .answer 8 false 1]

/-- An api that only hands out request ids. -/
def numbering : Api Nat Unit Unit where
  generate _ _ id api := (api, id)
  cancel _ api := api

theorem reading_keeps_order_twoReads :
    ∃ reading, run (stepOption numbering fun _ => ()) (start () fun _ => none) twoReads =
        some reading ∧
      ∀ history, (reading.histories.stateOf history).willReadTill = 0 ∨
        (reading.histories.stateOf history).sentReadTill <
          (reading.histories.stateOf history).willReadTill := by
  have ends : (run (stepOption numbering fun _ => ()) (start () fun _ => none)
      twoReads).isSome = true := by decide
  obtain ⟨reading, isReading⟩ := isSome_iff_exists.mp ends
  exact ⟨reading, isReading,
    (reading_keeps_order numbering (fun _ => ()) () (fun _ => none) twoReads reading isReading).1⟩

end Reading

end TelegramDesktop.Histories
