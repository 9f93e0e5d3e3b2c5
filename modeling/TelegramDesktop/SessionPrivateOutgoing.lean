import TelegramDesktop.SessionPrivateNumbers
import TelegramDesktop.SessionPrivateAnswers

/-!
# What a session sends

A session sends packets while it is connected.
-/

namespace TelegramDesktop

open SessionPrivate List FlatMap

namespace SessionPrivate

variable {msgIds : Nat → Nat} {session later initial : SessionPrivate}

/-- No message is numbered, and no request is held that was not. -/
structure Quiet (session later : SessionPrivate) : Prop where
  held : ∀ request, Held later.toSend.entries later request →
    Held session.toSend.entries session request
  haveSent : ∀ entry ∈ later.haveSent.entries, entry ∈ session.haveSent.entries
  message : ∀ request, later.messageOf request = session.messageOf request
  messagesCounter : later.messagesCounter = session.messagesCounter
  started : later.sessionMarkedAsStarted = session.sessionMarkedAsStarted
  sessionId : later.sessionId = session.sessionId
  issued : later.issued = session.issued

namespace Quiet

theorem refl (session : SessionPrivate) : Quiet session session :=
  ⟨fun _ held => held, fun _ member => member, fun _ => rfl, rfl, rfl, rfl, rfl⟩

theorem trans {middle : SessionPrivate} (first : Quiet session middle)
    (second : Quiet middle later) : Quiet session later where
  held request isHeld := first.held request (second.held request isHeld)
  haveSent entry member := first.haveSent entry (second.haveSent entry member)
  message request := (second.message request).trans (first.message request)
  messagesCounter := second.messagesCounter.trans first.messagesCounter
  started := second.started.trans first.started
  sessionId := second.sessionId.trans first.sessionId
  issued := second.issued.trans first.issued

theorem of_fewer (fewer : Fewer later session)
    (messagesCounter : later.messagesCounter = session.messagesCounter)
    (started : later.sessionMarkedAsStarted = session.sessionMarkedAsStarted)
    (sessionId : later.sessionId = session.sessionId) : Quiet session later where
  held request isHeld := by
    rcases isHeld with ⟨requestId, waits⟩ | ⟨msgId, sent⟩
    · exact .inl ⟨requestId, fewer.toSend _ waits⟩
    · exact .inr ⟨msgId, fewer.haveSent _ sent⟩
  haveSent := fewer.haveSent
  message request := by rw [messageOf, messageOf, fewer.header]
  messagesCounter := messagesCounter
  started := started
  sessionId := sessionId
  issued := fewer.issued

theorem of_forgets (forgets : Forgets session later) : Quiet session later :=
  of_fewer forgets.fewer forgets.messagesCounter forgets.same.started forgets.same.sessionId

theorem cancel (session : SessionPrivate) (requestId : Int) (msgId : Nat) :
    Quiet session (session.cancel requestId msgId) := by
  refine of_fewer (Fewer.cancel session requestId msgId) ?_ ?_ ?_
  all_goals
    unfold SessionPrivate.cancel
    split <;> split <;> rfl

theorem ackSent (session : SessionPrivate) (entry : Nat × Request) :
    Quiet session (session.ackSent entry) where
  held request isHeld := by
    rcases isHeld with waits | ⟨msgId, sent⟩
    · exact .inl waits
    · exact .inr ⟨msgId, (mem_erase.mp sent).1⟩
  haveSent _ member := (mem_erase.mp member).1
  message _ := rfl
  messagesCounter := rfl
  started := rfl
  sessionId := rfl
  issued := rfl

theorem ackResending (session : SessionPrivate) (entry : Nat × Int) (request : Request) :
    Quiet session (session.ackResending entry request) where
  held request isHeld := by
    rcases isHeld with ⟨requestId, waits⟩ | sent
    · exact .inl ⟨requestId, (mem_erase.mp waits).1⟩
    · exact .inr sent
  haveSent _ member := member
  message _ := rfl
  messagesCounter := rfl
  started := rfl
  sessionId := rfl
  issued := rfl

theorem resendRequest {entry : Nat × Request} (member : entry ∈ session.haveSent.entries) :
    Quiet session (session.resendRequest entry) where
  held request isHeld := by
    rcases isHeld with ⟨requestId, waits⟩ | ⟨msgId, sent⟩
    · rcases mem_of_mem_emplaceEntry waits with isNew | old
      · obtain ⟨-, rfl⟩ := Prod.mk.inj isNew
        exact .inr ⟨entry.1, member⟩
      · exact .inl ⟨requestId, old⟩
    · exact .inr ⟨msgId, (mem_erase.mp sent).1⟩
  haveSent _ sent := (mem_erase.mp sent).1
  message request := by
    by_cases same : request.requestId = entry.2.requestId
    · simp [messageOf, SessionPrivate.resendRequest, setHeader, same]
    · simp [messageOf, SessionPrivate.resendRequest, setHeader, same]
  messagesCounter := rfl
  started := rfl
  sessionId := rfl
  issued := rfl

theorem keptByAcks : KeptByAcks (fun _ _ => True) (Quiet initial) where
  sent session entry quiet _ _ := quiet.trans (ackSent session entry)
  resending session entry request quiet _ _ _ := quiet.trans (ackResending session entry request)
  notWaiting session entry quiet _ _ _ :=
    quiet.trans (of_fewer (Fewer.forgetResending session entry.1) rfl rfl rfl)
  forgets _ _ quiet forgets := quiet.trans (of_forgets forgets)

theorem keptByResends : KeptByResends (Quiet initial) where
  request _ _ quiet member := quiet.trans (resendRequest member)
  forgets _ _ quiet forgets := quiet.trans (of_forgets forgets)

theorem handleRpcResult (session : SessionPrivate) (hasCallback : Int → Bool)
    (badTime keyCreator : Bool) (bound : HandleResult) (result : RpcResult)
    (requestMsgId outerMsgId : Nat) :
    Quiet session (session.handleRpcResult hasCallback badTime keyCreator bound result
      requestMsgId outerMsgId).2 := by
  unfold SessionPrivate.handleRpcResult
  split
  · exact refl session
  · split
    · exact refl session
    · exact refl session
    · have acked : Quiet session (session.requestsAcked hasCallback true [requestMsgId]) :=
        keptByAcks.requestsAcked (refl session) fun _ _ _ => trivial
      simp only
      split
      · exact acked.trans (of_fewer (Fewer.forgetBind _) rfl rfl rfl)
      · split
        · exact acked.trans ⟨fun _ held => held, fun _ member => member, fun _ => rfl, rfl, rfl,
            rfl, rfl⟩
        · exact acked

end Quiet

/-- What numbers no message. -/
def Traffic.quiet : Traffic → Bool
  | .sendPrepared _ => false
  | .tryToSend _ => false
  | .changeSessionId => false
  | _ => true

theorem Quiet.handle (session : SessionPrivate) (hasCallback : Int → Bool) {event : Traffic}
    (isQuiet : event.quiet = true) : Quiet session (session.handle msgIds hasCallback event) := by
  have begins := Quiet.refl session
  cases event with
  | sendPrepared request => cases isQuiet
  | cancel requestId msgId => exact Quiet.cancel session requestId msgId
  | tryToSend found => cases isQuiet
  | msgsAck ids => exact Quiet.keptByAcks.requestsAcked begins fun _ _ _ => trivial
  | rpcResult badTime keyCreator bound result requestMsgId outerMsgId =>
    exact Quiet.handleRpcResult ..
  | msgsStateInfo reqMsgId received =>
    change Quiet session (session.msgsStateInfo hasCallback reqMsgId received)
    unfold msgsStateInfo
    split
    · exact begins
    · exact Quiet.keptByResends.handleMsgsStates Quiet.keptByAcks
        (Quiet.keptByAcks.requestsAcked begins fun _ _ _ => trivial) fun _ _ _ => trivial
  | msgsAllInfo ids received =>
    exact Quiet.keptByResends.handleMsgsStates Quiet.keptByAcks begins fun _ _ _ => trivial
  | badMsgNotification resendId errorCode outerMsgId =>
    change Quiet session (session.badMsgNotification resendId errorCode outerMsgId).2
    unfold badMsgNotification
    simp only
    split
    · split
      · exact begins
      · split
        · exact Quiet.keptByResends.resend begins
        · exact begins
    · split
      · exact begins
      · exact ⟨fun _ held => held, fun _ member => member, fun _ => rfl, rfl, rfl, rfl, rfl⟩
  | badServerSalt resendId =>
    change Quiet session (session.badServerSalt resendId)
    unfold badServerSalt
    split
    · exact begins
    · exact Quiet.keptByResends.resend begins
  | newSessionCreated firstMsgId outerMsgId =>
    have resent : ∀ ids : List Nat, Quiet session (ids.foldl resend session) :=
      fun _ => Quiet.keptByResends.resendIds begins
    exact (resent _).trans ⟨fun _ held => held, fun _ member => member, fun _ => rfl, rfl, rfl,
      rfl, rfl⟩
  | clearOldContainers old => exact Quiet.keptByResends.clearOldContainers begins
  | resendAll => exact Quiet.keptByResends.resendAll begins
  | changeSessionId => cases isQuiet
  | restart => exact ⟨fun _ held => held, fun _ member => member, fun _ => rfl, rfl, rfl, rfl, rfl⟩

/-- `resendAll` leaves nothing that was sent. -/
theorem resendAll_haveSent (session : SessionPrivate) : session.resendAll.haveSent = ∅ := by
  have erases : ∀ (entries : List (Nat × Request)) (before : SessionPrivate),
      ∀ entry ∈ (entries.foldl resendRequest before).haveSent.entries,
        entry ∈ before.haveSent.entries ∧ entry ∉ entries := by
    intro entries
    induction entries with
    | nil => exact fun before entry member => ⟨member, not_mem_nil⟩
    | cons first rest ih =>
      intro before entry member
      obtain ⟨kept, notLater⟩ := ih (before.resendRequest first) entry member
      obtain ⟨old, distinct⟩ := mem_erase.mp kept
      refine ⟨old, fun inEntries => ?_⟩
      rcases mem_cons.mp inEntries with rfl | inRest
      · exact distinct rfl
      · exact notLater inRest
  apply ext_entries
  refine eq_nil_iff_forall_not_mem.mpr fun entry member => ?_
  obtain ⟨old, erased⟩ := erases session.haveSent.entries session entry member
  exact erased old

variable {since : Nat} {assigned : List Message}

section

variable
  (numbers : Numbers since (msgIds session.issued) false assigned session.toSend.entries session)

include numbers

theorem Numbers.sendPrepared {request : Request} (identified : 0 < request.requestId)
    (own : ∀ other, Held session.toSend.entries session other →
      other.requestId = request.requestId → other = request) :
    Numbers since (msgIds session.issued) false assigned
      (session.sendPrepared request).toSend.entries (session.sendPrepared request) := by
  have held : ∀ other,
      Held (session.sendPrepared request).toSend.entries (session.sendPrepared request) other →
        other = request ∨ Held session.toSend.entries session other := by
    rintro other (⟨requestId, waits⟩ | ⟨msgId, sent⟩)
    · rcases mem_of_mem_emplaceEntry waits with isNew | old
      · exact .inl (congrArg Prod.snd isNew)
      · exact .inr (.inl ⟨requestId, old⟩)
    · exact .inr (.inr ⟨msgId, sent⟩)
  refine ⟨numbers.numbered, numbers.below, numbers.began, ?_, ?_, ?_⟩
  · intro other isHeld
    rcases held other isHeld with rfl | old
    · exact identified
    · exact numbers.identified other old
  · intro first second firstHeld secondHeld same
    rcases held first firstHeld with rfl | firstOld
    · rcases held second secondHeld with rfl | secondOld
      · rfl
      · exact (own second secondOld same.symm).symm
    · rcases held second secondHeld with rfl | secondOld
      · exact own first firstOld same
      · exact numbers.unique first second firstOld secondOld same
  · intro isStarted other isHeld _
    by_cases same : other.requestId = request.requestId
    · intro isAssigned
      exact (isAssigned (by simp [SessionPrivate.sendPrepared, setHeader, same])).elim
    · have distinct : other ≠ request := fun isRequest => same (congrArg _ isRequest)
      have isNumbered := numbers.isNumbered isStarted other
        ((held other isHeld).resolve_left distinct) fun never => by cases never
      simpa [IsNumbered, messageOf, SessionPrivate.sendPrepared, setHeader, same] using isNumbered

theorem Numbers.changeSessionId :
    Numbers (msgIds session.issued) (msgIds session.issued) false []
      session.changeSessionId.toSend.entries session.changeSessionId where
  numbered := Numbered.none _ _
  below _ member := by cases member
  began := le_rfl
  identified := numbers.identified
  unique := numbers.unique
  isNumbered isStarted := by cases isStarted

end

end SessionPrivate

open SessionPrivate (Sound Numbers Held Quiet)

/-- A session, whether it is connected, and what it has sent under which session
id. -/
structure Outgoing where
  session : SessionPrivate := {}
  connected : Bool := false
  sent : List (Nat × Packet) := []

namespace Outgoing

/-- The session connects and resends all requests, or is restarted, or something else
happens to it. -/
inductive Event
  | traffic (hasCallback : Int → Bool) (event : SessionPrivate.Traffic)
  | connect
  | disconnect

def enabled (outgoing : Outgoing) : Event → Bool
  | .traffic _ (.sendPrepared request) =>
    decide (0 < request.requestId) &&
      (outgoing.session.toSend.entries.all fun entry =>
        entry.2.requestId ≠ request.requestId || entry.2 = request) &&
      outgoing.session.haveSent.entries.all fun entry =>
        entry.2.requestId ≠ request.requestId || entry.2 = request
  | .traffic _ (.tryToSend found) => found.connected == outgoing.connected
  | _ => true

/-- The session has to connect again after its id has changed. -/
def handle (msgIds : Nat → Nat) (outgoing : Outgoing) : Event → Outgoing
  | .traffic _ (.tryToSend found) =>
    let (packet, session) := outgoing.session.tryToSend msgIds found
    { outgoing with
      session := session
      sent := outgoing.sent ++ packet.toList.map fun packet => (session.sessionId, packet) }
  | .traffic _ .changeSessionId =>
    { outgoing with session := outgoing.session.changeSessionId, connected := false }
  | .traffic hasCallback event =>
    { outgoing with session := outgoing.session.handle msgIds hasCallback event }
  | .connect => { outgoing with session := outgoing.session.resendAll, connected := true }
  | .disconnect => { outgoing with session := outgoing.session.restart, connected := false }

def step (msgIds : Nat → Nat) (outgoing : Outgoing) (event : Event) : Option Outgoing :=
  if outgoing.enabled event then some (outgoing.handle msgIds event) else none

/-- Two messages that were sent under one session id are numbered in the order of
their ids. -/
def Ordered (sent : List (Nat × Packet)) : Prop :=
  ∀ first ∈ sent, ∀ second ∈ sent, first.1 = second.1 →
    ∀ message ∈ first.2.messages, ∀ other ∈ second.2.messages, message.msgId < other.msgId →
      message.next ≤ other.number

/-- The ids of one session are below those of the next. -/
def Separate (sent : List (Nat × Packet)) : Prop :=
  ∀ first ∈ sent, ∀ second ∈ sent, first.1 < second.1 →
    ∀ message ∈ first.2.messages, ∀ other ∈ second.2.messages, message.msgId < other.msgId

/-- The numbers and ids of all that was sent, in this session and in earlier ones. -/
structure Invariant (msgIds : Nat → Nat) (since : Nat) (assigned : List Message)
    (outgoing : Outgoing) : Prop where
  sound : Sound msgIds outgoing.session
  numbers : Numbers since (msgIds outgoing.session.issued) false assigned
    outgoing.session.toSend.entries outgoing.session
  current : ∀ sent ∈ outgoing.sent, sent.1 = outgoing.session.sessionId →
    ∀ message ∈ sent.2.messages, message ∈ assigned
  earlier : ∀ sent ∈ outgoing.sent, sent.1 ≠ outgoing.session.sessionId →
    sent.1 < outgoing.session.sessionId ∧ ∀ message ∈ sent.2.messages, message.msgId < since
  emptied : outgoing.connected = true → outgoing.session.sessionMarkedAsStarted = false →
    outgoing.session.haveSent = ∅
  valid : ∀ sent ∈ outgoing.sent, sent.2.Valid
  ordered : Ordered outgoing.sent
  separate : Separate outgoing.sent

section Run

variable {msgIds : Nat → Nat} {since : Nat} {assigned : List Message} {outgoing : Outgoing}

theorem Invariant.initial : Invariant msgIds 0 [] {} where
  sound := Sound.initial
  numbers :=
    { numbered := Numbered.none 0 0
      below := fun _ member => by cases member
      began := Nat.zero_le _
      identified := by rintro request (⟨_, member⟩ | ⟨_, member⟩) <;> cases member
      unique := by rintro first second (⟨_, member⟩ | ⟨_, member⟩) <;> cases member
      isNumbered := fun isStarted => by cases isStarted }
  current _ member := by cases member
  earlier _ member := by cases member
  emptied connected := by cases connected
  valid _ member := by cases member
  ordered _ member := by cases member
  separate _ member := by cases member

variable {session : SessionPrivate}

theorem Invariant.of_quiet (inv : Invariant msgIds since assigned outgoing)
    (sound : Sound msgIds session) (quiet : Quiet outgoing.session session) {connected : Bool}
    (emptied : connected = true → outgoing.connected = true ∨ session.haveSent = ∅) :
    Invariant msgIds since assigned
      { outgoing with session := session, connected := connected } where
  sound := sound
  numbers := by
    rw [quiet.issued]
    exact inv.numbers.of_fewer quiet.held quiet.message quiet.messagesCounter quiet.started
  current := by
    rw [quiet.sessionId]
    exact inv.current
  earlier := by
    rw [quiet.sessionId]
    exact inv.earlier
  emptied isConnected notStarted := by
    rcases emptied isConnected with before | empty
    · rw [quiet.started] at notStarted
      apply ext_entries
      refine eq_nil_iff_forall_not_mem.mpr fun entry member => ?_
      have sent := quiet.haveSent entry member
      rw [inv.emptied before notStarted] at sent
      cases sent
    · exact empty
  valid := inv.valid
  ordered := inv.ordered
  separate := inv.separate

theorem Invariant.sends (inv : Invariant msgIds since assigned outgoing)
    {assignedNow : List Message} {packets : List Packet}
    (sound : Sound msgIds session)
    (numbers : Numbers since (msgIds session.issued) false assignedNow session.toSend.entries
      session)
    (sessionId : session.sessionId = outgoing.session.sessionId)
    (more : ∀ message ∈ assigned, message ∈ assignedNow)
    (inPackets : ∀ packet ∈ packets,
      packet.Valid ∧ ∀ message ∈ packet.messages, message ∈ assignedNow)
    (emptied : outgoing.connected = true → session.sessionMarkedAsStarted = false →
      session.haveSent = ∅) :
    Invariant msgIds since assignedNow
      { outgoing with
        session := session
        sent := outgoing.sent ++ packets.map fun packet => (session.sessionId, packet) } := by
  have current : ∀ sent ∈ outgoing.sent ++ packets.map fun packet => (session.sessionId, packet),
      sent.1 = session.sessionId → ∀ message ∈ sent.2.messages, message ∈ assignedNow := by
    intro sent member isCurrent message inSent
    rcases mem_append.mp member with old | new
    · exact more message (inv.current sent old (isCurrent.trans sessionId) message inSent)
    · obtain ⟨packet, isPacket, rfl⟩ := mem_map.mp new
      exact (inPackets packet isPacket).2 message inSent
  have older : ∀ sent ∈ outgoing.sent ++ packets.map fun packet => (session.sessionId, packet),
      sent.1 ≠ session.sessionId → sent ∈ outgoing.sent := by
    intro sent member notCurrent
    rcases mem_append.mp member with old | new
    · exact old
    · obtain ⟨packet, -, rfl⟩ := mem_map.mp new
      exact (notCurrent rfl).elim
  have earlier : ∀ sent ∈ outgoing.sent ++ packets.map fun packet => (session.sessionId, packet),
      sent.1 ≠ session.sessionId →
        sent.1 < session.sessionId ∧ ∀ message ∈ sent.2.messages, message.msgId < since := by
    intro sent member notCurrent
    have old := older sent member notCurrent
    rw [sessionId] at notCurrent ⊢
    exact inv.earlier sent old notCurrent
  refine ⟨sound, numbers, current, earlier, emptied, ?_, ?_, ?_⟩
  · intro sent member
    rcases mem_append.mp member with old | new
    · exact inv.valid sent old
    · obtain ⟨packet, isPacket, rfl⟩ := mem_map.mp new
      exact (inPackets packet isPacket).1
  · intro first firstMem second secondMem same message inFirst other inSecond
    by_cases isCurrent : first.1 = session.sessionId
    · exact numbers.numbered.ordered _ (current first firstMem isCurrent message inFirst) _
        (current second secondMem (same ▸ isCurrent) other inSecond)
    · exact inv.ordered first (older first firstMem isCurrent) second
        (older second secondMem (same ▸ isCurrent)) same message inFirst other inSecond
  · intro first firstMem second secondMem below message inFirst other inSecond
    by_cases isCurrent : second.1 = session.sessionId
    · have before := (earlier first firstMem (isCurrent ▸ below.ne)).2 message inFirst
      exact before.trans_le (numbers.numbered.since _
        (current second secondMem isCurrent other inSecond))
    · have secondEarlier := (earlier second secondMem isCurrent).1
      exact inv.separate first (older first firstMem (below.trans secondEarlier).ne) second
        (older second secondMem isCurrent) below message inFirst other inSecond

/-- Under a new session id nothing has been sent, and all that was sent is earlier. -/
theorem Invariant.changeSessionId (source : IdSource msgIds)
    (inv : Invariant msgIds since assigned outgoing) :
    Invariant msgIds (msgIds outgoing.session.issued) []
      { outgoing with session := outgoing.session.changeSessionId, connected := false } := by
  have before : ∀ sent ∈ outgoing.sent, sent.1 < outgoing.session.sessionId + 1 ∧
      ∀ message ∈ sent.2.messages, message.msgId < msgIds outgoing.session.issued := by
    intro sent member
    by_cases isCurrent : sent.1 = outgoing.session.sessionId
    · exact ⟨isCurrent ▸ Nat.lt_succ_self _, fun message inSent =>
        inv.numbers.below message (inv.current sent member isCurrent message inSent)⟩
    · obtain ⟨below, ids⟩ := inv.earlier sent member isCurrent
      exact ⟨below.trans (Nat.lt_succ_self _), fun message inSent =>
        (ids message inSent).trans_le inv.numbers.began⟩
  have sound : Sound msgIds
      (outgoing.session.handle msgIds (fun _ => false) .changeSessionId) :=
    inv.sound.handle source rfl
  exact {
    sound := sound
    numbers := inv.numbers.changeSessionId
    current := fun sent member isCurrent =>
      (lt_irrefl _ (isCurrent ▸ (before sent member).1)).elim
    earlier := fun sent member _ => before sent member
    emptied := fun connected => by cases connected
    valid := inv.valid
    ordered := inv.ordered
    separate := inv.separate }

theorem Invariant.traffic (source : IdSource msgIds)
    (inv : Invariant msgIds since assigned outgoing) {hasCallback : Int → Bool} {event : Traffic}
    (enabled : outgoing.enabled (.traffic hasCallback event) = true) :
    ∃ sinceNow assignedNow, Invariant msgIds sinceNow assignedNow
      (outgoing.handle msgIds (.traffic hasCallback event)) := by
  have quiets : event.quiet = true → event.enabled = true →
      Invariant msgIds since assigned
        { outgoing with session := outgoing.session.handle msgIds hasCallback event } :=
    fun isQuiet isEnabled => inv.of_quiet (inv.sound.handle source isEnabled)
      (Quiet.handle outgoing.session hasCallback isQuiet) .inl
  cases event with
  | sendPrepared request =>
    simp only [Outgoing.enabled, Bool.and_eq_true, decide_eq_true_eq, all_eq_true,
      Bool.or_eq_true, decide_not, Bool.not_eq_true', decide_eq_false_iff_not] at enabled
    obtain ⟨⟨identified, waiting⟩, sent⟩ := enabled
    refine ⟨since, assigned, {
      inv with
      sound := inv.sound.sendPrepared source identified
      numbers := inv.numbers.sendPrepared identified ?_ }⟩
    rintro other (⟨requestId, member⟩ | ⟨msgId, member⟩) same
    · exact (waiting _ member).resolve_left fun distinct => distinct same
    · exact (sent _ member).resolve_left fun distinct => distinct same
  | tryToSend found =>
    have connected : found.connected = outgoing.connected := eq_of_beq enabled
    generalize sends : outgoing.session.tryToSend msgIds found = sent
    obtain ⟨⟨assignedNow, numbers, more, inPackets⟩, sessionId, unsent⟩ :=
      tryToSend_numbered source inv.sound inv.numbers found (connected ▸ inv.emptied) sends
    have sound : Sound msgIds sent.2 := sends ▸ inv.sound.tryToSend source found
    have valid : ∀ packet ∈ sent.1.toList,
        packet.Valid ∧ ∀ message ∈ packet.messages, message ∈ assignedNow :=
      fun packet member => inPackets packet (Option.mem_toList.mp member)
    have now := inv.sends sound numbers sessionId more valid (fun isConnected notStarted => by
        obtain ⟨before, same⟩ := unsent notStarted
        rw [same]
        exact inv.emptied isConnected before)
    refine ⟨since, assignedNow, ?_⟩
    rw [Outgoing.handle, sends]
    exact now
  | changeSessionId => exact ⟨_, [], inv.changeSessionId source⟩
  | _ => exact ⟨since, assigned, quiets rfl rfl⟩

/-- Each packet continues the numbers. -/
theorem Invariant.step (source : IdSource msgIds) {event : Event} {later : Outgoing}
    (inv : ∃ since assigned, Invariant msgIds since assigned outgoing)
    (taken : Outgoing.step msgIds outgoing event = some later) :
    ∃ since assigned, Invariant msgIds since assigned later := by
  obtain ⟨since, assigned, inv⟩ := inv
  unfold Outgoing.step at taken
  split at taken
  next enabled =>
    cases taken
    cases event with
    | traffic hasCallback event => exact inv.traffic source enabled
    | connect =>
      refine ⟨since, assigned, inv.of_quiet ?_ ?_ fun _ => .inr (resendAll_haveSent _)⟩
      · exact (keptByResends_sound source).resendAll inv.sound
      · exact Quiet.keptByResends.resendAll (Quiet.refl _)
    | disconnect =>
      have quiet : Quiet outgoing.session outgoing.session.restart :=
        ⟨fun _ held => held, fun _ member => member, fun _ => rfl, rfl, rfl, rfl, rfl⟩
      have sound : Sound msgIds (outgoing.session.handle msgIds (fun _ => false) .restart) :=
        inv.sound.handle source rfl
      exact ⟨since, assigned, inv.of_quiet sound quiet fun never => by cases never⟩
  · cases taken

/-- What is sent is acceptable as long as the numbers fit in 32 bits: containers are
newer than all that is inside, the sequence numbers are in the order of the ids, and
ids of one session are not used in the next. -/
structure Acceptable (outgoing : Outgoing) : Prop where
  valid : ∀ sent ∈ outgoing.sent, sent.2.Valid
  ordered : ∀ first ∈ outgoing.sent, ∀ second ∈ outgoing.sent, first.1 = second.1 →
    ∀ message ∈ first.2.messages, ∀ other ∈ second.2.messages, message.msgId < other.msgId →
      other.number < 2 ^ 32 →
        message.seqNo ≤ other.seqNo ∧ (message.needAck = true → message.seqNo < other.seqNo)
  separate : Separate outgoing.sent
  counted : ∀ sent ∈ outgoing.sent, sent.1 = outgoing.session.sessionId →
    ∀ message ∈ sent.2.messages, message.next ≤ outgoing.session.messagesCounter * 2

/-- At the end of every run what was sent is acceptable. -/
theorem acceptable (source : IdSource msgIds) {events : List Event} {last : Outgoing}
    (ends : run (step msgIds) {} events = some last) : last.Acceptable := by
  obtain ⟨since, assigned, inv⟩ : ∃ since assigned, Invariant msgIds since assigned last := by
    have begins : ∃ since assigned, Invariant msgIds since assigned {} :=
      ⟨0, [], Invariant.initial⟩
    exact run_invariant (fun _ _ _ inv taken => Invariant.step source inv taken) begins ends
  refine ⟨inv.valid, ?_, inv.separate, ?_⟩
  · intro first firstMem second secondMem same message inFirst other inSecond below fits
    have ordered := inv.ordered first firstMem second secondMem same message inFirst other
      inSecond below
    unfold Message.next at ordered
    have otherSeqNo : other.seqNo = other.number := Nat.mod_eq_of_lt fits
    have seqNo : message.seqNo = message.number := Nat.mod_eq_of_lt (by omega)
    rw [seqNo, otherSeqNo]
    refine ⟨by omega, fun needAck => ?_⟩
    rw [needAck, Bool.toNat_true] at ordered
    omega
  · intro sent member isCurrent message inSent
    exact inv.numbers.numbered.counted message (inv.current sent member isCurrent message inSent)

/-- Two requests are sent in a container whose id is too low for the server, and once more;
then the session gets another id, and they are sent in a new container. -/
def sendsAgain : List Event :=
  [.connect, .traffic (fun _ => true) (.sendPrepared ⟨1, true⟩),
    .traffic (fun _ => true) (.sendPrepared ⟨2, true⟩),
    .traffic (fun _ => true) (.tryToSend SessionPrivate.requestsOnly),
    .traffic (fun _ => true) (.badMsgNotification 12 16 20),
    .traffic (fun _ => true) (.tryToSend SessionPrivate.requestsOnly),
    .traffic (fun _ => true) .changeSessionId, .connect,
    .traffic (fun _ => true) (.tryToSend SessionPrivate.requestsOnly)]

theorem acceptable_first :
    ∃ last, run (step SessionPrivate.everyFourth) {} sendsAgain = some last ∧
      last.sent.map (fun sent => (sent.1, sent.2.messages.map Message.msgId)) =
        [(0, [12, 4, 8]), (0, [16, 4, 8]), (1, [28, 20, 24])] ∧
      last.Acceptable := by
  have ends : (run (step everyFourth) {} sendsAgain).map (fun last => last.sent.map
      fun sent => (sent.1, sent.2.messages.map Message.msgId)) =
        some [(0, [12, 4, 8]), (0, [16, 4, 8]), (1, [28, 20, 24])] := by decide +kernel
  obtain ⟨last, reaches, sent⟩ := Option.map_eq_some_iff.mp ends
  exact ⟨last, reaches, sent, acceptable idSource_everyFourth reaches⟩

open SessionPrivate (everyFourth Attempt)

def pingOnly : Attempt := ⟨true, false, false, true, false, none, none, false⟩

def pings (count : Nat) : List Event :=
  .connect :: List.replicate count (.traffic (fun _ => true) (.tryToSend pingOnly))

/-- The session after as many pings, each sent alone. -/
structure Pinged (count : Nat) (outgoing : Outgoing) : Prop where
  toSend : outgoing.session.toSend = ∅
  issued : outgoing.session.issued = count
  messagesCounter : outgoing.session.messagesCounter = count
  sessionId : outgoing.session.sessionId = 0
  connected : outgoing.connected = true
  sent : outgoing.sent = (List.range count).map fun index =>
    (0, .single ⟨everyFourth index, index * 2 + 1, true⟩)

theorem tryToSend_ping (none : session.toSend = ∅) :
    ∃ later, session.tryToSend everyFourth pingOnly =
        (some (.single ⟨everyFourth session.issued, session.messagesCounter * 2 + 1, true⟩),
          later) ∧
      later.toSend = ∅ ∧ later.issued = session.issued + 1 ∧
      later.messagesCounter = session.messagesCounter + 1 ∧
      later.sessionId = session.sessionId := by
  have bind : (session.bindMsgId == 0 && pingOnly.whenConnected.keyCreator &&
      pingOnly.whenConnected.readyToBind) = false := by
    simp [pingOnly, Attempt.whenConnected]
  have ready : session.getReady everyFourth pingOnly.whenConnected false =
      { session with sessionMarkedAsStarted := true } := rfl
  have count : pingOnly.whenConnected.count false = 1 := rfl
  have sendAll : pingOnly.whenConnected.sendAll = true := rfl
  have entries : session.toSend.entries = [] := by
    rw [none]
    rfl
  unfold tryToSend
  rw [if_neg (by decide)]
  simp only [bind, ready, sendAll, if_true, count, entries]
  exact ⟨_, rfl, none, rfl, rfl, rfl⟩

theorem Pinged.step {count : Nat} {outgoing : Outgoing} (pinged : Pinged count outgoing) :
    ∃ later, Outgoing.step everyFourth outgoing (.traffic (fun _ => true) (.tryToSend pingOnly)) =
      some later ∧ Pinged (count + 1) later := by
  have enabled : outgoing.enabled (.traffic (fun _ => true) (.tryToSend pingOnly)) = true := by
    rw [Outgoing.enabled, pinged.connected]
    rfl
  refine ⟨_, by rw [Outgoing.step, if_pos enabled], ?_⟩
  obtain ⟨later, sends, toSend, issued, messagesCounter, sessionId⟩ :=
    tryToSend_ping pinged.toSend
  rw [pinged.issued, pinged.messagesCounter] at sends
  rw [Outgoing.handle, sends]
  exact {
    toSend := toSend
    issued := issued.trans (congrArg _ pinged.issued)
    messagesCounter := messagesCounter.trans (congrArg _ pinged.messagesCounter)
    sessionId := sessionId.trans pinged.sessionId
    connected := pinged.connected
    sent := by simp [pinged.sent, range_succ, sessionId, pinged.sessionId] }

theorem pinged_pings (count : Nat) :
    ∃ last, run (step everyFourth) {} (pings count) = some last ∧ Pinged count last := by
  have begins : Pinged 0 (handle everyFourth {} .connect) := ⟨rfl, rfl, rfl, rfl, rfl, rfl⟩
  have continues : ∀ (more before : Nat) (outgoing : Outgoing), Pinged before outgoing →
      ∃ last, run (Outgoing.step everyFourth) outgoing
        (replicate more (.traffic (fun _ => true) (.tryToSend pingOnly))) = some last ∧
        Pinged (before + more) last := by
    intro more
    induction more with
    | zero => exact fun before outgoing pinged => ⟨outgoing, rfl, pinged⟩
    | succ more ih =>
      intro before outgoing pinged
      obtain ⟨next, taken, pingedNext⟩ := pinged.step
      obtain ⟨last, ends, pingedLast⟩ := ih (before + 1) next pingedNext
      refine ⟨last, ?_, ?_⟩
      · rw [replicate_succ, run, taken]
        exact ends
      · rwa [Nat.add_right_comm, Nat.add_assoc] at pingedLast
  obtain ⟨last, ends, pinged⟩ := continues count 0 _ begins
  rw [zero_add] at pinged
  exact ⟨last, ends, pinged⟩

/-- After as many pings the sequence number begins again. -/
theorem seqNo_not_ordered :
    ∃ last, run (step everyFourth) {} (pings (2 ^ 31 + 1)) = some last ∧
      ¬ ∀ first ∈ last.sent, ∀ second ∈ last.sent, first.1 = second.1 →
        ∀ message ∈ first.2.messages, ∀ other ∈ second.2.messages,
          message.msgId < other.msgId → message.seqNo ≤ other.seqNo := by
  obtain ⟨last, ends, pinged⟩ := pinged_pings (2 ^ 31 + 1)
  refine ⟨last, ends, ?_⟩
  intro ordered
  have sent : ∀ index < 2 ^ 31 + 1,
      ((0, .single ⟨everyFourth index, index * 2 + 1, true⟩) : Nat × Packet) ∈ last.sent := by
    intro index inRange
    rw [pinged.sent]
    exact mem_map.mpr ⟨index, mem_range.mpr inRange, rfl⟩
  have second := ordered _ (sent 1 (by omega)) _ (sent (2 ^ 31) (by omega)) rfl
    ⟨everyFourth 1, 1 * 2 + 1, true⟩ (mem_singleton.mpr rfl)
    ⟨everyFourth (2 ^ 31), 2 ^ 31 * 2 + 1, true⟩ (mem_singleton.mpr rfl)
    (idSource_everyFourth.increasing (by omega))
  change (1 * 2 + 1) % 2 ^ 32 ≤ (2 ^ 31 * 2 + 1) % 2 ^ 32 at second
  omega

end Run

end Outgoing

end TelegramDesktop
