import TelegramDesktop.SessionPrivateTraffic

/-!
# Sequence numbers of a session

The messages of a session are numbered in the order of their ids: a message gets the
newest id there is, and a number that counts the messages before it that need an ack.
-/

namespace TelegramDesktop

open List

/-- The counter after the message. -/
def Message.next (message : Message) : Nat := message.number + message.needAck.toNat

def Packet.messages : Packet → List Message
  | .single message => [message]
  | .container outer inner => outer :: inner

/-- A container is newer than all that is inside, and nothing is inside twice. -/
structure Packet.Contains (outer : Message) (inner : List Message) : Prop where
  newest : ∀ message ∈ inner, message.msgId < outer.msgId
  distinct : (inner.map Message.msgId).Nodup

/-- A container is above all that is inside. -/
def Packet.Valid : Packet → Prop
  | .single _ => True
  | .container outer inner => Contains outer inner

/-- What was assigned since some id, when as many were counted. -/
structure Numbered (since counter : Nat) (assigned : List Message) : Prop where
  ordered : ∀ first ∈ assigned, ∀ second ∈ assigned, first.msgId < second.msgId →
    first.next ≤ second.number
  counted : ∀ message ∈ assigned, message.next ≤ counter * 2
  since : ∀ message ∈ assigned, since ≤ message.msgId

namespace Numbered

variable {since counter newId : Nat} {assigned : List Message}

theorem none (since counter : Nat) : Numbered since counter [] where
  ordered _ member := by cases member
  counted _ member := by cases member
  since _ member := by cases member

theorem assign (numbered : Numbered since counter assigned)
    (above : ∀ message ∈ assigned, message.msgId < newId) (began : since ≤ newId) (needAck : Bool) :
    Numbered since (counter + needAck.toNat)
      (assigned ++ [⟨newId, counter * 2 + needAck.toNat, needAck⟩]) where
  ordered first firstMem second secondMem below := by
    rcases mem_append.mp firstMem with firstOld | firstNew
    · rcases mem_append.mp secondMem with secondOld | secondNew
      · exact numbered.ordered first firstOld second secondOld below
      · obtain rfl := mem_singleton.mp secondNew
        have counted := numbered.counted first firstOld
        exact counted.trans (Nat.le_add_right _ _)
    · obtain rfl := mem_singleton.mp firstNew
      rcases mem_append.mp secondMem with secondOld | secondNew
      · exact (lt_asymm below (above second secondOld)).elim
      · obtain rfl := mem_singleton.mp secondNew
        exact (lt_irrefl _ below).elim
  counted message member := by
    rcases mem_append.mp member with old | isNew
    · have counted := numbered.counted message old
      omega
    · obtain rfl := mem_singleton.mp isNew
      change counter * 2 + needAck.toNat + needAck.toNat ≤ _
      omega
  since message member := by
    rcases mem_append.mp member with old | isNew
    · exact numbered.since message old
    · obtain rfl := mem_singleton.mp isNew
      exact began

end Numbered

namespace SessionPrivate

variable {msgIds : Nat → Nat} {session later : SessionPrivate} {assigned : List Message}
  {waiting : List (Int × Request)} {since bound : Nat} {forceNewMsgId : Bool}

/-- The request waits or is kept as sent. -/
def Held (waiting : List (Int × Request)) (session : SessionPrivate) (request : Request) : Prop :=
  (∃ requestId, (requestId, request) ∈ waiting) ∨
    ∃ msgId, (msgId, request) ∈ session.haveSent.entries

/-- If the request has an id, it has it with a number of the session. -/
def IsNumbered (assigned : List Message) (session : SessionPrivate) (request : Request) : Prop :=
  (session.header request.requestId).msgId ≠ 0 → session.messageOf request ∈ assigned

/-- The requests of a session have numbers of the session, once it was started, but
those that wait while all of them get new ones. -/
structure Numbers (since bound : Nat) (forceNewMsgId : Bool) (assigned : List Message)
    (waiting : List (Int × Request)) (session : SessionPrivate) : Prop where
  numbered : Numbered since session.messagesCounter assigned
  below : ∀ message ∈ assigned, message.msgId < bound
  began : since ≤ bound
  identified : ∀ request, Held waiting session request → 0 < request.requestId
  unique : ∀ first second, Held waiting session first → Held waiting session second →
    first.requestId = second.requestId → first = second
  isNumbered : session.sessionMarkedAsStarted = true → ∀ request, Held waiting session request →
    (forceNewMsgId = true → ∃ msgId, (msgId, request) ∈ session.haveSent.entries) →
      IsNumbered assigned session request

namespace Numbers

theorem of_fewer {waitingNow : List (Int × Request)}
    (numbers : Numbers since bound false assigned waiting session)
    (held : ∀ request, Held waitingNow later request → Held waiting session request)
    (message : ∀ request, later.messageOf request = session.messageOf request)
    (messagesCounter : later.messagesCounter = session.messagesCounter)
    (started : later.sessionMarkedAsStarted = session.sessionMarkedAsStarted) :
    Numbers since bound false assigned waitingNow later where
  numbered := messagesCounter ▸ numbers.numbered
  below := numbers.below
  began := numbers.began
  identified request isHeld := numbers.identified request (held request isHeld)
  unique first second firstHeld secondHeld :=
    numbers.unique first second (held first firstHeld) (held second secondHeld)
  isNumbered isStarted request isHeld _ assignedNow := by
    have same : (session.header request.requestId).msgId =
        (later.header request.requestId).msgId := congrArg Message.msgId (message request).symm
    rw [message]
    exact numbers.isNumbered (started ▸ isStarted) request (held request isHeld)
      (fun never => by cases never) (same ▸ assignedNow)

section

variable {boundNow : Nat} (numbers : Numbers since bound forceNewMsgId assigned waiting session)
  (same : SameRequests session later)

include numbers same

theorem of_same {assignedNow : List Message}
    (numbered : Numbered since later.messagesCounter assignedNow)
    (more : ∀ message ∈ assigned, message ∈ assignedNow)
    (below : ∀ message ∈ assignedNow, message.msgId < boundNow) (grows : bound ≤ boundNow) :
    Numbers since boundNow forceNewMsgId assignedNow waiting later := by
  have held : ∀ request, Held waiting later request → Held waiting session request := by
    intro request isHeld
    unfold Held at isHeld ⊢
    rwa [same.haveSent] at isHeld
  refine ⟨numbered, below, numbers.began.trans grows,
    fun request isHeld => numbers.identified request (held request isHeld),
    fun first second firstHeld secondHeld =>
      numbers.unique first second (held first firstHeld) (held second secondHeld), ?_⟩
  intro isStarted request isHeld unforced
  rw [same.started] at isStarted
  rw [same.haveSent] at unforced
  have isNumbered := numbers.isNumbered isStarted request (held request isHeld) unforced
  unfold IsNumbered messageOf at isNumbered ⊢
  rw [same.header _ (numbers.identified request (held request isHeld)).ne']
  exact fun isAssigned => more _ (isNumbered isAssigned)

theorem assign {needAck : Bool}
    (messagesCounter : later.messagesCounter = session.messagesCounter + needAck.toNat)
    (grows : bound < boundNow) :
    Numbers since boundNow forceNewMsgId
      (assigned ++ [⟨bound, session.messagesCounter * 2 + needAck.toNat, needAck⟩])
      waiting later := by
  have numbered := numbers.numbered.assign numbers.below numbers.began needAck
  rw [← messagesCounter] at numbered
  refine numbers.of_same same numbered (fun _ member => mem_append_left _ member) ?_ grows.le
  intro message member
  rcases mem_append.mp member with old | isNew
  · exact (numbers.below message old).trans grows
  · obtain rfl := mem_singleton.mp isNew
    exact grows

end

theorem place {entry : Int × Request} {boundNow : Nat} {result : Nat × SessionPrivate}
    (numbers : Numbers since bound forceNewMsgId assigned (entry :: waiting) session)
    (started : session.sessionMarkedAsStarted = true)
    (prepared : Prepared msgIds entry.2 bound forceNewMsgId session result)
    (header : later.header = result.2.header)
    (messagesCounter : later.messagesCounter = result.2.messagesCounter)
    (haveSent : later.haveSent =
      if entry.2.needAck then result.2.haveSent.emplace result.1 entry.2
      else result.2.haveSent)
    (grows : bound ≤ boundNow) (below : result.1 < boundNow) :
    ∃ assignedNow, (∀ message ∈ assigned, message ∈ assignedNow) ∧
      result.2.messageOf entry.2 ∈ assignedNow ∧
      Numbers since boundNow forceNewMsgId assignedNow waiting later := by
  have isHeld : Held (entry :: waiting) session entry.2 := .inl ⟨entry.1, by simp⟩
  obtain ⟨assignedNow, more, member, numbered, belowNow⟩ : ∃ assignedNow,
      (∀ message ∈ assigned, message ∈ assignedNow) ∧
      result.2.messageOf entry.2 ∈ assignedNow ∧
      Numbered since later.messagesCounter assignedNow ∧
      ∀ message ∈ assignedNow, message.msgId < boundNow := by
    rcases prepared.outcome with ⟨isNew, number, counted⟩ | ⟨notForced, older, -, kept, counted⟩
    · have message : result.2.messageOf entry.2 =
          ⟨bound, session.messagesCounter * 2 + entry.2.needAck.toNat, entry.2.needAck⟩ := by
        rw [messageOf, prepared.header, number, isNew]
      refine ⟨assigned ++ [result.2.messageOf entry.2],
        fun _ member => mem_append_left _ member, by simp, ?_, ?_⟩
      · rw [message, messagesCounter, counted]
        exact numbers.numbered.assign numbers.below numbers.began _
      · intro other member
        rcases mem_append.mp member with old | new
        · exact (numbers.below other old).trans_le grows
        · obtain rfl := mem_singleton.mp new
          rw [message]
          exact isNew ▸ below
    · refine ⟨assigned, fun _ member => member, ?_, ?_,
        fun other member => (numbers.below other member).trans_le grows⟩
      · have positive := (prepared.sound.used _ _ prepared.uses).1
        rw [← prepared.header, kept] at positive
        rw [messageOf, kept]
        exact numbers.isNumbered started entry.2 isHeld (fun forced => by
          rw [notForced] at forced
          cases forced) positive.ne'
      · rw [messagesCounter, counted]
        exact numbers.numbered
  have sent : ∀ request msgId, (msgId, request) ∈ later.haveSent.entries →
      request = entry.2 ∨ ∃ before, (before, request) ∈ session.haveSent.entries := by
    intro request msgId member
    rw [haveSent] at member
    split at member
    · rcases FlatMap.mem_of_mem_emplaceEntry member with isNew | old
      · exact .inl (congrArg Prod.snd isNew)
      · exact .inr (prepared.held _ old)
    · exact .inr (prepared.held _ member)
  have held : ∀ request, Held waiting later request →
      Held (entry :: waiting) session request := by
    rintro request (⟨requestId, waits⟩ | ⟨msgId, member⟩)
    · exact .inl ⟨requestId, mem_cons_of_mem entry waits⟩
    · rcases sent request msgId member with rfl | old
      · exact isHeld
      · exact .inr old
  refine ⟨assignedNow, more, member, numbered, belowNow, numbers.began.trans grows,
    fun request nowHeld => numbers.identified request (held request nowHeld),
    fun first second firstHeld secondHeld =>
      numbers.unique first second (held first firstHeld) (held second secondHeld), ?_⟩
  intro _ request nowHeld unforced
  by_cases same : request.requestId = entry.2.requestId
  · obtain rfl := numbers.unique request entry.2 (held request nowHeld) isHeld same
    unfold IsNumbered messageOf
    rw [header]
    exact fun _ => member
  · have isNumbered := numbers.isNumbered started request (held request nowHeld) (by
      intro forced
      obtain ⟨msgId, member⟩ := unforced forced
      exact (sent request msgId member).resolve_left fun isEntry => same (by rw [isEntry]))
    unfold IsNumbered messageOf at isNumbered ⊢
    rw [header, prepared.header_of_ne _ same]
    exact fun isAssigned => more _ (isNumbered isAssigned)

end Numbers

section Packing

variable {before : List Message} {ready : SessionPrivate}

/-- The messages in a container that is being filled have numbers of the session,
and no request that is left has an id among theirs. -/
structure PacksNumbered (since : Nat) (forceNewMsgId : Bool) (ready : SessionPrivate)
    (before assigned : List Message) (waiting : List (Int × Request)) (packing : Packing) :
    Prop where
  numbers : Numbers since packing.bigMsgId forceNewMsgId assigned
    (waiting ++ packing.session.toSend.entries) packing.session
  more : ∀ message ∈ before, message ∈ assigned
  inner : ∀ message ∈ packing.inner, message ∈ assigned
  distinct : (packing.inner.map Message.msgId).Nodup
  apart : ∀ entry ∈ waiting, (packing.session.header entry.2.requestId).msgId ≠ 0 →
    ∀ message ∈ packing.inner,
      message.msgId ≠ (packing.session.header entry.2.requestId).msgId
  separate : waiting.Pairwise fun first second => first.2.requestId ≠ second.2.requestId
  begun : waiting ≠ [] → ready.sessionMarkedAsStarted = true
  started : packing.session.sessionMarkedAsStarted = ready.sessionMarkedAsStarted
  sessionId : packing.session.sessionId = ready.sessionId
  unsent : ready.sessionMarkedAsStarted = false → packing.session.haveSent = ready.haveSent
  taken : forceNewMsgId = true → packing.session.toSend = ∅

namespace PacksNumbered

variable {packing later : Packing}

theorem distinct_append
    (numbered : PacksNumbered since forceNewMsgId ready before assigned waiting packing)
    {message : Message} (isNew : ∀ other ∈ packing.inner, other.msgId ≠ message.msgId) :
    ((packing.inner ++ [message]).map Message.msgId).Nodup := by
  rw [map_append, nodup_append]
  refine ⟨numbered.distinct, by simp, ?_⟩
  intro msgId member other otherMem
  obtain ⟨inside, insideMem, rfl⟩ := mem_map.mp member
  obtain rfl : other = message.msgId := by simpa using otherMem
  exact isNew inside insideMem

theorem service (numbered : PacksNumbered since forceNewMsgId ready before assigned waiting packing)
    (packs : Packs msgIds packing) {needAck : Bool}
    (placed : PlacedService msgIds packing needAck later)
    (remembers : Remembers packing.bigMsgId later.session session) :
    PacksNumbered since forceNewMsgId ready before
      (assigned ++ [⟨packing.bigMsgId, packing.session.messagesCounter * 2 + needAck.toNat,
        needAck⟩]) waiting { later with session := session } := by
  have same : SameRequests packing.session session := placed.same.trans remembers.same
  have counted := remembers.messagesCounter.trans placed.messagesCounter
  have older : ∀ message ∈ packing.inner, message.msgId ≠ packing.bigMsgId :=
    fun message member => (numbered.numbers.below message (numbered.inner message member)).ne
  have numbers := numbered.numbers.assign same counted placed.below
  rw [← same.toSend] at numbers
  exact {
    numbers := numbers
    more := fun message member => mem_append_left _ (numbered.more message member)
    inner := by
      rw [placed.inner]
      intro message member
      exact mem_append.mpr ((mem_append.mp member).imp_left (numbered.inner message))
    distinct := by
      rw [placed.inner]
      exact numbered.distinct_append older
    apart := by
      intro entry waits
      have identified := (numbered.numbers.identified entry.2
        (.inl ⟨entry.1, mem_append_left _ waits⟩)).ne'
      rw [placed.inner, same.header _ identified]
      intro isAssigned message member
      rcases mem_append.mp member with old | isNew
      · exact numbered.apart entry waits isAssigned message old
      · obtain rfl := mem_singleton.mp isNew
        intro used
        exact packs.fresh.unused _ (used ▸ uses_header identified isAssigned)
    separate := numbered.separate
    begun := numbered.begun
    started := same.started.trans numbered.started
    sessionId := same.sessionId.trans numbered.sessionId
    unsent := fun notStarted => same.haveSent.trans (numbered.unsent notStarted)
    taken := fun forced => same.toSend.trans (numbered.taken forced) }

theorem request {entry : Int × Request} {result : Nat × SessionPrivate}
    (numbered : PacksNumbered since forceNewMsgId ready before assigned (entry :: waiting) packing)
    (placed : PlacedRequest msgIds forceNewMsgId entry.2 packing result later) :
    ∃ assignedNow, PacksNumbered since forceNewMsgId ready before assignedNow waiting later := by
  have prepared := placed.prepared
  have begun := numbered.begun (cons_ne_nil entry waiting)
  have started := numbered.started.trans begun
  obtain ⟨assignedNow, more, member, numbers⟩ := numbered.numbers.place started prepared
    placed.header placed.messagesCounter placed.haveSent placed.grows placed.below
  rw [← placed.toSend] at numbers
  have separate := pairwise_cons.mp numbered.separate
  have uses := prepared.uses
  have isNew : ∀ message ∈ packing.inner, message.msgId ≠ result.1 := by
    intro message inside
    rcases prepared.outcome with ⟨isBig, -⟩ | ⟨-, -, -, kept, -⟩
    · rw [isBig]
      exact (numbered.numbers.below message (numbered.inner message inside)).ne
    · have positive := (prepared.sound.used _ _ uses).1
      rw [← prepared.header, kept] at positive ⊢
      exact numbered.apart entry (by simp) positive.ne' message inside
  refine ⟨assignedNow, {
    numbers := numbers
    more := fun message before => more message (numbered.more message before)
    inner := ?_
    distinct := ?_
    apart := ?_
    separate := separate.2
    begun := fun _ => begun
    started := placed.started.trans numbered.started
    sessionId := placed.sessionId.trans numbered.sessionId
    unsent := fun notStarted => by simp [begun] at notStarted
    taken := fun forced => placed.toSend.trans (numbered.taken forced) }⟩
  · rw [placed.inner]
    intro message inside
    rcases mem_append.mp inside with old | new
    · exact more message (numbered.inner message old)
    · obtain rfl := mem_singleton.mp new
      exact member
  · rw [placed.inner]
    refine numbered.distinct_append ?_
    change ∀ other ∈ packing.inner, other.msgId ≠ (result.2.header entry.2.requestId).msgId
    rw [prepared.header]
    exact isNew
  · intro other waits
    have distinct := (separate.1 other waits).symm
    have otherIdentified := (numbered.numbers.identified other.2
      (.inl ⟨other.1, by simp [waits]⟩)).ne'
    rw [placed.inner, placed.header, prepared.header_of_ne _ distinct]
    intro isAssigned message inside
    rcases mem_append.mp inside with old | new
    · exact numbered.apart other (by simp [waits]) isAssigned message old
    · obtain rfl := mem_singleton.mp new
      change (result.2.header entry.2.requestId).msgId ≠ _
      rw [prepared.header]
      intro same
      have otherUses : result.2.Uses result.1 other.2.requestId := by
        rw [same, ← prepared.header_of_ne _ distinct]
        refine uses_header otherIdentified ?_
        rwa [prepared.header_of_ne _ distinct]
      exact distinct (prepared.sound.usedOnce _ _ _ otherUses uses)

end PacksNumbered

theorem PacksNumbered.start {attempt : Attempt}
    (numbers : Numbers since bound forceNewMsgId assigned ready.toSend.entries ready)
    (grows : bound ≤ msgIds ready.issued) (sendsAll : forceNewMsgId = true → attempt.sendAll = true)
    (started : attempt.sendAll = true → ready.sessionMarkedAsStarted = true)
    (sound : Sound msgIds ready) :
    PacksNumbered since forceNewMsgId ready assigned assigned
      (ready.takeToSend attempt.sendAll).1
      (Packing.start msgIds (ready.takeToSend attempt.sendAll).2) := by
  have all : (ready.takeToSend attempt.sendAll).1 ++
      (Packing.start msgIds (ready.takeToSend attempt.sendAll).2).session.toSend.entries =
        ready.toSend.entries := by
    cases attempt.sendAll with
    | true => exact append_nil _
    | false => rfl
  have kept : ∀ sendAll, (ready.takeToSend sendAll).2 =
      { ready with toSend := (ready.takeToSend sendAll).2.toSend } := by
    rintro (- | -) <;> rfl
  have numbersNow : Numbers since (msgIds ready.issued) forceNewMsgId assigned ready.toSend.entries
      (Packing.start msgIds (ready.takeToSend attempt.sendAll).2).session := by
    rw [kept]
    exact {
      numbered := numbers.numbered
      below := fun message member => (numbers.below message member).trans_le grows
      began := numbers.began.trans grows
      identified := numbers.identified
      unique := numbers.unique
      isNumbered := numbers.isNumbered }
  have big : (Packing.start msgIds (ready.takeToSend attempt.sendAll).2).bigMsgId =
      msgIds ready.issued := by
    rw [kept]
    rfl
  refine {
    numbers := by rw [all, big]; exact numbersNow
    more := fun _ member => member
    inner := fun _ member => by cases member
    distinct := nodup_nil
    apart := fun _ _ _ _ member => by cases member
    separate := ?_
    begun := ?_
    started := by rw [kept]; rfl
    sessionId := by rw [kept]; rfl
    unsent := fun _ => by rw [kept]; rfl
    taken := fun forced => by rw [sendsAll forced]; rfl }
  · unfold takeToSend
    split
    · refine ready.toSend.increasing.imp_of_mem ?_
      intro first second firstMem secondMem below
      rw [(sound.waits first firstMem).1, (sound.waits second secondMem).1]
      exact below.ne
    · exact Pairwise.nil
  · intro some
    refine started ?_
    by_contra notAll
    refine some ?_
    unfold takeToSend
    rw [if_neg notAll]

theorem PacksNumbered.placeBind (source : IdSource msgIds) {packing : Packing}
    (packs : Packs msgIds packing)
    (numbered : PacksNumbered since forceNewMsgId ready before assigned waiting packing)
    (fresh : packing.session.Fresh (packing.session.header 0).msgId)
    (below : (packing.session.header 0).msgId < packing.bigMsgId) (empty : packing.inner = [])
    (bindMessage : packing.session.messageOf ⟨0, true⟩ ∈ assigned) :
    PacksNumbered since forceNewMsgId ready before assigned waiting
      (packing.placeBind msgIds) := by
  obtain ⟨-, same, inner, big, counted⟩ := packs.placeBind source fresh below
  have only : (packing.placeBind msgIds).inner = [packing.session.messageOf ⟨0, true⟩] := by
    rw [inner, empty, nil_append]
  have numbers := numbered.numbers.of_same same
    (counted.symm ▸ numbered.numbers.numbered) (fun _ member => member) numbered.numbers.below
    le_rfl
  rw [← same.toSend, ← big] at numbers
  exact {
    numbers := numbers
    more := numbered.more
    inner := by
      rw [only]
      intro message member
      obtain rfl := mem_singleton.mp member
      exact bindMessage
    distinct := by
      rw [only]
      exact pairwise_singleton _ _
    apart := by
      intro entry waits
      have identified := (numbered.numbers.identified entry.2
        (.inl ⟨entry.1, mem_append_left _ waits⟩)).ne'
      rw [only, same.header _ identified]
      intro isAssigned message member
      obtain rfl := mem_singleton.mp member
      intro used
      exact fresh.unused _ (used ▸ uses_header identified isAssigned)
    separate := numbered.separate
    begun := numbered.begun
    started := same.started.trans numbered.started
    sessionId := same.sessionId.trans numbered.sessionId
    unsent := fun notStarted => same.haveSent.trans (numbered.unsent notStarted)
    taken := fun forced => same.toSend.trans (numbered.taken forced) }

/-- What was sent is numbered, and the session goes on from there. -/
structure SentNumbered (msgIds : Nat → Nat) (since : Nat) (before : List Message)
    (ready : SessionPrivate) (packet : Packet) (later : SessionPrivate) : Prop where
  numbers : ∃ assigned, Numbers since (msgIds later.issued) false assigned later.toSend.entries
    later ∧ (∀ message ∈ before, message ∈ assigned) ∧
    ∀ message ∈ packet.messages, message ∈ assigned
  valid : packet.Valid
  sessionId : later.sessionId = ready.sessionId
  started : later.sessionMarkedAsStarted = ready.sessionMarkedAsStarted
  unsent : ready.sessionMarkedAsStarted = false → later.haveSent = ready.haveSent

theorem Numbers.unforced (numbers : Numbers since bound forceNewMsgId assigned waiting session)
    (none : forceNewMsgId = true → waiting = []) :
    Numbers since bound false assigned waiting session where
  numbered := numbers.numbered
  below := numbers.below
  began := numbers.began
  identified := numbers.identified
  unique := numbers.unique
  isNumbered isStarted request isHeld _ := by
    refine numbers.isNumbered isStarted request isHeld ?_
    intro forced
    refine isHeld.resolve_left ?_
    rintro ⟨requestId, waits⟩
    rw [none forced] at waits
    cases waits

section

variable (source : IdSource msgIds) (sound : Sound msgIds ready)
include source sound

theorem sendContainer_numbered {attempt : Attempt} {bind : Bool}
    (binds : BindReady msgIds bind ready)
    (bindMessage : bind = true → ready.messageOf ⟨0, true⟩ ∈ assigned)
    (numbers : Numbers since (msgIds ready.issued) forceNewMsgId assigned ready.toSend.entries
      ready)
    (sendsAll : forceNewMsgId = true → attempt.sendAll = true)
    (started : attempt.sendAll = true → ready.sessionMarkedAsStarted = true) :
    SentNumbered msgIds since assigned ready
      (ready.sendContainer msgIds attempt bind forceNewMsgId).1
      (ready.sendContainer msgIds attempt bind forceNewMsgId).2 := by
  have fewer := Fewer.takeToSend attempt.sendAll ready
  have takenBinds := binds.fewer fewer
  have startPacks := Packs.start source (fewer.sound source sound)
  have start : PacksNumbered since forceNewMsgId ready assigned assigned
      (ready.takeToSend attempt.sendAll).1
      (Packing.start msgIds (ready.takeToSend attempt.sendAll).2) :=
    PacksNumbered.start numbers le_rfl sendsAll started sound
  obtain ⟨packing, later, packs, ⟨assignedNow, numbered⟩, eq, -, same, issued, counted⟩ :=
    sound.sendContainer source binds (fun waiting packing => ∃ assignedNow,
        PacksNumbered since forceNewMsgId ready assigned assignedNow waiting packing)
      (fun waiting packing needAck later session packs ⟨_, numbered⟩ placed remembers =>
        ⟨_, numbered.service packs placed remembers⟩)
      (fun entry waiting packing result later _ ⟨_, numbered⟩ _ placed =>
        numbered.request placed)
      (fun isBind => by
        refine ⟨assigned, start.placeBind source startPacks
          ((takenBinds isBind).1.mtprotoMsgId msgIds) (takenBinds isBind).2 rfl ?_⟩
        have same : ∀ sendAll, (Packing.start msgIds
            (ready.takeToSend sendAll).2).session.messageOf ⟨0, true⟩ =
              ready.messageOf ⟨0, true⟩ := by rintro (- | -) <;> rfl
        rw [same]
        exact bindMessage isBind)
      (fun _ => ⟨assigned, start⟩)
  rw [eq]
  have countedNone : later.messagesCounter = packing.session.messagesCounter + false.toNat :=
    counted
  have closed := numbered.numbers.assign same countedNone
    (issued ▸ packs.below : packing.bigMsgId < msgIds later.issued)
  rw [nil_append, ← same.toSend] at closed
  refine {
    numbers := ⟨_, closed.unforced ?_, ?_, ?_⟩
    valid := ⟨?_, numbered.distinct⟩
    sessionId := same.sessionId.trans numbered.sessionId
    started := same.started.trans numbered.started
    unsent := fun notStarted => same.haveSent.trans (numbered.unsent notStarted) }
  · intro forced
    rw [same.toSend, numbered.taken forced]
    rfl
  · exact fun message member => mem_append_left _ (numbered.more message member)
  · intro message member
    rcases mem_cons.mp member with rfl | inside
    · exact mem_append_right _ (mem_singleton.mpr rfl)
    · exact mem_append_left _ (numbered.inner message inside)
  · exact fun message inside => numbered.numbers.below message (numbered.inner message inside)

theorem sendSingleRequest_numbered {entry : Int × Request} (only : ready.toSend.entries = [entry])
    (numbers : Numbers since (msgIds ready.issued) forceNewMsgId assigned ready.toSend.entries
      ready)
    (started : ready.sessionMarkedAsStarted = true) :
    SentNumbered msgIds since assigned ready
      (ready.sendSingleRequest msgIds entry.2 forceNewMsgId).1
      (ready.sendSingleRequest msgIds entry.2 forceNewMsgId).2 := by
  have identified : 0 < entry.2.requestId :=
    numbers.identified entry.2 (.inl ⟨entry.1, by simp [only]⟩)
  have prepared := sound.prepareSingle source identified forceNewMsgId
  generalize result_eq : prepareToSend msgIds entry.2 (msgIds ready.issued) forceNewMsgId
    { ready with toSend := ∅, issued := ready.issued + 1 } = result at prepared
  rw [only] at numbers
  have drawn : Numbers since (msgIds ready.issued) forceNewMsgId assigned [entry]
      { ready with toSend := ∅, issued := ready.issued + 1 } :=
    { numbered := numbers.numbered
      below := numbers.below
      began := numbers.began
      identified := numbers.identified
      unique := numbers.unique
      isNumbered := numbers.isNumbered }
  have grows : msgIds ready.issued < msgIds (ready.issued + 1) :=
    source.increasing (Nat.lt_succ_self _)
  have below : result.1 < msgIds (ready.issued + 1) := by
    rcases prepared.outcome with ⟨isNew, -⟩ | ⟨-, older, -⟩
    · rw [isNew]
      exact grows
    · exact older.trans grows
  obtain ⟨assignedNow, more, member, placed⟩ := drawn.place started prepared keep_header
    keep_messagesCounter keep_haveSent grows.le below
  have issued : (result.2.keep result.1 entry.2).issued = ready.issued + 1 :=
    keep_issued.trans prepared.issued
  have toSend : (result.2.keep result.1 entry.2).toSend = ∅ :=
    keep_toSend.trans prepared.toSend
  rw [sendSingleRequest_eq identified.ne' result_eq]
  refine {
    numbers := ⟨assignedNow, ?_, more, fun message inside => ?_⟩
    valid := trivial
    sessionId := keep_sessionId.trans prepared.sessionId
    started := keep_started.trans prepared.started
    unsent := fun notStarted => by simp [started] at notStarted }
  · rw [issued, toSend]
    exact placed.unforced fun _ => rfl
  · obtain rfl := mem_singleton.mp inside
    exact member

/-- The only message of the session itself is sent with the number it has or with the
next one. -/
theorem sendSingleService_numbered {attempt : Attempt} {bind : Bool}
    (binds : BindReady msgIds bind ready)
    (bindMessage : bind = true → ready.messageOf ⟨0, true⟩ ∈ assigned)
    (numbers : Numbers since (msgIds ready.issued) forceNewMsgId assigned ready.toSend.entries
      ready)
    (taken : forceNewMsgId = true → ready.toSend = ∅) (alone : attempt.count bind = 1) :
    SentNumbered msgIds since assigned ready
      (ready.sendSingleService msgIds attempt bind forceNewMsgId).1
      (ready.sendSingleService msgIds attempt bind forceNewMsgId).2 := by
  have grows : msgIds ready.issued < msgIds (ready.issued + 1) :=
    source.increasing (Nat.lt_succ_self _)
  have unforced : forceNewMsgId = true → ready.toSend.entries = [] :=
    fun forced => congrArg FlatMap.entries (taken forced)
  cases bind with
  | true =>
    obtain ⟨later, eq, -, same, issued, counted⟩ :=
      sendSingleService_bind source sound binds attempt forceNewMsgId alone
    rw [eq]
    have kept := numbers.of_same same (counted.symm ▸ numbers.numbered)
      (fun _ member => member) (fun message member => (numbers.below message member).trans grows)
      grows.le
    refine {
      numbers := ⟨assigned, ?_, fun _ member => member, fun message inside => ?_⟩
      valid := trivial
      sessionId := same.sessionId
      started := same.started
      unsent := fun _ => same.haveSent }
    · rw [issued, same.toSend]
      exact kept.unforced unforced
    · obtain rfl := mem_singleton.mp inside
      exact bindMessage rfl
  | false =>
    obtain ⟨needAck, later, eq, -, same, issued, counted⟩ :=
      sendSingleService_new source sound attempt forceNewMsgId
    rw [eq]
    have placed := numbers.assign same counted grows
    refine {
      numbers := ⟨assigned ++ [⟨msgIds ready.issued,
        ready.messagesCounter * 2 + needAck.toNat, needAck⟩], ?_,
        fun _ member => mem_append_left _ member, fun message inside => ?_⟩
      valid := trivial
      sessionId := same.sessionId
      started := same.started
      unsent := fun _ => same.haveSent }
    · rw [issued, same.toSend]
      exact placed.unforced unforced
    · exact mem_append_right _ inside

end

end Packing

theorem Attempt.connected_of_sendAll {found : Attempt}
    (sendAll : found.whenConnected.sendAll = true) : found.connected = true := by
  unfold whenConnected at sendAll
  split at sendAll
  next connected =>
    exact connected
  · simp_all [Attempt.sendAll]

theorem GotReady.numbers (source : IdSource msgIds) {attempt : Attempt} {bind : Bool}
    {ready : SessionPrivate} (got : GotReady msgIds attempt bind session ready)
    (numbers : Numbers since (msgIds session.issued) false assigned session.toSend.entries
      session)
    (emptied : attempt.sendAll = true → session.sessionMarkedAsStarted = false →
      session.haveSent = ∅) :
    ∃ assignedNow,
      Numbers since (msgIds ready.issued)
        (attempt.sendAll && !session.sessionMarkedAsStarted) assignedNow ready.toSend.entries
        ready ∧
      (∀ message ∈ assigned, message ∈ assignedNow) ∧
      (bind = true → ready.messageOf ⟨0, true⟩ ∈ assignedNow) := by
  obtain ⟨assignedNow, numbered, more, below, bindMessage⟩ : ∃ assignedNow,
      Numbered since ready.messagesCounter assignedNow ∧
      (∀ message ∈ assigned, message ∈ assignedNow) ∧
      (∀ message ∈ assignedNow, message.msgId < msgIds ready.issued) ∧
      (bind = true → ready.messageOf ⟨0, true⟩ ∈ assignedNow) := by
    rw [got.messagesCounter, got.issued]
    cases bind with
    | false =>
      exact ⟨assigned, numbers.numbered, fun _ member => member, numbers.below,
        fun never => by cases never⟩
    | true =>
      have grows : msgIds session.issued < msgIds (session.issued + true.toNat) :=
        source.increasing (Nat.lt_succ_self _)
      refine ⟨_, numbers.numbered.assign numbers.below numbers.began true,
        fun _ member => mem_append_left _ member, ?_, fun isBind => ?_⟩
      · intro message member
        rcases mem_append.mp member with old | isNew
        · exact (numbers.below message old).trans grows
        · obtain rfl := mem_singleton.mp isNew
          exact grows
      · rw [got.bindMessage isBind]
        exact mem_append_right _ (mem_singleton.mpr rfl)
  have grows : msgIds session.issued ≤ msgIds ready.issued := by
    rw [got.issued]
    exact source.increasing.monotone (Nat.le_add_right _ _)
  have held : ∀ request, Held ready.toSend.entries ready request →
      Held session.toSend.entries session request := by
    intro request isHeld
    unfold Held at isHeld ⊢
    rwa [got.toSend, got.haveSent] at isHeld
  refine ⟨assignedNow, ⟨numbered, below, numbers.began.trans grows,
    fun request isHeld => numbers.identified request (held request isHeld),
    fun first second firstHeld secondHeld =>
      numbers.unique first second (held first firstHeld) (held second secondHeld), ?_⟩,
    more, bindMessage⟩
  intro isStarted request isHeld unforced
  cases started : session.sessionMarkedAsStarted with
  | true =>
    have isNumbered := numbers.isNumbered started request (held request isHeld)
      fun never => by cases never
    unfold IsNumbered messageOf at isNumbered ⊢
    rw [got.header _ (numbers.identified request (held request isHeld)).ne']
    exact fun isAssigned => more _ (isNumbered isAssigned)
  | false =>
    rw [got.started, started, Bool.false_or] at isStarted
    obtain ⟨msgId, sent⟩ := unforced (by simp [isStarted, started])
    rw [got.haveSent, emptied isStarted started] at sent
    cases sent

theorem tryToSend_numbered (source : IdSource msgIds) (sound : Sound msgIds session)
    (numbers : Numbers since (msgIds session.issued) false assigned session.toSend.entries
      session)
    (found : Attempt)
    (emptied : found.connected = true → session.sessionMarkedAsStarted = false →
      session.haveSent = ∅)
    {later : SessionPrivate} {sent : Option Packet}
    (sends : session.tryToSend msgIds found = (sent, later)) :
    (∃ assignedNow,
      Numbers since (msgIds later.issued) false assignedNow later.toSend.entries later ∧
      (∀ message ∈ assigned, message ∈ assignedNow) ∧
      ∀ packet ∈ sent, packet.Valid ∧ ∀ message ∈ packet.messages, message ∈ assignedNow) ∧
    later.sessionId = session.sessionId ∧
    (later.sessionMarkedAsStarted = false →
      session.sessionMarkedAsStarted = false ∧ later.haveSent = session.haveSent) := by
  rcases tryToSend_cases msgIds found session with
    eq | ⟨attempt, bind, ready, forceNewMsgId, isAttempt, readyEq, isForced, cases⟩
  · obtain ⟨rfl, rfl⟩ := Prod.mk.inj (eq.symm.trans sends)
    exact ⟨⟨assigned, numbers, fun _ member => member, fun _ none => by cases none⟩, rfl,
      fun notStarted => ⟨notStarted, rfl⟩⟩
  · have got := sound.getReady source attempt bind
    rw [← readyEq] at got
    have sendsAll : forceNewMsgId = true → attempt.sendAll = true := by
      rw [isForced, Bool.and_eq_true]
      exact And.left
    have started : attempt.sendAll = true → ready.sessionMarkedAsStarted = true := by
      intro sendAll
      rw [got.started, sendAll, Bool.or_true]
    have notStarted : ready.sessionMarkedAsStarted = false →
        session.sessionMarkedAsStarted = false := by
      rw [got.started, Bool.or_eq_false_iff]
      exact And.left
    obtain ⟨assignedReady, numbersReady, moreReady, bindMessage⟩ := got.numbers source numbers
      fun sendAll => emptied (Attempt.connected_of_sendAll (isAttempt ▸ sendAll))
    rw [← isForced] at numbersReady
    rcases cases with ⟨none, eq⟩ | others
    · obtain ⟨rfl, rfl⟩ := Prod.mk.inj (eq.symm.trans sends)
      refine ⟨⟨assignedReady, numbersReady.unforced ?_, moreReady, fun _ none => by cases none⟩,
        got.sessionId, fun notNow => ⟨notStarted notNow, got.haveSent⟩⟩
      intro forced
      rw [got.toSend, none (sendsAll forced)]
      rfl
    have sentNumbered : ∃ packet, SentNumbered msgIds since assignedReady ready packet later ∧
        sent = some packet := by
      rcases others with ⟨entry, packet, sendAll, only, sentEq, eq⟩ |
        ⟨packet, none, alone, sentEq, eq⟩ | ⟨packet, sentEq, eq⟩
      · obtain ⟨rfl, rfl⟩ := Prod.mk.inj (eq.symm.trans sends)
        refine ⟨packet.1, ?_, rfl⟩
        rw [← sentEq]
        exact sendSingleRequest_numbered source got.sound (got.toSend ▸ only) numbersReady
          (started sendAll)
      · obtain ⟨rfl, rfl⟩ := Prod.mk.inj (eq.symm.trans sends)
        refine ⟨packet.1, ?_, rfl⟩
        rw [← sentEq]
        exact sendSingleService_numbered source got.sound got.binds bindMessage numbersReady
          (fun forced => got.toSend.trans (none (sendsAll forced))) alone
      · obtain ⟨rfl, rfl⟩ := Prod.mk.inj (eq.symm.trans sends)
        refine ⟨packet.1, ?_, rfl⟩
        rw [← sentEq]
        exact sendContainer_numbered source got.sound got.binds bindMessage numbersReady sendsAll
          started
    obtain ⟨packet, numbered, rfl⟩ := sentNumbered
    obtain ⟨assignedNow, numbersNow, more, inPacket⟩ := numbered.numbers
    refine ⟨⟨assignedNow, numbersNow,
      fun message member => more message (moreReady message member), ?_⟩,
      numbered.sessionId.trans got.sessionId, ?_⟩
    · intro other isPacket
      obtain rfl := Option.some.inj isPacket
      exact ⟨numbered.valid, inPacket⟩
    · intro notNow
      have notReady := numbered.started ▸ notNow
      exact ⟨notStarted notReady, (numbered.unsent notReady).trans got.haveSent⟩

end SessionPrivate

end TelegramDesktop
