import TelegramDesktop.SessionPrivateTraffic

/-!
# Answers to requests

The answer to a message is handed over under the id of its request, which is looked up
among the acked ids.
-/

namespace TelegramDesktop.SessionPrivate

open FlatMap List

variable {msgIds : Nat → Nat} {session later : SessionPrivate} {hasCallback : Int → Bool}
  {msgId : Nat} {requestId : Int} {request : Request}

/-- The request was sent under the id, or it was and waits to be sent again. -/
def Awaits (session : SessionPrivate) (msgId : Nat) (requestId : Int) : Prop :=
  (∃ request, (msgId, request) ∈ session.haveSent.entries ∧ request.requestId = requestId) ∨
    (msgId, requestId) ∈ session.resendingIds.entries ∧
      session.toSend.contains requestId = true

/-- The answer is handed over once, and the request is nowhere any more. -/
structure Delivered (response : List Int) (outerMsgId : Nat) (requestId : Int)
    (session later : SessionPrivate) : Prop where
  received : later.haveReceivedMessages =
    session.haveReceivedMessages ++ [⟨.rpcResult response, outerMsgId, requestId⟩]
  notSent : ∀ entry ∈ later.haveSent.entries, entry.2.requestId ≠ requestId
  notWaiting : later.toSend.contains requestId = false

/-- How many acked ids are newer. -/
def newerAcked (session : SessionPrivate) (msgId : Nat) : Nat :=
  session.ackedIds.entries.countP fun entry => msgId < entry.1

/-- The request is under no other id, and does not wait while it is sent. -/
def SentOnce (session : SessionPrivate) (msgId : Nat) (requestId : Int) : Prop :=
  (∀ entry ∈ session.haveSent.entries, entry.2.requestId = requestId → entry.1 = msgId) ∧
    (session.haveSent.contains msgId = true → session.toSend.contains requestId = false)

theorem Awaits.uses (awaits : session.Awaits msgId requestId) : session.Uses msgId requestId := by
  rcases awaits with sent | ⟨resending, -⟩
  · exact .inl sent
  · exact uses_of_resendingIds resending

theorem ackOne_sent {byResponse : Bool} {toAckMore : List Nat}
    (notService : ¬ session.IsService msgId) (sent : (msgId, request) ∈ session.haveSent.entries)
    (free : byResponse = true ∨ hasCallback request.requestId = false) :
    ackOne hasCallback byResponse (session, toAckMore) msgId =
      (session.ackSent (msgId, request), toAckMore) := by
  have acks : ¬ (!byResponse && hasCallback request.requestId) = true := by
    rcases free with response | none
    · simp [response]
    · simp [none]
  have noContainer : session.sentContainers.find? msgId = none := by
    by_contra known
    exact notService (.inl (Option.isSome_iff_ne_none.mpr known))
  have noState : ¬ session.stateAndResendRequests.contains msgId = true :=
    fun known => notService (.inr (.inl known))
  unfold ackOne
  simp only [noContainer]
  rw [if_neg noState, find?_eq_some.mpr sent]
  exact if_neg acks

theorem ackOne_resending {toAckMore : List Nat} (notService : ¬ session.IsService msgId)
    (notSent : session.haveSent.contains msgId = false)
    (resending : (msgId, requestId) ∈ session.resendingIds.entries)
    (waiting : (requestId, request) ∈ session.toSend.entries) :
    ackOne hasCallback true (session, toAckMore) msgId =
      (session.ackResending (msgId, requestId) request, toAckMore) := by
  have noContainer : session.sentContainers.find? msgId = none := by
    by_contra known
    exact notService (.inl (Option.isSome_iff_ne_none.mpr known))
  have noState : ¬ session.stateAndResendRequests.contains msgId = true :=
    fun known => notService (.inr (.inl known))
  have missing : session.haveSent.find? msgId = none := by
    simpa [FlatMap.contains] using notSent
  simp [ackOne, noContainer, noState, missing, find?_eq_some.mpr resending,
    find?_eq_some.mpr waiting, ackResending]

variable {acked : SessionPrivate}

theorem requestsAcked_single {byResponse : Bool}
    (one : ackOne hasCallback byResponse (session, []) msgId = (acked, [])) :
    session.requestsAcked hasCallback byResponse [msgId] = acked.trimAcked := by
  simp [requestsAcked, requestsAckedLoop, one]

theorem wasSent_acked (notService : ¬ session.IsService msgId) (positive : msgId ≠ 0)
    (notResending : session.resendingIds.contains msgId = false)
    (notSent : session.haveSent.contains msgId = false) :
    session.wasSent msgId = (session.ackedIds.find? msgId).getD 0 := by
  have notSpecial : ¬ (msgId = session.pingMsgId ∨ msgId = session.bindMsgId) :=
    fun special => notService (.inr (.inr ⟨positive, special⟩))
  have noContainer : ¬ session.sentContainers.contains msgId = true :=
    fun known => notService (.inl known)
  have noResending : session.resendingIds.find? msgId = none := by
    simpa [FlatMap.contains] using notResending
  have missing : session.haveSent.find? msgId = none := by
    simpa [FlatMap.contains] using notSent
  unfold wasSent
  rw [if_neg notSpecial, noResending]
  cases session.ackedIds.find? msgId with
  | none => simp [noContainer, missing]
  | some requestId => rfl

/-- The request is answered: it waits nowhere and its message is acknowledged. -/
structure Settled (msgId : Nat) (requestId : Int) (session acked : SessionPrivate) : Prop where
  notService : ¬ acked.IsService msgId
  notResending : acked.resendingIds.contains msgId = false
  haveSent : acked.haveSent = session.haveSent.erase msgId
  ackedIds : acked.ackedIds = session.ackedIds.emplace msgId requestId
  haveReceivedMessages : acked.haveReceivedMessages = session.haveReceivedMessages
  toSend : acked.toSend = session.toSend ∧ session.haveSent.contains msgId = true ∨
    acked.toSend = session.toSend.erase requestId ∧ session.haveSent.contains msgId = false

theorem Sound.settled (sound : Sound msgIds session) (awaits : session.Awaits msgId requestId)
    (hasCallback : Int → Bool) :
    ∃ acked, session.requestsAcked hasCallback true [msgId] = acked.trimAcked ∧
      Settled msgId requestId session acked := by
  obtain ⟨positive, -, -, notService⟩ := sound.used _ _ awaits.uses
  rcases awaits with ⟨request, sent, rfl⟩ | ⟨resending, waiting⟩
  · have contained := contains_of_mem sent
    exact ⟨_, requestsAcked_single (ackOne_sent notService sent (.inl rfl)), {
      notService := notService
      notResending := sound.resending msgId contained
      haveSent := rfl
      ackedIds := rfl
      haveReceivedMessages := rfl
      toSend := .inl ⟨rfl, contained⟩ }⟩
  · have notSent : session.haveSent.contains msgId = false := by
      rw [← Bool.not_eq_true]
      intro sent
      exact contains_eq_false.mp (sound.resending msgId sent) _ resending rfl
    obtain ⟨request, found⟩ := Option.isSome_iff_exists.mp waiting
    have member := find?_eq_some.mp found
    have owner := (sound.waits _ member).1
    refine ⟨_, requestsAcked_single (ackOne_resending notService notSent resending member), {
      notService := notService
      notResending := ?_
      haveSent := (erase_of_not_contains notSent).symm
      ackedIds := ?_
      haveReceivedMessages := rfl
      toSend := .inr ⟨rfl, notSent⟩ }⟩
    · rw [contains_eq_false]
      exact fun other otherMem => (mem_erase.mp otherMem).2
    · change session.ackedIds.emplace msgId request.requestId = _
      rw [owner]

theorem Settled.find?_trimAcked (settled : Settled msgId requestId
    session acked) (sound : Sound msgIds session) (uses : session.Uses msgId requestId) :
    acked.trimAcked.ackedIds.find? msgId =
      if session.newerAcked msgId < kIdsBufferSize then some requestId else none := by
  have owned : ∀ entry ∈ acked.ackedIds.entries, entry.1 = msgId →
      entry = (msgId, requestId) := by
    rintro ⟨other, owner⟩ member rfl
    rw [settled.ackedIds] at member
    rcases mem_of_mem_emplaceEntry member with isNew | old
    · exact isNew
    · exact Prod.ext rfl (sound.usedOnce _ _ _ (uses_of_ackedIds old) uses)
  have contained : (msgId, requestId) ∈ acked.ackedIds.entries := by
    have known : acked.ackedIds.contains msgId = true := by
      rw [settled.ackedIds]
      exact contains_emplace.mpr (.inl rfl)
    obtain ⟨entry, member, same⟩ := contains_iff.mp known
    rwa [owned entry member same] at member
  have newer : (acked.ackedIds.entries.countP fun entry => msgId < entry.1) =
      session.newerAcked msgId := by
    rw [settled.ackedIds]
    exact countP_emplaceEntry (by simp) _
  have kept : (msgId, requestId) ∈ acked.trimAcked.ackedIds.entries ↔
      session.newerAcked msgId < kIdsBufferSize := by
    rw [← newer]
    exact mem_trim contained
  split
  next few =>
    exact find?_eq_some.mpr (kept.mpr few)
  next many =>
    cases found : acked.trimAcked.ackedIds.find? msgId with
    | none => rfl
    | some owner =>
      have member := find?_eq_some.mp found
      have before : (msgId, owner) ∈ acked.ackedIds.entries :=
        (Forgets.trimAcked acked).fewer.ackedIds _ member
      rw [owned _ before rfl] at member
      exact (many (kept.mp member)).elim

theorem Sound.handleRpcResult_answered (sound : Sound msgIds session)
    (awaits : session.Awaits msgId requestId) (hasCallback : Int → Bool) (keyCreator : Bool)
    (bound : HandleResult) (response : List Int) (outerMsgId : Nat) :
    ∃ acked, Settled msgId requestId session acked ∧
      (session.handleRpcResult hasCallback false keyCreator bound (.response response) msgId
        outerMsgId).2 =
        { acked.trimAcked with
          haveReceivedMessages := session.haveReceivedMessages ++
            if session.newerAcked msgId < kIdsBufferSize then
              [⟨.rpcResult response, outerMsgId, requestId⟩]
            else [] } := by
  obtain ⟨acked, eq, settled⟩ := sound.settled awaits hasCallback
  refine ⟨acked, settled, ?_⟩
  obtain ⟨positive, -, identified, -⟩ := sound.used _ _ awaits.uses
  have notSent : acked.haveSent.contains msgId = false := by
    rw [settled.haveSent, contains_eq_false]
    exact fun other otherMem => (mem_erase.mp otherMem).2
  have notBind : ¬ (keyCreator = true ∧ acked.bindMsgId ≠ 0 ∧ acked.bindMsgId = msgId) :=
    fun bind => settled.notService (.inr (.inr ⟨positive.ne', .inr bind.2.2.symm⟩))
  have wasSent : acked.trimAcked.wasSent msgId =
      if session.newerAcked msgId < kIdsBufferSize then requestId else 0 := by
    have looked : acked.trimAcked.wasSent msgId =
        (acked.trimAcked.ackedIds.find? msgId).getD 0 :=
      wasSent_acked settled.notService positive.ne' settled.notResending notSent
    rw [looked, settled.find?_trimAcked sound awaits.uses]
    split <;> rfl
  have notSpecial : requestId ≠ specialRequestId := by
    unfold specialRequestId
    omega
  have received : acked.trimAcked.haveReceivedMessages = session.haveReceivedMessages :=
    settled.haveReceivedMessages
  have notBindNow : ¬ (keyCreator = true ∧ acked.trimAcked.bindMsgId ≠ 0 ∧
      acked.trimAcked.bindMsgId = msgId) := notBind
  unfold SessionPrivate.handleRpcResult
  simp only [Bool.false_eq_true, false_and, if_false, eq, notBindNow, wasSent]
  by_cases few : session.newerAcked msgId < kIdsBufferSize
  · simp [few, identified.ne', notSpecial, received]
  · simp [few, ← received]

/-- Ids that come every four. -/
def everyFourth (index : Nat) : Nat := 4 * (index + 1)

theorem idSource_everyFourth : IdSource everyFourth where
  increasing := fun first second below => by unfold everyFourth; omega
  positive := fun index => by unfold everyFourth; omega

/-- An attempt that sends requests and nothing else. -/
def requestsOnly : Attempt := ⟨true, false, false, false, false, none, none, false⟩

def firstHasCallback (requestId : Int) : Bool := requestId = 1

def sends (requestId : Int) : List ((Int → Bool) × Traffic) :=
  [(firstHasCallback, .sendPrepared ⟨requestId, true⟩),
    (firstHasCallback, .tryToSend requestsOnly)]

/-- In every state that is reached, the answer to a message that waits for one is
delivered exactly when few of the acked messages are newer and the request was
sent once. -/
theorem delivered_iff (source : IdSource msgIds) {events : List ((Int → Bool) × Traffic)}
    (ends : run (step msgIds) {} events = some session)
    (awaits : session.Awaits msgId requestId) (hasCallback : Int → Bool) (keyCreator : Bool)
    (bound : HandleResult) (response : List Int) (outerMsgId : Nat) :
    Delivered response outerMsgId requestId session
        (session.handleRpcResult hasCallback false keyCreator bound (.response response) msgId
          outerMsgId).2 ↔
      session.newerAcked msgId < kIdsBufferSize ∧ session.SentOnce msgId requestId := by
  obtain ⟨acked, settled, eq⟩ := (Sound.run source ends).handleRpcResult_answered awaits
    hasCallback keyCreator bound response outerMsgId
  rw [eq]
  constructor
  · rintro ⟨received, notSent, notWaiting⟩
    change ∀ entry ∈ acked.haveSent.entries, _ at notSent
    change acked.toSend.contains requestId = false at notWaiting
    rw [settled.haveSent] at notSent
    refine ⟨?_, ?_, ?_⟩
    · by_contra many
      simp [many] at received
    · intro entry member owner
      by_contra distinct
      exact notSent entry (mem_erase.mpr ⟨member, distinct⟩) owner
    · intro sent
      rcases settled.toSend with ⟨same, -⟩ | ⟨-, missing⟩
      · rwa [same] at notWaiting
      · rw [sent] at missing
        cases missing
  · rintro ⟨few, once, notWaiting⟩
    refine ⟨by simp [few], ?_, ?_⟩
    · intro entry member owner
      change entry ∈ acked.haveSent.entries at member
      rw [settled.haveSent] at member
      obtain ⟨old, distinct⟩ := mem_erase.mp member
      exact distinct (once entry old owner)
    · change acked.toSend.contains requestId = false
      rcases settled.toSend with ⟨same, sent⟩ | ⟨erased, -⟩
      · rw [same]
        exact notWaiting sent
      · rw [erased, contains_eq_false]
        exact fun other otherMem => (mem_erase.mp otherMem).2

/-- The answer to a request that was just sent is delivered. -/
theorem delivered_iff_first :
    ∃ session, run (step everyFourth) {} (sends 1) = some session ∧
      (Delivered [7] 9 1 session
          (session.handleRpcResult firstHasCallback false false .success (.response [7]) 4 9).2 ↔
        session.newerAcked 4 < kIdsBufferSize ∧ session.SentOnce 4 1) := by
  have ends : run (step everyFourth) {} (sends 1) =
      some ((({} : SessionPrivate).sendPrepared ⟨1, true⟩).tryToSend everyFourth
        requestsOnly).2 := rfl
  have awaits : Awaits ((({} : SessionPrivate).sendPrepared ⟨1, true⟩).tryToSend everyFourth
      requestsOnly).2 4 1 :=
    Or.inl ⟨⟨1, true⟩, mem_singleton.mpr rfl, rfl⟩
  exact ⟨_, ends, delivered_iff idSource_everyFourth ends awaits firstHasCallback false .success
    [7] 9⟩

def sendsAndAcks (index : Nat) : List ((Int → Bool) × Traffic) :=
  sends (index + 2) ++ [(firstHasCallback, .msgsAck [everyFourth (index + 1)])]

/-- The acked ids after so many rounds. -/
def ackedAfter (count : Nat) : FlatMap Nat Int where
  entries := (List.range count).map fun index => (everyFourth (index + 1), (index : Int) + 2)
  increasing := by
    rw [List.pairwise_map]
    refine List.pairwise_lt_range.imp ?_
    intro first second below
    exact idSource_everyFourth.increasing (Nat.succ_lt_succ below)

/-- The first request waits for its answer, while others were acked. -/
def waitingFirst (count : Nat) (header : Int → RequestHeader) : SessionPrivate :=
  { haveSent := (∅ : FlatMap Nat Request).emplace 4 ⟨1, true⟩
    header := header
    ackedIds := ackedAfter count
    messagesCounter := count + 1
    sessionMarkedAsStarted := true
    issued := count + 1 }

theorem ackedAfter_succ (count : Nat) :
    (ackedAfter count).emplace (everyFourth (count + 1)) ((count : Int) + 2) =
      ackedAfter (count + 1) := by
  apply ext_entries
  have below : ∀ entry ∈ (ackedAfter count).entries, entry.1 < everyFourth (count + 1) := by
    intro entry member
    obtain ⟨index, inRange, rfl⟩ := mem_map.mp member
    exact idSource_everyFourth.increasing (Nat.succ_lt_succ (mem_range.mp inRange))
  have none : ∀ entry ∈ ([] : List (Nat × Int)), everyFourth (count + 1) < entry.1 := by simp
  have joined : emplaceEntry (everyFourth (count + 1)) ((count : Int) + 2)
      ((ackedAfter count).entries ++ []) =
        (ackedAfter count).entries ++ [(everyFourth (count + 1), (count : Int) + 2)] :=
    emplaceEntry_append below none
  rw [append_nil] at joined
  change emplaceEntry _ _ (ackedAfter count).entries = _
  rw [joined]
  simp [ackedAfter, range_succ]

theorem trimAcked_of_few (few : acked.ackedIds.size ≤ kIdsBufferSize) :
    acked.trimAcked = acked := by
  have same : acked.ackedIds.trim kIdsBufferSize acked.ackedIds.size = acked.ackedIds := by
    apply ext_entries
    rw [entries_trim, Nat.sub_eq_zero_of_le few, drop_zero]
  rw [trimAcked, same]

theorem tryToSend_alone {entry : Int × Request} (started : session.sessionMarkedAsStarted = true)
    (only : session.toSend.entries = [entry])
    (alone : (session.header entry.2.requestId).forceSendInContainer = false) :
    (session.tryToSend msgIds requestsOnly).2 =
      (session.sendSingleRequest msgIds entry.2 false).2 := by
  have bind : (session.bindMsgId == 0 && requestsOnly.whenConnected.keyCreator &&
      requestsOnly.whenConnected.readyToBind) = false := by
    simp [requestsOnly, Attempt.whenConnected]
  have ready : session.getReady msgIds requestsOnly.whenConnected false = session := by
    cases session
    cases started
    rfl
  have count : requestsOnly.whenConnected.count false = 0 := rfl
  have sendAll : requestsOnly.whenConnected.sendAll = true := rfl
  unfold tryToSend
  rw [if_neg (by decide)]
  simp only [bind, ready, sendAll, if_true, count, only, alone, started, Bool.not_true,
    Bool.and_false, Bool.false_eq_true, if_false]

theorem run_sendsAndAcks {count : Nat} (few : count < kIdsBufferSize) (header : Int → RequestHeader)
    (alone : ∀ requestId, (header requestId).forceSendInContainer = false) :
    ∃ next, (∀ requestId, (next requestId).forceSendInContainer = false) ∧
      run (step everyFourth) (waitingFirst count header) (sendsAndAcks count) =
        some (waitingFirst (count + 1) next) := by
  let request : Request := ⟨(count : Int) + 2, true⟩
  let newId := everyFourth (count + 1)
  have identified : request.requestId ≠ 0 := by change (count : Int) + 2 ≠ 0; omega
  have positive : 0 < request.requestId := by change (0 : Int) < (count : Int) + 2; omega
  let waits := (waitingFirst count header).sendPrepared request
  let drawn : SessionPrivate := { waits with toSend := ∅, issued := waits.issued + 1 }
  let sent := (drawn.numbered request newId).keep newId request
  have unassigned : (drawn.header request.requestId).msgId = 0 := by
    simp [drawn, waits, sendPrepared, setHeader]
  have unforced : (waits.header request.requestId).forceSendInContainer = false := by
    simp [waits, sendPrepared, setHeader, waitingFirst, alone]
  have sending : (waits.tryToSend everyFourth requestsOnly).2 = sent := by
    have single : waits.toSend.entries = [((count : Int) + 2, request)] := rfl
    rw [tryToSend_alone rfl single unforced,
      sendSingleRequest_eq identified (prepareToSend_new unassigned)]
    rfl
  have notService : ¬ sent.IsService newId := by
    rintro (known | known | ⟨assigned, ping | bind⟩)
    · cases known
    · cases known
    · exact assigned ping
    · exact assigned bind
  have fresh : ∀ other ∈ ((∅ : FlatMap Nat Request).emplace 4 ⟨1, true⟩).entries,
      other.1 ≠ newId := by
    intro other member
    obtain rfl := mem_singleton.mp member
    change 4 ≠ 4 * (count + 1 + 1)
    omega
  have member : (newId, request) ∈ sent.haveSent.entries :=
    (mem_emplace fresh).mpr (.inl rfl)
  have haveSent : sent.haveSent.erase newId = (waitingFirst count header).haveSent :=
    erase_emplace fresh
  have free : false = true ∨ firstHasCallback request.requestId = false := by
    refine .inr (decide_eq_false ?_)
    change (count : Int) + 2 ≠ 1
    omega
  have acked : sent.ackSent (newId, request) = waitingFirst (count + 1) sent.header := by
    have ackedIds := ackedAfter_succ count
    unfold ackSent
    rw [haveSent]
    change { sent with
      haveSent := (waitingFirst count header).haveSent
      ackedIds := (ackedAfter count).emplace (everyFourth (count + 1)) ((count : Int) + 2) } = _
    rw [ackedIds]
    rfl
  have acking : sent.requestsAcked firstHasCallback false [newId] =
      waitingFirst (count + 1) sent.header := by
    rw [requestsAcked_single (ackOne_sent notService member free), acked]
    apply trimAcked_of_few
    change (ackedAfter (count + 1)).entries.length ≤ _
    simp only [ackedAfter, length_map, length_range]
    exact few
  refine ⟨sent.header, ?_, ?_⟩
  · intro requestId
    by_cases same : requestId = request.requestId
    · rw [same]
      simp [sent, numbered, nextRequestSeqNumber, setHeader, drawn, unforced]
    · simp [sent, numbered, nextRequestSeqNumber, setHeader, drawn, waits, sendPrepared, same,
        waitingFirst, alone]
  · have enabled : Traffic.enabled (.sendPrepared request) = true := decide_eq_true positive
    change (step everyFourth (waitingFirst count header) (_, .sendPrepared request)).bind _ = _
    rw [step, if_pos enabled]
    change some ((waits.tryToSend everyFourth requestsOnly).2.requestsAcked firstHasCallback false
      [newId]) = _
    rw [sending, acking]

/-- The first request waits while others are sent and acked. -/
def slowAnswer (count : Nat) : List ((Int → Bool) × Traffic) :=
  sends 1 ++ (List.range count).flatMap sendsAndAcks

theorem run_slowAnswer {count : Nat} (few : count ≤ kIdsBufferSize) :
    ∃ header, (∀ requestId, (header requestId).forceSendInContainer = false) ∧
      run (step everyFourth) {} (slowAnswer count) = some (waitingFirst count header) := by
  induction count with
  | zero =>
    let sent := (({} : SessionPrivate).sendPrepared ⟨1, true⟩).tryToSend everyFourth
      requestsOnly
    refine ⟨sent.2.header, ?_, rfl⟩
    intro requestId
    change (if requestId = 1 then (⟨4, 1, false⟩ : RequestHeader)
      else if requestId = 1 then ⟨0, 0, false⟩ else {}).forceSendInContainer = false
    split
    · rfl
    · rfl
  | succ count ih =>
    obtain ⟨header, alone, ends⟩ := ih (Nat.le_of_succ_le few)
    obtain ⟨next, nextAlone, more⟩ := run_sendsAndAcks few header alone
    refine ⟨next, nextAlone, ?_⟩
    have longer : slowAnswer (count + 1) = slowAnswer count ++ sendsAndAcks count := by
      simp [slowAnswer, range_succ]
    rw [longer, run_append, ends]
    exact more

/-- The answer to the first request is dropped after as many acks as there is
room for. -/
theorem slow_answer_dropped :
    ∃ session, run (step everyFourth) {} (slowAnswer kIdsBufferSize) = some session ∧
      session.Awaits 4 1 ∧
      ¬ Delivered [] 0 1 session
        (session.handleRpcResult firstHasCallback false false .success (.response []) 4 0).2 := by
  obtain ⟨header, -, ends⟩ := run_slowAnswer le_rfl
  have awaits : (waitingFirst kIdsBufferSize header).Awaits 4 1 :=
    Or.inl ⟨⟨1, true⟩, mem_singleton.mpr rfl, rfl⟩
  refine ⟨_, ends, awaits, ?_⟩
  rintro ⟨received, -, -⟩
  have newer : (waitingFirst kIdsBufferSize header).newerAcked 4 = kIdsBufferSize := by
    have all : ∀ entry ∈ (ackedAfter kIdsBufferSize).entries, 4 < entry.1 := by
      intro entry member
      obtain ⟨index, -, rfl⟩ := mem_map.mp member
      change 4 < 4 * (index + 1 + 1)
      omega
    have counted := countP_eq_length.mpr fun entry member => decide_eq_true (all entry member)
    rw [newerAcked]
    refine counted.trans ?_
    simp [ackedAfter]
  obtain ⟨acked, -, eq⟩ := (Sound.run idSource_everyFourth ends).handleRpcResult_answered awaits
    firstHasCallback false .success [] 0
  rw [eq, newer] at received
  simp at received

end TelegramDesktop.SessionPrivate
