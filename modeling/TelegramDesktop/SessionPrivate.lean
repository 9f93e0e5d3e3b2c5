import TelegramDesktop.ReceivedIdsManager
import Mathlib.Algebra.Group.Nat.Defs

/-!
# Requests of a session

A session sends the requests that wait in `toSend` and keeps those that need an answer
in `haveSent`, as in `mtproto/session_private.cpp` and `mtproto/session.cpp`. Its
message id is drawn from `mtproto_msg_id`, which is not part of the sources: here it is
a sequence of ids.
-/

namespace TelegramDesktop

/-- What of a request never changes.  Requests of the session itself have no id. -/
structure Request where
  requestId : Int
  needAck : Bool
  deriving DecidableEq, Repr

/-- The header of a request: the id and the number of its message. -/
structure RequestHeader where
  msgId : Nat := 0
  number : Nat := 0
  forceSendInContainer : Bool := false
  deriving DecidableEq, Repr

/-- A message as it was sent.  The number counts on where `_messagesCounter`
wraps around, which is the same in the 32 bits of the sequence number. -/
structure Message where
  msgId : Nat
  number : Nat
  needAck : Bool
  deriving DecidableEq, Repr

def Message.seqNo (message : Message) : Nat := message.number % 2 ^ 32

/-- What is sent at once: one message, or a container of several. -/
inductive Packet
  | single (message : Message)
  | container (outer : Message) (inner : List Message)
  deriving DecidableEq, Repr

/-- The answer to a request, and the error that stands for an answer. -/
inductive Reply
  | rpcResult (response : List Int)
  | rpcError (code : Int) (type : String)
  | newSession (firstMsgId : Nat)
  deriving DecidableEq, Repr

/-- An answer that waits for its handler. -/
structure Response where
  reply : Reply
  outerMsgId : Nat
  requestId : Int := 0
  deriving DecidableEq, Repr

/-- The header under the id `0` is that of the service request at hand. -/
structure SessionPrivate where
  toSend : FlatMap Int Request := ∅
  haveSent : FlatMap Nat Request := ∅
  header : Int → RequestHeader := fun _ => {}
  resendingIds : FlatMap Nat Int := ∅
  ackedIds : FlatMap Nat Int := ∅
  stateAndResendRequests : FlatMap Nat (List Nat) := ∅
  sentContainers : FlatMap Nat (List Nat) := ∅
  pingMsgId : Nat := 0
  bindMsgId : Nat := 0
  messagesCounter : Nat := 0
  sessionMarkedAsStarted : Bool := false
  sessionId : Nat := 0
  issued : Nat := 0
  haveReceivedMessages : List Response := []

namespace SessionPrivate

def setHeader (requestId : Int) (header : RequestHeader) (session : SessionPrivate) :
    SessionPrivate :=
  { session with
    header := fun other => if other = requestId then header else session.header other }

/-- The next sequence number, and the session that has counted it. -/
def nextRequestSeqNumber (needAck : Bool) (session : SessionPrivate) : Nat × SessionPrivate :=
  let counted := if needAck then 1 else 0
  (session.messagesCounter * 2 + counted,
    { session with messagesCounter := session.messagesCounter + counted })

/-- The message that carries the request. -/
def messageOf (request : Request) (session : SessionPrivate) : Message :=
  ⟨(session.header request.requestId).msgId, (session.header request.requestId).number,
    request.needAck⟩

/-- A new session, whose counter begins anew. -/
def changeSessionId (session : SessionPrivate) : SessionPrivate :=
  { session with
    sessionId := session.sessionId + 1
    messagesCounter := 0
    sessionMarkedAsStarted := false }

section MsgIds

variable (msgIds : Nat → Nat)

/-- `base::unixtime::mtproto_msg_id()` -/
def mtprotoMsgId (session : SessionPrivate) : Nat × SessionPrivate :=
  (msgIds session.issued, { session with issued := session.issued + 1 })

/-- The loop of `replaceMsgId` that skips ids in use. -/
def unusedMsgId : Nat → Nat → SessionPrivate → Nat × SessionPrivate
  | 0, newId, session => (newId, session)
  | tries + 1, newId, session =>
    if session.resendingIds.contains newId || session.ackedIds.contains newId ||
        session.haveSent.contains newId then
      let (newId, session) := mtprotoMsgId msgIds session
      unusedMsgId tries newId session
    else (newId, session)

/-- The request gets another message id. -/
def replaceMsgId (request : Request) (newId : Nat) (session : SessionPrivate) :
    Nat × SessionPrivate :=
  let header := session.header request.requestId
  if header.msgId = newId then (newId, session)
  else
    let tries := session.resendingIds.size + session.ackedIds.size + session.haveSent.size + 1
    let (newId, session) := unusedMsgId msgIds tries newId session
    let moved := { session with
      resendingIds := session.resendingIds.rekey header.msgId newId
      ackedIds := session.ackedIds.rekey header.msgId newId
      haveSent := session.haveSent.rekey header.msgId newId
      sentContainers := session.sentContainers.mapValues fun messages =>
        messages.map fun innerMsgId => if innerMsgId = header.msgId then newId else innerMsgId }
    let (number, session) := moved.nextRequestSeqNumber request.needAck
    (newId, session.setHeader request.requestId
      { header with msgId := newId, number := number })

/-- The message id and the number that a request is sent with. -/
def prepareToSend (request : Request) (currentLastId : Nat) (forceNewMsgId : Bool)
    (session : SessionPrivate) : Nat × SessionPrivate :=
  let header := session.header request.requestId
  if header.msgId ≠ 0 then
    -- resending this request
    let session := { session with
      resendingIds := session.resendingIds.erase header.msgId }
    if forceNewMsgId || currentLastId < header.msgId then
      replaceMsgId msgIds request currentLastId session
    else (header.msgId, session)
  else
    let (number, session) := session.nextRequestSeqNumber request.needAck
    (currentLastId, session.setHeader request.requestId
      { header with msgId := currentLastId, number := number })

/-- What `tryToSend` finds out before it looks at the requests. -/
structure Attempt where
  connected : Bool
  keyCreator : Bool
  readyToBind : Bool
  ping : Bool
  ackRequest : Bool
  resendRequest : Option (List Nat)
  stateRequest : Option (List Nat)
  httpWait : Bool
  deriving DecidableEq, Repr

def Attempt.sendAll (attempt : Attempt) : Bool := attempt.connected && !attempt.keyCreator

def Attempt.whenConnected (attempt : Attempt) : Attempt :=
  if attempt.connected then attempt
  else { attempt with
    readyToBind := false
    ackRequest := false
    resendRequest := none
    stateRequest := none
    httpWait := false }

/-- The messages besides the requests. -/
def Attempt.count (attempt : Attempt) (bind : Bool) : Nat :=
  attempt.ping.toNat + attempt.ackRequest.toNat + attempt.resendRequest.isSome.toNat +
    attempt.stateRequest.isSome.toNat + attempt.httpWait.toNat + bind.toNat

/-- The session while it fills a container. -/
structure Packing where
  session : SessionPrivate
  bigMsgId : Nat
  inner : List Message := []
  sentIds : List Nat := []

namespace Packing

/-- The packet is begun with the id of its container. -/
def start (session : SessionPrivate) : Packing :=
  let (bigMsgId, session) := mtprotoMsgId msgIds session
  { session := session, bigMsgId := bigMsgId }

/-- `placeToContainer`, and the start of the loop over the requests. -/
def place (forceNewMsgId : Bool) (request : Request) (packing : Packing) : Nat × Packing :=
  let (msgId, session) := prepareToSend msgIds request packing.bigMsgId forceNewMsgId
    packing.session
  let inner := packing.inner ++ [session.messageOf request]
  if packing.bigMsgId ≤ msgId then
    let (bigMsgId, session) := mtprotoMsgId msgIds session
    (msgId, { packing with session := session, bigMsgId := bigMsgId, inner := inner })
  else (msgId, { packing with session := session, inner := inner })

/-- A service message is placed. -/
def placeService (forceNewMsgId needAck : Bool) (packing : Packing) : Nat × Packing :=
  let session := packing.session.setHeader 0 {}
  place msgIds forceNewMsgId ⟨0, needAck⟩ { packing with session := session }

/-- A request is placed and kept as sent. -/
def placeRequest (forceNewMsgId : Bool) (packing : Packing) (entry : Int × Request) : Packing :=
  let (msgId, packing) := place msgIds forceNewMsgId entry.2 packing
  if entry.2.requestId = 0 then packing
  else if entry.2.needAck then
    let session := { packing.session with
      haveSent := packing.session.haveSent.emplace msgId entry.2 }
    { packing with session := session, sentIds := packing.sentIds ++ [msgId] }
  else
    let session := { packing.session with
      ackedIds := packing.session.ackedIds.emplace msgId entry.2.requestId }
    { packing with session := session }

def placeBind (packing : Packing) : Packing :=
  let (msgId, packing) := place msgIds false ⟨0, true⟩ packing
  let session := { packing.session with bindMsgId := msgId }
  { packing with session := session }

def placePing (forceNewMsgId : Bool) (packing : Packing) : Packing :=
  let (msgId, packing) := placeService msgIds forceNewMsgId true packing
  let session := { packing.session with pingMsgId := msgId }
  { packing with session := session }

/-- A state request or a resend request is placed and remembered. -/
def placeStateOrResend (forceNewMsgId : Bool) (ids : List Nat) (packing : Packing) : Packing :=
  let (msgId, packing) := placeService msgIds forceNewMsgId true packing
  let session := { packing.session with
    stateAndResendRequests := packing.session.stateAndResendRequests.emplace msgId ids }
  { packing with session := session }

def placePlain (forceNewMsgId : Bool) (packing : Packing) : Packing :=
  (placeService msgIds forceNewMsgId false packing).2

def placeFirst (attempt : Attempt) (bind forceNewMsgId : Bool) (packing : Packing) : Packing :=
  let packing := if bind then placeBind msgIds packing else packing
  if attempt.ping then placePing msgIds forceNewMsgId packing else packing

def placeLast (attempt : Attempt) (forceNewMsgId : Bool) (packing : Packing) : Packing :=
  let packing := match attempt.stateRequest with
    | none => packing
    | some ids => placeStateOrResend msgIds forceNewMsgId ids packing
  let packing := match attempt.resendRequest with
    | none => packing
    | some ids => placeStateOrResend msgIds forceNewMsgId ids packing
  let packing := if attempt.ackRequest then placePlain msgIds forceNewMsgId packing else packing
  if attempt.httpWait then placePlain msgIds forceNewMsgId packing else packing

/-- The container itself. -/
def close (forceNewMsgId : Bool) (packing : Packing) : Packet × SessionPrivate :=
  let session := packing.session.setHeader 0 {}
  let (containerMsgId, session) := prepareToSend msgIds ⟨0, false⟩ packing.bigMsgId forceNewMsgId
    session
  (.container (session.messageOf ⟨0, false⟩) packing.inner,
    { session with
      sentContainers := session.sentContainers.emplace containerMsgId packing.sentIds })

end Packing

/-- The requests to send, and the session in which they no longer wait. -/
def takeToSend (sendAll : Bool) (session : SessionPrivate) :
    List (Int × Request) × SessionPrivate :=
  if sendAll then (session.toSend.entries, { session with toSend := ∅ }) else ([], session)

/-- All that waits goes into one container.  The loop over the requests does not
look at `toSend`, which is cleared after it. -/
def sendContainer (attempt : Attempt) (bind forceNewMsgId : Bool) (session : SessionPrivate) :
    Packet × SessionPrivate :=
  let (waiting, session) := session.takeToSend attempt.sendAll
  let packing := Packing.start msgIds session
  let packing := packing.placeFirst msgIds attempt bind forceNewMsgId
  let packing := waiting.foldl (Packing.placeRequest msgIds forceNewMsgId) packing
  let packing := packing.placeLast msgIds attempt forceNewMsgId
  packing.close msgIds forceNewMsgId

/-- A packet without a container. -/
def sendSingleRequest (request : Request) (forceNewMsgId : Bool) (session : SessionPrivate) :
    Packet × SessionPrivate :=
  let (currentLastId, session) := mtprotoMsgId msgIds { session with toSend := ∅ }
  let (msgId, session) := prepareToSend msgIds request currentLastId forceNewMsgId session
  (.single (session.messageOf request),
    if request.requestId = 0 then session
    else if request.needAck then
      { session with haveSent := session.haveSent.emplace msgId request }
    else { session with ackedIds := session.ackedIds.emplace msgId request.requestId })

/-- A service request that was sent without a container is remembered. -/
def rememberService (attempt : Attempt) (bind : Bool) (msgId : Nat) (session : SessionPrivate) :
    SessionPrivate :=
  if bind then { session with bindMsgId := msgId }
  else if attempt.ping then { session with pingMsgId := msgId }
  else match attempt.stateRequest <|> attempt.resendRequest with
    | none => session
    | some ids =>
      { session with
        stateAndResendRequests := session.stateAndResendRequests.emplace msgId ids }

/-- The only service request is sent without a container.  The bind request has
its message id already. -/
def sendSingleService (attempt : Attempt) (bind forceNewMsgId : Bool)
    (session : SessionPrivate) : Packet × SessionPrivate :=
  let request : Request := ⟨0, !(attempt.ackRequest || attempt.httpWait)⟩
  let (currentLastId, session) := mtprotoMsgId msgIds session
  let session := if bind then session else session.setHeader 0 {}
  let (msgId, session) := prepareToSend msgIds request currentLastId (forceNewMsgId && !bind)
    session
  (.single (session.messageOf request), session.rememberService attempt bind msgId)

/-- `prepareBindRequest` draws the id of the bind request. -/
def prepareBind (session : SessionPrivate) : SessionPrivate :=
  let (msgId, session) := mtprotoMsgId msgIds session
  let (number, session) := session.nextRequestSeqNumber true
  session.setHeader 0 { msgId := msgId, number := number }

/-- The session is marked as started, and a bind request is prepared. -/
def getReady (attempt : Attempt) (bind : Bool) (session : SessionPrivate) : SessionPrivate :=
  let session :=
    if attempt.sendAll then { session with sessionMarkedAsStarted := true } else session
  if bind then session.prepareBind msgIds else session

/-- Everything that waits is put in one packet. -/
def tryToSend (found : Attempt) (session : SessionPrivate) : Option Packet × SessionPrivate :=
  if !found.connected && !found.ping then (none, session)
  else
    let attempt := found.whenConnected
    let forceNewMsgId := attempt.sendAll && !session.sessionMarkedAsStarted
    let bind := session.bindMsgId == 0 && attempt.keyCreator && attempt.readyToBind
    let session := session.getReady msgIds attempt bind
    let waiting := if attempt.sendAll then session.toSend.entries else []
    match attempt.count bind, waiting with
    | 0, [] => (none, session)
    | 0, [entry] =>
      let sent :=
        if (session.header entry.2.requestId).forceSendInContainer then
          sendContainer msgIds attempt bind forceNewMsgId session
        else sendSingleRequest msgIds entry.2 forceNewMsgId session
      (some sent.1, sent.2)
    | 1, [] =>
      let sent := sendSingleService msgIds attempt bind forceNewMsgId session
      (some sent.1, sent.2)
    | _, _ =>
      let sent := sendContainer msgIds attempt bind forceNewMsgId session
      (some sent.1, sent.2)

end MsgIds

/-- `Session::sendPrepared` -/
def sendPrepared (request : Request) (session : SessionPrivate) : SessionPrivate :=
  let header := session.header request.requestId
  let waits := { session with toSend := session.toSend.emplace request.requestId request }
  waits.setHeader request.requestId { header with msgId := 0, number := 0 }

/-- `Session::cancel` -/
def cancel (requestId : Int) (msgId : Nat) (session : SessionPrivate) : SessionPrivate :=
  let session :=
    if requestId = 0 then session
    else { session with toSend := session.toSend.erase requestId }
  if msgId = 0 then session else { session with haveSent := session.haveSent.erase msgId }

section Acknowledging

variable (hasCallback : Int → Bool) (byResponse : Bool)

/-- One round of the loop of `requestsAcked`, with the ids to ack more. -/
def ackOne (result : SessionPrivate × List Nat) (msgId : Nat) : SessionPrivate × List Nat :=
  let session := result.1
  match session.sentContainers.find? msgId with
  | some messages =>
    ({ session with sentContainers := session.sentContainers.erase msgId },
      result.2 ++ messages)
  | none =>
    if session.stateAndResendRequests.contains msgId then
      ({ session with
        stateAndResendRequests := session.stateAndResendRequests.erase msgId }, result.2)
    else match session.haveSent.find? msgId with
    | some request =>
      if !byResponse && hasCallback request.requestId then result
      else
        ({ session with
          haveSent := session.haveSent.erase msgId
          ackedIds := session.ackedIds.emplace msgId request.requestId }, result.2)
    | none =>
      match session.resendingIds.find? msgId with
      | none => result
      | some requestId =>
        if !byResponse && hasCallback requestId then result
        else
          let session := { session with resendingIds := session.resendingIds.erase msgId }
          match session.toSend.find? requestId with
          | none => (session, result.2)
          | some request =>
            ({ session with
              ackedIds := session.ackedIds.emplace msgId request.requestId
              toSend := session.toSend.erase requestId }, result.2)

/-- Only the newest acked ids are kept. -/
def trimAcked (session : SessionPrivate) : SessionPrivate :=
  { session with
    ackedIds := session.ackedIds.trim kIdsBufferSize session.ackedIds.size }

end Acknowledging

/-- `requestsAcked` acks the messages of the containers after the containers.  No
more than the containers there are can follow each other. -/
def requestsAckedLoop (hasCallback : Int → Bool) :
    Nat → Bool → List Nat → SessionPrivate → SessionPrivate
  | 0, _, _, session => session
  | depth + 1, byResponse, ids, session =>
    let (acked, toAckMore) := ids.foldl (ackOne hasCallback byResponse) (session, [])
    if toAckMore.isEmpty then acked.trimAcked
    else requestsAckedLoop hasCallback depth false toAckMore acked.trimAcked

/-- The server has the messages of these ids. -/
def requestsAcked (hasCallback : Int → Bool) (byResponse : Bool) (ids : List Nat)
    (session : SessionPrivate) : SessionPrivate :=
  requestsAckedLoop hasCallback (session.sentContainers.size + 1) byResponse ids session

def clearSpecialMsgId (msgId : Nat) (session : SessionPrivate) : SessionPrivate :=
  if msgId = session.pingMsgId then { session with pingMsgId := 0 }
  else if msgId = session.bindMsgId then { session with bindMsgId := 0 }
  else session

/-- The request goes back to the queue. -/
def resendRequest (session : SessionPrivate) (entry : Nat × Request) : SessionPrivate :=
  let requestId := entry.2.requestId
  let header := session.header requestId
  let waits := { session with
    haveSent := session.haveSent.erase entry.1
    resendingIds := session.resendingIds.emplace entry.1 requestId
    toSend := session.toSend.emplace requestId entry.2 }
  waits.setHeader requestId { header with forceSendInContainer := true }

/-- `resend` goes on with the messages of a container.  No more than the
containers there are can be inside each other. -/
def resendLoop : Nat → SessionPrivate → Nat → SessionPrivate
  | 0, session, _ => session
  | depth + 1, session, msgId =>
    let resent :=
      match session.sentContainers.find? msgId with
      | some messages =>
        messages.foldl (resendLoop depth)
          { session with sentContainers := session.sentContainers.erase msgId }
      | none =>
        match session.haveSent.find? msgId with
        | none => session
        | some request => session.resendRequest (msgId, request)
    resent.clearSpecialMsgId msgId

/-- A message is sent again, a container with all in it. -/
def resend (session : SessionPrivate) (msgId : Nat) : SessionPrivate :=
  resendLoop (session.sentContainers.size + 1) session msgId

def resendAll (session : SessionPrivate) : SessionPrivate :=
  session.haveSent.entries.foldl resendRequest session

/-- Old containers are dropped, and what they had is sent again. -/
def clearOldContainers (old : Nat → Bool) (session : SessionPrivate) : SessionPrivate :=
  (session.sentContainers.entries.filter fun entry => old entry.1).foldl
    (fun session entry =>
      entry.2.foldl resend
        { session with sentContainers := session.sentContainers.erase entry.1 })
    session

/-- `mtpRequestId(0xFFFFFFFF)` in 32 bits with a sign. -/
def specialRequestId : Int := -1

/-- The request that a message id stands for. -/
def wasSent (msgId : Nat) (session : SessionPrivate) : Int :=
  if msgId = session.pingMsgId ∨ msgId = session.bindMsgId then specialRequestId
  else match session.resendingIds.find? msgId with
  | some requestId => requestId
  | none =>
    match session.ackedIds.find? msgId with
    | some requestId => requestId
    | none =>
      if session.sentContainers.contains msgId then specialRequestId
      else match session.haveSent.find? msgId with
      | some request => if request.requestId = 0 then specialRequestId else request.requestId
      | none => 0

/-- What the handling of a message leads to. -/
inductive HandleResult
  | success
  | ignored
  | restartConnection
  | resetSession
  | destroyTemporaryKey
  deriving DecidableEq, Repr

/-- The body of an `rpc_result` after unpacking. -/
inductive RpcResult
  | malformed
  | destroyedTemporaryKey
  | response (response : List Int)
  deriving DecidableEq, Repr

/-- `handleOneReceived` for an `rpc_result`.  `bound` is what the key creator
makes of the answer to the bind request. -/
def handleRpcResult (hasCallback : Int → Bool) (badTime keyCreator : Bool) (bound : HandleResult)
    (result : RpcResult) (requestMsgId outerMsgId : Nat) (session : SessionPrivate) :
    HandleResult × SessionPrivate :=
  if badTime ∧ session.wasSent requestMsgId = 0 then (.ignored, session)
  else match result with
  | .malformed => (.restartConnection, session)
  | .destroyedTemporaryKey => (.destroyTemporaryKey, session)
  | .response response =>
    let session := session.requestsAcked hasCallback true [requestMsgId]
    if keyCreator ∧ session.bindMsgId ≠ 0 ∧ session.bindMsgId = requestMsgId then
      (bound, { session with bindMsgId := 0 })
    else
      let requestId := session.wasSent requestMsgId
      if requestId ≠ 0 ∧ requestId ≠ specialRequestId then
        let received : Response := ⟨.rpcResult response, outerMsgId, requestId⟩
        (.success, { session with
          haveReceivedMessages := session.haveReceivedMessages ++ [received] })
      else (.success, session)

/-- Messages before the first one of the new session are resent. -/
def newSessionCreated (firstMsgId outerMsgId : Nat) (session : SessionPrivate) :
    SessionPrivate :=
  let toResend := (session.haveSent.entries.takeWhile fun entry => entry.1 < firstMsgId).filter
    fun entry => entry.2.requestId ≠ 0
  let resent := (toResend.map Prod.fst).foldl resend session
  let received : Response := { reply := .newSession firstMsgId, outerMsgId := outerMsgId }
  { resent with haveReceivedMessages := resent.haveReceivedMessages ++ [received] }

/-- One round of the loop of `handleMsgsStates`, with the acked ids. -/
def handleMsgState (result : SessionPrivate × List Nat) (state : Nat × Bool) :
    SessionPrivate × List Nat :=
  let (session, acked) := result
  if session.haveSent.contains state.1 then
    if state.2 then (session, acked ++ [state.1]) else (session.resend state.1, acked)
  else if session.resendingIds.contains state.1 && state.2 then (session, acked ++ [state.1])
  else result

/-- What the server says it has is acked, the rest is sent again. -/
def handleMsgsStates (hasCallback : Int → Bool) (ids : List Nat) (received : List Bool)
    (session : SessionPrivate) : SessionPrivate :=
  if ids.isEmpty ∨ received.length ≠ ids.length then session
  else
    let (session, acked) := (ids.zip received).foldl handleMsgState (session, [])
    session.requestsAcked hasCallback false acked

/-- `handleOneReceived` for a `msgs_state_info`. -/
def msgsStateInfo (hasCallback : Int → Bool) (reqMsgId : Nat) (received : List Bool)
    (session : SessionPrivate) : SessionPrivate :=
  match session.stateAndResendRequests.find? reqMsgId with
  | none => session
  | some ids =>
    (session.requestsAcked hasCallback true [reqMsgId]).handleMsgsStates hasCallback ids
      received

/-- `handleOneReceived` for a `bad_server_salt`, once the session is connected. -/
def badServerSalt (resendId : Nat) (session : SessionPrivate) : SessionPrivate :=
  if session.wasSent resendId = 0 then session else session.resend resendId

/-- `handleOneReceived` for a `bad_msg_notification` with a good time. -/
def badMsgNotification (resendId : Nat) (errorCode : Int) (outerMsgId : Nat)
    (session : SessionPrivate) : HandleResult × SessionPrivate :=
  let requestId := session.wasSent resendId
  if errorCode = 16 ∨ errorCode = 17 ∨ errorCode = 32 ∨ errorCode = 33 ∨ errorCode = 64 then
    if requestId = 0 then (.success, session)
    else if errorCode = 16 ∨ errorCode = 17 ∨ errorCode = 64 then
      (.success, session.resend resendId)
    else (.resetSession, session)
  else if requestId = 0 then (.success, session)
  else
    let received : Response := ⟨.rpcError 500 "PROTOCOL_ERROR", outerMsgId, requestId⟩
    (.success, { session with
      haveReceivedMessages := session.haveReceivedMessages ++ [received] })

/-- `restart` forgets the ping and the bind request. -/
def restart (session : SessionPrivate) : SessionPrivate :=
  { session with pingMsgId := 0, bindMsgId := 0 }

end SessionPrivate

end TelegramDesktop
