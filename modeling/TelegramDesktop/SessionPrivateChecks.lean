import TelegramDesktop.FlatSet
import TelegramDesktop.SessionPrivateOutgoing

/-!
# Checks of the sent requests

A timer that fires once makes a session look at the requests in `haveSent`, as in
`mtproto/session_private.cpp`. `base::Timer` is not part of the sources: here it is the
time at which it fires, if it is active.
-/

namespace TelegramDesktop

open SessionPrivate

/-- A session in time.  What `lastSentTime` of a request is goes by its id, like the
header that all its copies share. -/
structure CheckedSession where
  session : SessionPrivate := {}
  now : Int := 0
  lastSentTime : Int → Int := fun _ => 0
  stateRequestData : FlatSet Nat := ∅
  bindMessageSent : Int := 0
  checkSentRequestsTimer : Option Int := none

namespace CheckedSession

def kCheckSentRequestTimeout : Int := 10 * 1000

/-- `_checkSentRequestsTimer.callOnce(timeout)` -/
def callOnce (timeout : Int) (checked : CheckedSession) : CheckedSession :=
  { checked with checkSentRequestsTimer := some (checked.now + timeout) }

/-- Requests older than this are asked about. -/
def checkTime (checked : CheckedSession) : Int := checked.now - kCheckSentRequestTimeout

/-- The requests are sent at this time. -/
def touch (requestIds : Int → Bool) (checked : CheckedSession) : CheckedSession :=
  { checked with
    lastSentTime := fun requestId =>
      if requestIds requestId then checked.now else checked.lastSentTime requestId }

/-- One round of the loop of `checkSentRequests`, with `nextTimeout`. -/
def checkSentRequest (result : CheckedSession × Int) (entry : Nat × Request) :
    CheckedSession × Int :=
  let (checked, nextTimeout) := result
  let lastSentTime := checked.lastSentTime entry.2.requestId
  if lastSentTime ≤ checked.checkTime then
    -- Need to check state.
    let touched := checked.touch fun requestId => requestId = entry.2.requestId
    ({ touched with stateRequestData := touched.stateRequestData.insert entry.1 }, nextTimeout)
  else (checked, min (lastSentTime - checked.checkTime) nextTimeout)

/-- The answer to the bind request is overdue. -/
def BindIsLate (checked : CheckedSession) : Prop :=
  checked.session.bindMsgId ≠ 0 ∧ checked.bindMessageSent < checked.checkTime

instance (checked : CheckedSession) : Decidable checked.BindIsLate :=
  inferInstanceAs (Decidable (_ ∧ _))

def checkSentRequests (checked : CheckedSession) : CheckedSession :=
  if checked.BindIsLate then
    -- Request state while key is not bound, restarting.
    let restarted := { checked with session := checked.session.restart }
    restarted.callOnce kCheckSentRequestTimeout
  else
    let (checked, nextTimeout) :=
      checked.session.haveSent.entries.foldl checkSentRequest (checked, kCheckSentRequestTimeout)
    if nextTimeout < kCheckSentRequestTimeout then checked.callOnce nextTimeout else checked

/-- The requests whose state is asked for. -/
def findState (found : Attempt) (checked : CheckedSession) : Attempt :=
  { found with
    stateRequest :=
      if checked.stateRequestData.isEmpty then none else some checked.stateRequestData.keys }

/-- A request that is kept in `haveSent` when it is sent. -/
def IsAwaiting (request : Request) : Bool := request.requestId ≠ 0 && request.needAck

/-- The requests that the attempt sends. -/
def waiting (attempt : Attempt) (session : SessionPrivate) : List (Int × Request) :=
  if attempt.sendAll then session.toSend.entries else []

/-- `tryToSend` starts the timer when it has sent a container. -/
def tryToSend (msgIds : Nat → Nat) (found : Attempt) (checked : CheckedSession) :
    CheckedSession :=
  let found := checked.findState found
  let attempt := found.whenConnected
  let bind := checked.session.bindMsgId == 0 && attempt.keyCreator && attempt.readyToBind
  let awaiting := (waiting attempt checked.session).filter fun entry => IsAwaiting entry.2
  let (packet, session) := checked.session.tryToSend msgIds found
  let touched := checked.touch fun requestId =>
    awaiting.any fun entry => entry.2.requestId = requestId
  let sent := { touched with
    session := session
    stateRequestData := if found.connected then ∅ else checked.stateRequestData
    bindMessageSent := if bind then checked.now else checked.bindMessageSent }
  match packet with
  | some (.container _ _) =>
    let scheduleCheckSentRequests := !awaiting.isEmpty
    if scheduleCheckSentRequests && sent.checkSentRequestsTimer.isNone then
      sent.callOnce kCheckSentRequestTimeout
    else sent
  | _ => sent

/-- What else happens to a session.  The requests that are resent are those whose
`forceSendInContainer` is set by it. -/
def traffic (msgIds : Nat → Nat) (hasCallback : Int → Bool) (event : Traffic)
    (checked : CheckedSession) : CheckedSession :=
  let unforced := { checked.session with
    header := fun requestId =>
      { checked.session.header requestId with forceSendInContainer := false } }
  let resent := unforced.handle msgIds hasCallback event
  let touched := checked.touch fun requestId => (resent.header requestId).forceSendInContainer
  { touched with session := checked.session.handle msgIds hasCallback event }

/-- What happens to a session whose sent requests are checked as time passes. -/
inductive Event
  | traffic (hasCallback : Int → Bool) (event : Traffic)
  | elapse (duration : Nat)
  | checkSentRequests

def fire (checked : CheckedSession) : CheckedSession :=
  checkSentRequests { checked with checkSentRequestsTimer := none }

def handle (msgIds : Nat → Nat) (checked : CheckedSession) : Event → CheckedSession
  | .traffic _ (.tryToSend found) => checked.tryToSend msgIds found
  | .traffic hasCallback .changeSessionId =>
    { checked.traffic msgIds hasCallback .changeSessionId with stateRequestData := ∅ }
  | .traffic hasCallback event => checked.traffic msgIds hasCallback event
  | .elapse duration => { checked with now := checked.now + duration }
  | .checkSentRequests => checked.fire

def enabled (checked : CheckedSession) : Event → Bool
  | .traffic _ event => event.enabled
  | .elapse _ => true
  | .checkSentRequests => checked.checkSentRequestsTimer.any fun deadline => deadline ≤ checked.now

def step (msgIds : Nat → Nat) (checked : CheckedSession) (event : Event) :
    Option CheckedSession :=
  if checked.enabled event then some (checked.handle msgIds event) else none

/-- A request that waits for its answer is sent without a container. -/
def sendsAlone (found : Attempt) (session : SessionPrivate) : Bool :=
  let attempt := found.whenConnected
  let bind := session.bindMsgId == 0 && attempt.keyCreator && attempt.readyToBind
  match waiting attempt session with
  | [entry] =>
    attempt.count bind == 0 && IsAwaiting entry.2 &&
      !(session.header entry.2.requestId).forceSendInContainer
  | _ => false

/-- The request was sent after the others that are to be checked, but before this time. -/
def SentSince (checked : CheckedSession) (request : Request) : Prop :=
  checked.checkTime < checked.lastSentTime request.requestId ∧
    checked.lastSentTime request.requestId < checked.now

/-- No request comes to wait without the timer, and none is left without it. -/
def StartsTimer (checked : CheckedSession) : Event → Prop
  | .traffic _ (.tryToSend found) =>
    checked.checkSentRequestsTimer = none →
      sendsAlone (checked.findState found) checked.session = false
  | .checkSentRequests =>
    checked.enabled .checkSentRequests = true →
      checked.BindIsLate ∨ checked.session.haveSent = ∅ ∨
        ∃ entry ∈ checked.session.haveSent.entries, checked.SentSince entry.2
  | _ => True

/-- While requests wait for their answers, the timer is active and fires soon. -/
def Scheduled (checked : CheckedSession) : Prop :=
  checked.session.haveSent ≠ ∅ →
    ∃ deadline, checked.checkSentRequestsTimer = some deadline ∧
      deadline ≤ checked.now + kCheckSentRequestTimeout

end CheckedSession

end TelegramDesktop
