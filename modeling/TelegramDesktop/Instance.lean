import TelegramDesktop.SessionPrivateTracking
import TelegramDesktop.FlatSet

/-!
# Requests of an instance

An instance keeps its requests until they are finished or cancelled, as in
`mtproto/mtp_instance.cpp`, and sends some of them again: those that were delayed, those
that depended on another request and those that an error asks to repeat.
-/

namespace TelegramDesktop

/-- The requests that were answered since they were sent last are not told by the
sources. -/
structure Instance where
  session : SessionPrivate := {}
  requestMap : FlatMap Int Request := ∅
  parserMap : FlatSet Int := ∅
  delayedRequests : List (Int × Nat) := []
  dependentRequests : FlatMap Int Int := ∅
  answered : List Int := []

namespace Instance

/-- Is a handler still kept for the request? -/
def hasCallback (inst : Instance) (requestId : Int) : Bool := requestId ∈ inst.parserMap

/-- The session gets a stored request. -/
def sendPrepared (request : Request) (inst : Instance) : Instance :=
  { inst with
    session := inst.session.sendPrepared request
    answered := inst.answered.filter fun requestId => requestId ≠ request.requestId }

/-- A stored request goes to its session once more. -/
def sendOneAgain (inst : Instance) (requestId : Int) : Instance :=
  match inst.requestMap.find? requestId with
  | none => inst
  | some request => inst.sendPrepared request

def sendAgain (ids : List Int) (inst : Instance) : Instance := ids.foldl sendOneAgain inst

/-- The request is kept together with its handler. -/
def storeRequest (request : Request) (hasHandler : Bool) (inst : Instance) : Instance :=
  { inst with
    parserMap :=
      if hasHandler then inst.parserMap.insert request.requestId else inst.parserMap
    requestMap := inst.requestMap.emplace request.requestId request }

/-- A request is stored and sent. -/
def sendRequest (request : Request) (hasHandler : Bool) (inst : Instance) : Instance :=
  (inst.storeRequest request hasHandler).sendPrepared request

/-- One round over the dependent requests, with those to remove and to resend. -/
def dependentRound (dependent : List (Int × Int)) (found : FlatSet Int × FlatSet Int) :
    FlatSet Int × FlatSet Int :=
  dependent.foldl (fun found entry =>
    if entry.2 ∈ found.1 then (found.1.insert entry.1, found.2.insert entry.1) else found) found

/-- Rounds follow until one finds nothing, no more than there are requests. -/
def dependentLoop (dependent : List (Int × Int)) :
    Nat → FlatSet Int × FlatSet Int → FlatSet Int × FlatSet Int
  | 0, found => found
  | rounds + 1, found =>
    let next := dependentRound dependent found
    if next.2.size = found.2.size then next else dependentLoop dependent rounds next

/-- The requests that depended on one that is unregistered are to be resent. -/
def unregisterRequest (requestId : Int) (inst : Instance) : Instance × List Int :=
  let dependent := inst.dependentRequests.entries
  let (toRemove, toResend) := dependentLoop dependent (dependent.length + 1)
    (FlatSet.ofList [requestId], ∅)
  ({ inst with
    requestMap := inst.requestMap.erase requestId
    dependentRequests := inst.dependentRequests.filter fun entry => entry.1 ∉ toRemove },
    toResend.keys)

/-- The session, the headers of its requests and the requests to resend, as
`cancel` finds them. -/
def unregisterCancelled (requestId : Int) (inst : Instance) : Instance × List Int :=
  unregisterRequest requestId { inst with requestMap := inst.requestMap.erase requestId }

/-- The request is forgotten everywhere. -/
def cancel (requestId : Int) (inst : Instance) : Instance :=
  if requestId = 0 then inst
  else
    let registered := inst.requestMap.contains requestId
    let msgId := if registered then (inst.session.header requestId).msgId else 0
    let (unregistered, toResend) := inst.unregisterCancelled requestId
    let resent := unregistered.sendAgain toResend
    { resent with
      session := if registered then resent.session.cancel requestId msgId else resent.session
      parserMap := resent.parserMap.erase requestId }

/-- A request is delayed once. -/
def delay (requestId : Int) (sendAt : Nat) : List (Int × Nat) → List (Int × Nat)
  | [] => [(requestId, sendAt)]
  | head :: tail =>
    if head.1 = requestId then head :: tail
    else if sendAt < head.2 then (requestId, sendAt) :: head :: tail
    else head :: delay requestId sendAt tail

/-- `checkDelayedRequests` takes the requests to send again from the front. -/
def takeDelayed (now : Nat) (inst : Instance) : Instance × List Int :=
  ({ inst with
    delayedRequests := inst.delayedRequests.dropWhile fun delayed => delayed.2 ≤ now },
    (inst.delayedRequests.takeWhile fun delayed => delayed.2 ≤ now).map Prod.fst)

/-- What comes of a reply: the handlers finish the request, or `onErrorDefault`
delays it, makes it dependent on another one, sends it again at once, or leaves it
to another session. -/
inductive Outcome
  | finished
  | delayed (sendAt now : Nat)
  | dependent (after : Int)
  | again
  | elsewhere
  deriving DecidableEq, Repr

/-- After an `rpc_error` the request is ended or delayed. -/
def Outcome.possible (reply : Reply) : Outcome → Bool
  | .finished => true
  | .delayed _ _ => true
  | _ => match reply with
    | .rpcError _ _ => false
    | _ => true

/-- `processCallback`, and the requests to send again. -/
def processCallback (requestId : Int) (outcome : Outcome) (inst : Instance) :
    Instance × List Int :=
  if requestId ∈ inst.parserMap then
    match outcome with
    | .finished =>
      unregisterRequest requestId { inst with parserMap := inst.parserMap.erase requestId }
    | .delayed sendAt now =>
      takeDelayed now
        { inst with delayedRequests := delay requestId sendAt inst.delayedRequests }
    | .dependent after =>
      ({ inst with dependentRequests := inst.dependentRequests.emplace requestId after }, [])
    | .again => (inst, [requestId])
    | .elsewhere => (inst, [])
  else inst.unregisterRequest requestId

/-- The first of the received messages is processed.  Updates have no request. -/
def tryToReceive (outcome : Outcome) (inst : Instance) : Instance × List Int :=
  match inst.session.haveReceivedMessages with
  | [] => (inst, [])
  | response :: rest =>
    let session := { inst.session with haveReceivedMessages := rest }
    if response.requestId = 0 then ({ inst with session := session }, [])
    else processCallback response.requestId outcome { inst with session := session }

/-- What the instance is asked for, and what comes back to it. -/
inductive Event
  | sendRequest (request : Request) (hasHandler : Bool)
  | cancel (requestId : Int)
  | tryToReceive (outcome : Outcome)
  | checkDelayedRequests (now : Nat)
  | traffic (event : SessionPrivate.Traffic)

/-- Ids of requests in hand are not given again, and a reply is there to receive. -/
def enabled (inst : Instance) : Event → Bool
  | .sendRequest request _ =>
    decide (0 < request.requestId) && !inst.requestMap.contains request.requestId &&
      !inst.session.toSend.contains request.requestId &&
      inst.session.haveSent.entries.all fun entry => entry.2.requestId ≠ request.requestId
  | .tryToReceive outcome =>
    inst.session.haveReceivedMessages.head?.any fun response => outcome.possible response.reply
  | .traffic event => event.ofSession
  | _ => true

/-- What the instance does on an event. -/
def handle (msgIds : Nat → Nat) (inst : Instance) : Event → Instance
  | .sendRequest request hasHandler => inst.sendRequest request hasHandler
  | .cancel requestId => inst.cancel requestId
  | .tryToReceive outcome =>
    let (received, toResend) := inst.tryToReceive outcome
    received.sendAgain toResend
  | .checkDelayedRequests now =>
    let (taken, toResend) := inst.takeDelayed now
    taken.sendAgain toResend
  | .traffic event =>
    { inst with
      session := inst.session.handle msgIds inst.hasCallback event
      answered := inst.answered ++ inst.session.answeredIds event }

def step (msgIds : Nat → Nat) (inst : Instance) (event : Event) : Option Instance :=
  if inst.enabled event then some (inst.handle msgIds event) else none

/-- What is sent again is not kept as sent. -/
def NoneSent (again : Instance × List Int) : Prop :=
  ∀ requestId ∈ again.2, again.1.requestMap.contains requestId = true →
    ∀ entry ∈ again.1.session.haveSent.entries, entry.2.requestId ≠ requestId

instance decidableNoneSent (again : Instance × List Int) : Decidable (NoneSent again) :=
  inferInstanceAs (Decidable (∀ requestId ∈ again.2,
    again.1.requestMap.contains requestId = true →
      ∀ entry ∈ again.1.session.haveSent.entries, entry.2.requestId ≠ requestId))

/-- The requests that the event sends again are not kept as sent. -/
def SendsUnsent (inst : Instance) : Event → Prop
  | .cancel requestId => NoneSent (inst.unregisterCancelled requestId)
  | .tryToReceive outcome => NoneSent (inst.tryToReceive outcome)
  | .checkDelayedRequests now => NoneSent (inst.takeDelayed now)
  | _ => True

instance decidableSendsUnsent (inst : Instance) : ∀ event, Decidable (inst.SendsUnsent event)
  | .cancel _ | .tryToReceive _ | .checkDelayedRequests _ =>
    inferInstanceAs (Decidable (NoneSent _))
  | .sendRequest _ _ | .traffic _ => isTrue trivial

/-- The request needs an ack and has a callback, and it is neither answered nor
set aside. -/
structure Watched (inst : Instance) (request : Request) : Prop where
  registered : inst.requestMap.find? request.requestId = some request
  needAck : request.needAck = true
  callback : request.requestId ∈ inst.parserMap
  unanswered : request.requestId ∉ inst.answered
  notDelayed : request.requestId ∉ inst.delayedRequests.map Prod.fst
  notDependent : inst.dependentRequests.contains request.requestId = false

/-- How often the request is in a queue or in flight. -/
def keysOf (inst : Instance) (requestId : Int) : Nat :=
  (inst.session.toSend.entries.countP fun entry => entry.2.requestId = requestId) +
    inst.session.haveSent.entries.countP fun entry => entry.2.requestId = requestId

/-- Every request that is watched has one key, and the keys of those that were
sent are the ids in their headers. -/
structure TrackedOnce (inst : Instance) : Prop where
  once : ∀ request, inst.Watched request → inst.keysOf request.requestId = 1
  header : ∀ entry ∈ inst.session.haveSent.entries,
    (inst.session.header entry.2.requestId).msgId = entry.1

end Instance

end TelegramDesktop
