import TelegramDesktop.Histories
import Mathlib.Algebra.Group.Int.Defs

/-!
# Reading the inbox of histories

The part of `Histories` that tells the server how far the inbox was read.
-/

namespace TelegramDesktop.Histories

/-- A read request that is not answered yet. -/
structure ReadRequest (H : Type*) where
  history : H
  id : Nat
  tillId : Int

/-- What happens to the position that was sent. -/
inductive ReadMark (H : Type*)
  | sent (history : H) (tillId : Int)
  | reset (history : H)

/-- Why the program would end. -/
inductive ReadFailure
  /-- `Expects` of `readInboxTill` -/
  | badTillId
  /-- `Expects` of `sendReadRequest` -/
  | sentAlready
  /-- `Assert(state != nullptr)` of the handler of an answer -/
  | noState
  /-- The second assertion of the handler -/
  | wrongOrder
  /-- `Expects` of `sendRequest` -/
  | badType
  /-- An assertion of `finishSentRequest` -/
  | entryRequest
  deriving DecidableEq, Repr

/-- The histories with what reading adds to them.  `willReadWhen` is a field of the state
of a history, and `inboxReadBefore` one of the history. -/
structure Reading (H G C A : Type*) [LinearOrder H] where
  histories : Histories H G C A
  willReadWhen : H → Int
  inboxReadBefore : H → Option Int
  pending : List (ReadRequest H)
  /-- The latest mark comes first. -/
  log : List (ReadMark H)

/-- What is known of the messages of a history when it is read till an id. -/
structure Unread where
  trackUnreadMessages : Bool
  /-- `countStillUnreadLocal` -/
  stillUnread : Option Int
  unreadCount : Option Int

def serverMaxMsgId : Int := 2 ^ 56

def isServerMsgId (id : Int) : Bool := 0 < id && id < serverMaxMsgId

def kReadRequestTimeout : Int := 3000

namespace Reading

variable {H G C A : Type*} [LinearOrder H]

def start (api : A) (inboxReadBefore : H → Option Int) : Reading H G C A where
  histories := { api }
  willReadWhen _ := 0
  inboxReadBefore
  pending := []
  log := []

variable (reading : Reading H G C A)

/-- The state kept of a history is replaced. -/
def setState (history : H) (state : State G) : Reading H G C A :=
  { reading with histories := { reading.histories with
      states := reading.histories.states.set history state } }

/-- When the history is to be read is set. -/
def setWillReadWhen (history : H) (willReadWhen : Int) : Reading H G C A :=
  { reading with willReadWhen := Function.update reading.willReadWhen history willReadWhen }

def settle : Reading H G C A :=
  { reading with willReadWhen := fun history =>
      if (reading.histories.lookup history).isSome then reading.willReadWhen history else 0 }

/-- `History::setInboxReadTill` -/
def setInboxReadTill (history : H) (upTo : Int) : Reading H G C A :=
  let before :=
    match reading.inboxReadBefore history with
    | some before => max before (upTo + 1)
    | none => upTo + 1
  { reading with inboxReadBefore :=
      Function.update reading.inboxReadBefore history (some before) }

/-- A request is only sent when it moves the read id. -/
def readInboxTillNeedsRequest (history : H) (tillId : Int) : Bool :=
  isServerMsgId tillId && (reading.inboxReadBefore history).getD 1 ≤ tillId

def unreadCountRefreshNeeded (unreadCountKnown : Bool) (history : H) (readTillId : Int) : Bool :=
  !unreadCountKnown || (reading.inboxReadBefore history).getD 0 < readTillId + 1

section Sending

variable (session : Api H G A) (generator : Int → G) (now : Int)

/-- The read request up to the id that waits to be read. -/
def sendReadRequest (history : H) : Except ReadFailure (Reading H G C A) :=
  let state := reading.histories.stateOf history
  if state.willReadTill ≤ state.sentReadTill then .error .sentAlready
  else
    let tillId := state.willReadTill
    let reading := (reading.setState history { state with
      sentReadTill := tillId
      willReadTill := 0
      sentReadDone := false }).setWillReadWhen history 0
    match reading.histories.sendRequest session history .readInbox (generator tillId) with
    | none => .error .badType
    | some (histories, id) =>
      .ok { reading with
        histories
        pending := reading.pending ++ [⟨history, id, tillId⟩]
        log := .sent history tillId :: reading.log }

/-- One round of the loop of `sendReadRequests`. -/
def sendIfDue (history : H) : Except ReadFailure (Reading H G C A) :=
  if (reading.histories.stateOf history).willReadTill = 0 then .ok reading
  else if reading.willReadWhen history ≤ now then
    reading.sendReadRequest session generator history
  else .ok reading

/-- The timer sends what is due in every history. -/
def sendReadRequests : Except ReadFailure (Reading H G C A) :=
  (reading.histories.states.entries.map Prod.fst).foldlM
    (fun reading history => reading.sendIfDue session generator now history) reading

/-- A read that waits for its time is sent now. -/
def sendPendingReadInbox (history : H) : Except ReadFailure (Reading H G C A) :=
  match reading.histories.lookup history with
  | none => .ok reading
  | some state =>
    if state.willReadTill ≠ 0 ∧ reading.willReadWhen history ≠ 0 then
      (reading.setWillReadWhen history 0).sendReadRequests session generator now
    else .ok reading

/-- The end of `readInboxTill`, where the position is taken. -/
def willReadTill (history : H) (tillId : Int) (force : Bool) (unread : Unread) :
    Except ReadFailure (Reading H G C A) :=
  let state := reading.histories.stateOf history
  let reading := reading.setState history { state with willReadTill := tillId }
  if force || unread.stillUnread = none || unread.stillUnread = some 0 then do
    let reading ← (reading.setWillReadWhen history 0).sendReadRequests session generator now
    if unread.stillUnread = none then .ok reading
    else .ok (reading.setInboxReadTill history tillId)
  else if reading.willReadWhen history = 0 then
    .ok ((reading.setWillReadWhen history (now + kReadRequestTimeout)).setInboxReadTill
      history tillId)
  else .ok (reading.setInboxReadTill history tillId)

/-- The inbox is read up to an id, now or after a delay. -/
def readInboxTill (history : H) (tillId : Int) (force : Bool) (unread : Unread) :
    Except ReadFailure (Reading H G C A) :=
  let needsRequest := reading.readInboxTillNeedsRequest history tillId
  let maybeState := reading.histories.lookup history
  if !(isServerMsgId tillId || (tillId = 0 && !force)) then .error .badTillId
  else if !needsRequest && !force then .ok reading
  else if !unread.trackUnreadMessages then .ok reading
  else if maybeState.any fun state => tillId ≤ state.sentReadTill then .ok reading
  else if maybeState.any fun state => tillId ≤ state.willReadTill then
    if force then reading.sendPendingReadInbox session generator now history
    else .ok reading
  else if !needsRequest && maybeState.all fun state => state.willReadTill = 0 then .ok reading
  else if !force && unread.stillUnread.isSome && unread.stillUnread = unread.unreadCount then
    .ok (reading.setInboxReadTill history tillId)
  else reading.willReadTill session generator now history tillId force unread

/-- What the handler of an answer does to the position that was sent. -/
def readTill (unreadCountKnown : Bool) (history : H) (tillId : Int) (state : State G) :
    Except ReadFailure (Reading H G C A) :=
  if state.sentReadTill = tillId then
    if reading.unreadCountRefreshNeeded unreadCountKnown history tillId then
      let reading := reading.setState history { state with sentReadDone := true }
      .ok { reading with histories := reading.histories.requestDialogEntry history none }
    else
      let reading := reading.setState history { state with
        sentReadDone := true
        sentReadTill := 0 }
      .ok { reading with log := .reset history :: reading.log }
  else if state.sentReadTill = 0 ∨ tillId < state.sentReadTill then .ok reading
  else .error .wrongOrder

/-- The handler of the answer to a request; there is one handler for success and for
failure. -/
def finished (unreadCountKnown : Bool) (request : ReadRequest H) :
    Except ReadFailure (Reading H G C A) := do
  let reading := { reading with
    pending := reading.pending.filter fun other => other.id ≠ request.id }
  match reading.histories.lookup request.history with
  | none => .error .noState
  | some state =>
    let reading ← reading.readTill unreadCountKnown request.history request.tillId state
    let reading ← reading.sendReadRequests session generator now
    match reading.histories.checkPostponed session request.history request.id with
    | none => .error .entryRequest
    | some histories => .ok (settle { reading with histories })

/-- The answer to the request with an id, if there is one that waits for it. -/
def answer (unreadCountKnown : Bool) (id : Nat) : Except ReadFailure (Reading H G C A) :=
  match reading.pending.find? fun request => request.id = id with
  | none => .ok reading
  | some request => reading.finished session generator now unreadCountKnown request

end Sending

/-- The dialog entry of a history is applied.  What its callbacks do is left out. -/
def dialogEntryApplied (history : H) : Reading H G C A :=
  let state := reading.histories.stateOf history
  let applied := { reading with histories := reading.histories.dialogEntryApplied history }
  if !state.postponedRequestEntry && state.sentReadTill ≠ 0 && state.sentReadDone then
    settle { applied.setInboxReadTill history state.sentReadTill with
      log := .reset history :: reading.log }
  else applied

/-- What changes how far histories are read. -/
inductive Event (H C : Type*)
  | readInboxTill (now : Int) (history : H) (tillId : Int) (force : Bool) (unread : Unread)
  | sendPendingReadInbox (now : Int) (history : H)
  | sendReadRequests (now : Int)
  | answer (now : Int) (unreadCountKnown : Bool) (id : Nat)
  | dialogEntryApplied (history : H)
  /-- A count or an update of the server -/
  | setInboxReadTill (history : H) (upTo : Int)
  | requestDialogEntry (history : H) (callback : Option C)
  | sendDialogRequests

section Runs

variable (session : Api H G A) (generator : Int → G)

def step : Event H C → Except ReadFailure (Reading H G C A)
  | .readInboxTill now history tillId force unread =>
    reading.readInboxTill session generator now history tillId force unread
  | .sendPendingReadInbox now history =>
    reading.sendPendingReadInbox session generator now history
  | .sendReadRequests now => reading.sendReadRequests session generator now
  | .answer now unreadCountKnown id => reading.answer session generator now unreadCountKnown id
  | .dialogEntryApplied history => .ok (reading.dialogEntryApplied history)
  | .setInboxReadTill history upTo => .ok (reading.setInboxReadTill history upTo)
  | .requestDialogEntry history callback =>
    .ok { reading with histories := reading.histories.requestDialogEntry history callback }
  | .sendDialogRequests =>
    .ok { reading with histories := reading.histories.sendDialogRequests }

end Runs

end Reading

end TelegramDesktop.Histories
