import TelegramDesktop.DcIds
import TelegramDesktop.FlatMap
import TelegramDesktop.FlatSet
import TelegramDesktop.Runs

/-!
# Authorization in other data centers

A request that another data center does not authorize waits until the authorization of
the main one is exported and imported there, as in `mtproto/mtp_instance.cpp`.
-/

namespace TelegramDesktop

/-- The types of errors that are told apart. -/
inductive ErrorType
  | migrate (dcId : DcId)
  | msgWait
  | floodWait
  | slowmodeWait (seconds : Nat)
  | fileIdInvalid
  | authKeyPermEmpty
  | connectionNotInited
  | connectionLayerInvalid
  | connectionLangCodeInvalid
  | other
  deriving DecidableEq

/-- An error of a request, with what the program tells by its type. -/
structure RpcError where
  code : Int
  type : ErrorType := .other
  deriving DecidableEq

namespace RpcError

/-- `Error::Local` -/
def parseFailed : RpcError := { code := 0 }

def isTemporaryError (error : RpcError) : Bool :=
  error.code < 0 || 500 ≤ error.code || error.type = .floodWait

def isShortSlowmodeWait (error : RpcError) : Bool :=
  match error.type with
  | .slowmodeWait seconds => seconds < 3
  | _ => false

def isDefaultHandledError (error : RpcError) : Bool := error.isTemporaryError

end RpcError

/-- The handlers of a request: its owner's, which may take an error that is
handled by default, or those of the two requests sent here. -/
inductive ResponseHandler
  | owner (takesDefault : Bool)
  | authExport
  | authImport
  deriving DecidableEq

/-- What becomes of a request that leaves the waiters: it is sent to a session, it
is no longer registered, or neither. -/
inductive Fate
  | resent (shiftedDcId : Int32)
  | unregistered
  | forgotten
  deriving DecidableEq

/-- The requests that are sent and not answered, and what became of those that
left the waiters, are not told by the sources.  The value in `requestMap` is
whether the request comes after another one. -/
structure GuestAuthorization where
  mainDcId : Option DcId := some 2
  lastRequestId : Nat := 0
  requestMap : FlatMap Nat Bool := ∅
  parserMap : FlatMap Nat ResponseHandler := ∅
  requestsByDc : FlatMap Nat Int32 := ∅
  authExportRequests : FlatMap Nat Int32 := ∅
  badGuestDcRequests : FlatSet Nat := ∅
  authWaiters : FlatMap DcId (List Nat) := ∅
  unanswered : List Nat := []
  left : List (Nat × Fate) := []

namespace GuestAuthorization

variable (auth : GuestAuthorization)

/-- `_authWaiters[dcId]` -/
def waiters (dcId : DcId) : List Nat := (auth.authWaiters.find? dcId).getD []

/-- The requests that wait for a data center. -/
def setWaiters (dcId : DcId) (ids : List Nat) : GuestAuthorization :=
  { auth with authWaiters := auth.authWaiters.set dcId ids }

def setMainDcId (mainDcId : DcId) : GuestAuthorization := { auth with mainDcId := some mainDcId }

/-- `session->sendPrepared` -/
def sendPrepared (requestId : Nat) : GuestAuthorization :=
  { auth with unanswered := requestId :: auth.unanswered }

/-- The data center of a session, by default the main one. -/
def sessionDcId (mainDcId shiftedDcId : Int32) : Int32 :=
  if shiftedDcId = 0 then mainDcId
  else if bareDcId shiftedDcId = 0 then shiftedDcId + bareDcId mainDcId
  else shiftedDcId

/-- The request that is sent is `lastRequestId` afterwards. -/
def sendRequest (after : Bool) (handler : ResponseHandler) (mainDcId shiftedDcId : Int32) :
    GuestAuthorization :=
  let requestId := auth.lastRequestId + 1
  let realShiftedDcId := sessionDcId mainDcId shiftedDcId
  let signedDcId := if shiftedDcId = 0 then -realShiftedDcId else realShiftedDcId
  { auth with
    lastRequestId := requestId
    requestMap := auth.requestMap.emplace requestId after
    parserMap := auth.parserMap.emplace requestId handler
    requestsByDc := auth.requestsByDc.set requestId signedDcId
    unanswered := requestId :: auth.unanswered }

def unregisterRequest (requestId : Nat) : GuestAuthorization :=
  { auth with
    requestMap := auth.requestMap.erase requestId
    requestsByDc := auth.requestsByDc.erase requestId }

/-- A request that waited is sent to the data center again. -/
def resendWaiter (newdc : DcId) (requestId : Nat) : GuestAuthorization :=
  if auth.requestMap.contains requestId = false then
    { auth with left := auth.left ++ [(requestId, .unregistered)] }
  else
    match auth.requestsByDc.find? requestId with
    | none => { auth with left := auth.left ++ [(requestId, .forgotten)] }
    | some before =>
      let shiftedDcId := if before < 0 then -newdc else shiftDcId newdc (getDcIdShift before)
      let changed :=
        { auth with requestsByDc := auth.requestsByDc.set requestId shiftedDcId }
      let main := if shiftedDcId < 0 then changed.setMainDcId newdc else changed
      { main.sendPrepared requestId with
        left := main.left ++ [(requestId, .resent shiftedDcId)] }

def importDone (requestId : Nat) : GuestAuthorization :=
  match auth.requestsByDc.find? requestId with
  | none => auth
  | some shiftedDcId =>
    let newdc := bareDcId shiftedDcId
    let resent := (auth.waiters newdc).foldl (fun auth => auth.resendWaiter newdc) auth
    if auth.waiters newdc = [] then auth else resent.setWaiters newdc []

/-- Nothing is left of the waiters, and they are neither sent nor told. -/
def importFail (error : RpcError) : GuestAuthorization × Bool :=
  (auth, !error.isDefaultHandledError)

def exportDone (requestId : Nat) : GuestAuthorization :=
  match auth.authExportRequests.find? requestId with
  | none => auth
  | some shiftedDcId =>
    let sent := auth.sendRequest false .authImport (auth.mainDcId.getD 0) shiftedDcId
    { sent with authExportRequests := sent.authExportRequests.erase requestId }

/-- Nothing waits for the data center any more. -/
def forgetWaiters (dcId : DcId) : GuestAuthorization :=
  { auth.setWaiters dcId [] with
    left := auth.left ++ (auth.waiters dcId).map fun requestId =>
      (requestId, if auth.requestMap.contains requestId then .forgotten else .unregistered) }

def exportFail (requestId : Nat) (error : RpcError) : GuestAuthorization × Bool :=
  if error.isDefaultHandledError then (auth, false)
  else
    match auth.authExportRequests.find? requestId with
    | none => (auth, true)
    | some shiftedDcId => (auth.forgetWaiters (bareDcId shiftedDcId), true)

/-- A request waits for the authorization, which is exported for the first. -/
def awaitAuthorization (requestId : Nat) (badGuestDc : Bool) (mainDcId dcWithShift : Int32) :
    GuestAuthorization :=
  let newdc := bareDcId dcWithShift.abs
  let exporting :=
    if auth.waiters newdc = [] then
      let sent := auth.sendRequest false .authExport mainDcId 0
      { sent with authExportRequests :=
          sent.authExportRequests.emplace sent.lastRequestId dcWithShift.abs }
    else auth
  let waiting := exporting.setWaiters newdc (exporting.waiters newdc ++ [requestId])
  if badGuestDc then
    { waiting with badGuestDcRequests := waiting.badGuestDcRequests.insert requestId }
  else waiting

/-- An error sends the request to another data center. -/
def migrate (requestId : Nat) (newDcId : DcId) : GuestAuthorization × Bool :=
  let dcWithShift := (auth.requestsByDc.find? requestId).getD 0
  if dcWithShift = 0 || newDcId = 0 then (auth, false)
  else
    let newdcWithShift :=
      if dcWithShift < 0 then newDcId else shiftDcId newDcId (getDcIdShift dcWithShift)
    let main := if dcWithShift < 0 then auth.setMainDcId newDcId else auth
    if auth.requestMap.contains requestId then
      let signedDcId := if dcWithShift < 0 then -newdcWithShift else newdcWithShift
      let registered :=
        { main with requestsByDc := main.requestsByDc.set requestId signedDcId }
      (registered.sendPrepared requestId, true)
    else (main, false)

/-- The request is sent again. -/
def resend (requestId : Nat) : GuestAuthorization × Bool :=
  if auth.requestMap.contains requestId = false ||
    (auth.requestsByDc.find? requestId).getD 0 = 0 then (auth, false)
  else (auth.sendPrepared requestId, true)

/-- The end of `onErrorDefault`. -/
def notHandled (requestId : Nat) (badGuestDc : Bool) : GuestAuthorization × Bool :=
  (if badGuestDc then
      { auth with badGuestDcRequests := auth.badGuestDcRequests.erase requestId }
    else auth, false)

/-- A request that comes after another one is sent or waits for it. -/
def waitMessage (requestId : Nat) : GuestAuthorization × Bool :=
  if auth.requestMap.find? requestId = some true then auth.resend requestId else (auth, false)

/-- The request waits for an authorization, or fails. -/
def awaitOrFail (requestId : Nat) (badGuestDc : Bool) : GuestAuthorization × Bool :=
  let dcWithShift := (auth.requestsByDc.find? requestId).getD 0
  let newdc := bareDcId dcWithShift.abs
  match auth.mainDcId with
  | none => (auth, false)
  | some mainDcId =>
    if newdc = 0 || newdc = mainDcId then (auth, false)
    else (auth.awaitAuthorization requestId badGuestDc mainDcId dcWithShift, true)

/-- What becomes of an error that no handler takes. -/
def onErrorDefault (requestId : Nat) (error : RpcError) : GuestAuthorization × Bool :=
  let badGuestDc := error.code = 400 && error.type = .fileIdInvalid
  match error.type with
  | .migrate dcId => auth.migrate requestId dcId
  | .msgWait => auth.waitMessage requestId
  | type =>
    if error.code < 0 || 500 ≤ error.code || type = .floodWait ||
        error.isShortSlowmodeWait then
      (auth.sendPrepared requestId, true)
    else if error.code = 401 && type ≠ .authKeyPermEmpty ||
        badGuestDc && requestId ∉ auth.badGuestDcRequests then
      auth.awaitOrFail requestId badGuestDc
    else if type = .connectionNotInited || type = .connectionLayerInvalid then
      auth.resend requestId
    else auth.notHandled requestId badGuestDc

def onFail (handler : ResponseHandler) (requestId : Nat) (error : RpcError) :
    GuestAuthorization × Bool :=
  match handler with
  | .owner takesDefault => (auth, takesDefault || !error.isDefaultHandledError)
  | .authExport => auth.exportFail requestId error
  | .authImport => auth.importFail error

def rpcErrorOccured (handler : ResponseHandler) (requestId : Nat) (error : RpcError) :
    GuestAuthorization × Bool :=
  let (asked, taken) :=
    if error.isDefaultHandledError then auth.onFail handler requestId error else (auth, false)
  if taken then (asked, true)
  else
    let (handled, done) := asked.onErrorDefault requestId error
    if done then (handled, false)
    else ((handled.onFail handler requestId error).1, true)

/-- An error goes to its handler, and then to the default one. -/
def handleError (handler : ResponseHandler) (requestId : Nat) (error : RpcError) :
    GuestAuthorization :=
  let (next, clean) := auth.rpcErrorOccured handler requestId error
  if clean then next.unregisterRequest requestId
  else { next with parserMap := next.parserMap.emplace requestId handler }

def onDone (handler : ResponseHandler) (requestId : Nat) : GuestAuthorization :=
  match handler with
  | .owner _ => auth
  | .authExport => auth.exportDone requestId
  | .authImport => auth.importDone requestId

/-- A result may be one that its handler cannot read. -/
inductive Answer
  | result (readable : Bool)
  | error (error : RpcError)
  deriving DecidableEq

def processCallback (requestId : Nat) (answer : Answer) : GuestAuthorization :=
  match auth.parserMap.find? requestId with
  | none => auth.unregisterRequest requestId
  | some handler =>
    let taken := { auth with parserMap := auth.parserMap.erase requestId }
    match answer with
    | .error error => taken.handleError handler requestId error
    | .result true => (taken.onDone handler requestId).unregisterRequest requestId
    | .result false =>
      (taken.handleError handler requestId .parseFailed).unregisterRequest requestId

/-- Owners send and cancel requests, the main data center is chosen, and requests
that were sent are answered. -/
inductive Event
  | send (shiftedDcId : Int32) (after takesDefault : Bool)
  | cancel (requestId : Nat)
  | setMainDcId (dcId : DcId)
  | answer (requestId : Nat) (answer : Answer)
  deriving DecidableEq

def cancel (requestId : Nat) : GuestAuthorization :=
  let unregistered := auth.unregisterRequest requestId
  { unregistered with parserMap := unregistered.parserMap.erase requestId }

/-- The owners do not know the requests that are sent here. -/
def owned (requestId : Nat) : Bool :=
  match auth.parserMap.find? requestId with
  | some .authExport | some .authImport => false
  | _ => true

def step : Event → Option GuestAuthorization
  | .send shiftedDcId after takesDefault =>
    auth.mainDcId.map fun mainDcId =>
      auth.sendRequest after (.owner takesDefault) mainDcId shiftedDcId
  | .cancel requestId => if auth.owned requestId then some (auth.cancel requestId) else none
  | .setMainDcId dcId => some (auth.setMainDcId dcId)
  | .answer requestId answer =>
    if requestId ∈ auth.unanswered then
      let answered := { auth with unanswered := auth.unanswered.erase requestId }
      some (answered.processCallback requestId answer)
    else none

end GuestAuthorization

end TelegramDesktop
