import TelegramDesktop.FlatMap
import TelegramDesktop.Runs

/-!
# Requests of histories

`Histories` sends the requests that load, read, clear or write a history, as in
`data/data_histories.cpp`.
-/

namespace TelegramDesktop

namespace Histories

/-- What a request of a history is about. -/
inductive RequestType
  | none
  | history
  | readInbox
  | delete
  | send
  deriving DecidableEq, Repr

/-- `G` stands for the generators. -/
structure SentRequest (G : Type*) where
  generator : G
  id : Int
  type : RequestType

/-- The requests of one history that are sent or postponed, and what is read of it. -/
structure State (G : Type*) where
  postponed : FlatMap Nat G := ∅
  sent : FlatMap Nat (SentRequest G) := ∅
  willReadTill : Int := 0
  sentReadTill : Int := 0
  sentReadDone : Bool := false
  postponedRequestEntry : Bool := false

/-- What a generator does when it is called with the finish callback of a
request, and what `session().api().request(id).cancel()` does. -/
structure Api (H G A : Type*) where
  generate : G → H → Nat → A → A × Int
  cancel : Int → A → A

end Histories

/-- The requests of all histories.  `C` stands for the callbacks that wait for a
dialog entry, and `A` for the state of the api. -/
structure Histories (H G C A : Type*) [LinearOrder H] where
  states : FlatMap H (Histories.State G) := ∅
  historyByRequest : FlatMap Nat H := ∅
  requestAutoincrement : Nat := 0
  dialogRequests : FlatMap H (List C) := ∅
  dialogRequestsPending : FlatMap H (List C) := ∅
  api : A

namespace Histories

variable {H G C A : Type*} [LinearOrder H]

def State.isEmpty (state : State G) : Bool :=
  state.postponed.isEmpty && !state.postponedRequestEntry && state.sent.isEmpty &&
    state.willReadTill == 0 && state.sentReadTill == 0

def postponeHistoryRequest (state : State G) : Bool :=
  (state.sent.entries.find? fun entry => entry.2.type = .delete).isSome

def postponeEntryRequest (state : State G) : Bool :=
  state.sent.entries.any fun entry => entry.2.type ≠ .history

section Sending

variable (session : Api H G A)

/-- `resendHistoryRequest` for all that was sent. -/
def resendHistoryRequests (state : State G) (api : A) : State G × A :=
  let resent := state.sent.filter fun entry => entry.2.type = .history
  ({ state with
      postponed := state.postponed.emplaceAll
        (resent.entries.map fun entry => (entry.1, entry.2.generator))
      sent := state.sent.filter fun entry => entry.2.type ≠ .history },
    resent.entries.foldl (fun api entry => session.cancel entry.2.id api) api)

/-- The part of `sendRequest` that calls the generator.  `requested` tells
whether `_dialogRequests` contains the history. -/
def sendNow (history : H) (type : RequestType) (generator : G) (id : Nat) (requested : Bool)
    (state : State G) (api : A) : State G × A :=
  let (api, requestId) := session.generate generator history id api
  let state := { state with sent := state.sent.emplace id ⟨generator, requestId, type⟩ }
  let state :=
    if !state.postponedRequestEntry && postponeEntryRequest state && requested then
      { state with postponedRequestEntry := true }
    else state
  if postponeHistoryRequest state then resendHistoryRequests session state api
  else (state, api)

/-- `finishSentRequest` cancels and erases what was sent. -/
def eraseSent (id : Nat) (state : State G) (api : A) : State G × A :=
  match state.sent.find? id with
  | none => (state, api)
  | some sent => ({ state with sent := state.sent.erase id }, session.cancel sent.id api)

/-- A postponed request is sent. -/
def sendPostponed (history : H) (result : State G × A) (entry : Nat × G) : State G × A :=
  let (api, requestId) := session.generate entry.2 history entry.1 result.2
  ({ result.1 with
      sent := result.1.sent.emplace entry.1 ⟨entry.2, requestId, .history⟩ }, api)

/-- `finishSentRequest` sends what was postponed unless a deletion is left. -/
def sendAllPostponed (history : H) (state : State G) (api : A) : State G × A :=
  if !state.postponed.isEmpty && !postponeHistoryRequest state then
    state.postponed.entries.foldl (sendPostponed session history)
      ({ state with postponed := ∅ }, api)
  else (state, api)

end Sending

variable (histories : Histories H G C A)

/-- `lookup` -/
def lookup (history : H) : Option (State G) := histories.states.find? history

/-- `_states[history]` -/
def stateOf (history : H) : State G := (histories.lookup history).getD {}

def checkEmptyState (history : H) : Histories H G C A :=
  match histories.lookup history with
  | none => histories
  | some state =>
    if state.isEmpty then { histories with states := histories.states.erase history }
    else histories

/-- The end of `finishSentRequest`.  Both assertions are about the maps of the
dialog requests. -/
def releaseEntryRequest (history : H) (state : State G) : Option (Histories H G C A) :=
  if state.postponedRequestEntry && !postponeEntryRequest state then
    match histories.dialogRequests.find? history with
    | none => none
    | some callbacks =>
      if histories.dialogRequestsPending.contains history then none
      else
        some { histories with
          states := histories.states.set history { state with postponedRequestEntry := false }
          dialogRequests := histories.dialogRequests.erase history
          dialogRequestsPending := histories.dialogRequestsPending.emplace history callbacks }
  else some histories

variable (session : Api H G A)

/-- The new requests and the id of the request that was sent or postponed. -/
def sendRequest (history : H) (type : RequestType) (generator : G) :
    Option (Histories H G C A × Nat) :=
  if type = .none then none
  else
    let state := histories.stateOf history
    let id := histories.requestAutoincrement + 1
    let requested := histories.dialogRequests.contains history
    let (state, api) :=
      if type = .history ∧ postponeHistoryRequest state then
        ({ state with postponed := state.postponed.emplace id generator }, histories.api)
      else sendNow session history type generator id requested state histories.api
    some ({ histories with
      states := histories.states.set history state
      historyByRequest := histories.historyByRequest.emplace id history
      requestAutoincrement := id
      api := api }, id)

def finishSentRequest (history : H) (state : State G) (id : Nat) :
    Option (Histories H G C A) :=
  let (state, api) := eraseSent session id state histories.api
  let (state, api) := sendAllPostponed session history state api
  let histories := { histories with
    states := histories.states.set history state
    historyByRequest := histories.historyByRequest.erase id
    api := api }
  (histories.releaseEntryRequest history state).map fun released =>
    released.checkEmptyState history

def checkPostponed (history : H) (id : Nat) : Option (Histories H G C A) :=
  match histories.lookup history with
  | none => some histories
  | some state => histories.finishSentRequest session history state id

def cancelRequest (id : Nat) : Option (Histories H G C A) :=
  if id = 0 then some histories
  else
    match histories.historyByRequest.find? id with
    | none => some histories
    | some history =>
      let histories := { histories with
        historyByRequest := histories.historyByRequest.erase id }
      match histories.lookup history with
      | none => some histories
      | some state =>
        histories.finishSentRequest session history
          { state with postponed := state.postponed.erase id } id

def requestDialogEntry (history : H) (callback : Option C) : Histories H G C A :=
  match histories.dialogRequests.find? history with
  | some callbacks =>
    { histories with
      dialogRequests := histories.dialogRequests.set history (callbacks ++ callback.toList) }
  | none =>
    let callbacks := (histories.dialogRequestsPending.find? history).getD []
    { histories with
      dialogRequestsPending :=
        histories.dialogRequestsPending.set history (callbacks ++ callback.toList) }

/-- `postponedRequestEntry = true` for a history that waits for other requests. -/
def postponeEntry (result : Histories H G C A) (history : H) : Histories H G C A :=
  match result.lookup history with
  | none => result
  | some state =>
    if postponeEntryRequest state then
      let postponed := { state with postponedRequestEntry := true }
      { result with states := result.states.set history postponed }
    else result

/-- The request itself is left out: its answer may apply any of the entries. -/
def sendDialogRequests : Histories H G C A :=
  let waiting := histories.dialogRequestsPending.entries
  let postponed := (waiting.map Prod.fst).foldl postponeEntry histories
  { postponed with
    dialogRequestsPending := ∅
    dialogRequests := histories.dialogRequests.emplaceAll waiting }

def dialogEntryApplied (history : H) : Histories H G C A :=
  if (histories.stateOf history).postponedRequestEntry then histories
  else
    let applied := { histories with
      dialogRequestsPending := histories.dialogRequestsPending.erase history
      dialogRequests := histories.dialogRequests.erase history }
    match histories.lookup history with
    | none => applied
    | some state =>
      if state.sentReadTill ≠ 0 ∧ state.sentReadDone then
        let read := { state with sentReadTill := 0 }
        { applied with states := histories.states.set history read }.checkEmptyState history
      else applied

/-- The reading functions keep their marks in the state of the history, and are
otherwise left out. -/
def setReadMarks (history : H) (willReadTill sentReadTill : Int) (sentReadDone : Bool) :
    Histories H G C A :=
  let marked := { histories.stateOf history with
    willReadTill := willReadTill
    sentReadTill := sentReadTill
    sentReadDone := sentReadDone }
  { histories with states := histories.states.set history marked }

/-- The calls that neither send nor finish a request. -/
inductive Change (H C : Type*)
  | requestDialogEntry (history : H) (callback : Option C)
  | sendDialogRequests
  | dialogEntryApplied (history : H)
  | setReadMarks (history : H) (willReadTill sentReadTill : Int) (sentReadDone : Bool)

/-- A change of the requests of entries. -/
def change : Change H C → Histories H G C A
  | .requestDialogEntry history callback => histories.requestDialogEntry history callback
  | .sendDialogRequests => histories.sendDialogRequests
  | .dialogEntryApplied history => histories.dialogEntryApplied history
  | .setReadMarks history willReadTill sentReadTill sentReadDone =>
    histories.setReadMarks history willReadTill sentReadTill sentReadDone

end Histories

end TelegramDesktop
