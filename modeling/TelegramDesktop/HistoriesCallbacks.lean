import TelegramDesktop.FlatMapGroups
import TelegramDesktop.HistoriesExclusion

/-!
# Callbacks of dialog entries

A callback that waits for a dialog entry is stored under its history, in the map of the
entries that are requested or in the map of those that will be.
-/

namespace TelegramDesktop.Histories

/-- What is being executed. -/
inductive Frame (H : Type*)
  /-- `history->dialogEntryApplied()`.  `known` tells whether the history had a state. -/
  | applying (history : H) (known : Bool)
  /-- A callback that was taken from `_dialogRequestsPending`, if it is `pending`, or from
  `_dialogRequests`.  The others are `left`. -/
  | invoking (history : H) (known pending : Bool) (left : List Nat)
  /-- An answer that applies the entries of the histories. -/
  | answering (histories : List H)
  deriving DecidableEq

/-- The requests of all histories while they run.  A callback is known by the number of
those that were passed before it, and `asked` holds what the requests that are sent ask
for. -/
structure Dialogs (H G A : Type*) [LinearOrder H] where
  histories : Histories H G Nat A
  frames : List (Frame H) := []
  asked : List (List H) := []
  passed : Nat := 0
  invoked : List Nat := []

variable {H G A : Type*} [LinearOrder H]

/-- The end of `dialogEntryApplied`. -/
def takeSentRead (histories : Histories H G Nat A) (history : H) (known : Bool) :
    Histories H G Nat A :=
  match histories.lookup history with
  | none => histories
  | some state =>
    if known = true ∧ state.sentReadTill ≠ 0 ∧ state.sentReadDone = true then
      let read := { state with sentReadTill := 0 }
      { histories with states := histories.states.set history read }.checkEmptyState history
    else histories

/-- The histories whose entries `sendDialogRequests` asks for. -/
def askedHistories (histories : Histories H G Nat A) : List H :=
  (histories.dialogRequestsPending.entries.map Prod.fst).filter fun history =>
    match histories.lookup history with
    | none => true
    | some state => !postponeEntryRequest state

/-- The call applies the entry of the history. -/
def Frame.applies (history : H) : Frame H → Bool
  | .applying other _ => other = history
  | _ => false

namespace Dialogs

variable (dialogs : Dialogs H G A)

def requestDialogEntry (history : H) (hasCallback : Bool) : Dialogs H G A :=
  let callback := if hasCallback then some dialogs.passed else none
  { dialogs with
    histories := dialogs.histories.requestDialogEntry history callback
    passed := dialogs.passed + callback.toList.length }

/-- The requests are sent by a call that is postponed until nothing is executed. -/
def sendDialogRequests : Option (Dialogs H G A) :=
  if dialogs.frames ≠ [] then none
  else if dialogs.histories.dialogRequestsPending.isEmpty then some dialogs
  else
    some { dialogs with
      histories := dialogs.histories.sendDialogRequests
      asked := dialogs.histories.askedHistories :: dialogs.asked }

/-- The beginning of `dialogEntryApplied`. -/
def applyEntry (history : H) : Dialogs H G A :=
  if (dialogs.histories.stateOf history).postponedRequestEntry then dialogs
  else
    let known := (dialogs.histories.lookup history).isSome
    { dialogs with frames := .applying history known :: dialogs.frames }

/-- The callbacks in `_dialogRequests` are taken, and the first one is invoked. -/
def invokeRequested (history : H) (known : Bool) : Dialogs H G A :=
  let taken := { dialogs with
    histories := { dialogs.histories with
      dialogRequests := dialogs.histories.dialogRequests.erase history } }
  match (dialogs.histories.dialogRequests.find? history).getD [] with
  | [] => { taken with histories := taken.histories.takeSentRead history known }
  | callback :: left =>
    { taken with
      frames := .invoking history known false left :: dialogs.frames
      invoked := callback :: dialogs.invoked }

/-- The callbacks in `_dialogRequestsPending` are taken, and the first one is invoked. -/
def invokePending (history : H) (known : Bool) : Dialogs H G A :=
  let taken := { dialogs with
    histories := { dialogs.histories with
      dialogRequestsPending := dialogs.histories.dialogRequestsPending.erase history } }
  match (dialogs.histories.dialogRequestsPending.find? history).getD [] with
  | [] => taken.invokeRequested history known
  | callback :: left =>
    { taken with
      frames := .invoking history known true left :: dialogs.frames
      invoked := callback :: dialogs.invoked }

/-- The innermost call goes on. -/
def resume : Option (Dialogs H G A) :=
  match dialogs.frames with
  | [] => none
  | .applying history known :: frames =>
    some ({ dialogs with frames := frames }.invokePending history known)
  | .invoking history known pending (callback :: left) :: frames =>
    some { dialogs with
      frames := .invoking history known pending left :: frames
      invoked := callback :: dialogs.invoked }
  | .invoking history known true [] :: frames =>
    some ({ dialogs with frames := frames }.invokeRequested history known)
  | .invoking history known false [] :: frames =>
    some { dialogs with
      frames := frames
      histories := dialogs.histories.takeSentRead history known }
  | .answering [] :: frames => some { dialogs with frames := frames }
  | .answering (history :: histories) :: frames =>
    some ({ dialogs with frames := .answering histories :: frames }.applyEntry history)

end Dialogs

/-- An answer applies the entries it has got, and then the ones that were asked for. -/
inductive Call (H G : Type*)
  | requestDialogEntry (history : H) (hasCallback : Bool)
  | sendDialogRequests
  | answer (asked applied : List H)
  | dialogEntryApplied (history : H)
  | sendRequest (history : H) (type : RequestType) (generator : G)
  | finish (history : H) (id : Nat)
  | cancelRequest (id : Nat)
  | setReadMarks (history : H) (willReadTill sentReadTill : Int) (sentReadDone : Bool)
  | resume

variable (session : Api H G A)

/-- While `history->dialogEntryApplied()` is executed nothing is sent for the history but
what loads it. -/
def call (dialogs : Dialogs H G A) : Call H G → Option (Dialogs H G A)
  | .requestDialogEntry history hasCallback =>
    some (dialogs.requestDialogEntry history hasCallback)
  | .sendDialogRequests => dialogs.sendDialogRequests
  | .answer asked applied =>
    if asked ∈ dialogs.asked then
      some { dialogs with
        asked := dialogs.asked.erase asked
        frames := .answering (applied ++ asked) :: dialogs.frames }
    else none
  | .dialogEntryApplied history => some (dialogs.applyEntry history)
  | .sendRequest history type generator =>
    if type ≠ .history ∧ dialogs.frames.any (Frame.applies history) = true then none
    else
      (dialogs.histories.sendRequest session history type generator).map fun result =>
        { dialogs with histories := result.1 }
  | .finish history id =>
    (dialogs.histories.checkPostponed session history id).map fun histories =>
      { dialogs with histories := histories }
  | .cancelRequest id =>
    (dialogs.histories.cancelRequest session id).map fun histories =>
      { dialogs with histories := histories }
  | .setReadMarks history willReadTill sentReadTill sentReadDone =>
    some { dialogs with
      histories :=
        dialogs.histories.setReadMarks history willReadTill sentReadTill sentReadDone }
  | .resume => dialogs.resume

end TelegramDesktop.Histories
