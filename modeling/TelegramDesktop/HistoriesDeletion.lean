import TelegramDesktop.HistoriesExclusion
import TelegramDesktop.HistoriesTies

/-!
# Deleting the messages of a history

The deletions of `data/data_histories.cpp` with the api requests they send and what they
do with the answers.
-/

namespace TelegramDesktop.Histories

/-- The peers whose histories are deleted in different ways. -/
inductive PeerKind
  | user
  | chat
  | channel
  deriving DecidableEq, Repr

/-- `channel->canDelete()` and `chat->amCreator()` -/
structure Rights where
  canDelete : Bool
  amCreator : Bool
  deriving DecidableEq, Repr

/-- The generators by what they capture.  An ordinary one calls the finish
callback in both of its handlers. -/
inductive Generator
  | ordinary
  | deleteMessages (ids : List Int) (revoke : Bool)
  | deleteAllMessages (deleteTillId : Int) (justClear revoke : Bool)
  | deleteMessagesByDates (minDate maxDate : Int) (revoke : Bool)
  deriving DecidableEq, Repr

/-- The api requests with what their handlers capture.  The `id` is the one of
the finish callback. -/
inductive ApiRequest (H : Type*)
  | ordinary (history : H) (id : Nat)
  | channelsDeleteMessages (history : H) (id : Nat) (ids : List Int)
  | messagesDeleteMessages (history : H) (id : Nat) (revoke : Bool) (ids : List Int)
  | channelsDeleteChannel (history : H)
  | channelsDeleteHistory (history : H) (id : Nat) (forEveryone : Bool) (maxId : Int)
  | messagesDeleteChat (history : H) (id : Nat) (deleteTillId : Int) (justClear revoke : Bool)
  | messagesAddChatUser (history : H) (deleteTillId : Int) (justClear revoke : Bool)
  | messagesDeleteHistory (history : H) (id : Nat) (deleteTillId : Int)
      (justClear revoke : Bool)
  | messagesDeleteHistoryByDates (history : H) (id : Nat) (minDate maxDate : Int)
      (revoke : Bool)
  deriving DecidableEq, Repr

/-- The offset is what `applyAffectedHistory` finds in the result. -/
inductive Response
  | done (offset : Int)
  | fail (type : String)
  deriving DecidableEq, Repr

/-- The requests of the api that are not answered yet. -/
structure ApiState (H : Type*) where
  pending : FlatMap Int (ApiRequest H) := ∅
  lastRequestId : Int := 0
  rights : H → Rights

variable {H C : Type*} [LinearOrder H] (kind : H → PeerKind)

/-- What the generator sends to the server. -/
def requestOf (rights : Rights) (history : H) (id : Nat) : Generator → ApiRequest H
  | .ordinary => .ordinary history id
  | .deleteMessages ids revoke =>
    if kind history = .channel then .channelsDeleteMessages history id ids
    else .messagesDeleteMessages history id revoke ids
  | .deleteAllMessages deleteTillId justClear revoke =>
    if justClear = false ∧ revoke = true ∧ kind history = .channel ∧
        rights.canDelete = true then
      .channelsDeleteChannel history
    else if kind history = .channel then
      .channelsDeleteHistory history id revoke deleteTillId
    else if revoke = true ∧ kind history = .chat ∧ rights.amCreator = true then
      .messagesDeleteChat history id deleteTillId justClear revoke
    else .messagesDeleteHistory history id deleteTillId justClear revoke
  | .deleteMessagesByDates minDate maxDate revoke =>
    .messagesDeleteHistoryByDates history id minDate maxDate revoke

/-- `session().api().request(..).send()` -/
def ApiState.send (request : ApiRequest H) (api : ApiState H) : ApiState H × Int :=
  let requestId := api.lastRequestId + 1
  ({ api with
      pending := api.pending.emplace requestId request
      lastRequestId := requestId }, requestId)

/-- The api with its requests and their answers. -/
def deletionApi : Api H Generator (ApiState H) where
  generate generator history id api :=
    api.send (requestOf kind (api.rights history) history id generator)
  cancel requestId api := { api with pending := api.pending.erase requestId }

variable (histories : Histories H Generator C (ApiState H))

def deleteMessages (history : H) (ids : List Int) (revoke : Bool) :
    Option (Histories H Generator C (ApiState H)) :=
  (histories.sendRequest (deletionApi kind) history .delete
    (.deleteMessages ids revoke)).map Prod.fst

def deleteAllMessages (history : H) (deleteTillId : Int) (justClear revoke : Bool) :
    Option (Histories H Generator C (ApiState H)) :=
  (histories.sendRequest (deletionApi kind) history .delete
    (.deleteAllMessages deleteTillId justClear revoke)).map Prod.fst

def deleteMessagesByDates (history : H) (minDate maxDate : Int) (revoke : Bool) :
    Option (Histories H Generator C (ApiState H)) :=
  (histories.sendRequest (deletionApi kind) history .delete
    (.deleteMessagesByDates minDate maxDate revoke)).map Prod.fst

/-- An answer is handled as its generator says. -/
def handle : ApiRequest H → Response → Option (Histories H Generator C (ApiState H))
  | .ordinary history id, _ => histories.checkPostponed (deletionApi kind) history id
  | .channelsDeleteMessages history id _, _ =>
    histories.checkPostponed (deletionApi kind) history id
  | .messagesDeleteMessages history id _ _, _ =>
    histories.checkPostponed (deletionApi kind) history id
  | .channelsDeleteChannel _, _ => some histories
  | .channelsDeleteHistory history id _ _, _ =>
    histories.checkPostponed (deletionApi kind) history id
  | .messagesDeleteChat history id _ _ _, .done _ =>
    histories.checkPostponed (deletionApi kind) history id
  | .messagesDeleteChat history id deleteTillId justClear revoke, .fail type =>
    let api :=
      if type = "PEER_ID_INVALID" then
        -- Try to join and delete.
        (histories.api.send (.messagesAddChatUser history deleteTillId justClear revoke)).1
      else histories.api
    { histories with api := api }.checkPostponed (deletionApi kind) history id
  | .messagesAddChatUser history deleteTillId justClear revoke, .done _ =>
    histories.deleteAllMessages kind history deleteTillId justClear revoke
  | .messagesAddChatUser _ _ _ _, .fail _ => some histories
  | .messagesDeleteHistory history id deleteTillId justClear revoke, .done offset => do
      let again ←
        if 0 < offset then
          histories.deleteAllMessages kind history deleteTillId justClear revoke
        else some histories
      again.checkPostponed (deletionApi kind) history id
  | .messagesDeleteHistory history id _ _ _, .fail _ =>
    histories.checkPostponed (deletionApi kind) history id
  | .messagesDeleteHistoryByDates history id minDate maxDate revoke, .done offset => do
      let again ←
        if 0 < offset then
          histories.deleteMessagesByDates kind history minDate maxDate revoke
        else some histories
      again.checkPostponed (deletionApi kind) history id
  | .messagesDeleteHistoryByDates history id _ _ _, .fail _ =>
    histories.checkPostponed (deletionApi kind) history id

/-- An answered request is no longer pending when its handler runs. -/
def answer (requestId : Int) (response : Response) :
    Option (Histories H Generator C (ApiState H)) :=
  match histories.api.pending.find? requestId with
  | none => none
  | some request =>
    let api := { histories.api with pending := histories.api.pending.erase requestId }
    { histories with api := api }.handle kind request response

/-- What changes the requests, deletions among them. -/
inductive DeletionEvent (H C : Type*)
  | sendRequest (history : H) (type : RequestType)
  | deleteMessages (history : H) (ids : List Int) (revoke : Bool)
  | deleteAllMessages (history : H) (deleteTillId : Int) (justClear revoke : Bool)
  | deleteMessagesByDates (history : H) (minDate maxDate : Int) (revoke : Bool)
  | cancelRequest (id : Nat)
  | answer (requestId : Int) (response : Response)
  | setRights (history : H) (rights : Rights)
  | change (change : Change H C)

/-- A call of the histories, or an answer. -/
def deletionStep (histories : Histories H Generator C (ApiState H)) :
    DeletionEvent H C → Option (Histories H Generator C (ApiState H))
  | .sendRequest history type =>
    (histories.sendRequest (deletionApi kind) history type .ordinary).map Prod.fst
  | .deleteMessages history ids revoke => histories.deleteMessages kind history ids revoke
  | .deleteAllMessages history deleteTillId justClear revoke =>
    histories.deleteAllMessages kind history deleteTillId justClear revoke
  | .deleteMessagesByDates history minDate maxDate revoke =>
    histories.deleteMessagesByDates kind history minDate maxDate revoke
  | .cancelRequest id => histories.cancelRequest (deletionApi kind) id
  | .answer requestId response => histories.answer kind requestId response
  | .setRights history rights =>
    let api := { histories.api with
      rights := fun other => if other = history then rights else histories.api.rights other }
    some { histories with api := api }
  | .change change => some (histories.change change)

/-- No channel is deleted: a call to delete all messages for everyone, that does
not just clear, is not made for a channel that can be deleted. -/
def KeepsChannel (histories : Histories H Generator C (ApiState H)) :
    DeletionEvent H C → Prop
  | .deleteAllMessages history _ justClear revoke =>
    ¬(justClear = false ∧ revoke = true ∧ kind history = .channel ∧
      (histories.api.rights history).canDelete = true)
  | _ => True

end TelegramDesktop.Histories
