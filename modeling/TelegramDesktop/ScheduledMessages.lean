import TelegramDesktop.KeyedLists
import TelegramDesktop.Runs
import Mathlib.Algebra.Group.Int.Defs
import Mathlib.Data.List.Dedup
import Mathlib.Data.List.Sort

/-!
# Scheduled messages

The list of the scheduled messages of one history, with those that are being sent and
those that have failed, as in `data/data_scheduled_messages.cpp`.
-/

namespace TelegramDesktop

namespace ScheduledMessages

def startClientMsgId : Int := 1 - 2 ^ 58

def endClientMsgId : Int := -2 ^ 57

def serverMaxMsgId : Int := 2 ^ 56

def scheduledMsgIdsRange : Int := 2 ^ 32

def isClientMsgId (id : Int) : Bool := startClientMsgId ≤ id && id < endClientMsgId

def isServerMsgId (id : Int) : Bool := 0 < id && id < serverMaxMsgId

/-- A message that is scheduled, with the address of its object. -/
structure HistoryItem where
  address : Nat
  id : Int
  date : Int
  isSending : Bool := false
  hasFailed : Bool := false
  deriving DecidableEq

def HistoryItem.isSent (item : HistoryItem) : Bool := !item.isSending && !item.hasFailed

/-- The peer of a message is the one of the history or another one. -/
inductive Message
  | messageEmpty (id : Int32)
  | messageService (id : Int32) (samePeer : Bool) (date : Int32)
  | message (id : Int32) (samePeer : Bool) (date : Int32)
  deriving DecidableEq

def Message.id : Message → Int
  | messageEmpty id => id.toInt
  | messageService id _ _ => id.toInt
  | message id _ _ => id.toInt

def Message.samePeer : Message → Bool
  | messageEmpty _ => false
  | messageService _ samePeer _ => samePeer
  | message _ samePeer _ => samePeer

def Message.date : Message → Int
  | messageEmpty _ => 0
  | messageService _ _ date => date.toInt
  | message _ _ date => date.toInt

/-- The items by their addresses are kept for the ids that the server knows. -/
structure MessageList where
  items : List HistoryItem := []
  itemById : Int → Option Nat := fun _ => none

/-- The request that waits for an answer, and when the last answer came. -/
structure Request where
  requestId : Int := 0
  lastReceived : Int := 0
  deriving DecidableEq

end ScheduledMessages

open ScheduledMessages in
/-- What is kept for one history.  `destroyed` are the items that were destroyed, and
`updates` counts what was fired. -/
structure ScheduledMessages where
  list : Option MessageList := none
  request : Option Request := none
  clearTimerIsActive : Bool := false
  nextAddress : Nat := 0
  destroyed : List HistoryItem := []
  updates : Nat := 0

namespace ScheduledMessages

/-- The id of a scheduled message on this side. -/
def localMessageId (remoteId : Int) : Int := serverMaxMsgId + remoteId + 1

/-- The id the server has for the message, if it was sent. -/
def lookupId (item : HistoryItem) : Option Int :=
  if item.isSent ∧ serverMaxMsgId < item.id ∧ item.id < serverMaxMsgId + scheduledMsgIdsRange then
    some (item.id - serverMaxMsgId - 1)
  else none

namespace MessageList

variable (list : MessageList)

def find (address : Nat) : Option HistoryItem :=
  list.items.find? fun item => item.address = address

def change (address : Nat) (changed : HistoryItem → HistoryItem) : MessageList :=
  { list with
    items := list.items.map fun item => if item.address = address then changed item else item }

/-- A message that the list has changes the date of its item. -/
def updateDate (address : Nat) : Message → MessageList
  | .message _ _ date => list.change address fun item => { item with date := date.toInt }
  | _ => list

/-- The item of a message that is not in the list.  An item that has this id already is
taken, and a message of another history is not. -/
def addNewMessage (message : Message) (address : Nat) : Option HistoryItem :=
  if message.samePeer then
    some ((list.items.find? fun item => item.id = localMessageId message.id).getD
      { address := address, id := localMessageId message.id, date := message.date })
  else none

/-- A received message is added, or found again. -/
def append (message : Message) (address : Nat) : MessageList × Option Nat :=
  match list.itemById message.id with
  | some existing => (list.updateDate existing message, some existing)
  | none =>
    if isServerMsgId message.id = false then (list, none)
    else
      match list.addNewMessage message address with
      | none => (list, none)
      | some item =>
        ({ items := list.items ++ [item]
           itemById := Function.update list.itemById message.id (some item.address) },
          some item.address)

/-- The messages are appended one by one, each with an address of its own. -/
def appendAll : List Message → Nat → MessageList → MessageList × List Nat
  | [], _, list => (list, [])
  | message :: messages, address, list =>
    let (list, item) := list.append message address
    let (list, received) := appendAll messages (address + 1) list
    (list, item.toList ++ received)

/-- `HistoryItem::position` orders the items. -/
def sort : MessageList :=
  { list with
    items := list.items.insertionSort fun first second =>
      first.date < second.date ∨ (first.date = second.date ∧ first.id ≤ second.id) }

end MessageList

variable (messages : ScheduledMessages)

/-- The message leaves the list. -/
def remove (item : HistoryItem) : Option ScheduledMessages :=
  messages.list.bind fun list =>
    let lookedUp := if item.isSent then (lookupId item).map some else some none
    lookedUp.bind fun id =>
      let itemById :=
        match id with
        | some id => Function.update list.itemById id none
        | none => list.itemById
      if (list.find item.address).isNone then none
      else
        let items := eraseByKey HistoryItem.address item.address list.items
        some { messages with
          list := if items = [] then none else some { items := items, itemById := itemById }
          updates := messages.updates + 1 }

/-- The message is destroyed, which removes it. -/
def destroy (item : HistoryItem) : Option ScheduledMessages :=
  { messages with destroyed := messages.destroyed ++ [item] }.remove item

def destroyAll : List HistoryItem → ScheduledMessages → Option ScheduledMessages
  | [], messages => some messages
  | item :: items, messages => (messages.destroy item).bind (destroyAll items)

/-- What is to be cleared is destroyed, and the list is sorted. -/
def updated (added : List Nat) (clear : List HistoryItem) : Option ScheduledMessages :=
  (destroyAll clear messages).map fun messages =>
    { messages with
      list := messages.list.map MessageList.sort
      updates :=
        if added ≠ [] ∨ clear ≠ [] then messages.updates + 1 else messages.updates }

/-- What neither is being sent nor has failed is destroyed. -/
def clearNotSending : Option ScheduledMessages :=
  match messages.list with
  | none => some messages
  | some list => messages.updated [] (list.items.filter fun item => item.isSent).dedup

/-- An answer of the server. -/
inductive Messages
  | messagesNotModified
  | messages (list : List Message)

/-- The list of the server is taken over. -/
def parse (now : Int) (received : Messages) : Option ScheduledMessages :=
  let answered := { messages with
    request := some { requestId := 0, lastReceived := now }
    clearTimerIsActive := true }
  match received with
  | .messagesNotModified => some answered
  | .messages [] => answered.clearNotSending
  | .messages list =>
    let (appended, received) :=
      MessageList.appendAll list messages.nextAddress (messages.list.getD {})
    let clear := appended.items.filter fun item =>
      !item.isSending && !received.contains item.address
    { answered with
      list := some appended
      nextAddress := messages.nextAddress + list.length
    }.updated received clear.dedup

/-- What happens to the list: a local item is added, fails, or gets its id, messages come
from the server, and items are destroyed. -/
inductive Event
  | appendSending (id date : Int)
  | sendFailed (address : Nat)
  | applyMessageId (id : Int32) (address : Nat)
  | applyNew (message : Message)
  | applyDelete (ids : List Int32)
  | destroy (address : Nat)
  | parse (now : Int) (received : Messages)

/-- A message that is being sent. -/
def appendSending (id date : Int) : Option ScheduledMessages :=
  if isClientMsgId id = false then none
  else
    let list := messages.list.getD {}
    let item : HistoryItem :=
      { address := messages.nextAddress, id := id, date := date, isSending := true }
    some { messages with
      list := some ({ list with items := list.items ++ [item] } : MessageList).sort
      nextAddress := messages.nextAddress + 1
      updates := messages.updates + 1 }

/-- The sending has failed. -/
def sendFailed (item : HistoryItem) : Option ScheduledMessages :=
  if item.isSending = false ∨ item.hasFailed then none
  else
    some { messages with
      list := messages.list.map fun list =>
        list.change item.address fun item => { item with isSending := false, hasFailed := true } }

/-- The server has given the sent message its id. -/
def applyMessageId (id : Int) (item : HistoryItem) : Option ScheduledMessages :=
  messages.list.bind fun list =>
    if (list.itemById id).isSome ∨ isServerMsgId id = false then messages.destroy item
    else if (list.itemById item.id).isSome ∨ item.isSending = false ∨ isClientMsgId item.id = false
      then none
    else
      let changed := list.change item.address fun item =>
        { item with id := localMessageId id, isSending := false }
      some { messages with
        list := some { changed with
          itemById := Function.update list.itemById id (some item.address) } }

/-- The server tells of a new message. -/
def applyNew (message : Message) : ScheduledMessages :=
  if message.samePeer then
    let list := messages.list.getD {}
    { messages with
      list := some (list.append message messages.nextAddress).1.sort
      nextAddress := messages.nextAddress + 1
      updates := messages.updates + 1 }
  else messages

/-- The rest of the ids is left when nothing is in the list any more. -/
def deleteAll : List Int32 → ScheduledMessages → Option ScheduledMessages
  | [], messages => some messages
  | id :: ids, messages =>
    match messages.list with
    | none => some messages
    | some list =>
      match list.itemById id.toInt with
      | none => deleteAll ids messages
      | some address =>
        (list.find address).bind fun item => (messages.destroy item).bind (deleteAll ids)

/-- The server tells of deleted messages. -/
def applyDelete (ids : List Int32) : Option ScheduledMessages :=
  if messages.list.isNone then some messages
  else
    (deleteAll ids messages).map fun messages => { messages with updates := messages.updates + 1 }

def step (messages : ScheduledMessages) : Event → Option ScheduledMessages
  | .appendSending id date => messages.appendSending id date
  | .sendFailed address =>
    (messages.list.bind (MessageList.find · address)).bind messages.sendFailed
  | .applyMessageId id address =>
    (messages.list.bind (MessageList.find · address)).bind (messages.applyMessageId id.toInt)
  | .applyNew message => some (messages.applyNew message)
  | .applyDelete ids => messages.applyDelete ids
  | .destroy address => (messages.list.bind (MessageList.find · address)).bind messages.destroy
  | .parse now received => messages.parse now received

def items : List HistoryItem := (messages.list.getD {}).items

def Messages.list : Messages → List Message
  | .messagesNotModified => []
  | .messages list => list

/-- The item is one of the received messages. -/
def IsReceived (item : HistoryItem) (received : List Message) : Prop :=
  ∃ message ∈ received, (messages.list.getD {}).itemById message.id = some item.address

/-- What is destroyed was sent and is not received, and what was not sent stays. -/
structure KeepsUnsent (messages next : ScheduledMessages) (received : Messages) : Prop where
  destroyed : ∃ gone, next.destroyed = messages.destroyed ++ gone ∧
    ∀ item ∈ gone, item ∈ messages.items ∧ item.isSent = true ∧
      ¬messages.IsReceived item received.list
  survive : ∀ item ∈ messages.items, item.isSent = false → item ∈ next.items

/-- An answer keeps what is not sent yet. -/
def ParseKeepsUnsent (messages : ScheduledMessages) (now : Int) (received : Messages) : Prop :=
  ∃ next, messages.parse now received = some next ∧ KeepsUnsent messages next received

end ScheduledMessages

end TelegramDesktop
