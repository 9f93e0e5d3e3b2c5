import TelegramDesktop.RepliesList
import TelegramDesktop.Runs

/-!
# Answers to the requests of a list of replies

The messages of an answer are placed at an end of the loaded ids, and the counters of what is
skipped are corrected by the count that the server reports.
-/

namespace TelegramDesktop

namespace Replies

/-- A message of an answer, with the top of its thread if an item was created for it. -/
structure Message where
  id : Int
  replyToTop : Option Int
  deriving DecidableEq

/-- The kinds of answers, with their counts. -/
inductive AnswerKind
  | notModified
  | messages
  | messagesSlice (count : Int)
  | channelMessages (count : Int)
  deriving DecidableEq

/-- What `messages.getReplies` is answered: the newest message comes first. -/
structure Answer where
  kind : AnswerKind
  vmessages : List Message
  decreasing : Descending (vmessages.map Message.id)

namespace Answer

variable (answer : Answer)

def list : List Message :=
  match answer.kind with
  | .notModified => []
  | _ => answer.vmessages

def fullCount : Int :=
  match answer.kind with
  | .notModified => 0
  | .messages => answer.vmessages.length
  | .messagesSlice count => count
  | .channelMessages count => count

end Answer

/-- A change of an item: whether it is a regular one of the history, and what it replies to. -/
structure MessageUpdate where
  id : Int
  ofHistory : Bool
  regular : Bool
  replyToTop : Int
  destroyed : Bool

/-- The loaded ids of an answer, with those that are new and how many were skipped. -/
structure Placed where
  list : List Int
  refreshed : List Int := []
  skipped : Nat := 0

/-- A message of the thread is put last or noted, others are skipped. -/
def Placed.place (rootId : Int) (toFront : Bool) (placed : Placed) (message : Message) :
    Placed :=
  if message.replyToTop = some rootId then
    if toFront && placed.list.head?.any fun front => front < message.id then
      { placed with refreshed := placed.refreshed ++ [message.id] }
    else if placed.list.getLast?.all fun back => message.id < back then
      { placed with list := placed.list ++ [message.id] }
    else placed
  else { placed with skipped := placed.skipped + 1 }

/-- The counters of both ends after those of one end were lowered; an assertion may fail. -/
def correctSkipped (toFront : Bool) (checkedCount nowSize : Int) :
    Option Int → Option Int → Option (Option Int × Option Int)
  | some skippedBefore, some skippedAfter =>
    if toFront then
      let correct := max (checkedCount - skippedAfter - nowSize) 0
      let decrementFrom := checkedCount - correct - nowSize
      if 0 ≤ decrementFrom then some (some correct, some decrementFrom) else none
    else
      let correct := max (checkedCount - skippedBefore - nowSize) 0
      let decrementFrom := checkedCount - correct - nowSize
      if 0 ≤ decrementFrom then some (some decrementFrom, some correct) else none
  | some skippedBefore, none =>
    let skippedBefore := min skippedBefore (checkedCount - nowSize)
    some (some skippedBefore, some (checkedCount - skippedBefore - nowSize))
  | none, some skippedAfter =>
    let skippedAfter := min skippedAfter (checkedCount - nowSize)
    some (some (checkedCount - skippedAfter - nowSize), some skippedAfter)
  | none, none => some (none, none)

end Replies

open Replies

namespace RepliesList

variable (replies : RepliesList) (thread : Thread) (answer : Answer)

/-- The first message of the answer is newer than what is loaded. -/
def toFront : Bool :=
  match answer.list.head?, replies.list.head? with
  | some newest, some front => front < newest.id
  | _, _ => false

/-- All messages of the answer are placed. -/
def placeAll : Placed :=
  answer.list.foldl (Placed.place thread.rootId (replies.toFront answer)) { list := replies.list }

/-- `processMessagesIsEmpty`: whether there was no message of the thread.  Nothing if the
assertion fails. -/
def processMessagesIsEmpty : Option (RepliesList × Bool) :=
  if answer.list.isEmpty then some (replies, true)
  else
    let toFront := replies.toFront answer
    let placed := replies.placeAll thread answer
    let list := if toFront then placed.refreshed ++ placed.list else placed.list
    let wasSize : Int := replies.list.length
    let nowSize : Int := list.length
    let decrement (skipped : Int) := max (skipped - (nowSize - wasSize)) 0
    let checkedCount := max (answer.fullCount - placed.skipped) nowSize
    (correctSkipped toFront checkedCount nowSize
        (if toFront then replies.skippedBefore else replies.skippedBefore.map decrement)
        (if toFront then replies.skippedAfter.map decrement else replies.skippedAfter)).map
      fun (skippedBefore, skippedAfter) =>
        ({ replies with list, skippedBefore, skippedAfter, fullCount := some checkedCount },
          answer.list.length == placed.skipped)

/-- What is left of the list when `loadAround` is answered. -/
def clearAround (id : Int) : RepliesList :=
  { replies with
    list := []
    skippedBefore := none
    skippedAfter := if id = 0 then some 0 else none
    loadingAround := none
    beforeId := none }

/-- The answer to `loadAround`.  Nothing if an assertion fails. -/
def aroundDone (id : Int) : Option RepliesList :=
  ((replies.clearAround id).processMessagesIsEmpty thread answer).bind
      fun (processed, isEmpty) =>
    if isEmpty then
      some { processed with
        fullCount := some 0
        skippedBefore := some 0
        skippedAfter := some 0 }
    else if id ≠ 0 then
      match processed.list.head?, processed.list.getLast? with
      | some front, some back =>
        if front ≤ id then some { processed with skippedAfter := some 0 }
        else if id ≤ back then some { processed with skippedBefore := some 0 }
        else some processed
      | _, _ => none
    else some processed

/-- The answer to `loadBefore` that was sent for the id `last`. -/
def beforeDone (last : Int) : Option RepliesList :=
  let waiting := { replies with beforeId := none }
  if waiting.list.isEmpty then some waiting
  else if waiting.list.getLast? ≠ some last then waiting.loadBefore
  else
    (waiting.processMessagesIsEmpty thread answer).map fun (processed, isEmpty) =>
      if isEmpty then
        { processed with
          skippedBefore := some 0
          fullCount :=
            if processed.skippedAfter = some 0 then some processed.list.length
            else processed.fullCount }
      else processed

/-- The answer to `loadAfter` that was sent for the id `first`. -/
def afterDone (first : Int) : Option RepliesList :=
  let waiting := { replies with afterId := none }
  if waiting.list.isEmpty then some waiting
  else if waiting.list.head? ≠ some first then waiting.loadAfter
  else
    (waiting.processMessagesIsEmpty thread answer).map fun (processed, isEmpty) =>
      if isEmpty then
        { processed with
          skippedAfter := some 0
          fullCount :=
            if processed.skippedBefore = some 0 then some processed.list.length
            else processed.fullCount }
      else processed

/-- The full count from both counters and the list. -/
def recount (change : Int → Int) : Option Int :=
  match replies.skippedBefore, replies.skippedAfter with
  | some skippedBefore, some skippedAfter =>
    some (skippedBefore + replies.list.length + skippedAfter)
  | _, _ => replies.fullCount.map change

/-- `applyUpdate` for a viewer that shows the ids `injected` for the root. -/
def applyUpdate (update : MessageUpdate) (injected : List FullMessageId) : RepliesList :=
  let i := lowerBoundGreater replies.list update.id
  if !update.ofHistory || !update.regular then replies
  else if update.destroyed && injected.contains ⟨thread.peerId, update.id⟩ then replies
  else if update.replyToTop ≠ thread.rootId then replies
  else if update.destroyed then
    if replies.list[i]? ≠ some update.id then replies
    else
      let erased := { replies with list := replies.list.eraseIdx i }
      { erased with
        fullCount := erased.recount fun known => if 0 < known then known - 1 else known }
  else if replies.skippedAfter ≠ some 0 then replies
  else if replies.list[i]? = some update.id then replies
  else
    let inserted := { replies with list := insertGreater replies.list update.id }
    { inserted with fullCount := inserted.recount (· + 1) }

/-- `channelDifferenceTooLong` of the channel that the history is of. -/
def channelDifferenceTooLong : RepliesList := { replies with skippedAfter := none }

end RepliesList

namespace Replies

/-- What changes the list: its viewers, the answers and the updates. -/
inductive Event
  | build (owner : Owner) (viewer : Viewer)
  | historyDone (answer : Answer)
  | historyFailed
  | afterDone (answer : Answer)
  | afterFailed
  | update (update : MessageUpdate) (injected : List FullMessageId)
  | channelDifferenceTooLong

end Replies

namespace RepliesList

/-- What happens to a list.  An answer comes only for a request that waits for it. -/
def step (thread : Thread) (replies : RepliesList) : Event → Option RepliesList
  | .build owner viewer => some (replies.buildFromData thread owner viewer).2.1
  | .historyDone answer =>
    match replies.beforeId with
    | some (.around id) => replies.aroundDone thread answer id
    | some (.before last) => replies.beforeDone thread answer last
    | none => none
  | .historyFailed =>
    match replies.beforeId with
    | some (.around _) => some { replies with beforeId := none, loadingAround := none }
    | some (.before _) => some { replies with beforeId := none }
    | none => none
  | .afterDone answer =>
    match replies.afterId with
    | some first => replies.afterDone thread answer first
    | none => none
  | .afterFailed =>
    match replies.afterId with
    | some _ => some { replies with afterId := none }
    | none => none
  | .update update injected => some (replies.applyUpdate thread update injected)
  | .channelDifferenceTooLong => some replies.channelDifferenceTooLong

end RepliesList

end TelegramDesktop
