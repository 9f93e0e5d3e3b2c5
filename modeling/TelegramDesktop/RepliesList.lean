import TelegramDesktop.DescendingLists
import TelegramDesktop.ByteStrings
import TelegramDesktop.SparseIdsMergedSlice

/-!
# Replies to a message

A `RepliesList` keeps the loaded ids of a thread, the newest one first, and what it
knows of the ids before and after them, as in `data/data_replies_list.cpp`.
-/

namespace TelegramDesktop

namespace Replies

def showAtUnreadMsgId : Int := 0

/-- The constants of the list: the peer of the history and the id of the root. -/
structure Thread where
  peerId : UInt64
  rootId : Int

/-- What `_beforeId` waits for. -/
inductive BeforeRequest
  | around (id : Int)
  | before (last : Int)
  deriving DecidableEq

/-- The message that starts the thread. -/
structure Divider where
  id : Int
  withComments : Bool
  deriving DecidableEq

end Replies

open Replies (Thread BeforeRequest Divider)

/-- The replies that are loaded, by falling ids, and what is known around them. -/
structure RepliesList where
  list : List Int := []
  skippedBefore : Option Int := none
  skippedAfter : Option Int := none
  fullCount : Option Int := none
  loadingAround : Option Int := none
  divider : Option Divider := none
  beforeId : Option BeforeRequest := none
  /-- What `_afterId` waits for is known by the first id at that time. -/
  afterId : Option Int := none
  deriving DecidableEq

namespace RepliesList

variable (replies : RepliesList)

/-- `countIncoming` of the ids between two positions. -/
def countIncoming (out : Int → Bool) (ids : List Int) : Int := ids.countP fun id => !out id

/-- `out` tells which messages are outgoing.  The position that was read is expected not to
go back. -/
def fullUnreadCountAfter (thread : Thread) (out : Int → Bool) (readTillId wasReadTillId : Int)
    (wasUnreadCountAfter : Option Int) : Option Int :=
  let readTillId := max readTillId thread.rootId
  let wasReadTillId := max wasReadTillId thread.rootId
  let backLoaded : Bool := replies.skippedBefore = some 0
  let frontLoaded : Bool := replies.skippedAfter = some 0
  let fullLoaded := backLoaded && frontLoaded
  let allUnread := readTillId = thread.rootId || (fullLoaded && replies.list.isEmpty)
  let fromPosition := lowerBoundGreater replies.list readTillId
  if allUnread && fullLoaded then some (countIncoming out replies.list)
  else if frontLoaded && replies.list.head?.any fun front => front ≤ readTillId then some 0
  else if wasReadTillId = readTillId then wasUnreadCountAfter
  else if frontLoaded && replies.list.getLast?.any fun back => back ≤ readTillId then
    some (countIncoming out (replies.list.take fromPosition))
  else if replies.list.isEmpty then none
  else
    match wasUnreadCountAfter with
    | some wasUnreadCountAfter =>
      if (frontLoaded || replies.list.head?.any fun front => readTillId ≤ front) &&
          (backLoaded || replies.list.getLast?.any fun back => back ≤ wasReadTillId) then
        let rest := replies.list.drop fromPosition
        let read := rest.take (lowerBoundGreater rest wasReadTillId)
        some (max (wasUnreadCountAfter - countIncoming out read) 0)
      else none
    | none => none

/-- `loadAround`: what waits for an answer is cancelled. -/
def loadAround (id : Int) : RepliesList :=
  if replies.loadingAround = some id then replies
  else
    { replies with
      loadingAround := some id
      beforeId := some (.around id)
      afterId := none }

/-- `loadBefore`; the list is expected not to be empty. -/
def loadBefore : Option RepliesList :=
  match replies.list.getLast? with
  | none => none
  | some last =>
    if replies.loadingAround.isNone && replies.beforeId.isSome then some replies
    else some { replies with beforeId := some (.before last) }

/-- `loadAfter`; the list is expected not to be empty. -/
def loadAfter : Option RepliesList :=
  match replies.list.head? with
  | none => none
  | some first =>
    if replies.afterId.isSome then some replies
    else some { replies with afterId := some first }

end RepliesList

namespace Replies

/-- The part of the list that is shown. -/
structure MessagesSlice where
  ids : List FullMessageId := []
  nearestToAround : FullMessageId := ⟨0, 0⟩
  skippedBefore : Option Int := none
  skippedAfter : Option Int := none
  fullCount : Option Int := none
  deriving DecidableEq

/-- A viewer of the list, with the part of it that it shows. -/
structure Viewer where
  slice : MessagesSlice := {}
  around : Int
  limitBefore : Nat
  limitAfter : Nat
  injectedForRoot : Nat := 0

/-- The message at the root: the items of its album if it has one, and
`computeRepliesInboxReadTillFull`. -/
structure Root where
  fullId : FullMessageId
  group : Option (List FullMessageId)
  inboxReadTillFull : Int

/-- What the owner of the messages gives: the root if it is known and the id for a new
entry. -/
structure Owner where
  root : Option Root
  nextNonHistoryEntryId : Int

end Replies

open Replies (MessagesSlice Viewer Root Owner)

namespace RepliesList

variable (replies : RepliesList) (thread : Thread) (owner : Owner)

/-- `injectRootDivider` -/
def injectRootDivider (slice : MessagesSlice) : RepliesList × MessagesSlice :=
  let withComments := !slice.ids.isEmpty
  let divider : Divider :=
    { id := replies.divider.elim owner.nextNonHistoryEntryId Divider.id, withComments }
  ({ replies with divider := some divider },
    { slice with ids := slice.ids ++ [⟨thread.peerId, divider.id⟩] })

/-- `injectRootMessage`: an album adds its size to the count on its own, and what was injected
is added once more at the end. -/
def injectRootMessage (viewer : Viewer) : RepliesList × Viewer :=
  let viewer := { viewer with injectedForRoot := 0 }
  if viewer.slice.skippedBefore ≠ some 0 then (replies, viewer)
  else
    match owner.root with
    | none => (replies, viewer)
    | some root =>
      let (replies, slice) := replies.injectRootDivider thread owner viewer.slice
      let (slice, injectedForRoot) :=
        match root.group with
        | some items =>
          ({ slice with
              ids := slice.ids ++ items.reverse
              fullCount := slice.fullCount.map (· + items.length) }, items.length)
        | none => ({ slice with ids := slice.ids ++ [root.fullId] }, 1)
      (replies, { viewer with
        slice := { slice with
          fullCount := slice.fullCount.map (· + (injectedForRoot : Int)) }
        injectedForRoot })

/-- `injectRootMessageAndReverse` -/
def injectRootMessageAndReverse (viewer : Viewer) : RepliesList × Viewer :=
  let (replies, viewer) := replies.injectRootMessage thread owner viewer
  (replies, { viewer with slice := { viewer.slice with ids := viewer.slice.ids.reverse } })

/-- The message that the window is around. -/
def aroundId (viewer : Viewer) : Int :=
  if viewer.around ≠ Replies.showAtUnreadMsgId then viewer.around
  else owner.root.elim viewer.around Root.inboxReadTillFull

/-- The first id below the position, or the one before it; `previous` is the id before. -/
def nearestToAround (around : Int) : Option Int → List Int → Option Int
  | _, [] => none
  | previous, id :: ids =>
    if id < around then some (previous.getD id) else nearestToAround around (some id) ids

/-- Where that message is in the list. -/
def aroundPosition (around : Int) : Nat :=
  if around ≠ 0 then lowerBoundGreater replies.list around else replies.list.length

def availableBefore (around : Int) : Nat := replies.list.length - replies.aroundPosition around

def availableAfter (around : Int) : Nat := replies.aroundPosition around

/-- How many messages before it are shown. -/
def useBefore (viewer : Viewer) : Nat :=
  min (replies.availableBefore (aroundId owner viewer)) (viewer.limitBefore + 1)

/-- How many messages after it are shown. -/
def useAfter (viewer : Viewer) : Nat :=
  min (replies.availableAfter (aroundId owner viewer)) viewer.limitAfter

/-- Is the message outside what is loaded? -/
def needsAround (around : Int) : Bool :=
  match replies.list.head?, replies.list.getLast? with
  | some front, some back =>
    around = 0 && replies.skippedAfter ≠ some 0 ||
      front < around && replies.skippedAfter ≠ some 0 ||
        0 < around && around < back && replies.skippedBefore ≠ some 0
  | _, _ => true

/-- The slice of the loaded ids.  A counter that is not known leaves that of the slice as it
was. -/
def fillSlice (viewer : Viewer) : MessagesSlice :=
  let around := aroundId owner viewer
  let position := replies.aroundPosition around
  let useBefore := replies.useBefore owner viewer
  let useAfter := replies.useAfter owner viewer
  let window := segment replies.list (position - useAfter) (position + useBefore)
  { ids := window.map (⟨thread.peerId, ·⟩)
    nearestToAround := ⟨thread.peerId,
      (nearestToAround around none window).getD (window.getLast?.getD 0)⟩
    skippedBefore :=
      match replies.skippedBefore with
      | some skippedBefore =>
        some (skippedBefore + (replies.availableBefore around - useBefore : Int))
      | none => viewer.slice.skippedBefore
    skippedAfter :=
      match replies.skippedAfter with
      | some skippedAfter =>
        some (skippedAfter + (replies.availableAfter around - useAfter : Int))
      | none => viewer.slice.skippedAfter
    fullCount := replies.fullCount }

/-- What is requested at the end of `buildFromData`. -/
def loadMore (viewer : Viewer) : RepliesList :=
  let before :=
    if replies.skippedBefore ≠ some 0 ∧
        replies.useBefore owner viewer < viewer.limitBefore + 1 then
      replies.loadBefore.getD replies
    else replies
  if replies.skippedAfter ≠ some 0 ∧ replies.useAfter owner viewer < viewer.limitAfter then
    before.loadAfter.getD before
  else before

/-- Whether there is a slice to show, with the list and the viewer after it.  The loaded ids
are not empty where more is requested. -/
def buildFromData (viewer : Viewer) : Bool × RepliesList × Viewer :=
  if replies.list.isEmpty && replies.skippedBefore = some 0 && replies.skippedAfter = some 0 then
    let slice : MessagesSlice :=
      { viewer.slice with
        ids := []
        nearestToAround := ⟨0, 0⟩
        fullCount := some 0
        skippedBefore := some 0
        skippedAfter := some 0 }
    (true, replies.injectRootMessageAndReverse thread owner
      { viewer with slice, injectedForRoot := 0 })
  else if replies.needsAround (aroundId owner viewer) then
    (false, replies.loadAround (aroundId owner viewer), viewer)
  else
    let (injected, shown) := replies.injectRootMessageAndReverse thread owner
      { viewer with slice := replies.fillSlice thread owner viewer }
    (true, injected.loadMore owner viewer, shown)

end RepliesList

end TelegramDesktop
