import TelegramDesktop.ByteStrings
import TelegramDesktop.FlatMap

/-!
# The waiter for skipped updates

A `PtsWaiter` sees updates that carry a position `pts` and the number `count` of
positions they take. It applies an update at once when nothing before it is missing, and
keeps it in a queue while there is a gap. The definitions follow
`data/data_pts_waiter.cpp`.
-/

namespace TelegramDesktop

/-- Which of the two queues an update waits in. -/
inductive PtsSkippedQueue
  | skippedUpdate
  | skippedUpdates
  deriving DecidableEq, Repr

/-- What comes with a position: one update or a container of them. -/
inductive PtsPayload (Update Updates : Type*)
  | update (update : Update)
  | updates (updates : Updates)
  deriving DecidableEq, Repr

/-- One call of `applyUpdateNoPtsCheck` or `applyUpdatesNoPtsCheck`. -/
structure HandedUpdate (Update Updates : Type*) where
  payload : PtsPayload Update Updates
  fromQueue : Bool
  last : Int
  count : Int
  deriving DecidableEq, Repr

/-- The counter of a sequence of updates, with those that came before their turn. -/
structure PtsWaiter (Update Updates : Type*) where
  queue : FlatMap Nat PtsSkippedQueue := ∅
  updateQueue : FlatMap Nat Update := ∅
  updatesQueue : FlatMap Nat Updates := ∅
  good : Int := 0
  last : Int := 0
  count : Int := 0
  applySkippedLevel : Int := 0
  requesting : Bool := false
  waitingForSkipped : Bool := false
  waitingForShortPoll : Bool := false
  skippedKey : Nat := 0
  /-- What the owner has been handed so far. -/
  handed : List (HandedUpdate Update Updates) := []
  /-- The arguments of `ptsWaiterStartTimerFor` so far. -/
  timers : List Int := []

namespace PtsWaiter

variable {Update Updates : Type*}

def kWaitForSkippedTimeout : Int := 1000

/-- `inited()` -/
def inited (waiter : PtsWaiter Update Updates) : Prop := 0 < waiter.good

instance (waiter : PtsWaiter Update Updates) : Decidable waiter.inited :=
  inferInstanceAs (Decidable (0 < waiter.good))

/-- The timer is started, or stopped by a negative time. -/
def ptsWaiterStartTimerFor (waiter : PtsWaiter Update Updates) (ms : Int) :
    PtsWaiter Update Updates :=
  { waiter with timers := waiter.timers ++ [ms] }

/-- Nothing is waited for: the timer is stopped. -/
def checkForWaiting (waiter : PtsWaiter Update Updates) : PtsWaiter Update Updates :=
  if !waiter.waitingForSkipped && !waiter.waitingForShortPoll then
    waiter.ptsWaiterStartTimerFor (-1)
  else waiter

/-- The wait for a skipped update begins or ends. -/
def setWaitingForSkipped (waiter : PtsWaiter Update Updates) (ms : Int) :
    PtsWaiter Update Updates :=
  if 0 ≤ ms then
    { waiter.ptsWaiterStartTimerFor ms with waitingForSkipped := true }
  else
    checkForWaiting { waiter with waitingForSkipped := false }

/-- The wait of a short poll begins or ends. -/
def setWaitingForShortPoll (waiter : PtsWaiter Update Updates) (ms : Int) :
    PtsWaiter Update Updates :=
  if 0 ≤ ms then
    { waiter.ptsWaiterStartTimerFor ms with waitingForShortPoll := true }
  else
    checkForWaiting { waiter with waitingForShortPoll := false }

/-- The queue is emptied. -/
def clearSkippedUpdates (waiter : PtsWaiter Update Updates) : PtsWaiter Update Updates :=
  { waiter with queue := ∅, updateQueue := ∅, updatesQueue := ∅, applySkippedLevel := 0 }

def init (waiter : PtsWaiter Update Updates) (pts : Int) : PtsWaiter Update Updates :=
  clearSkippedUpdates { waiter with good := pts, last := pts, count := pts }

def setRequesting (waiter : PtsWaiter Update Updates) (isRequesting : Bool) :
    PtsWaiter Update Updates :=
  let asked := { waiter with requesting := isRequesting }
  if isRequesting then asked.clearSkippedUpdates else asked

/-- `uint64(uint32(pts)) << 32 | skippedKey` -/
def skippedPtsKey (pts : Int) (skippedKey : Nat) : Nat :=
  (pts % 2 ^ 32).toNat <<< 32 ||| skippedKey

/-- A place in the queue for an update that ends at `pts`, and its key. -/
def ptsKey (waiter : PtsWaiter Update Updates) (queue : PtsSkippedQueue) (pts : Int) :
    PtsWaiter Update Updates × Nat :=
  let skippedKey := (waiter.skippedKey + 1) % 2 ^ 32
  let key := skippedPtsKey pts skippedKey
  ({ waiter with skippedKey := skippedKey, queue := waiter.queue.emplace key queue }, key)

/-- An update waits in the queue under its key. -/
def enqueue (waiter : PtsWaiter Update Updates) (pts : Int) :
    PtsPayload Update Updates → PtsWaiter Update Updates
  | .update update =>
    let placed := waiter.ptsKey .skippedUpdate pts
    { placed.1 with updateQueue := placed.1.updateQueue.emplace placed.2 update }
  | .updates updates =>
    let placed := waiter.ptsKey .skippedUpdates pts
    { placed.1 with updatesQueue := placed.1.updatesQueue.emplace placed.2 updates }

/-- What the queue holds for an entry; `operator[]` makes up a default value
for a key that is missing. -/
def skippedPayload [Inhabited Update] [Inhabited Updates]
    (waiter : PtsWaiter Update Updates) (entry : Nat × PtsSkippedQueue) :
    PtsPayload Update Updates :=
  match entry.2 with
  | .skippedUpdate => .update ((waiter.updateQueue.find? entry.1).getD default)
  | .skippedUpdates => .updates ((waiter.updatesQueue.find? entry.1).getD default)

/-- The payload is given to the session. -/
def hand (waiter : PtsWaiter Update Updates) (payload : PtsPayload Update Updates)
    (fromQueue : Bool) : HandedUpdate Update Updates :=
  ⟨payload, fromQueue, waiter.last, waiter.count⟩

/-- The payload is applied without a look at pts. -/
def applyNoPtsCheck (waiter : PtsWaiter Update Updates)
    (payload : PtsPayload Update Updates) : PtsWaiter Update Updates :=
  { waiter with handed := waiter.handed ++ [waiter.hand payload false] }

/-- Hand the whole queue to the owner.  The level that marks the loop is zero
again when it ends, and the owner does not look at it in between. -/
def applySkippedUpdates [Inhabited Update] [Inhabited Updates]
    (waiter : PtsWaiter Update Updates) : PtsWaiter Update Updates :=
  if !waiter.waitingForSkipped then waiter
  else
    let stopped := waiter.setWaitingForSkipped (-1)
    if stopped.queue.isEmpty then stopped
    else
      clearSkippedUpdates
        { stopped with
          handed := stopped.handed ++ stopped.queue.entries.map fun entry =>
            stopped.hand (stopped.skippedPayload entry) true }

/-- Whether an update may be applied now; a waiter that is not inited starts
from its position. -/
def check (waiter : PtsWaiter Update Updates) (pts count : Int) :
    PtsWaiter Update Updates × Bool :=
  if ¬ waiter.inited then (waiter.init pts, true)
  else
    let seen := { waiter with
      last := max waiter.last pts
      count := toInt32 (waiter.count + count) }
    if seen.last = seen.count then ({ seen with good := seen.last }, true)
    else if seen.last < seen.count then
      (seen.setWaitingForSkipped 1, decide (count = 0))
    else
      (seen.setWaitingForSkipped kWaitForSkippedTimeout, decide (count = 0))

/-- The shape of the three `updated` overloads: `save` keeps what must wait. -/
def updatedOr (waiter : PtsWaiter Update Updates) (pts count : Int)
    (save : PtsWaiter Update Updates → PtsWaiter Update Updates) :
    PtsWaiter Update Updates × Bool :=
  if waiter.requesting ∨ waiter.applySkippedLevel ≠ 0 then (waiter, true)
  else if pts ≤ waiter.good ∧ 0 < count then (waiter, false)
  else
    let checked := waiter.check pts count
    if checked.2 then checked else (save checked.1, false)

/-- An update with a payload arrives. -/
def updated (waiter : PtsWaiter Update Updates) (pts count : Int)
    (payload : PtsPayload Update Updates) : PtsWaiter Update Updates × Bool :=
  waiter.updatedOr pts count (·.enqueue pts payload)

/-- An update without a payload arrives. -/
def updatedPts (waiter : PtsWaiter Update Updates) (pts count : Int) :
    PtsWaiter Update Updates × Bool :=
  waiter.updatedOr pts count id

/-- `updateAndApply` with one update or a container of updates. -/
def updateAndApply [Inhabited Update] [Inhabited Updates]
    (waiter : PtsWaiter Update Updates) (pts count : Int)
    (payload : PtsPayload Update Updates) : PtsWaiter Update Updates × Bool :=
  let seen := waiter.updated pts count payload
  if !seen.2 then (seen.1, false)
  else if !seen.1.waitingForSkipped || seen.1.queue.isEmpty then
    (seen.1.applyNoPtsCheck payload, true)
  else ((seen.1.enqueue pts payload).applySkippedUpdates, true)

/-- `updateAndApply` with a position alone. -/
def updateAndApplyPts [Inhabited Update] [Inhabited Updates]
    (waiter : PtsWaiter Update Updates) (pts count : Int) :
    PtsWaiter Update Updates × Bool :=
  let seen := waiter.updatedPts pts count
  if !seen.2 then (seen.1, false)
  else (seen.1.applySkippedUpdates, true)

/-- One call of `updateAndApply`. -/
structure Call (Update Updates : Type*) where
  pts : Int
  count : Int
  payload : Option (PtsPayload Update Updates)

def deliver [Inhabited Update] [Inhabited Updates] (waiter : PtsWaiter Update Updates)
    (call : Call Update Updates) : PtsWaiter Update Updates :=
  match call.payload with
  | some payload => (waiter.updateAndApply call.pts call.count payload).1
  | none => (waiter.updateAndApplyPts call.pts call.count).1

def deliverAll [Inhabited Update] [Inhabited Updates] (waiter : PtsWaiter Update Updates)
    (calls : List (Call Update Updates)) : PtsWaiter Update Updates :=
  calls.foldl deliver waiter

end PtsWaiter

end TelegramDesktop
