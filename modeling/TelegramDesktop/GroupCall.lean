import TelegramDesktop.FlatMultiMap
import TelegramDesktop.Runs
import Mathlib.Data.Prod.Lex

/-!
# Updates of a group call

A group call applies updates in the order of their versions, as in
`data/data_group_call.cpp`. Loading the call again by the timer is not modelled.
-/

namespace TelegramDesktop

/-- The kinds of updates that are queued by their version. -/
inductive QueuedType
  | versionedParticipant
  | participant
  | call
  deriving DecidableEq, Repr

namespace QueuedType

/-- The order of the kinds in the queue. -/
def rank : QueuedType → Nat
  | versionedParticipant => 0
  | participant => 1
  | call => 2

theorem rank_injective : Function.Injective rank := by
  intro first second same
  cases first <;> cases second <;> first | rfl | cases same

instance : LinearOrder QueuedType := LinearOrder.lift' rank rank_injective

end QueuedType

/-- Of the participants it matters which are versioned. -/
inductive GroupCallUpdate (α : Type*)
  | updateGroupCall (version : Int) (fields : α)
  | updateGroupCallParticipants (version : Int) (versioned : List Bool) (fields : α)
  deriving DecidableEq, Repr

namespace GroupCallUpdate

variable {α : Type*}

/-- The version of an update. -/
def version : GroupCallUpdate α → Int
  | updateGroupCall version _ => version
  | updateGroupCallParticipants version _ _ => version

/-- Whether the update raises the version. -/
def increment : GroupCallUpdate α → Bool
  | updateGroupCall _ _ => false
  | updateGroupCallParticipants _ versioned _ => versioned.contains true

def type : GroupCallUpdate α → QueuedType
  | updateGroupCall _ _ => .call
  | updateGroupCallParticipants _ versioned _ =>
    if versioned.contains true then .versionedParticipant else .participant

/-- The version of the call to which the update can be applied. -/
def required (update : GroupCallUpdate α) : Int :=
  if update.increment then update.version - 1 else update.version

end GroupCallUpdate

/-- What the call is doing: nothing, applying an update, or looking at the queue. -/
inductive GroupCallPhase
  | idle
  | applying
  | processing
  deriving DecidableEq, Repr

/-- Beside the updates that arrived and those that were applied stand the versions
that the call had then. -/
structure GroupCall (α : Type*) where
  version : Int
  queuedUpdates : FlatMultiMap (Int ×ₗ QueuedType) (GroupCallUpdate α) := ∅
  phase : GroupCallPhase := .idle
  arrived : List (GroupCallUpdate α × Int) := []
  applied : List (GroupCallUpdate α × Int) := []

namespace GroupCall

variable {α : Type*}

def applyingQueuedUpdates (call : GroupCall α) : Bool := call.phase = .applying

/-- The update is applied from now on, and others may arrive meanwhile. -/
def applyEnqueuedUpdate (update : GroupCallUpdate α) (call : GroupCall α) : GroupCall α :=
  { call with
    version := if update.version = 0 then 1 else update.version
    phase := .applying
    applied := call.applied ++ [(update, call.version)] }

def queue (version : Int) (type : QueuedType) (update : GroupCallUpdate α)
    (call : GroupCall α) : GroupCall α :=
  { call with queuedUpdates := call.queuedUpdates.emplace (toLex (version, type)) update }

/-- What `enqueueUpdate` does before it processes the queue. -/
def place (update : GroupCallUpdate α) (call : GroupCall α) : GroupCall α :=
  match update with
  | .updateGroupCall version _ =>
    if !call.applyingQueuedUpdates && (call.version = 0 || call.version = version) then
      call.applyEnqueuedUpdate update
    else if call.version = 0 || call.version ≤ version then
      call.queue version .call update
    else call
  | .updateGroupCallParticipants version versioned _ =>
    let increment := versioned.contains true
    let required := if increment then version - 1 else version
    if !call.applyingQueuedUpdates && call.version = required then
      call.applyEnqueuedUpdate update
    else if call.version ≤ required then
      let type := if increment then QueuedType.versionedParticipant else .participant
      call.queue version type update
    else call

/-- The queue is processed next, unless an update is being applied. -/
def enqueueUpdate (update : GroupCallUpdate α) (call : GroupCall α) : GroupCall α :=
  let placed := place update { call with arrived := call.arrived ++ [(update, call.version)] }
  if placed.applyingQueuedUpdates then placed else { placed with phase := .processing }

/-- One round of the loop of `processQueuedUpdates`. -/
def processQueuedUpdate (call : GroupCall α) : GroupCall α :=
  if call.version = 0 then { call with phase := .idle }
  else match call.queuedUpdates.popFront with
  | none => { call with phase := .idle }
  | some (entry, rest) =>
    let (version, type) := ofLex entry.1
    let incremented : Bool := type = .versionedParticipant
    if version < call.version || (version = call.version && incremented) then
      { call with queuedUpdates := rest }
    else if version = call.version || (version = call.version + 1 && incremented) then
      applyEnqueuedUpdate entry.2 { call with queuedUpdates := rest }
    else { call with phase := .idle }

/-- An update arrives, or the call goes on with what it does. -/
inductive Event (α : Type*)
  | arrive (update : GroupCallUpdate α)
  | proceed
  deriving DecidableEq, Repr

def step (call : GroupCall α) : Event α → Option (GroupCall α)
  | .arrive update =>
    match call.phase with
    | .processing => none
    | _ => some (call.enqueueUpdate update)
  | .proceed =>
    match call.phase with
    | .idle => none
    | .applying => some { call with phase := .processing }
    | .processing => some call.processQueuedUpdate

/-- A call whose participants were loaded. -/
def loaded (version : Int) : GroupCall α := { version := version }

/-- The updates of a run in the order in which they arrive. -/
def arrivals (events : List (Event α)) : List (GroupCallUpdate α) :=
  events.filterMap fun event => match event with
    | .arrive update => some update
    | .proceed => none

/-- What is to hold once all versions from one to another have arrived. -/
structure InVersionOrder (start : Int) (count : Nat) (call : GroupCall α) : Prop where
  version : call.version = start + count
  empty : call.queuedUpdates = ∅
  once : (call.applied.map Prod.fst).Perm
    ((call.arrived.filter fun entry =>
      entry.1.increment || decide (entry.2 ≤ entry.1.version)).map Prod.fst)
  increasing : ((call.applied.map Prod.fst).filter GroupCallUpdate.increment).map
    GroupCallUpdate.version = (List.range count).map fun index : Nat => start + 1 + (index : Int)
  moments : ∀ entry ∈ call.applied, entry.2 = entry.1.required

end GroupCall

end TelegramDesktop
