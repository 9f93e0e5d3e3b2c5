import TelegramDesktop.Instance

/-!
# Requests that wait for others

A request may be asked to come after another one, and when the server tells to wait for
that one it is not sent again before the other is unregistered, as in
`mtproto/mtp_instance.cpp`. Of a request its id and the one it comes after are kept, and
of the sessions what they were given to send.
-/

namespace TelegramDesktop

/-- `prepared` are the requests that were passed to `sendPrepared`, with their dcs. -/
structure InstanceDependents where
  requestMap : FlatMap Int (Option Int) := ∅
  requestsByDc : FlatMap Int Int := ∅
  dependentRequests : FlatMap Int Int := ∅
  prepared : List (Nat × Int) := []

namespace InstanceDependents

def kDcShift : Int := 10000

/-- The shift part of a shifted dc id. -/
def getDcIdShift (shiftedDcId : Int) : Int := shiftedDcId.tdiv kDcShift

def shiftDcId (dcId value : Int) : Int := dcId + kDcShift * value

variable (inst : InstanceDependents)

/-- The request is handed to the session of its dc. -/
def sendPrepared (dc requestId : Int) : InstanceDependents :=
  { inst with prepared := inst.prepared ++ [(dc.natAbs, requestId)] }

/-- The dc of a request is kept. -/
def registerRequest (requestId dc : Int) : InstanceDependents :=
  { inst with requestsByDc := inst.requestsByDc.set requestId dc }

/-- The request that this one comes after is the one of an id that is known, if there is
one. -/
def comesAfter (requestId after : Int) (isNew : Bool) : InstanceDependents :=
  if after ≠ 0 ∧ inst.requestMap.contains after = true ∧ isNew = true then
    { inst with requestMap := inst.requestMap.set requestId (some after) }
  else inst

/-- If the id was known already the request of that time stays the one that is known. -/
def sendRequest (requestId dc after : Int) : InstanceDependents :=
  let isNew := !inst.requestMap.contains requestId
  let stored := { inst with requestMap := inst.requestMap.emplace requestId none }
  let following := (stored.registerRequest requestId dc).comesAfter requestId after isNew
  following.sendPrepared dc requestId

/-- The resending ends early if a request is registered and not known. -/
def resend : List Int → InstanceDependents → InstanceDependents
  | [], inst => inst
  | requestId :: rest, inst =>
    match inst.requestsByDc.find? requestId with
    | none => resend rest inst
    | some dc =>
      match inst.requestMap.find? requestId with
      | none => inst
      | some _ => resend rest (inst.sendPrepared dc requestId)

/-- The requests to remove and those to send, by what they wait for. -/
def toRemoveAndResend (requestId : Int) : FlatSet Int × FlatSet Int :=
  let dependent := inst.dependentRequests.entries
  Instance.dependentLoop dependent (dependent.length + 1) (FlatSet.ofList [requestId], ∅)

/-- All entries of the request are removed. -/
def removeRequest (requestId : Int) : InstanceDependents :=
  { inst with
    requestMap := inst.requestMap.erase requestId
    requestsByDc := inst.requestsByDc.erase requestId
    dependentRequests := inst.dependentRequests.filter fun entry =>
      entry.1 ∉ (inst.toRemoveAndResend requestId).1 }

/-- The request is removed and those after it are sent. -/
def unregisterRequest (requestId : Int) : InstanceDependents :=
  resend (inst.toRemoveAndResend requestId).2.keys (inst.removeRequest requestId)

def cancel (requestId : Int) : InstanceDependents :=
  if requestId = 0 then inst
  else { inst with requestMap := inst.requestMap.erase requestId }.unregisterRequest requestId

/-- `MSG_WAIT_TIMEOUT` and `MSG_WAIT_FAILED`, and whether the error is handled.  A request
that comes after one of another dc, or after one that is not registered, is sent again and
does not wait. -/
def onMsgWait (requestId : Int) : Bool × InstanceDependents :=
  match inst.requestMap.find? requestId with
  | none => (false, inst)
  | some none => (false, inst)
  | some (some after) =>
    match inst.requestsByDc.find? requestId with
    | none => (false, inst)
    | some dc =>
      let waits := inst.requestsByDc.find? after = some dc
      let changed :=
        if waits then inst
        else { inst with requestMap := inst.requestMap.set requestId none }
      if dc = 0 then (false, changed)
      else if waits then
        (true, { changed with
          dependentRequests := changed.dependentRequests.emplace requestId after })
      else (true, changed.sendPrepared dc requestId)

/-- A request goes to another dc, with the shift of its own. -/
def onMigrate (requestId newDc : Int) : Bool × InstanceDependents :=
  match inst.requestsByDc.find? requestId with
  | none => (false, inst)
  | some dc =>
    if requestId = 0 ∨ dc = 0 ∨ newDc = 0 ∨ inst.requestMap.contains requestId = false then
      (false, inst)
    else
      let shifted := if dc < 0 then newDc else shiftDcId newDc (getDcIdShift dc)
      (true, (inst.registerRequest requestId (if dc < 0 then -shifted else shifted)).sendPrepared
        shifted requestId)

/-- A request that waited for the authorization of a dc is sent there. -/
def importDone (requestId newDc : Int) : InstanceDependents :=
  if inst.requestMap.contains requestId = false then inst
  else
    match inst.requestsByDc.find? requestId with
    | none => inst
    | some dc =>
      let changed := if dc < 0 then -newDc else shiftDcId newDc (getDcIdShift dc)
      (inst.registerRequest requestId changed).sendPrepared changed requestId

/-- An error that nobody handles ends the request. -/
def rpcErrorOccured (requestId : Int) (handled : Bool × InstanceDependents) : InstanceDependents :=
  if handled.1 then handled.2 else handled.2.unregisterRequest requestId

/-- A reply that finishes a request is an answer or a failure. -/
inductive Event
  | sendRequest (requestId dc after : Int)
  | finished (requestId : Int)
  | msgWait (requestId : Int)
  | migrate (requestId newDc : Int)
  | importDone (requestId newDc : Int)
  | cancel (requestId : Int)

def step (inst : InstanceDependents) : Event → InstanceDependents
  | .sendRequest requestId dc after => inst.sendRequest requestId dc after
  | .finished requestId => inst.unregisterRequest requestId
  | .msgWait requestId => rpcErrorOccured requestId (inst.onMsgWait requestId)
  | .migrate requestId newDc => rpcErrorOccured requestId (inst.onMigrate requestId newDc)
  | .importDone requestId newDc => inst.importDone requestId newDc
  | .cancel requestId => inst.cancel requestId

def afterRun (events : List Event) : InstanceDependents := events.foldl step {}

/-- The request is sent after another one. -/
def WaitsFor (requestId after : Int) : Prop := (requestId, after) ∈ inst.dependentRequests.entries

/-- What a request waits for, and what that waits for, leads to another one. -/
def LeadsTo : Int → Int → Prop := Relation.TransGen inst.WaitsFor

/-- No request waits for one that is not there any more. -/
def NoneOrphaned : Prop :=
  ∀ requestId after, inst.WaitsFor requestId after → inst.requestsByDc.contains after = true

/-- The entries of some requests are removed, and of others each one that is still registered
is sent once. -/
structure Unregisters (inst : InstanceDependents) (requestId : Int)
    (removed resent : Int → Prop) : Prop where
  left : ∀ entry, entry ∈ (inst.unregisterRequest requestId).dependentRequests.entries ↔
    entry ∈ inst.dependentRequests.entries ∧ ¬removed entry.1
  sent : ∃ sent, (inst.unregisterRequest requestId).prepared = inst.prepared ++ sent ∧
    (sent.map Prod.snd).Nodup ∧
    ∀ other, other ∈ sent.map Prod.snd ↔
      resent other ∧ (inst.unregisterRequest requestId).requestsByDc.contains other = true

end InstanceDependents

end TelegramDesktop
