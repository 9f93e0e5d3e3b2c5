import TelegramDesktop.SparseIdsList

/-!
# The viewer of a sparse list

A `SparseIdsSliceBuilder` keeps the ids around a key for one viewer. The definitions
follow `data/data_sparse_ids.cpp`; every event that the builder fires to ask for more
ids is recorded in the state.
-/

namespace TelegramDesktop

/-- On which side ids are missing. -/
inductive LoadDirection
  | around
  | before
  | after
  deriving DecidableEq, Repr

/-- What is asked of the server. -/
structure AroundData where
  aroundId : Int := 0
  direction : LoadDirection := .around
  deriving DecidableEq, Repr

/-- The slice that a viewer is shown, while it is built from results and updates. -/
structure SparseIdsSliceBuilder where
  key : Int
  limitBefore : Nat
  limitAfter : Nat
  ids : FlatSet Int := ∅
  fullCount : Option Int := none
  skippedBefore : Option Int := none
  skippedAfter : Option Int := none
  /-- What `insufficientAround()` has fired. -/
  insufficientAround : List AroundData := []

namespace SparseIdsSliceBuilder

/-- The side on which ids are asked for. -/
inductive RequestDirection
  | before
  | after
  deriving DecidableEq, Repr

def requestMessages (builder : SparseIdsSliceBuilder)
    (direction : RequestDirection) : SparseIdsSliceBuilder :=
  let requestAroundData : AroundData := match direction with
    | .before => builder.ids.front?.elim ⟨builder.key, .around⟩ (⟨·, .before⟩)
    | .after => builder.ids.back?.elim ⟨builder.key, .around⟩ (⟨·, .after⟩)
  { builder with insufficientAround := builder.insufficientAround ++ [requestAroundData] }

def requestMessagesCount (builder : SparseIdsSliceBuilder) : SparseIdsSliceBuilder :=
  { builder with insufficientAround := builder.insufficientAround ++ [⟨0, .around⟩] }

/-- Ids at the begin are dropped and counted as skipped. -/
def eraseFromBegin (builder : SparseIdsSliceBuilder) (removeFromBegin : Nat) :
    SparseIdsSliceBuilder :=
  { builder with
    ids := builder.ids.range removeFromBegin builder.ids.size
    skippedBefore := builder.skippedBefore.map (· + removeFromBegin) }

/-- Ids at the end are dropped and counted as skipped. -/
def eraseFromEnd (builder : SparseIdsSliceBuilder) (removeFromEnd : Nat) :
    SparseIdsSliceBuilder :=
  { builder with
    ids := builder.ids.range 0 (builder.ids.size - removeFromEnd)
    skippedAfter := builder.skippedAfter.map (· + removeFromEnd) }

/-- The first half of `sliceToLimits`, and whether it requested messages. -/
def sliceBegin (builder : SparseIdsSliceBuilder) (removeFromBegin : Int) :
    SparseIdsSliceBuilder × Bool :=
  if 0 < removeFromBegin then (builder.eraseFromBegin removeFromBegin.toNat, false)
  else if removeFromBegin < 0 ∧ builder.skippedBefore.all (0 < ·) then
    (builder.requestMessages .before, true)
  else (builder, false)

/-- The second half of `sliceToLimits`, and whether it requested messages. -/
def sliceEnd (builder : SparseIdsSliceBuilder) (removeFromEnd : Int) :
    SparseIdsSliceBuilder × Bool :=
  if 0 < removeFromEnd then (builder.eraseFromEnd removeFromEnd.toNat, false)
  else if removeFromEnd < 0 ∧ builder.skippedAfter.all (0 < ·) then
    (builder.requestMessages .after, true)
  else (builder, false)

/-- What is outside the limits is dropped. -/
def sliceToLimits (builder : SparseIdsSliceBuilder) : SparseIdsSliceBuilder :=
  if builder.key = 0 then
    if builder.fullCount.isNone then builder.requestMessagesCount else builder
  else
    let aroundIt := builder.ids.lowerBound builder.key
    let removeFromBegin : Int := (aroundIt : Int) - builder.limitBefore
    let removeFromEnd : Int :=
      (builder.ids.size : Int) - aroundIt - builder.limitAfter - 1
    let begun := builder.sliceBegin removeFromBegin
    let ended := begun.1.sliceEnd removeFromEnd
    let requestedSomething := begun.2 || ended.2
    if ended.1.fullCount.isNone ∧ !requestedSomething then ended.1.requestMessagesCount
    else ended.1

def checkInsufficient (builder : SparseIdsSliceBuilder) : SparseIdsSliceBuilder :=
  builder.sliceToLimits

/-- The skip counters once a known count and one of them give the other. -/
def fillSkipped (builder : SparseIdsSliceBuilder) : SparseIdsSliceBuilder :=
  match builder.fullCount, builder.skippedBefore, builder.skippedAfter with
  | some fullCount, some skippedBefore, none =>
    { builder with skippedAfter := some (fullCount - skippedBefore - builder.ids.size) }
  | some fullCount, none, some skippedAfter =>
    { builder with skippedBefore := some (fullCount - skippedAfter - builder.ids.size) }
  | _, _, _ => builder

/-- The counters are completed from the full count. -/
def fillSkippedAndSliceToLimits (builder : SparseIdsSliceBuilder) :
    SparseIdsSliceBuilder :=
  builder.fillSkipped.sliceToLimits

/-- A skip counter that was valid before `oldId`, once `ids` lists more ids. -/
def adjustSkippedBefore (ids : FlatSet Int) (oldId oldSkippedBefore : Int) : Int :=
  max (oldSkippedBefore - ids.lowerBound oldId) 0

/-- A skip counter that was valid after `oldId`, once `ids` lists more ids. -/
def adjustSkippedAfter (ids : FlatSet Int) (oldId oldSkippedAfter : Int) : Int :=
  max (oldSkippedAfter - ((ids.size : Int) - ids.lowerBound oldId - 1)) 0

/-- The first branch of `mergeSliceData`: without messages only the count
changes, and a count that the listed ids reach leaves nothing to skip. -/
def mergeCount (builder : SparseIdsSliceBuilder) (count : Option Int) :
    SparseIdsSliceBuilder :=
  match count with
  | none => builder
  | some known =>
    if builder.fullCount = some known then builder
    else if SparseIdsList.sizeReaches builder.ids.size known then
      { builder with
        fullCount := some builder.ids.size
        skippedBefore := some 0
        skippedAfter := some 0 }
    else { builder with fullCount := some known }

/-- The other branch of `mergeSliceData`, up to `fillSkippedAndSliceToLimits`. -/
def mergeMessages (builder : SparseIdsSliceBuilder) (count : Option Int)
    (messageIds : FlatSet Int) (front back : Int)
    (skippedBefore skippedAfter : Option Int) : SparseIdsSliceBuilder :=
  let wasMinId := builder.ids.front?.getD (-1)
  let wasMaxId := builder.ids.back?.getD (-1)
  let ids := builder.ids.merge messageIds.keys
  { builder with
    ids := ids
    fullCount := if count.isSome then count else builder.fullCount
    skippedBefore := match skippedBefore, builder.skippedBefore with
      | some skipped, _ => some (adjustSkippedBefore ids front skipped)
      | none, some was =>
        if 0 ≤ wasMinId then some (adjustSkippedBefore ids wasMinId was) else none
      | none, none => none
    skippedAfter := match skippedAfter, builder.skippedAfter with
      | some skipped, _ => some (adjustSkippedAfter ids back skipped)
      | none, some was =>
        if 0 ≤ wasMaxId then some (adjustSkippedAfter ids wasMaxId was) else none
      | none, none => none }

/-- A slice of the list is merged in. -/
def mergeSliceData (builder : SparseIdsSliceBuilder) (count : Option Int)
    (messageIds : FlatSet Int) (skippedBefore skippedAfter : Option Int) :
    SparseIdsSliceBuilder :=
  match messageIds.front?, messageIds.back? with
  | some front, some back =>
    (builder.mergeMessages count messageIds front back
      skippedBefore skippedAfter).fillSkippedAndSliceToLimits
  | _, _ => (builder.mergeCount count).fillSkippedAndSliceToLimits

/-- The first answer of the list. -/
def applyInitial (builder : SparseIdsSliceBuilder) (result : SparseIdsListResult) :
    SparseIdsSliceBuilder :=
  builder.mergeSliceData result.count result.messageIds
    result.skippedBefore result.skippedAfter

def intersects (range1 range2 : MsgRange) : Bool :=
  decide (range1.from ≤ range2.till) && decide (range2.from ≤ range1.till)

/-- The range of the listed ids, or of the key while there are none. -/
def idsRange (builder : SparseIdsSliceBuilder) : MsgRange :=
  ⟨builder.ids.front?.getD builder.key, builder.ids.back?.getD builder.key⟩

/-- The builder after an update, and whether it reports a change. -/
def applyUpdate (builder : SparseIdsSliceBuilder) (update : SparseIdsSliceUpdate) :
    SparseIdsSliceBuilder × Bool :=
  let needMergeMessages :=
    update.messages.isSome && intersects update.range builder.idsRange
  if !needMergeMessages && update.count.isNone then (builder, false)
  else
    let skippedBefore : Option Int := if update.range.from = 0 then some 0 else none
    let skippedAfter : Option Int :=
      if update.range.till = serverMaxMsgId then some 0 else none
    let messageIds := if needMergeMessages then update.messages.getD ∅ else ∅
    (builder.mergeSliceData update.count messageIds skippedBefore skippedAfter, true)

def decrement (counter : Option Int) : Option Int :=
  counter.map fun value => if 0 < value then value - 1 else value

/-- `removeOne` up to `checkInsufficient`, and whether anything changed. -/
def dropOne (builder : SparseIdsSliceBuilder) (messageId : Int) :
    SparseIdsSliceBuilder × Bool :=
  let counted := { builder with fullCount := decrement builder.fullCount }
  let changed := builder.fullCount.any (0 < ·)
  if messageId ∈ counted.ids then
    ({ counted with ids := counted.ids.erase messageId }, true)
  else match counted.ids.front?, counted.ids.back? with
    | some front, some back =>
      if messageId < front ∧ counted.skippedBefore.any (0 < ·) then
        ({ counted with skippedBefore := decrement counted.skippedBefore }, true)
      else if back < messageId ∧ counted.skippedAfter.any (0 < ·) then
        ({ counted with skippedAfter := decrement counted.skippedAfter }, true)
      else (counted, changed)
    | _, _ => (counted, changed)

/-- The id is dropped and the counters are lowered. -/
def removeOne (builder : SparseIdsSliceBuilder) (messageId : Int) :
    SparseIdsSliceBuilder × Bool :=
  let dropped := builder.dropOne messageId
  (if dropped.2 then dropped.1.checkInsufficient else dropped.1, dropped.2)

/-- Nothing is left, and that is known. -/
def removeAll (builder : SparseIdsSliceBuilder) : SparseIdsSliceBuilder × Bool :=
  ({ builder with
      ids := ∅
      fullCount := some 0
      skippedBefore := some 0
      skippedAfter := some 0 }, true)

/-- What comes after is no longer known. -/
def invalidateBottom (builder : SparseIdsSliceBuilder) : SparseIdsSliceBuilder × Bool :=
  ({ builder with fullCount := none, skippedAfter := none }.checkInsufficient, true)

/-- The event that a call on the list makes the viewer see. -/
def follow (builder : SparseIdsSliceBuilder) (list : SparseIdsList) :
    SparseIdsList.Operation → SparseIdsSliceBuilder
  | .addNew messageId => (builder.applyUpdate (list.addNew messageId).2).1
  | .addExisting messageId noSkipRange =>
    (builder.applyUpdate (list.addExisting messageId noSkipRange).2).1
  | .addSlice messageIds noSkipRange count =>
    (builder.applyUpdate (list.addSlice messageIds noSkipRange count).2).1
  | .removeOne messageId => (builder.removeOne messageId).1
  | .removeAll => builder.removeAll.1
  | .invalidateBottom => builder.invalidateBottom.1

/-- A viewer that has just asked the list for its first ids. -/
def start (key : Int) (limitBefore limitAfter : Nat) (list : SparseIdsList) :
    SparseIdsSliceBuilder :=
  let builder : SparseIdsSliceBuilder :=
    { key := key, limitBefore := limitBefore, limitAfter := limitAfter }
  match list.query ⟨key, limitBefore, limitAfter⟩ with
  | some result => builder.applyInitial result
  | none => builder

end SparseIdsSliceBuilder

end TelegramDesktop
