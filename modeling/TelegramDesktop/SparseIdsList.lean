import TelegramDesktop.FlatSet
import TelegramDesktop.SeparatedRanges
import Mathlib.Algebra.Group.Int.Defs

/-!
# The sparse list of message ids

A `SparseIdsList` caches what is known about one server-side set of message
ids: disjoint slices, each complete for its range of ids, and the size of the
whole set when the server has reported it.  The definitions here follow
`storage/storage_sparse_ids_list.cpp`; what the operations keep and what the
queries promise is proved in the files that import this one.  A `MsgId` is a
signed number that is only ever compared, so ids are plain integers here.  So is
the count, an `int` in the code: `Operation.StaysInt` says which calls it can take.
-/

namespace TelegramDesktop

def serverMaxMsgId : Int := 2 ^ 56

/-- `IsServerMsgId` -/
def IsServerMsgId (id : Int) : Prop := 0 < id ∧ id < serverMaxMsgId

instance (id : Int) : Decidable (IsServerMsgId id) :=
  inferInstanceAs (Decidable (_ ∧ _))

/-- A range of ids, both ends included. -/
structure MsgRange where
  «from» : Int
  till : Int
  deriving DecidableEq, Repr

def fullMsgRange : MsgRange := ⟨0, serverMaxMsgId⟩

/-- The ids around one of them. -/
structure SparseIdsListQuery where
  aroundId : Int
  limitBefore : Nat
  limitAfter : Nat

/-- The ids that answer a query, and what is known around them. -/
structure SparseIdsListResult where
  count : Option Int := none
  skippedBefore : Option Int := none
  skippedAfter : Option Int := none
  messageIds : FlatSet Int := ∅

/-- What `sliceUpdated()` fires; `messages` is absent when no slice was touched. -/
structure SparseIdsSliceUpdate where
  messages : Option (FlatSet Int) := none
  range : MsgRange := ⟨0, 0⟩
  count : Option Int := none

/-- The known ids of a range, in which none is missing. -/
structure SparseIdsList.Slice where
  messages : FlatSet Int
  range : MsgRange

/-- Slices of ids, with the count of all of them where it is known. -/
structure SparseIdsList where
  count : Option Int := none
  slices : List SparseIdsList.Slice := []

namespace SparseIdsList

def Slice.merge (slice : Slice) (moreMessages : List Int)
    (moreNoSkipRange : MsgRange) : Slice where
  messages := slice.messages.merge moreMessages
  range := ⟨min slice.range.from moreNoSkipRange.from,
    max slice.range.till moreNoSkipRange.till⟩

/-- `base::flat_set<Slice>::emplace`, ordered by the start of the range: the
new sequence and the element found at the place of `slice`. -/
def emplaceSlice (slice : Slice) : List Slice → List Slice × Slice
  | [] => ([slice], slice)
  | head :: tail =>
    if slice.range.from < head.range.from then (slice :: head :: tail, slice)
    else if head.range.from < slice.range.from then
      let placed := emplaceSlice slice tail
      (head :: placed.1, placed.2)
    else (head :: tail, head)

/-- The slices after an addition, the slice it ended in, if any, and the
number of ids by which `added` counts it. -/
structure AddResult where
  slices : List Slice
  touched : Option Slice
  added : Int

/-- Merge the slices at positions `uniteFrom ..< uniteTill` with the new
messages.  The growth is measured against the first of them only. -/
def uniteAndAdd (slices : List Slice) (uniteFrom uniteTill : Nat)
    (messages : List Int) (noSkipRange : MsgRange) : AddResult :=
  match slices.drop uniteFrom with
  | [] => ⟨slices, none, 0⟩
  | first :: following =>
    let was := first.messages.size
    let merged := (following.take (uniteTill - (uniteFrom + 1))).foldl
      (fun slice next => slice.merge next.messages.keys next.range)
      (first.merge messages noSkipRange)
    { slices := slices.take uniteFrom ++ merged :: slices.drop uniteTill
      touched := some merged
      added := (merged.messages.size : Int) - was }

/-- The messages go to a slice of their own or to one they touch. -/
def addRangeItemsAndCountNew (slices : List Slice) (messages : List Int)
    (noSkipRange : MsgRange) : AddResult :=
  if noSkipRange.from = noSkipRange.till ∧ messages = [] then
    ⟨slices, none, 0⟩
  else
    let uniteFrom := lowerBoundBy (fun slice : Slice => slice.range.till)
      slices noSkipRange.from
    let uniteTill := upperBoundBy (fun slice : Slice => slice.range.from)
      slices noSkipRange.till
    if uniteFrom < uniteTill then
      uniteAndAdd slices uniteFrom uniteTill messages noSkipRange
    else
      let placed := emplaceSlice ⟨FlatSet.ofList messages, noSkipRange⟩ slices
      ⟨placed.1, some placed.2, placed.2.messages.size⟩

/-- Comparing a container's size with an `int` converts the latter to unsigned,
so that a negative number is never reached. -/
def sizeReaches (size : Nat) (count : Int) : Prop := 0 ≤ count ∧ count ≤ size

instance (size : Nat) (count : Int) : Decidable (sizeReaches size count) :=
  inferInstanceAs (Decidable (_ ∧ _))

/-- A single slice that holds `count` ids is known to be the whole list, and a
single slice for the full range tells the count. -/
def settleSingle (count : Option Int) : List Slice → Option Int × List Slice
  | [slice] =>
    let whole : Bool := match count with
      | some known => decide (sizeReaches slice.messages.size known)
      | none => false
    let settled := if whole then { slice with range := fullMsgRange } else slice
    if settled.range = fullMsgRange then
      (some settled.messages.size, [settled])
    else
      (count, [settled])
  | slices => (count, slices)

/-- All slices that touch the range become one. -/
def addRange (list : SparseIdsList) (messages : List Int)
    (noSkipRange : MsgRange) (count : Option Int) (incrementCount : Bool) :
    SparseIdsList × SparseIdsSliceUpdate :=
  let result := addRangeItemsAndCountNew list.slices messages noSkipRange
  let counted :=
    if count.isSome then count
    else if incrementCount ∧ 0 < result.added then list.count.map (· + result.added)
    else list.count
  let settled := settleSingle counted result.slices
  let repaired := match settled.1, result.touched with
    | some known, some slice => some (max known slice.messages.size)
    | unchanged, _ => unchanged
  ({ count := repaired, slices := settled.2 },
    { messages := result.touched.map (·.messages)
      range := match result.touched with
        | some slice => slice.range
        | none => ⟨0, 0⟩
      count := repaired })

def addNew (list : SparseIdsList) (messageId : Int) :
    SparseIdsList × SparseIdsSliceUpdate :=
  list.addRange [messageId] ⟨messageId, serverMaxMsgId⟩ none true

def addExisting (list : SparseIdsList) (messageId : Int)
    (noSkipRange : MsgRange) : SparseIdsList × SparseIdsSliceUpdate :=
  list.addRange [messageId] noSkipRange none false

def addSlice (list : SparseIdsList) (messageIds : List Int)
    (noSkipRange : MsgRange) (count : Option Int) :
    SparseIdsList × SparseIdsSliceUpdate :=
  list.addRange messageIds noSkipRange count false

/-- The position of the slice whose range reaches `messageId` first. -/
def sliceReaching (slices : List Slice) (messageId : Int) : Nat :=
  lowerBoundBy (fun slice : Slice => slice.range.till) slices messageId

/-- One message is removed from its slice. -/
def removeOne (list : SparseIdsList) (messageId : Int) : SparseIdsList where
  slices :=
    match list.slices[sliceReaching list.slices messageId]? with
    | some slice =>
      if slice.range.from ≤ messageId then
        list.slices.set (sliceReaching list.slices messageId)
          { slice with messages := slice.messages.erase messageId }
      else list.slices
    | none => list.slices
  count := list.count.map (· - 1)

/-- One empty slice is left. -/
def removeAll (_ : SparseIdsList) : SparseIdsList where
  slices := [⟨∅, fullMsgRange⟩]
  count := some 0

/-- The slice that reached the newest messages keeps only what it lists. -/
def Slice.cutBottom (slice : Slice) : Slice :=
  { slice with range := ⟨slice.range.from,
      slice.messages.back?.getD slice.range.from⟩ }

/-- The last slice no longer ends the list. -/
def invalidateBottom (list : SparseIdsList) : SparseIdsList where
  slices :=
    match list.slices.getLast? with
    | some last =>
      if last.range.till = serverMaxMsgId then
        list.slices.dropLast ++ [last.cutBottom]
      else list.slices
    | none => list.slices
  count := none

/-- What a slice shows around an id. -/
def queryFromSlice (list : SparseIdsList) (query : SparseIdsListQuery)
    (slice : Slice) : SparseIdsListResult :=
  let position := slice.messages.lowerBound query.aroundId
  let haveBefore := position
  let haveEqualOrAfter := slice.messages.size - position
  let before := min haveBefore query.limitBefore
  let equalOrAfter := min haveEqualOrAfter (query.limitAfter + 1)
  let messageIds := slice.messages.range (position - before) (position + equalOrAfter)
  let skippedBefore : Option Int :=
    if slice.range.from = 0 then some ((haveBefore : Int) - before) else none
  let skippedAfter : Option Int :=
    if slice.range.till = serverMaxMsgId then
      some ((haveEqualOrAfter : Int) - equalOrAfter)
    else none
  match list.count, skippedBefore, skippedAfter with
  | some known, none, some after =>
    ⟨some known, some (known - after - messageIds.size), some after, messageIds⟩
  | some known, some before, none =>
    ⟨some known, some before, some (known - before - messageIds.size), messageIds⟩
  | count, before, after => ⟨count, before, after, messageIds⟩

/-- The slice that has the id in its range. -/
def sliceAround (list : SparseIdsList) (aroundId : Int) : Option Slice :=
  if aroundId = 0 then none
  else match list.slices[sliceReaching list.slices aroundId]? with
    | some slice => if slice.range.from ≤ aroundId then some slice else none
    | none => none

/-- `SparseIdsList::query`: the value it puts, if it puts one. -/
def query (list : SparseIdsList) (query : SparseIdsListQuery) :
    Option SparseIdsListResult :=
  match list.sliceAround query.aroundId with
  | some slice => some (list.queryFromSlice query slice)
  | none =>
    match list.count with
    | some known => some { count := some known }
    | none => none

/-- The answer to a query. -/
def snapshot (list : SparseIdsList) (query : SparseIdsListQuery) :
    SparseIdsListResult :=
  match list.sliceAround query.aroundId with
  | some slice => list.queryFromSlice query slice
  | none =>
    match list.count with
    | some known => { count := some known }
    | none => {}

/-- The calls that change a list. -/
inductive Operation
  | addNew (messageId : Int)
  | addExisting (messageId : Int) (noSkipRange : MsgRange)
  | addSlice (messageIds : List Int) (noSkipRange : MsgRange) (count : Option Int)
  | removeOne (messageId : Int)
  | removeAll
  | invalidateBottom

def apply (list : SparseIdsList) : Operation → SparseIdsList
  | .addNew messageId => (list.addNew messageId).1
  | .addExisting messageId noSkipRange => (list.addExisting messageId noSkipRange).1
  | .addSlice messageIds noSkipRange count =>
    (list.addSlice messageIds noSkipRange count).1
  | .removeOne messageId => list.removeOne messageId
  | .removeAll => list.removeAll
  | .invalidateBottom => list.invalidateBottom

end SparseIdsList

end TelegramDesktop
