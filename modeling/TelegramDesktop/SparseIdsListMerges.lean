import TelegramDesktop.SparseIdsListCounters

/-!
# Merging slices

Every call of `Slice::merge` is given a range that touches that of its slice, and an addition
stores the ids it was given besides those that were stored before.
-/

namespace TelegramDesktop.SparseIdsList

open List

/-- The ids that a call adds and their range. -/
def Operation.added : Operation → Option (List Int × MsgRange)
  | .addNew messageId => some ([messageId], ⟨messageId, serverMaxMsgId⟩)
  | .addExisting messageId noSkipRange => some ([messageId], noSkipRange)
  | .addSlice messageIds noSkipRange _ => some (messageIds, noSkipRange)
  | .removeOne _ | .removeAll | .invalidateBottom => none

/-- What `Slice::merge` expects of the ranges that it is given one after another. -/
def MergesExpected : MsgRange → List MsgRange → Prop
  | _, [] => True
  | range, next :: others =>
    next.Touches range ∧
      MergesExpected ⟨min range.from next.from, max range.till next.till⟩ others

/-- What the calls of `Slice::merge` expect when a range is added. -/
def MergesMeet (slices : List Slice) (noSkipRange : MsgRange) : Prop :=
  let uniteFrom := lowerBoundBy (fun slice : Slice => slice.range.till) slices noSkipRange.from
  let uniteTill := upperBoundBy (fun slice : Slice => slice.range.from) slices noSkipRange.till
  uniteFrom < uniteTill → ∃ first following, slices.drop uniteFrom = first :: following ∧
    MergesExpected first.range
      (noSkipRange :: (following.take (uniteTill - (uniteFrom + 1))).map (·.range))

variable {list : SparseIdsList} {slices : List Slice} {noSkipRange : MsgRange}

theorem mergesExpected_of_touches {core range : MsgRange} {others : List MsgRange}
    (around : range.from ≤ core.from ∧ core.till ≤ range.till)
    (touch : ∀ other ∈ others, other.Touches core) : MergesExpected range others := by
  induction others generalizing range with
  | nil => trivial
  | cons next others ih =>
    obtain ⟨nextTouches, touch⟩ := forall_mem_cons.mp touch
    exact ⟨⟨nextTouches.1.trans around.2, around.1.trans nextTouches.2⟩,
      ih ⟨(min_le_left _ _).trans around.1, around.2.trans (le_max_left _ _)⟩ touch⟩

theorem mergesMeet (separated : SlicesSeparated slices) (noSkipRange : MsgRange) :
    MergesMeet slices noSkipRange := by
  simp only [MergesMeet]
  generalize fromEq : lowerBoundBy (fun slice : Slice => slice.range.till) slices
    noSkipRange.from = uniteFrom
  generalize tillEq : upperBoundBy (fun slice : Slice => slice.range.from) slices
    noSkipRange.till = uniteTill
  intro unite
  have bounded : uniteTill ≤ slices.length := tillEq ▸ (takeWhile_sublist _).length_le
  have first := drop_eq_getElem_cons (unite.trans_le bounded)
  have touches : ∀ slice ∈ (slices.drop uniteFrom).take (uniteTill - uniteFrom),
      slice.range.Touches noSkipRange := by
    intro slice member
    have reached := separated.le_upper_of_mem_drop (fromEq ▸ mem_of_mem_take member)
    rw [← drop_take, ← tillEq] at member
    have cut := Separated.lower_le_of_mem_take (mem_of_mem_drop member)
    exact ⟨cut, reached⟩
  rw [first, show uniteTill - uniteFrom = uniteTill - (uniteFrom + 1) + 1 by omega,
    take_succ_cons, forall_mem_cons] at touches
  exact ⟨_, _, first, ⟨touches.1.2, touches.1.1⟩, mergesExpected_of_touches
    ⟨min_le_right _ _, le_max_right _ _⟩ (forall_mem_map.mpr touches.2)⟩

/-- The id is in one of the slices. -/
def Stored (slices : List Slice) (id : Int) : Prop := ∃ slice ∈ slices, id ∈ slice.messages

theorem settleSingle_stored (count : Option Int) (id : Int) :
    Stored (settleSingle count slices).2 id ↔ Stored slices id := by
  rcases settleSingle_cases count slices with ⟨slice, rfl, -, settled⟩ | ⟨settled, -⟩
  · rw [settled]
    simp [Stored, Slice.widen]
  · rw [settled]

theorem addRange_stored (normal : NormalForm list.slices) {messages : List Int}
    (ordered : noSkipRange.Ordered) (count : Option Int) (incrementCount : Bool) (id : Int) :
    Stored (list.addRange messages noSkipRange count incrementCount).1.slices id ↔
      Stored list.slices id ∨ id ∈ messages := by
  refine (settleSingle_stored _ id).trans ?_
  rcases addRangeItemsAndCountNew_spec normal.separated messages ordered with
    ⟨-, absent, same⟩ | ⟨below, touched, above, merged, addition⟩
  · rw [same, absent]
    simp
  · have united := addition.unites.mem_iff id
    rw [addition.joined, addition.split]
    simp only [Stored, mem_append, mem_cons, or_and_right, exists_or, exists_eq_left,
      FlatSet.mem_ofList] at united ⊢
    rw [united]
    grind

theorem apply_stored (normal : NormalForm list.slices) {operation : Operation}
    (inside : operation.Inside) {messages : List Int}
    (adds : operation.added = some (messages, noSkipRange)) (id : Int) :
    Stored (list.apply operation).slices id ↔ Stored list.slices id ∨ id ∈ messages := by
  cases operation with
  | addNew messageId =>
    cases adds
    exact @addRange_stored list ⟨messageId, serverMaxMsgId⟩ normal _ inside.2.le none true id
  | addExisting messageId noSkipRange =>
    cases adds
    exact addRange_stored normal (inside.2.1.trans inside.2.2) none false id
  | addSlice messageIds noSkipRange count =>
    cases adds
    exact addRange_stored normal inside.1 count false id
  | removeOne | removeAll | invalidateBottom => cases adds

/-- Whatever is called, the slices stay in order, the next merges are as expected, and an
addition adds its ids. -/
theorem slices_stay_normal {operations : List Operation}
    (inside : ∀ operation ∈ operations, operation.Inside) :
    NormalForm (run operations).slices ∧
      ∀ operation : Operation, operation.Inside → ∀ messages noSkipRange,
        operation.added = some (messages, noSkipRange) →
          MergesMeet (run operations).slices noSkipRange ∧
            ∀ id, Stored (run (operations ++ [operation])).slices id ↔
              Stored (run operations).slices id ∨ id ∈ messages := by
  have normal := run_normalForm inside
  refine ⟨normal, fun operation next messages noSkipRange adds =>
    ⟨mergesMeet normal.separated noSkipRange, fun id => ?_⟩⟩
  rw [run_append]
  exact apply_stored normal next adds id

theorem slices_stay_normal_touching :
    NormalForm (run [.addSlice [3, 5] ⟨2, 6⟩ none, .addExisting 7 ⟨6, 9⟩]).slices ∧
      ∀ operation : Operation, operation.Inside → ∀ messages noSkipRange,
        operation.added = some (messages, noSkipRange) →
          MergesMeet (run [.addSlice [3, 5] ⟨2, 6⟩ none, .addExisting 7 ⟨6, 9⟩]).slices
            noSkipRange ∧
            ∀ id, Stored (run ([.addSlice [3, 5] ⟨2, 6⟩ none, .addExisting 7 ⟨6, 9⟩] ++
              [operation])).slices id ↔
                Stored (run [.addSlice [3, 5] ⟨2, 6⟩ none, .addExisting 7 ⟨6, 9⟩]).slices id ∨
                  id ∈ messages :=
  slices_stay_normal (by
    simp [Operation.Inside, MsgRange.Ordered, MsgRange.Covers, IsServerMsgId, serverMaxMsgId])

/-- Ids that no server message has are left outside of the range of the whole list. -/
theorem not_within_unserved : ¬∀ messages noSkipRange count, noSkipRange.Ordered →
    (∀ id ∈ messages, noSkipRange.Covers id) →
      ∀ slice ∈ (run [.addSlice messages noSkipRange count]).slices, ∀ id ∈ slice.messages,
        slice.range.Covers id := by
  intro within
  have covers := within [-5] ⟨-5, -5⟩ (some 1) le_rfl (by simp [MsgRange.Covers])
    ⟨FlatSet.ofList [-5], fullMsgRange⟩ (mem_singleton.mpr rfl) (-5) (by decide)
  exact absurd covers.1 (by decide)

end TelegramDesktop.SparseIdsList
