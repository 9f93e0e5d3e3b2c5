import TelegramDesktop.SparseIdsList

/-!
# Normal form of the slices

The slices of a `SparseIdsList` are kept apart: every slice ends before the
next one begins, whatever is added or removed.  An addition replaces the slices
that touch the added range by their union with it, which is the one
description of `addRangeItemsAndCountNew` that later files use.
-/

namespace TelegramDesktop

open List FlatSet

namespace MsgRange

/-- The id lies in the range. -/
def Covers (range : MsgRange) (id : Int) : Prop :=
  range.from ≤ id ∧ id ≤ range.till

instance (range : MsgRange) (id : Int) : Decidable (range.Covers id) :=
  inferInstanceAs (Decidable (_ ∧ _))

/-- The ranges have an id in common. -/
def Touches (first second : MsgRange) : Prop :=
  first.from ≤ second.till ∧ second.from ≤ first.till

instance (first second : MsgRange) : Decidable (first.Touches second) :=
  inferInstanceAs (Decidable (_ ∧ _))

/-- The range is not empty. -/
def Ordered (range : MsgRange) : Prop := range.from ≤ range.till

end MsgRange

namespace SparseIdsList

/-- Every slice has a nonempty range and ends before the next one begins. -/
abbrev SlicesSeparated (slices : List Slice) : Prop :=
  Separated (fun slice : Slice => slice.range.from)
    (fun slice : Slice => slice.range.till) slices

theorem SlicesSeparated.eq_of_covers {slices : List Slice} (separated : SlicesSeparated slices)
    {first second : Slice} (firstMem : first ∈ slices) (secondMem : second ∈ slices) {id : Int}
    (firstCovers : first.range.Covers id) (secondCovers : second.range.Covers id) :
    first = second :=
  separated.eq_of_overlap firstMem secondMem
    (firstCovers.1.trans secondCovers.2) (secondCovers.1.trans firstCovers.2)

variable {slice : Slice}

theorem SlicesSeparated.others_not_covers {slices before after : List Slice}
    (separated : SlicesSeparated slices) {other : Slice} (split : slices = before ++ slice :: after)
    {id : Int} (covers : slice.range.Covers id) (member : other ∈ before ++ after) :
    other ∈ slices ∧ ¬ other.range.Covers id := by
  have otherMem : other ∈ slices := by
    rw [split]
    rcases mem_append.mp member with old | old <;> simp [old]
  refine ⟨otherMem, fun otherCovers => ?_⟩
  have same := separated.eq_of_covers otherMem (by simp [split]) otherCovers covers
  have distinct := separated.lower_mono
  rw [split, pairwise_append, pairwise_cons] at distinct
  rcases mem_append.mp member with old | old
  · exact absurd (distinct.2.2 other old slice (by simp)) (by rw [same]; exact lt_irrefl _)
  · exact absurd (distinct.2.1.1 other old) (by rw [same]; exact lt_irrefl _)

/-- `merged` holds exactly the ids and covers exactly the ranges of `sources`. -/
structure Unites (sources : List Slice) (merged : Slice) : Prop where
  mem_iff : ∀ id, id ∈ merged.messages ↔ ∃ source ∈ sources, id ∈ source.messages
  covers_iff : ∀ id, merged.range.Covers id ↔
    ∃ source ∈ sources, source.range.Covers id
  from_eq : ∃ source ∈ sources, merged.range.from = source.range.from
  till_eq : ∃ source ∈ sources, merged.range.till = source.range.till

namespace Unites

theorem single (slice : Slice) : Unites [slice] slice :=
  ⟨by simp, by simp, by simp, by simp⟩

section

variable {sources : List Slice} {merged : Slice} (unites : Unites sources merged)
include unites

theorem of_mem_iff {others : List Slice} (same : ∀ source, source ∈ others ↔ source ∈ sources) :
    Unites others merged := by
  simpa only [Unites, same] using (⟨by simpa only [same] using unites.mem_iff,
      by simpa only [same] using unites.covers_iff,
      by simpa only [same] using unites.from_eq,
      by simpa only [same] using unites.till_eq⟩ : Unites others merged)

theorem merge {next : Slice} (touches : next.range.Touches merged.range) :
    Unites (next :: sources) (merged.merge next.messages.keys next.range) where
  mem_iff id := by
    change id ∈ merged.messages.merge next.messages.keys ↔ _
    rw [FlatSet.mem_merge, unites.mem_iff, FlatSet.mem_keys, or_comm]
    simp
  covers_iff id := by
    have hull : (merged.merge next.messages.keys next.range).range.Covers id ↔
        next.range.Covers id ∨ merged.range.Covers id := by
      simp only [Slice.merge, MsgRange.Covers, MsgRange.Touches] at touches ⊢
      omega
    rw [hull, unites.covers_iff]
    simp
  from_eq := by
    obtain ⟨source, member, fromEq⟩ := unites.from_eq
    rcases le_total merged.range.from next.range.from with first | second
    · exact ⟨source, mem_cons_of_mem _ member, by
        rw [← fromEq]
        exact min_eq_left first⟩
    · exact ⟨next, by simp, by simp only [Slice.merge, min_eq_right second]⟩
  till_eq := by
    obtain ⟨source, member, tillEq⟩ := unites.till_eq
    rcases le_total next.range.till merged.range.till with first | second
    · exact ⟨source, mem_cons_of_mem _ member, by
        rw [← tillEq]
        exact max_eq_left first⟩
    · exact ⟨next, by simp, by simp only [Slice.merge, max_eq_right second]⟩

theorem contains {source : Slice} (member : source ∈ sources)
    (sourceOrdered : source.range.Ordered) :
    merged.range.from ≤ source.range.from ∧ source.range.till ≤ merged.range.till :=
  ⟨((unites.covers_iff _).mpr ⟨source, member, le_refl _, sourceOrdered⟩).1,
    ((unites.covers_iff _).mpr ⟨source, member, sourceOrdered, le_refl _⟩).2⟩

end

end Unites

theorem unites_foldl {core : MsgRange} {others sources : List Slice} {merged : Slice}
    (unites : Unites sources merged)
    (around : merged.range.from ≤ core.from ∧ core.till ≤ merged.range.till)
    (touch : ∀ other ∈ others, other.range.Touches core) :
    Unites (others.reverse ++ sources) (others.foldl
      (fun slice next => slice.merge next.messages.keys next.range) merged) := by
  induction others generalizing sources merged with
  | nil => exact unites
  | cons next others ih =>
    have nextTouches := touch next (by simp)
    have touches : next.range.Touches merged.range :=
      ⟨nextTouches.1.trans around.2, around.1.trans nextTouches.2⟩
    have extended := unites.merge touches
    rw [foldl_cons, reverse_cons, append_assoc, singleton_append]
    refine ih extended ?_ (fun other member => touch other (by simp [member]))
    constructor
    · exact (min_le_left _ _).trans around.1
    · exact around.2.trans (le_max_left _ _)

/-- The slices below the added range stay, the touched ones are united with
the added messages, and the slices above stay. -/
structure Addition (slices : List Slice) (messages : List Int)
    (noSkipRange : MsgRange) (result : AddResult)
    (below touched above : List Slice) (merged : Slice) : Prop where
  split : slices = below ++ touched ++ above
  joined : result.slices = below ++ merged :: above
  reported : result.touched = some merged
  unites : Unites (⟨FlatSet.ofList messages, noSkipRange⟩ :: touched) merged
  below_lt : ∀ slice ∈ below, slice.range.till < noSkipRange.from
  touches : ∀ slice ∈ touched, slice.range.Touches noSkipRange
  lt_above : ∀ slice ∈ above, noSkipRange.till < slice.range.from
  added_eq : result.added = (merged.messages.size : Int) -
    (touched.head?.elim 0 fun first => first.messages.size)

private theorem emplaceSlice_append {below above : List Slice}
    (before : ∀ other ∈ below, other.range.from < slice.range.from)
    (after : ∀ other ∈ above, slice.range.from < other.range.from) :
    emplaceSlice slice (below ++ above) = (below ++ slice :: above, slice) := by
  induction below with
  | nil =>
    cases above with
    | nil => rfl
    | cons head tail => simp [emplaceSlice, after head (by simp)]
  | cons head below ih =>
    have headBefore := before head (by simp)
    have tailEq := ih fun other member => before other (by simp [member])
    rw [cons_append, emplaceSlice, if_neg (lt_asymm headBefore), if_pos headBefore, tailEq]
    rfl

private theorem uniteAndAdd_eq {slices touched : List Slice} {first : Slice}
    {messages : List Int} {noSkipRange : MsgRange} {uniteFrom uniteTill : Nat}
    (split : slices = slices.take uniteFrom ++ (first :: touched) ++
      slices.drop uniteTill)
    (ordered : uniteFrom < uniteTill) (bounded : uniteTill ≤ slices.length) :
    uniteAndAdd slices uniteFrom uniteTill messages noSkipRange =
      let merged := touched.foldl
        (fun slice next => slice.merge next.messages.keys next.range)
        (first.merge messages noSkipRange)
      { slices := slices.take uniteFrom ++ merged :: slices.drop uniteTill
        touched := some merged
        added := (merged.messages.size : Int) - first.messages.size } := by
  have suffix : slices.drop uniteFrom = first :: touched ++ slices.drop uniteTill := by
    have whole := take_append_drop uniteFrom slices
    rw [append_assoc] at split
    exact append_cancel_left (whole.trans split)
  have count : uniteTill - (uniteFrom + 1) = touched.length := by
    have lengths := congrArg length suffix
    simp only [length_drop, length_append, length_cons] at lengths
    omega
  rw [uniteAndAdd, suffix]
  simp only [cons_append, count, take_left']

private theorem unites_touched {first : Slice} {others : List Slice}
    {noSkipRange : MsgRange} (messages : List Int) (ordered : noSkipRange.Ordered)
    (touches : ∀ slice ∈ first :: others, slice.range.Touches noSkipRange) :
    Unites (⟨ofList messages, noSkipRange⟩ :: first :: others)
      (others.foldl (fun slice next => slice.merge next.messages.keys next.range)
        (first.merge messages noSkipRange)) := by
  let loaded : Slice := ⟨ofList messages, noSkipRange⟩
  have loadedOrdered : loaded.range.Ordered := ordered
  have firstTouches := touches first (by simp)
  have start : Unites [loaded, first] (first.merge messages noSkipRange) := by
    have same : first.merge messages noSkipRange =
        first.merge loaded.messages.keys loaded.range := by
      simp only [Slice.merge]
      congr 1
      ext id
      simp [loaded]
    rw [same]
    exact (Unites.single first).merge ⟨firstTouches.2, firstTouches.1⟩
  have loadedMem : loaded ∈ [loaded, first] := by simp
  have around := start.contains loadedMem loadedOrdered
  have othersTouch : ∀ other ∈ others, other.range.Touches noSkipRange :=
    fun other member => touches other (mem_cons_of_mem _ member)
  have united := unites_foldl start around othersTouch
  refine united.of_mem_iff fun source => ?_
  simp only [mem_append, mem_reverse, mem_cons, not_mem_nil, or_false]
  tauto

section Cuts

variable {slices : List Slice} {noSkipRange : MsgRange}

private abbrev uniteFrom (slices : List Slice) (noSkipRange : MsgRange) : Nat :=
  lowerBoundBy (fun slice : Slice => slice.range.till) slices noSkipRange.from

private abbrev uniteTill (slices : List Slice) (noSkipRange : MsgRange) : Nat :=
  upperBoundBy (fun slice : Slice => slice.range.from) slices noSkipRange.till

private theorem below_cut (member : slice ∈ slices.take (uniteFrom slices noSkipRange)) :
    slice.range.till < noSkipRange.from := by
  have cut := Separated.upper_lt_of_mem_take member
  exact cut

section

variable (separated : SlicesSeparated slices)
include separated

private theorem above_cut (member : slice ∈ slices.drop (uniteTill slices noSkipRange)) :
    noSkipRange.till < slice.range.from :=
  separated.lt_lower_of_mem_drop member

private theorem touched_cut
    (member : slice ∈ (slices.take (uniteTill slices noSkipRange)).drop
      (uniteFrom slices noSkipRange)) :
    slice.range.Touches noSkipRange := by
  have reached : slice ∈ slices.drop (uniteFrom slices noSkipRange) := by
    rw [drop_take] at member
    exact mem_of_mem_take member
  have cut := Separated.lower_le_of_mem_take (mem_of_mem_drop member)
  exact ⟨cut, separated.le_upper_of_mem_drop reached⟩

private theorem addition_of_touched {messages : List Int} (ordered : noSkipRange.Ordered)
    (unite : uniteFrom slices noSkipRange < uniteTill slices noSkipRange) :
    ∃ below touched above merged, Addition slices messages noSkipRange
      (uniteAndAdd slices (uniteFrom slices noSkipRange) (uniteTill slices noSkipRange)
        messages noSkipRange) below touched above merged := by
  have split : slices = slices.take (uniteFrom slices noSkipRange) ++
      (slices.take (uniteTill slices noSkipRange)).drop (uniteFrom slices noSkipRange) ++
      slices.drop (uniteTill slices noSkipRange) := by
    have head : (slices.take (uniteTill slices noSkipRange)).take
        (uniteFrom slices noSkipRange) = slices.take (uniteFrom slices noSkipRange) := by
      rw [take_take, min_eq_left unite.le]
    conv_rhs => rw [← head, take_append_drop, take_append_drop]
  have bounded : uniteTill slices noSkipRange ≤ slices.length :=
    (takeWhile_sublist _).length_le
  have touches : ∀ slice ∈ (slices.take (uniteTill slices noSkipRange)).drop
      (uniteFrom slices noSkipRange), slice.range.Touches noSkipRange :=
    fun slice member => touched_cut separated member
  cases touchedEq : (slices.take (uniteTill slices noSkipRange)).drop
      (uniteFrom slices noSkipRange) with
  | nil =>
    have none := congrArg length touchedEq
    rw [length_drop, length_take, length_nil] at none
    omega
  | cons first others =>
    rw [touchedEq] at split touches
    rw [uniteAndAdd_eq split unite bounded]
    exact ⟨_, first :: others, _, _,
      { split := split
        joined := rfl
        reported := rfl
        unites := unites_touched messages ordered touches
        below_lt := fun slice member => below_cut member
        touches := touches
        lt_above := fun slice member => above_cut separated member
        added_eq := rfl }⟩

private theorem addition_of_untouched {messages : List Int} (ordered : noSkipRange.Ordered)
    (same : uniteFrom slices noSkipRange = uniteTill slices noSkipRange) :
    ∃ below touched above merged, Addition slices messages noSkipRange
      ⟨(emplaceSlice ⟨ofList messages, noSkipRange⟩ slices).1,
        some (emplaceSlice ⟨ofList messages, noSkipRange⟩ slices).2,
        (emplaceSlice ⟨ofList messages, noSkipRange⟩ slices).2.messages.size⟩
      below touched above merged := by
  let loaded : Slice := ⟨ofList messages, noSkipRange⟩
  have split : slices = slices.take (uniteFrom slices noSkipRange) ++
      slices.drop (uniteTill slices noSkipRange) := by
    rw [← same, take_append_drop]
  have placed : emplaceSlice loaded slices =
      (slices.take (uniteFrom slices noSkipRange) ++
        loaded :: slices.drop (uniteTill slices noSkipRange), loaded) := by
    conv_lhs => rw [split]
    refine emplaceSlice_append ?_ ?_
    · intro other member
      exact lt_of_le_of_lt (separated.ordered _ (mem_of_mem_take member)) (below_cut member)
    · intro other member
      exact lt_of_le_of_lt ordered (above_cut separated member)
  rw [placed]
  exact ⟨_, [], _, loaded,
    { split := by rw [append_nil]; exact split
      joined := rfl
      reported := rfl
      unites := Unites.single loaded
      below_lt := fun slice member => below_cut member
      touches := by simp
      lt_above := fun slice member => above_cut separated member
      added_eq := by simp }⟩

theorem addRangeItemsAndCountNew_spec (messages : List Int) (ordered : noSkipRange.Ordered) :
    (noSkipRange.from = noSkipRange.till ∧ messages = [] ∧
        addRangeItemsAndCountNew slices messages noSkipRange = ⟨slices, none, 0⟩) ∨
      ∃ below touched above merged, Addition slices messages noSkipRange
        (addRangeItemsAndCountNew slices messages noSkipRange)
        below touched above merged := by
  by_cases nothing : noSkipRange.from = noSkipRange.till ∧ messages = []
  · exact .inl ⟨nothing.1, nothing.2, by rw [addRangeItemsAndCountNew, if_pos nothing]⟩
  right
  rw [addRangeItemsAndCountNew, if_neg nothing]
  rcases (separated.lowerBound_le_upperBound ordered).lt_or_eq with unite | same
  · rw [if_pos unite]
    exact addition_of_touched separated ordered unite
  · rw [if_neg (not_lt.mpr same.ge)]
    exact addition_of_untouched separated ordered same

end

end Cuts

namespace Addition

variable {slices below touched above : List Slice} {messages : List Int}
  {noSkipRange : MsgRange} {result : AddResult} {merged : Slice}

section

variable (addition : Addition slices messages noSkipRange result below touched above merged)
include addition

theorem contains_range (ordered : noSkipRange.Ordered) :
    merged.range.from ≤ noSkipRange.from ∧ noSkipRange.till ≤ merged.range.till := by
  have loadedMem : (⟨ofList messages, noSkipRange⟩ : Slice) ∈
      ⟨ofList messages, noSkipRange⟩ :: touched := by simp
  exact addition.unites.contains loadedMem ordered

theorem merged_ordered (ordered : noSkipRange.Ordered) : merged.range.Ordered :=
  (addition.contains_range ordered).1.trans (ordered.trans (addition.contains_range ordered).2)

theorem mem_slices (member : slice ∈ below ∨ slice ∈ touched ∨ slice ∈ above) : slice ∈ slices := by
  rw [addition.split]
  simpa [or_assoc] using member

theorem mem_result : slice ∈ result.slices ↔ slice ∈ below ∨ slice = merged ∨ slice ∈ above := by
  rw [addition.joined]
  simp

theorem not_touches (member : slice ∈ below ∨ slice ∈ above) :
    ¬ slice.range.Touches noSkipRange := by
  rcases member with before | after
  · exact fun touches => not_le.mpr (addition.below_lt slice before) touches.2
  · exact fun touches => not_le.mpr (addition.lt_above slice after) touches.1

theorem filter_touches : slices.filter (·.range.Touches noSkipRange) = touched := by
  have noneBelow : below.filter (·.range.Touches noSkipRange) = [] := by
    rw [filter_eq_nil_iff]
    intro slice member
    simpa using addition.not_touches (.inl member)
  have allTouched : touched.filter (·.range.Touches noSkipRange) = touched := by
    rw [filter_eq_self]
    intro slice member
    simpa using addition.touches slice member
  have noneAbove : above.filter (·.range.Touches noSkipRange) = [] := by
    rw [filter_eq_nil_iff]
    intro slice member
    simpa using addition.not_touches (.inr member)
  rw [addition.split, filter_append, filter_append, noneBelow, allTouched,
    noneAbove, nil_append, append_nil]

theorem separated (wasSeparated : SlicesSeparated slices) (ordered : noSkipRange.Ordered) :
    SlicesSeparated result.slices := by
  rw [addition.split, append_assoc] at wasSeparated
  have pairs := wasSeparated.apart
  rw [pairwise_append, pairwise_append] at pairs
  have belowBefore : ∀ low ∈ below, low.range.till < merged.range.from := by
    intro low lowMem
    obtain ⟨source, sourceMem, fromEq⟩ := addition.unites.from_eq
    rw [fromEq]
    rcases mem_cons.mp sourceMem with rfl | old
    · exact addition.below_lt low lowMem
    · exact pairs.2.2 low lowMem source (mem_append_left _ old)
  have beforeAbove : ∀ high ∈ above, merged.range.till < high.range.from := by
    intro high highMem
    obtain ⟨source, sourceMem, tillEq⟩ := addition.unites.till_eq
    rw [tillEq]
    rcases mem_cons.mp sourceMem with rfl | old
    · exact addition.lt_above high highMem
    · exact pairs.2.1.2.2 source old high highMem
  have belowSeparated := wasSeparated.sublist (sublist_append_left below _)
  have aboveSeparated := wasSeparated.sublist ((sublist_append_right touched above).trans
      (sublist_append_right below _))
  rw [addition.joined]
  refine belowSeparated.append ?_ ?_
  · have mergedSeparated : SlicesSeparated [merged] :=
      .singleton (addition.merged_ordered ordered)
    refine mergedSeparated.append aboveSeparated ?_
    simpa using beforeAbove
  · intro low lowMem high highMem
    rcases mem_cons.mp highMem with rfl | highMem
    · exact belowBefore low lowMem
    · exact pairs.2.2 low lowMem high (mem_append_right _ highMem)

end

end Addition

/-- The slice with the full range. -/
def Slice.widen (slice : Slice) : Slice := { slice with range := fullMsgRange }

theorem settleSingle_cases (count : Option Int) (slices : List Slice) :
    (∃ slice, slices = [slice] ∧
        ((∃ known, count = some known ∧ sizeReaches slice.messages.size known) ∨
          slice.range = fullMsgRange) ∧
        settleSingle count slices = (some (slice.messages.size : Int), [slice.widen])) ∨
      (settleSingle count slices = (count, slices) ∧
        ∀ slice, slices = [slice] → slice.range ≠ fullMsgRange ∧
          ∀ known, count = some known → ¬ sizeReaches slice.messages.size known) := by
  match slices with
  | [] => exact .inr ⟨rfl, by simp⟩
  | first :: second :: others => exact .inr ⟨rfl, by simp⟩
  | [slice] =>
    by_cases full : slice.range = fullMsgRange
    · left
      refine ⟨slice, rfl, .inr full, ?_⟩
      have widened : { slice with range := fullMsgRange } = slice := by rw [← full]
      simp only [settleSingle, Slice.widen, widened, ite_self, if_pos full]
    · cases count with
      | none =>
        right
        exact ⟨by simp [settleSingle, full], by simp [full]⟩
      | some known =>
        by_cases whole : sizeReaches slice.messages.size known
        · left
          exact ⟨slice, rfl, .inl ⟨known, rfl, whole⟩, by
            simp [settleSingle, whole, Slice.widen]⟩
        · right
          refine ⟨by simp [settleSingle, whole, full], ?_⟩
          simpa [full] using whole

/-- The count of a list once an addition has counted its new ids. -/
def countedBy (list : SparseIdsList) (count : Option Int) (incrementCount : Bool)
    (added : Int) : Option Int :=
  if count.isSome then count
  else if incrementCount ∧ 0 < added then list.count.map (· + added)
  else list.count

/-- The ways in which an addition can end: it touches nothing or ends in one
slice, and either way the only slice may turn out to be the whole list. -/
inductive AddRangeOutcome (list : SparseIdsList) (messages : List Int)
    (noSkipRange : MsgRange) (counted : Option Int) :
    SparseIdsList × SparseIdsSliceUpdate → Prop
  | nothing (single : noSkipRange.from = noSkipRange.till) (absent : messages = [])
      (unsettled : ∀ slice, list.slices = [slice] → ∀ known, counted = some known →
        ¬ sizeReaches slice.messages.size known) :
      AddRangeOutcome list messages noSkipRange counted
        (⟨counted, list.slices⟩, ⟨none, ⟨0, 0⟩, counted⟩)
  | nothingWhole {slice : Slice} (single : noSkipRange.from = noSkipRange.till)
      (absent : messages = []) (only : list.slices = [slice]) :
      AddRangeOutcome list messages noSkipRange counted
        (⟨some slice.messages.size, [slice.widen]⟩,
          ⟨none, ⟨0, 0⟩, some slice.messages.size⟩)
  | merged {below touched above : List Slice} {merged : Slice}
      (addition : Addition list.slices messages noSkipRange
        (addRangeItemsAndCountNew list.slices messages noSkipRange)
        below touched above merged) :
      AddRangeOutcome list messages noSkipRange counted
        (⟨counted.map (max · (merged.messages.size : Int)), below ++ merged :: above⟩,
          ⟨some merged.messages, merged.range,
            counted.map (max · (merged.messages.size : Int))⟩)
  | mergedWhole {touched : List Slice} {merged : Slice}
      (addition : Addition list.slices messages noSkipRange
        (addRangeItemsAndCountNew list.slices messages noSkipRange)
        [] touched [] merged) :
      AddRangeOutcome list messages noSkipRange counted
        (⟨some merged.messages.size, [merged.widen]⟩,
          ⟨some merged.messages, merged.range, some merged.messages.size⟩)

variable {list : SparseIdsList}

theorem addRange_outcome (separated : SlicesSeparated list.slices)
    (messages : List Int) {noSkipRange : MsgRange} (ordered : noSkipRange.Ordered)
    (count : Option Int) (incrementCount : Bool) :
    AddRangeOutcome list messages noSkipRange
      (list.countedBy count incrementCount
        (addRangeItemsAndCountNew list.slices messages noSkipRange).added)
      (list.addRange messages noSkipRange count incrementCount) := by
  generalize countedEq : list.countedBy count incrementCount
    (addRangeItemsAndCountNew list.slices messages noSkipRange).added = counted
  unfold countedBy at countedEq
  unfold addRange
  dsimp only
  rw [countedEq]
  rcases addRangeItemsAndCountNew_spec separated messages ordered with
    ⟨single, absent, same⟩ | ⟨below, touched, above, merged, addition⟩
  · rw [same]
    rcases settleSingle_cases counted list.slices with
      ⟨slice, only, _, settled⟩ | ⟨settled, unsettled⟩
    · rw [settled]
      exact .nothingWhole single absent only
    · rw [settled]
      have small := fun slice only => (unsettled slice only).2
      cases counted <;> exact .nothing single absent small
  · rw [addition.reported]
    rcases settleSingle_cases counted
        (addRangeItemsAndCountNew list.slices messages noSkipRange).slices with
      ⟨slice, only, _, settled⟩ | ⟨settled, _⟩
    · rw [settled]
      rw [addition.joined, append_eq_singleton_iff] at only
      have alone : below = [] ∧ merged = slice ∧ above = [] := by simpa using only
      obtain ⟨rfl, rfl, rfl⟩ := alone
      simp only [Option.map_some, max_self]
      exact .mergedWhole addition
    · rw [settled, addition.joined]
      cases counted <;> exact .merged addition

theorem sliceReaching_cases {slices : List Slice} (separated : SlicesSeparated slices) (id : Int) :
    (∃ before slice after, slices = before ++ slice :: after ∧
        before.length = sliceReaching slices id ∧
        slices[sliceReaching slices id]? = some slice ∧ slice.range.Covers id) ∨
      ((∀ slice ∈ slices, ¬ slice.range.Covers id) ∧
        ∀ slice, slices[sliceReaching slices id]? = some slice →
          ¬ slice.range.from ≤ id) := by
  have below : ∀ slice ∈ slices.take (sliceReaching slices id), slice.range.till < id := by
    intro slice member
    have cut := Separated.upper_lt_of_mem_take member
    exact cut
  have whole := take_append_drop (sliceReaching slices id) slices
  cases found : slices[sliceReaching slices id]? with
  | none =>
    right
    refine ⟨?_, by simp⟩
    intro slice member covers
    have all : slices.take (sliceReaching slices id) = slices :=
      take_of_length_le (getElem?_eq_none_iff.mp found)
    rw [← all] at member
    exact not_le.mpr (below slice member) covers.2
  | some slice =>
    obtain ⟨within, elemEq⟩ := List.getElem?_eq_some_iff.mp found
    have suffix := drop_eq_getElem_cons within
    rw [elemEq] at suffix
    have member : slice ∈ slices.drop (sliceReaching slices id) := by simp [suffix]
    have reaches : id ≤ slice.range.till := separated.le_upper_of_mem_drop member
    rw [suffix] at whole
    by_cases starts : slice.range.from ≤ id
    · left
      refine ⟨_, slice, _, whole.symm, ?_, rfl, starts, reaches⟩
      rw [length_take]
      exact min_eq_left within.le
    · right
      refine ⟨?_, ?_⟩
      · intro other member covers
        have apart := separated.apart
        rw [← whole] at member apart
        rw [pairwise_append, pairwise_cons] at apart
        rcases mem_append.mp member with earlier | later
        · exact not_le.mpr (below other earlier) covers.2
        · rcases mem_cons.mp later with rfl | later
          · exact starts covers.1
          · have beyond := apart.2.1.1 other later
            exact starts ((separated.ordered slice (mem_of_getElem? found)).trans
              (beyond.le.trans covers.1))
      · intro other same
        obtain rfl := Option.some.inj same
        exact starts

theorem removeOne_slices (separated : SlicesSeparated list.slices) (id : Int) :
    (∃ before slice after, list.slices = before ++ slice :: after ∧
        slice.range.Covers id ∧ (list.removeOne id).slices =
          before ++ { slice with messages := slice.messages.erase id } :: after) ∨
      ((∀ slice ∈ list.slices, ¬ slice.range.Covers id) ∧
        (list.removeOne id).slices = list.slices) := by
  rcases sliceReaching_cases separated id with
    ⟨before, slice, after, split, position, found, covers⟩ | ⟨none, found⟩
  · left
    refine ⟨before, slice, after, split, covers, ?_⟩
    simp only [removeOne, found, if_pos covers.1]
    rw [← position]
    conv_lhs => rw [split]
    rw [set_append_right _ _ (le_refl _), Nat.sub_self, set_cons_zero]
  · right
    refine ⟨none, ?_⟩
    cases reached : list.slices[sliceReaching list.slices id]? with
    | none => simp only [removeOne, reached]
    | some slice => simp only [removeOne, reached, if_neg (found slice reached)]

theorem sliceAround_eq_some (separated : SlicesSeparated list.slices) {aroundId : Int} :
    list.sliceAround aroundId = some slice ↔
      aroundId ≠ 0 ∧ slice ∈ list.slices ∧ slice.range.Covers aroundId := by
  by_cases zero : aroundId = 0
  · simp [sliceAround, zero]
  rw [sliceAround, if_neg zero]
  rcases sliceReaching_cases separated aroundId with
    ⟨before, found, after, split, position, foundEq, covers⟩ | ⟨none, found⟩
  · simp only [foundEq, if_pos covers.1, Option.some.injEq]
    have member : found ∈ list.slices := by simp [split]
    constructor
    · rintro rfl
      exact ⟨zero, member, covers⟩
    · rintro ⟨_, otherMem, otherCovers⟩
      exact separated.eq_of_covers member otherMem covers otherCovers
  · constructor
    · intro result
      cases reached : list.slices[sliceReaching list.slices aroundId]? with
      | none => simp [reached] at result
      | some other => simp [reached, found other reached] at result
    · rintro ⟨_, member, covers⟩
      exact (none slice member covers).elim

theorem invalidateBottom_slices (list : SparseIdsList) :
    (∃ init last, list.slices = init ++ [last] ∧ last.range.till = serverMaxMsgId ∧
        list.invalidateBottom.slices = init ++ [last.cutBottom]) ∨
      (list.invalidateBottom.slices = list.slices ∧
        ∀ init last, list.slices = init ++ [last] →
          last.range.till ≠ serverMaxMsgId) := by
  cases lastEq : list.slices.getLast? with
  | none =>
    right
    refine ⟨by simp [invalidateBottom, lastEq], ?_⟩
    intro init last split
    simp [split] at lastEq
  | some last =>
    obtain ⟨init, split⟩ := getLast?_eq_some_iff.mp lastEq
    by_cases reaches : last.range.till = serverMaxMsgId
    · left
      refine ⟨init, last, split, reaches, ?_⟩
      simp [invalidateBottom, reaches, split]
    · right
      refine ⟨by simp [invalidateBottom, lastEq, reaches], ?_⟩
      intro otherInit other otherSplit
      rw [split] at otherSplit
      rw [← (append_inj' otherSplit rfl).2 |> cons.inj |>.1]
      exact reaches

/-- Separate slices, each listing server ids of its own range. -/
structure NormalForm (slices : List Slice) : Prop where
  separated : SlicesSeparated slices
  within : ∀ slice ∈ slices, ∀ id ∈ slice.messages,
    slice.range.Covers id ∧ IsServerMsgId id

/-- What a call may be given: a nonempty range, server ids inside it and a
count that is not negative.  Removals may name any id. -/
def Operation.Admissible : Operation → Prop
  | .addNew messageId => IsServerMsgId messageId
  | .addExisting messageId noSkipRange =>
    IsServerMsgId messageId ∧ noSkipRange.Covers messageId
  | .addSlice messageIds noSkipRange count =>
    noSkipRange.Ordered ∧
      (∀ id ∈ messageIds, noSkipRange.Covers id ∧ IsServerMsgId id) ∧
      ∀ known, count = some known → 0 ≤ known
  | .removeOne _ | .removeAll | .invalidateBottom => True

/-- What keeps the normal form, whatever the count. -/
def Operation.Inside : Operation → Prop
  | .addNew messageId => IsServerMsgId messageId
  | .addExisting messageId noSkipRange =>
    IsServerMsgId messageId ∧ noSkipRange.Covers messageId
  | .addSlice messageIds noSkipRange _ =>
    noSkipRange.Ordered ∧ ∀ id ∈ messageIds, noSkipRange.Covers id ∧ IsServerMsgId id
  | .removeOne _ | .removeAll | .invalidateBottom => True

theorem Operation.Admissible.inside {operation : Operation}
    (admissible : operation.Admissible) : operation.Inside := by
  cases operation with
  | addSlice messageIds noSkipRange count => exact ⟨admissible.1, admissible.2.1⟩
  | _ => exact admissible

theorem fullMsgRange_ordered : fullMsgRange.Ordered := by
  simp [MsgRange.Ordered, fullMsgRange, serverMaxMsgId]

theorem fullMsgRange_covers {id : Int} (server : IsServerMsgId id) :
    fullMsgRange.Covers id :=
  ⟨server.1.le, server.2.le⟩

theorem NormalForm.nil : NormalForm [] := ⟨.nil, by simp⟩

private theorem settleSingle_normalForm {slices : List Slice} (normal : NormalForm slices)
    (count : Option Int) : NormalForm (settleSingle count slices).2 := by
  rcases settleSingle_cases count slices with ⟨slice, rfl, _, settled⟩ | ⟨settled, _⟩
  · rw [settled]
    refine ⟨.singleton fullMsgRange_ordered, ?_⟩
    intro widened member id idMem
    obtain rfl := mem_singleton.mp member
    have server := (normal.within slice (by simp) id idMem).2
    exact ⟨fullMsgRange_covers server, server⟩
  · rw [settled]
    exact normal

theorem addRange_normalForm (normal : NormalForm list.slices)
    {messages : List Int} {noSkipRange : MsgRange} (ordered : noSkipRange.Ordered)
    (inside : ∀ id ∈ messages, noSkipRange.Covers id ∧ IsServerMsgId id)
    (count : Option Int) (incrementCount : Bool) :
    NormalForm (list.addRange messages noSkipRange count incrementCount).1.slices := by
  apply settleSingle_normalForm
  rcases addRangeItemsAndCountNew_spec normal.separated messages ordered with
    ⟨_, _, same⟩ | ⟨below, touched, above, merged, addition⟩
  · rw [same]
    exact normal
  refine ⟨addition.separated normal.separated ordered, ?_⟩
  intro slice member id idMem
  rcases addition.mem_result.mp member with old | rfl | old
  · exact normal.within slice (addition.mem_slices (.inl old)) id idMem
  · obtain ⟨source, sourceMem, idSource⟩ := (addition.unites.mem_iff id).mp idMem
    have sourceWithin : source.range.Covers id ∧ IsServerMsgId id := by
      rcases mem_cons.mp sourceMem with rfl | old
      · exact inside id (mem_ofList.mp idSource)
      · exact normal.within source (addition.mem_slices (.inr (.inl old))) id idSource
    exact ⟨(addition.unites.covers_iff id).mpr ⟨source, sourceMem, sourceWithin.1⟩, sourceWithin.2⟩
  · exact normal.within slice (addition.mem_slices (.inr (.inr old))) id idMem

theorem removeOne_normalForm (normal : NormalForm list.slices)
    (id : Int) : NormalForm (list.removeOne id).slices := by
  rcases removeOne_slices normal.separated id with
    ⟨before, slice, after, split, _, removed⟩ | ⟨_, unchanged⟩
  · have separated := normal.separated
    rw [split] at separated
    rw [removed]
    refine ⟨⟨?_, ?_⟩, ?_⟩
    · intro other member
      rcases mem_append.mp member with old | later
      · exact separated.ordered other (mem_append_left _ old)
      · rcases mem_cons.mp later with rfl | old
        · exact separated.ordered slice (by simp)
        · exact separated.ordered other (by simp [old])
    · have apart := separated.apart
      rw [pairwise_append, pairwise_cons] at apart ⊢
      simpa using apart
    · intro other member idOther idMem
      rcases mem_append.mp member with old | later
      · exact normal.within other (by simp [split, old]) idOther idMem
      · rcases mem_cons.mp later with rfl | old
        · exact normal.within slice (by simp [split]) idOther (mem_erase.mp idMem).2
        · exact normal.within other (by simp [split, old]) idOther idMem
  · rw [unchanged]
    exact normal

theorem Slice.cutBottom_ordered (ordered : slice.range.Ordered)
    (within : ∀ id ∈ slice.messages, slice.range.Covers id) :
    slice.cutBottom.range.Ordered ∧
      slice.cutBottom.range.till ≤ slice.range.till := by
  cases backEq : slice.messages.back? with
  | none => simpa [cutBottom, backEq, MsgRange.Ordered] using ordered
  | some back =>
    have covers := within back (back?_mem backEq)
    simpa [cutBottom, backEq, MsgRange.Ordered, MsgRange.Covers] using covers

theorem Slice.cutBottom_covers {id : Int} (member : id ∈ slice.messages)
    (covers : slice.range.Covers id) : slice.cutBottom.range.Covers id := by
  cases backEq : slice.messages.back? with
  | none =>
    rw [back?_eq_none] at backEq
    rw [backEq] at member
    exact (notMem_empty id member).elim
  | some back =>
    have top := le_back? backEq member
    simpa [cutBottom, backEq, MsgRange.Covers] using ⟨covers.1, top⟩

theorem invalidateBottom_normalForm
    (normal : NormalForm list.slices) : NormalForm list.invalidateBottom.slices := by
  rcases invalidateBottom_slices list with ⟨init, last, split, _, cut⟩ | ⟨unchanged, _⟩
  · have separated := normal.separated
    rw [split] at separated
    have lastMem : last ∈ list.slices := by simp [split]
    have lastOrdered := Slice.cutBottom_ordered (normal.separated.ordered last lastMem)
      fun id member => (normal.within last lastMem id member).1
    rw [cut]
    refine ⟨(separated.sublist (sublist_append_left init _)).append
      (.singleton lastOrdered.1) ?_, ?_⟩
    · intro low lowMem high highMem
      obtain rfl := mem_singleton.mp highMem
      have apart := separated.apart
      rw [pairwise_append] at apart
      exact apart.2.2 low lowMem last (by simp)
    · intro slice member id idMem
      rcases mem_append.mp member with old | last'
      · exact normal.within slice (by simp [split, old]) id idMem
      · obtain rfl := mem_singleton.mp last'
        have inside := normal.within last lastMem id idMem
        exact ⟨Slice.cutBottom_covers idMem inside.1, inside.2⟩
  · rw [unchanged]
    exact normal

theorem removeAll_normalForm (list : SparseIdsList) : NormalForm list.removeAll.slices := by
  refine ⟨.singleton fullMsgRange_ordered, ?_⟩
  intro slice member id idMem
  obtain rfl := mem_singleton.mp member
  exact (notMem_empty id idMem).elim

theorem apply_normalForm (normal : NormalForm list.slices)
    {operation : Operation} (inside : operation.Inside) :
    NormalForm (list.apply operation).slices := by
  cases operation with
  | addNew messageId =>
    apply addRange_normalForm normal
    · exact inside.2.le
    · intro id member
      obtain rfl := mem_singleton.mp member
      exact ⟨⟨le_refl _, inside.2.le⟩, inside⟩
  | addExisting messageId noSkipRange =>
    apply addRange_normalForm normal
    · exact inside.2.1.trans inside.2.2
    · intro id member
      obtain rfl := mem_singleton.mp member
      exact ⟨inside.2, inside.1⟩
  | addSlice messageIds noSkipRange count =>
    exact addRange_normalForm normal inside.1 inside.2 _ _
  | removeOne messageId => exact removeOne_normalForm normal messageId
  | removeAll => exact removeAll_normalForm list
  | invalidateBottom => exact invalidateBottom_normalForm normal

end SparseIdsList

end TelegramDesktop
