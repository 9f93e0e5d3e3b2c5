import TelegramDesktop.SparseIdsListSnapshot

/-!
# The counters a sparse list reports

The count of a list is overwritten by the server, grown by new ids, lowered by every
removal and raised again only to the size of the slice just touched.
-/

namespace TelegramDesktop.SparseIdsList

open List FlatSet Option

/-- No snapshot reports a negative number or fewer ids than it shows. -/
def CountersPossible (list : SparseIdsList) : Prop :=
  ∀ query : SparseIdsListQuery,
    (∀ skipped, (list.snapshot query).skippedBefore = some skipped → 0 ≤ skipped) ∧
    (∀ skipped, (list.snapshot query).skippedAfter = some skipped → 0 ≤ skipped) ∧
    ∀ known, (list.snapshot query).count = some known →
      ((list.snapshot query).messageIds.size : Int) ≤ known

/-- A known count is not below the size of any slice. -/
def CountFits (list : SparseIdsList) : Prop :=
  ∀ known, list.count = some known →
    0 ≤ known ∧ ∀ slice ∈ list.slices, (slice.messages.size : Int) ≤ known

theorem countFits_some {known : Int} {slices : List Slice} :
    CountFits ⟨some known, slices⟩ ↔
      0 ≤ known ∧ ∀ slice ∈ slices, (slice.messages.size : Int) ≤ known := by
  constructor
  · exact fun fits => fits known rfl
  · rintro fits value countEq
    obtain rfl := some.inj countEq
    exact fits

/-- The ids of an addition together with those of the slices it touches. -/
def unitedWith (list : SparseIdsList) (messageIds : List Int)
    (noSkipRange : MsgRange) : FlatSet Int :=
  FlatSet.ofList (messageIds ++
    (list.slices.filter (·.range.Touches noSkipRange)).flatMap (·.messages.keys))

/-- The calls after which the count still fits: a removal must leave room for
every slice that does not hold the removed id, and a count from the server for
every slice that the loaded range does not touch. -/
def Operation.KeepsCounters (list : SparseIdsList) : Operation → Prop
  | .removeOne messageId => ∀ known, list.count = some known →
      1 ≤ known ∧ ∀ slice ∈ list.slices, messageId ∉ slice.messages →
        (slice.messages.size : Int) ≤ known - 1
  | .addSlice messageIds noSkipRange (some known) =>
    if noSkipRange.from = noSkipRange.till ∧ messageIds = [] then
      list.slices.length = 1 ∨
        ∀ slice ∈ list.slices, (slice.messages.size : Int) ≤ known
    else
      ∀ slice ∈ list.slices, ¬ slice.range.Touches noSkipRange →
        (slice.messages.size : Int) ≤
          max known (list.unitedWith messageIds noSkipRange).size
  | .addSlice _ _ none | .addNew _ | .addExisting _ _ | .removeAll
  | .invalidateBottom => True

/-- By how much a new id raises a known count: by what the first touched slice gains. -/
def growth (list : SparseIdsList) (messageIds : List Int) (noSkipRange : MsgRange) : Int :=
  (list.unitedWith messageIds noSkipRange).size -
    ((list.slices.filter (·.range.Touches noSkipRange)).head?.elim 0 fun first =>
      first.messages.size)

/-- The calls whose sizes and counts an `int` can hold. -/
def Operation.StaysInt (list : SparseIdsList) : Operation → Prop
  | .addNew messageId =>
    (list.unitedWith [messageId] ⟨messageId, serverMaxMsgId⟩).size < 2 ^ 31 ∧
      ∀ known, list.count = some known →
        known + list.growth [messageId] ⟨messageId, serverMaxMsgId⟩ < 2 ^ 31
  | .addExisting messageId noSkipRange =>
    (list.unitedWith [messageId] noSkipRange).size < 2 ^ 31
  | .addSlice messageIds noSkipRange count =>
    (list.unitedWith messageIds noSkipRange).size < 2 ^ 31 ∧
      ∀ known, count = some known → known < 2 ^ 31
  | .removeOne _ | .removeAll | .invalidateBottom => True

/-- The count and the sizes of the slices are `int`s. -/
structure FitsInt (list : SparseIdsList) : Prop where
  count : ∀ known, list.count = some known → known < 2 ^ 31
  sizes : ∀ slice ∈ list.slices, slice.messages.size < 2 ^ 31

theorem size_shownIds (query : SparseIdsListQuery) (slice : Slice) :
    (shownIds query slice).size =
      min (slice.messages.lowerBound query.aroundId) query.limitBefore +
        min (slice.messages.size - slice.messages.lowerBound query.aroundId)
          (query.limitAfter + 1) := by
  have bounded := slice.messages.lowerBound_le_size query.aroundId
  unfold shownIds
  simp only [size_range]
  omega

theorem size_shownIds_of_limits {query : SparseIdsListQuery} {slice : Slice}
    (before : slice.messages.size ≤ query.limitBefore)
    (after : slice.messages.size ≤ query.limitAfter) :
    (shownIds query slice).size = slice.messages.size := by
  have bounded := slice.messages.lowerBound_le_size query.aroundId
  rw [size_shownIds]
  omega

variable {list : SparseIdsList}

section

variable {slice : Slice}
  (fits : ∀ known, list.count = some known → (slice.messages.size : Int) ≤ known)
  (query : SparseIdsListQuery)

include fits query

theorem queryFromSlice_skipped_nonneg :
    (∀ skipped, (list.queryFromSlice query slice).skippedBefore = some skipped →
      0 ≤ skipped) ∧
    ∀ skipped, (list.queryFromSlice query slice).skippedAfter = some skipped →
      0 ≤ skipped := by
  have bounded := slice.messages.lowerBound_le_size query.aroundId
  have shown := size_shownIds query slice
  unfold shownIds at shown
  unfold queryFromSlice
  dsimp only at shown ⊢
  by_cases starts : slice.range.from = 0
  · by_cases ends : slice.range.till = serverMaxMsgId
    · simp only [if_pos starts, if_pos ends]
      constructor <;> intro skipped reported <;> simp at reported <;> omega
    · simp only [if_pos starts, if_neg ends]
      cases countEq : list.count with
      | none =>
        refine ⟨?_, by simp⟩
        intro skipped reported
        simp at reported
        omega
      | some known =>
        have room := fits known countEq
        constructor <;> intro skipped reported <;> simp at reported <;> omega
  · by_cases ends : slice.range.till = serverMaxMsgId
    · simp only [if_neg starts, if_pos ends]
      cases countEq : list.count with
      | none =>
        refine ⟨by simp, ?_⟩
        intro skipped reported
        simp at reported
        omega
      | some known =>
        have room := fits known countEq
        constructor <;> intro skipped reported <;> simp at reported <;> omega
    · simp [if_neg starts, if_neg ends]

theorem queryFromSlice_possible :
    (∀ skipped, (list.queryFromSlice query slice).skippedBefore = some skipped →
      0 ≤ skipped) ∧
    (∀ skipped, (list.queryFromSlice query slice).skippedAfter = some skipped →
      0 ≤ skipped) ∧
    ∀ known, (list.queryFromSlice query slice).count = some known →
      ((list.queryFromSlice query slice).messageIds.size : Int) ≤ known := by
  have skipped := queryFromSlice_skipped_nonneg fits query
  refine ⟨skipped.1, skipped.2, ?_⟩
  intro known countEq
  have bounded := slice.messages.lowerBound_le_size query.aroundId
  have shown := size_shownIds query slice
  rw [queryFromSlice_count] at countEq
  have room := fits known countEq
  rw [queryFromSlice_messageIds]
  omega

end

theorem countersPossible_iff (normal : NormalForm list.slices) :
    list.CountersPossible ↔ list.CountFits := by
  constructor
  · intro possible known countEq
    have nonneg : 0 ≤ known := by
      have reported := (possible ⟨0, 0, 0⟩).2.2 known
      simp only [snapshot, sliceAround, if_pos, countEq] at reported
      simpa using reported
    refine ⟨nonneg, ?_⟩
    intro slice member
    by_cases nothing : slice.messages = ∅
    · rw [size_eq_zero.mpr nothing]
      exact nonneg
    have something : ∃ id, id ∈ slice.messages := by
      by_contra none
      exact nothing (eq_empty_iff.mpr (not_exists.mp none))
    obtain ⟨id, idMem⟩ := something
    obtain ⟨covers, server⟩ := normal.within slice member id idMem
    have found : list.sliceAround id = some slice :=
      (sliceAround_eq_some normal.separated).mpr ⟨server.1.ne', member, covers⟩
    have reported := (possible ⟨id, slice.messages.size, slice.messages.size⟩).2.2 known
    simp only [snapshot, found, queryFromSlice_count, queryFromSlice_messageIds] at reported
    rw [size_shownIds_of_limits (le_refl _) (le_refl _)] at reported
    exact reported countEq
  · intro fits query
    rcases snapshot_cases normal.separated query with
      ⟨slice, member, _, answered⟩ | answered
    · rw [answered]
      exact queryFromSlice_possible (fun known countEq =>
        (fits known countEq).2 slice member) query
    · rw [answered]
      refine ⟨by simp, by simp, ?_⟩
      intro known countEq
      exact (fits known countEq).1

section Calls

variable {list : SparseIdsList} {messageIds : List Int} {noSkipRange : MsgRange}

theorem unitedWith_eq {below touched above : List Slice} {merged : Slice}
    {result : AddResult}
    (addition : Addition list.slices messageIds noSkipRange result
      below touched above merged) :
    list.unitedWith messageIds noSkipRange = merged.messages := by
  ext id
  rw [unitedWith, addition.filter_touches, mem_ofList, mem_append,
    mem_flatMap, addition.unites.mem_iff]
  simp only [mem_cons, exists_eq_or_imp, mem_ofList]
  rfl

theorem not_nothing_of_addition {below touched above : List Slice} {merged : Slice}
    (addition : Addition list.slices messageIds noSkipRange
      (addRangeItemsAndCountNew list.slices messageIds noSkipRange)
      below touched above merged) :
    ¬ (noSkipRange.from = noSkipRange.till ∧ messageIds = []) := by
  intro nothing
  have reported := addition.reported
  rw [addRangeItemsAndCountNew, if_pos nothing] at reported
  cases reported

theorem countFits_widened (slice : Slice) :
    CountFits ⟨some slice.messages.size, [slice.widen]⟩ := by
  intro known countEq
  obtain rfl := some.inj countEq
  exact ⟨Int.natCast_nonneg _, by simp [Slice.widen]⟩

theorem le_countedBy_none (incrementCount : Bool) (added : Int) {known : Int}
    (countedEq : list.countedBy none incrementCount added = some known) :
    ∃ old, list.count = some old ∧ old ≤ known := by
  unfold countedBy at countedEq
  simp only [isSome_none, Bool.false_eq_true, if_false] at countedEq
  split at countedEq
  · obtain ⟨old, oldEq, rfl⟩ := map_eq_some_iff.mp countedEq
    exact ⟨old, oldEq, by omega⟩
  · exact ⟨known, countedEq, le_refl known⟩

theorem addRange_none_countFits (separated : SlicesSeparated list.slices)
    (fits : list.CountFits) (ordered : noSkipRange.Ordered) (incrementCount : Bool) :
    (list.addRange messageIds noSkipRange none incrementCount).1.CountFits := by
  have outcome := addRange_outcome separated messageIds ordered none incrementCount
  generalize countedEq : list.countedBy none incrementCount
    (addRangeItemsAndCountNew list.slices messageIds noSkipRange).added = counted at outcome
  generalize list.addRange messageIds noSkipRange none incrementCount = added at outcome ⊢
  have grown : ∀ known, counted = some known →
      ∃ old, list.count = some old ∧ old ≤ known := by
    rintro known rfl
    exact le_countedBy_none incrementCount _ countedEq
  cases outcome with
  | nothing =>
    intro known countEq
    obtain ⟨old, oldEq, le⟩ := grown known countEq
    have fitted := fits old oldEq
    exact ⟨fitted.1.trans le, fun slice member => (fitted.2 slice member).trans le⟩
  | nothingWhole => exact countFits_widened _
  | mergedWhole => exact countFits_widened _
  | merged addition =>
    intro known countEq
    obtain ⟨value, valueEq, rfl⟩ := map_eq_some_iff.mp countEq
    obtain ⟨old, oldEq, le⟩ := grown value valueEq
    have fitted := fits old oldEq
    refine ⟨(fitted.1.trans le).trans (le_max_left _ _), ?_⟩
    intro slice member
    rcases mem_append.mp member with before | after
    · have small := fitted.2 slice (addition.mem_slices (.inl before))
      exact (small.trans le).trans (le_max_left _ _)
    · rcases mem_cons.mp after with rfl | after
      · exact le_max_right _ _
      · have small := fitted.2 slice (addition.mem_slices (.inr (.inr after)))
        exact (small.trans le).trans (le_max_left _ _)

/-- A count from the server fits exactly when it leaves room for the slices
that the loaded range does not touch. -/
theorem addSlice_countFits_iff (separated : SlicesSeparated list.slices)
    (ordered : noSkipRange.Ordered) {known : Int} (nonneg : 0 ≤ known) :
    (list.addSlice messageIds noSkipRange (some known)).1.CountFits ↔
      Operation.KeepsCounters list (.addSlice messageIds noSkipRange (some known)) := by
  have outcome := addRange_outcome separated messageIds ordered (some known) false
  change AddRangeOutcome _ _ _ (some known) (list.addSlice messageIds noSkipRange _) at outcome
  generalize list.addSlice messageIds noSkipRange (some known) = added at outcome ⊢
  simp only [Operation.KeepsCounters]
  cases outcome with
  | nothing single absent unsettled =>
    rw [if_pos ⟨single, absent⟩, countFits_some]
    constructor
    · rintro ⟨_, small⟩
      exact .inr small
    · rintro (one | small)
      · obtain ⟨slice, only⟩ := length_eq_one_iff.mp one
        have small := unsettled slice only known rfl
        have larger : (slice.messages.size : Int) ≤ known := by
          unfold sizeReaches at small
          omega
        exact ⟨nonneg, by simpa [only] using larger⟩
      · exact ⟨nonneg, small⟩
  | nothingWhole single absent only =>
    rw [if_pos ⟨single, absent⟩, only]
    exact iff_of_true (countFits_widened _) (.inl rfl)
  | mergedWhole addition =>
    rw [if_neg (not_nothing_of_addition addition)]
    refine iff_of_true (countFits_widened _) ?_
    intro slice member apart
    rw [addition.split, nil_append, append_nil] at member
    exact (apart (addition.touches slice member)).elim
  | merged addition =>
    rw [if_neg (not_nothing_of_addition addition), unitedWith_eq addition, map_some, countFits_some]
    constructor
    · rintro ⟨_, small⟩ slice member apart
      rw [addition.split, append_assoc] at member
      apply small
      rcases mem_append.mp member with before | later
      · exact mem_append_left _ before
      · rcases mem_append.mp later with touched | after
        · exact (apart (addition.touches slice touched)).elim
        · exact mem_append_right _ (mem_cons_of_mem _ after)
    · intro room
      refine ⟨nonneg.trans (le_max_left _ _), ?_⟩
      intro slice member
      rcases mem_append.mp member with before | later
      · exact room slice (addition.mem_slices (.inl before))
          (addition.not_touches (.inl before))
      · rcases mem_cons.mp later with rfl | after
        · exact le_max_right _ _
        · exact room slice (addition.mem_slices (.inr (.inr after)))
            (addition.not_touches (.inr after))

/-- A removal keeps the count fitting exactly when every slice without the
removed id still fits. -/
theorem removeOne_countFits_iff (normal : NormalForm list.slices) (fits : list.CountFits)
    (messageId : Int) :
    (list.removeOne messageId).CountFits ↔
      Operation.KeepsCounters list (.removeOne messageId) := by
  cases countEq : list.count with
  | none =>
    refine iff_of_true ?_ ?_
    · intro known removedEq
      simp [removeOne, countEq] at removedEq
    · intro known absent
      simp [countEq] at absent
  | some known =>
    obtain ⟨nonneg, small⟩ := fits known countEq
    have removedEq : list.removeOne messageId =
        ⟨some (known - 1), (list.removeOne messageId).slices⟩ := by
      simp [removeOne, countEq]
    simp only [Operation.KeepsCounters, countEq, some.injEq, forall_eq']
    rw [removedEq, countFits_some]
    rcases removeOne_slices normal.separated messageId with
      ⟨before, slice, after, split, covers, removed⟩ | ⟨outside, unchanged⟩
    · rw [removed]
      have others : ∀ other ∈ before ++ after, messageId ∉ other.messages := by
        intro other member inside
        have apart := normal.separated.others_not_covers split covers member
        exact apart.2 (normal.within other apart.1 messageId inside).1
      constructor
      · rintro ⟨room, smaller⟩
        refine ⟨by omega, ?_⟩
        intro other member absent
        rw [split] at member
        rcases mem_append.mp member with old | later
        · exact smaller other (by simp [old])
        · rcases mem_cons.mp later with rfl | old
          · have unchanged := erase_of_notMem absent
            simpa [unchanged] using smaller
              { other with messages := other.messages.erase messageId } (by simp)
          · exact smaller other (by simp [old])
      · rintro ⟨room, smaller⟩
        refine ⟨by omega, ?_⟩
        intro other member
        rcases mem_append.mp member with old | later
        · exact smaller other (by simp [split, old]) (others other (mem_append_left _ old))
        · rcases mem_cons.mp later with rfl | old
          · by_cases inside : messageId ∈ slice.messages
            · have shrunk := size_erase inside
              have fitted := small slice (by simp [split])
              dsimp only
              omega
            · have unchanged := erase_of_notMem inside
              simpa [unchanged] using smaller slice (by simp [split]) inside
          · exact smaller other (by simp [split, old]) (others other (mem_append_right _ old))
    · rw [unchanged]
      have absent : ∀ slice ∈ list.slices, messageId ∉ slice.messages :=
        fun slice member inside => outside slice member
          (normal.within slice member messageId inside).1
      constructor
      · rintro ⟨room, smaller⟩
        exact ⟨by omega, fun slice member _ => smaller slice member⟩
      · rintro ⟨room, smaller⟩
        exact ⟨by omega, fun slice member => smaller slice member (absent slice member)⟩

theorem apply_countFits_iff (normal : NormalForm list.slices) (fits : list.CountFits)
    {operation : Operation} (admissible : operation.Admissible) :
    (list.apply operation).CountFits ↔ operation.KeepsCounters list := by
  cases operation with
  | addNew messageId =>
    have ordered : MsgRange.Ordered ⟨messageId, serverMaxMsgId⟩ := admissible.2.le
    exact iff_of_true (addRange_none_countFits normal.separated fits ordered true) trivial
  | addExisting messageId noSkipRange =>
    have ordered : noSkipRange.Ordered := admissible.2.1.trans admissible.2.2
    exact iff_of_true (addRange_none_countFits normal.separated fits ordered false) trivial
  | addSlice messageIds noSkipRange count =>
    cases count with
    | none =>
      exact iff_of_true (addRange_none_countFits normal.separated fits admissible.1 false) trivial
    | some known =>
      exact addSlice_countFits_iff normal.separated admissible.1 (admissible.2.2 known rfl)
  | removeOne messageId => exact removeOne_countFits_iff normal fits messageId
  | removeAll =>
    refine iff_of_true (countFits_some.mpr ⟨le_refl _, ?_⟩) trivial
    simp
  | invalidateBottom =>
    refine iff_of_true ?_ trivial
    intro known countEq
    cases countEq

theorem countedBy_lt (fits : list.FitsInt) {count : Option Int} {incrementCount : Bool}
    {added room known : Int} (small : ∀ known, count = some known → known < 2 ^ 31)
    (grown : incrementCount = true → ∀ known, list.count = some known → known + room < 2 ^ 31)
    (isGrowth : added ≤ 0 ∨ added = room)
    (countedEq : list.countedBy count incrementCount added = some known) : known < 2 ^ 31 := by
  unfold countedBy at countedEq
  split at countedEq
  · exact small known countedEq
  · split at countedEq
    next increments =>
      obtain ⟨old, oldEq, rfl⟩ := map_eq_some_iff.mp countedEq
      rw [isGrowth.resolve_left (by omega)]
      exact grown increments.1 old oldEq
    · exact fits.count known countedEq

theorem addRange_fitsInt (separated : SlicesSeparated list.slices)
    (ordered : noSkipRange.Ordered) (fits : list.FitsInt)
    (united : (list.unitedWith messageIds noSkipRange).size < 2 ^ 31) {count : Option Int}
    {incrementCount : Bool}
    (small : ∀ known, count = some known → known < 2 ^ 31)
    (grown : incrementCount = true → ∀ known, list.count = some known →
      known + list.growth messageIds noSkipRange < 2 ^ 31) :
    (list.addRange messageIds noSkipRange count incrementCount).1.FitsInt := by
  have outcome := addRange_outcome separated messageIds ordered count incrementCount
  have counted {added : Int} (isGrowth : added ≤ 0 ∨ added = list.growth messageIds noSkipRange)
      (known : Int) (countedEq : list.countedBy count incrementCount added = some known) :
      known < 2 ^ 31 :=
    countedBy_lt fits small grown isGrowth countedEq
  have touches : ∀ {below touched above merged},
      Addition list.slices messageIds noSkipRange
        (addRangeItemsAndCountNew list.slices messageIds noSkipRange) below touched above merged →
      merged.messages.size < 2 ^ 31 ∧
        (addRangeItemsAndCountNew list.slices messageIds noSkipRange).added =
          list.growth messageIds noSkipRange := by
    intro below touched above merged addition
    have same := unitedWith_eq addition
    exact ⟨same ▸ united, by rw [addition.added_eq, growth, same, addition.filter_touches]⟩
  generalize countedEq : list.countedBy count incrementCount
    (addRangeItemsAndCountNew list.slices messageIds noSkipRange).added = value at outcome
  generalize list.addRange messageIds noSkipRange count incrementCount = added at outcome ⊢
  cases outcome with
  | nothing single absent =>
    have none : (addRangeItemsAndCountNew list.slices messageIds noSkipRange).added = 0 := by
      rw [addRangeItemsAndCountNew, if_pos ⟨single, absent⟩]
    exact ⟨fun known valueEq => counted (.inl none.le) known (countedEq.trans valueEq), fits.sizes⟩
  | @nothingWhole slice single absent only =>
    have size := fits.sizes slice (by simp [only])
    exact ⟨fun known valueEq => some.inj valueEq ▸ (by exact_mod_cast size), by simpa⟩
  | mergedWhole addition =>
    have size := (touches addition).1
    exact ⟨fun known valueEq => some.inj valueEq ▸ (by exact_mod_cast size), by simpa⟩
  | merged addition =>
    obtain ⟨size, isGrowth⟩ := touches addition
    constructor
    · intro known valueEq
      obtain ⟨old, oldEq, rfl⟩ := map_eq_some_iff.mp valueEq
      exact max_lt (counted (.inr isGrowth) old (countedEq.trans oldEq)) (by exact_mod_cast size)
    · intro slice member
      rcases mem_append.mp member with before | later
      · exact fits.sizes slice (addition.mem_slices (.inl before))
      · rcases mem_cons.mp later with rfl | after
        · exact size
        · exact fits.sizes slice (addition.mem_slices (.inr (.inr after)))

theorem removeOne_fitsInt (normal : NormalForm list.slices) (fits : list.FitsInt)
    (messageId : Int) : (list.removeOne messageId).FitsInt := by
  constructor
  · intro known countEq
    obtain ⟨old, oldEq, rfl⟩ := map_eq_some_iff.mp countEq
    have small := fits.count old oldEq
    omega
  · have sizes := fits.sizes
    rcases removeOne_slices normal.separated messageId with
      ⟨before, slice, after, split, _, removed⟩ | ⟨_, unchanged⟩
    · rw [split] at sizes
      rw [removed]
      intro other member
      rcases mem_append.mp member with old | later
      · exact sizes other (mem_append_left _ old)
      · rcases mem_cons.mp later with rfl | old
        · exact (length_filter_le _ _).trans_lt (sizes slice (by simp))
        · exact sizes other (by simp [old])
    · rw [unchanged]
      exact sizes

theorem invalidateBottom_fitsInt (fits : list.FitsInt) : list.invalidateBottom.FitsInt := by
  refine ⟨nofun, ?_⟩
  have sizes := fits.sizes
  rcases invalidateBottom_slices list with ⟨init, last, split, _, cut⟩ | ⟨unchanged, _⟩
  · rw [split] at sizes
    rw [cut]
    intro slice member
    rcases mem_append.mp member with old | isLast
    · exact sizes slice (mem_append_left _ old)
    · rw [mem_singleton.mp isLast]
      exact sizes last (by simp)
  · rw [unchanged]
    exact sizes

theorem apply_fitsInt (normal : NormalForm list.slices) (fits : list.FitsInt)
    {operation : Operation} (admissible : operation.Admissible) (stays : operation.StaysInt list) :
    (list.apply operation).FitsInt := by
  cases operation with
  | addNew messageId =>
    have ordered : MsgRange.Ordered ⟨messageId, serverMaxMsgId⟩ := admissible.2.le
    exact addRange_fitsInt normal.separated ordered fits stays.1 nofun fun _ => stays.2
  | addExisting messageId noSkipRange =>
    have ordered : noSkipRange.Ordered := admissible.2.1.trans admissible.2.2
    exact addRange_fitsInt normal.separated ordered fits stays nofun nofun
  | addSlice messageIds noSkipRange count =>
    exact addRange_fitsInt normal.separated admissible.1 fits stays.1 stays.2 nofun
  | removeOne messageId => exact removeOne_fitsInt normal fits messageId
  | removeAll =>
    refine ⟨fun known countEq => ?_, by simp [apply, removeAll]⟩
    rw [← some.inj countEq]
    decide
  | invalidateBottom => exact invalidateBottom_fitsInt fits

end Calls

def run (operations : List Operation) : SparseIdsList :=
  operations.foldl apply {}

theorem run_append (done : List Operation) (operation : Operation) :
    run (done ++ [operation]) = (run done).apply operation := by
  simp [run]

theorem run_normalForm {operations : List Operation}
    (inside : ∀ operation ∈ operations, operation.Inside) :
    NormalForm (run operations).slices := by
  induction operations using reverseRecOn with
  | nil => exact .nil
  | append_singleton done operation ih =>
    rw [run_append]
    exact apply_normalForm (ih fun earlier member => inside earlier (by simp [member]))
      (inside operation (by simp))

/-- Where the ids are server ids and the sizes and counts stay an `int`, every state of a
run reports possible counters exactly when every call of the run leaves room for the slices
it does not change. -/
theorem countersPossible_run_iff {operations : List Operation}
    (admissible : ∀ operation ∈ operations, operation.Admissible)
    (stays : ∀ done operation, done ++ [operation] <+: operations →
      operation.StaysInt (run done)) :
    (∀ done, done <+: operations → (run done).FitsInt) ∧
      ((∀ done, done <+: operations → (run done).CountersPossible) ↔
        ∀ done operation, done ++ [operation] <+: operations →
          operation.KeepsCounters (run done)) := by
  have normal : ∀ done, done <+: operations → NormalForm (run done).slices :=
    fun done isPrefix => run_normalForm fun operation member =>
      (admissible operation (isPrefix.subset member)).inside
  have before : ∀ {done operation}, done ++ [operation] <+: operations → done <+: operations :=
    fun isPrefix => (prefix_append _ _).trans isPrefix
  have allowed : ∀ {done operation}, done ++ [operation] <+: operations → operation.Admissible :=
    fun isPrefix => admissible _ (isPrefix.subset (by simp))
  have start : (run []).CountFits := by
    intro known countEq
    cases countEq
  have step : ∀ done operation, done ++ [operation] <+: operations →
      (run done).CountFits →
        ((run (done ++ [operation])).CountFits ↔ operation.KeepsCounters (run done)) := by
    intro done operation isPrefix fits
    rw [run_append]
    exact apply_countFits_iff (normal done (before isPrefix)) fits (allowed isPrefix)
  refine ⟨?_, ?_, ?_⟩
  · intro done isPrefix
    induction done using reverseRecOn with
    | nil => exact ⟨nofun, nofun⟩
    | append_singleton done operation ih =>
      rw [run_append]
      exact apply_fitsInt (normal done (before isPrefix)) (ih (before isPrefix))
        (allowed isPrefix) (stays done operation isPrefix)
  · intro possible done operation isPrefix
    have earlier := before isPrefix
    have fits := (countersPossible_iff (normal done earlier)).mp (possible done earlier)
    have after := (countersPossible_iff (normal _ isPrefix)).mp (possible _ isPrefix)
    exact (step done operation isPrefix fits).mp after
  · intro keeps done isPrefix
    rw [countersPossible_iff (normal done isPrefix)]
    induction done using reverseRecOn with
    | nil => exact start
    | append_singleton done operation ih =>
      exact (step done operation isPrefix (ih (before isPrefix))).mpr
        (keeps done operation isPrefix)

theorem countersPossible_run_iff_loaded_removed :
    (run [.addSlice [3, 5] fullMsgRange (some 2), .removeOne 3]).count = some 1 ∧
    ∀ done, done <+: [Operation.addSlice [3, 5] fullMsgRange (some 2), .removeOne 3] →
      (run done).CountersPossible := by
  have admissible : ∀ operation ∈ [Operation.addSlice [3, 5] fullMsgRange (some 2), .removeOne 3],
      operation.Admissible := by
    simp [Operation.Admissible, MsgRange.Ordered, MsgRange.Covers, IsServerMsgId,
      fullMsgRange, serverMaxMsgId]
  have splits : ∀ {done operation},
      done ++ [operation] <+: [Operation.addSlice [3, 5] fullMsgRange (some 2), .removeOne 3] →
        done = [] ∧ operation = .addSlice [3, 5] fullMsgRange (some 2) ∨
          done = [.addSlice [3, 5] fullMsgRange (some 2)] ∧ operation = .removeOne 3 := by
    intro done operation isPrefix
    rcases done with _ | ⟨first, _ | ⟨second, rest⟩⟩
    · exact .inl ⟨rfl, by simpa using isPrefix⟩
    · right
      simpa using isPrefix
    · have lengths := isPrefix.length_le
      simp at lengths
  refine ⟨rfl, (countersPossible_run_iff admissible ?_).2.mpr ?_⟩
  · intro done operation isPrefix
    rcases splits isPrefix with ⟨rfl, rfl⟩ | ⟨rfl, rfl⟩
    · exact ⟨by decide, by simp⟩
    · trivial
  · intro done operation isPrefix
    rcases splits isPrefix with ⟨rfl, rfl⟩ | ⟨rfl, rfl⟩
    · simp [Operation.KeepsCounters, run]
    · intro known countEq
      obtain rfl : (2 : Int) = known := some.inj countEq
      refine ⟨by decide, ?_⟩
      intro slice member absent
      obtain rfl : slice = ⟨ofList [3, 5], fullMsgRange⟩ :=
        mem_singleton.mp member
      simp at absent

/-- A list known to be empty answers with a negative count once an id it has
never held is removed. -/
theorem removeOne_unknown_negative :
    (∀ operation ∈ [Operation.addSlice [] fullMsgRange (some 0), .removeOne 5],
      operation.Admissible) ∧
    ¬ (run [.addSlice [] fullMsgRange (some 0), .removeOne 5]).CountersPossible := by
  constructor
  · simp [Operation.Admissible, MsgRange.Ordered, fullMsgRange, serverMaxMsgId]
  · intro possible
    have reported : (0 : Int) ≤ -1 := (possible ⟨0, 0, 0⟩).2.2 (-1) rfl
    omega

end TelegramDesktop.SparseIdsList
