import TelegramDesktop.SparseIdsSliceBuilder
import TelegramDesktop.SparseIdsListSnapshot

/-!
# The window a viewer shows

A builder shows a window of the server's ids when its ids are one block of them and
every skip counter it knows is the number of ids on that side.
-/

namespace TelegramDesktop.SparseIdsSliceBuilder

open SparseIdsSliceBuilder List FlatSet Option

/-- The builder lists the ids of `held` between `before` and `after`. -/
structure Shows (held : Finset Int) (builder : SparseIdsSliceBuilder)
    (before after : List Int) : Prop where
  listing : IsListing held (before ++ builder.ids.keys ++ after)
  skippedBefore : ∀ known, builder.skippedBefore = some known → known = before.length
  skippedAfter : ∀ known, builder.skippedAfter = some known → known = after.length

variable {held : Finset Int} {before after : List Int}

section

variable {builder : SparseIdsSliceBuilder}

theorem Shows.card_eq (shows : Shows held builder before after) :
    held.card = before.length + builder.ids.size + after.length := by
  rw [← shows.listing.length_eq_card, length_append, length_append]
  rfl

theorem Shows.mem_held (shows : Shows held builder before after) {id : Int}
    (member : id ∈ builder.ids) : id ∈ held := by
  refine (shows.listing.mem_iff id).mp ?_
  exact mem_append_left _ (mem_append_right _ member)

theorem shows_of_empty (empty : builder.ids = ∅)
    (beforeFits : ∀ known, builder.skippedBefore = some known →
      0 ≤ known ∧ known ≤ held.card) (afterFits : ∀ known, builder.skippedAfter = some known →
      0 ≤ known ∧ known ≤ held.card)
    (together : ∀ before after, builder.skippedBefore = some before →
      builder.skippedAfter = some after → before + after = held.card) :
    ∃ before after, Shows held builder before after := by
  obtain ⟨listing, lists⟩ : ∃ listing, IsListing held listing :=
    ⟨_, IsListing.sort held⟩
  have total := lists.length_eq_card
  have place : ∀ count : Nat, count ≤ held.card →
      (∀ known, builder.skippedBefore = some known → known = count) →
      (∀ known, builder.skippedAfter = some known → known + count = held.card) →
      ∃ before after, Shows held builder before after := by
    intro count bounded beforeEq afterEq
    refine ⟨listing.take count, listing.drop count, ?_, ?_, ?_⟩
    · rw [empty, keys_empty, append_nil, take_append_drop]
      exact lists
    · intro known countEq
      rw [beforeEq known countEq, length_take]
      omega
    · intro known countEq
      have sum := afterEq known countEq
      rw [length_drop]
      omega
  cases beforeEq : builder.skippedBefore with
  | some before =>
    have bounds := beforeFits before beforeEq
    apply place before.toNat
    · omega
    · intro known countEq
      rw [beforeEq] at countEq
      have same := some.inj countEq
      omega
    · intro known countEq
      have sum := together before known beforeEq countEq
      omega
  | none =>
    cases afterEq : builder.skippedAfter with
    | some after =>
      have bounds := afterFits after afterEq
      apply place (held.card - after.toNat)
      · omega
      · intro known countEq
        simp [beforeEq] at countEq
      · intro known countEq
        rw [afterEq] at countEq
        have same := some.inj countEq
        omega
    | none =>
      apply place 0 (Nat.zero_le _)
      · intro known countEq
        simp [beforeEq] at countEq
      · intro known countEq
        simp [afterEq] at countEq

theorem Shows.grow {more : Finset Int} (shows : Shows held builder before after)
    (grows : held ⊆ more) (newer : ∀ id ∈ builder.ids, ∀ new ∈ more, new ∉ held → id < new)
    (openEnd : builder.skippedAfter.isSome →
      builder.ids = ∅ ∧ builder.skippedBefore = none) :
    ∃ before after, Shows more builder before after := by
  have card := Finset.card_le_card grows
  have whole := shows.card_eq
  by_cases empty : builder.ids = ∅
  · apply shows_of_empty empty
    · intro known countEq
      have exact := shows.skippedBefore known countEq
      omega
    · intro known countEq
      have exact := shows.skippedAfter known countEq
      omega
    · intro known other countEq otherEq
      have closed := openEnd (by rw [otherEq]; rfl)
      simp [closed.2] at countEq
  · have unknown : builder.skippedAfter = none := by
      by_contra known
      exact empty (openEnd (isSome_iff_ne_none.mpr known)).1
    obtain ⟨first, firstMem⟩ : ∃ id, id ∈ builder.ids := by
      by_contra none
      exact empty (eq_empty_iff.mpr (not_exists.mp none))
    have pairs := shows.listing.increasing
    rw [append_assoc, pairwise_append] at pairs
    have initNewer : ∀ new ∈ more, new ∉ held →
        ∀ old ∈ before ++ builder.ids.keys, old < new := by
      intro new newMem fresh old oldMem
      rcases mem_append.mp oldMem with isBefore | isShown
      · have below := pairs.2.2 old isBefore first (mem_append_left _ firstMem)
        exact below.trans (newer first firstMem new newMem fresh)
      · exact newer old isShown new newMem fresh
    obtain ⟨later, lists⟩ := shows.listing.extend grows initNewer
    refine ⟨before, later, lists, shows.skippedBefore, ?_⟩
    intro known countEq
    simp [unknown] at countEq

end

/-- `trimmed` shows less of the same ids, with the same numbers known. -/
structure Trims (builder trimmed : SparseIdsSliceBuilder) : Prop where
  ids : ∀ id ∈ trimmed.ids, id ∈ builder.ids
  fullCount : trimmed.fullCount = builder.fullCount
  before : trimmed.skippedBefore.isSome = builder.skippedBefore.isSome
  after : trimmed.skippedAfter.isSome = builder.skippedAfter.isSome
  shows : ∀ {held : Finset Int} {before after : List Int},
    Shows held builder before after → ∃ before after, Shows held trimmed before after

namespace Trims

theorem refl (builder : SparseIdsSliceBuilder) : Trims builder builder :=
  ⟨fun _ member => member, rfl, rfl, rfl, fun shows => ⟨_, _, shows⟩⟩

theorem trans {first second third : SparseIdsSliceBuilder} (one : Trims first second)
    (two : Trims second third) : Trims first third where
  ids id member := one.ids id (two.ids id member)
  fullCount := two.fullCount.trans one.fullCount
  before := two.before.trans one.before
  after := two.after.trans one.after
  shows shown := by
    obtain ⟨before, after, middle⟩ := one.shows shown
    exact two.shows middle

section

variable (builder : SparseIdsSliceBuilder)
include builder

theorem requestMessages (direction : RequestDirection) :
    Trims builder (builder.requestMessages direction) :=
  ⟨fun _ member => member, rfl, rfl, rfl, fun shows =>
    ⟨_, _, { shows with }⟩⟩

theorem requestMessagesCount : Trims builder builder.requestMessagesCount :=
  ⟨fun _ member => member, rfl, rfl, rfl, fun shows =>
    ⟨_, _, { shows with }⟩⟩

theorem eraseFromBegin {count : Nat} (bounded : count ≤ builder.ids.size) :
    Trims builder (builder.eraseFromBegin count) where
  ids _ member := range_subset member
  fullCount := rfl
  before := isSome_map
  after := rfl
  shows {held before after} shown := by
    have split := builder.ids.keys_eq_take_append_range bounded
    have noneLeft : builder.ids.keys.drop builder.ids.size = [] :=
      drop_eq_nil_of_le (le_refl _)
    rw [noneLeft, append_nil] at split
    refine ⟨before ++ builder.ids.keys.take count, after, ?_, ?_, shown.skippedAfter⟩
    · have lists := shown.listing
      rw [split] at lists
      simpa only [SparseIdsSliceBuilder.eraseFromBegin, List.append_assoc] using lists
    · intro known countEq
      obtain ⟨was, wasEq, rfl⟩ := map_eq_some_iff.mp countEq
      have exact := shown.skippedBefore was wasEq
      have length : (builder.ids.keys.take count).length = count :=
        length_take_of_le bounded
      rw [length_append, length, exact]
      rfl

theorem eraseFromEnd {count : Nat} (bounded : count ≤ builder.ids.size) :
    Trims builder (builder.eraseFromEnd count) where
  ids _ member := range_subset member
  fullCount := rfl
  before := rfl
  after := isSome_map
  shows {held before after} shown := by
    have split := builder.ids.keys_eq_take_append_range (Nat.zero_le (builder.ids.size - count))
    rw [take_zero, nil_append] at split
    refine ⟨before, builder.ids.keys.drop (builder.ids.size - count) ++ after,
      ?_, shown.skippedBefore, ?_⟩
    · have lists := shown.listing
      rw [split] at lists
      simpa only [SparseIdsSliceBuilder.eraseFromEnd, List.append_assoc] using lists
    · intro known countEq
      obtain ⟨was, wasEq, rfl⟩ := map_eq_some_iff.mp countEq
      have exact := shown.skippedAfter was wasEq
      have length : (builder.ids.keys.drop (builder.ids.size - count)).length = count := by
        rw [length_drop]
        change builder.ids.size - (builder.ids.size - count) = count
        omega
      rw [length_append, length, exact]
      push_cast
      omega

theorem sliceBegin {removeFromBegin : Int} (bounded : removeFromBegin ≤ builder.ids.size) :
    Trims builder (builder.sliceBegin removeFromBegin).1 := by
  unfold SparseIdsSliceBuilder.sliceBegin
  split
  · exact eraseFromBegin builder (by omega)
  · split
    · exact requestMessages builder .before
    · exact refl builder

theorem sliceEnd {removeFromEnd : Int} (bounded : removeFromEnd ≤ builder.ids.size) :
    Trims builder (builder.sliceEnd removeFromEnd).1 := by
  unfold SparseIdsSliceBuilder.sliceEnd
  split
  · exact eraseFromEnd builder (by omega)
  · split
    · exact requestMessages builder .after
    · exact refl builder

theorem size_le_sliceBegin {removeFromBegin count : Int} (bounded : removeFromBegin ≤ count)
    (nonneg : 0 ≤ count) :
    (builder.ids.size : Int) - count ≤ (builder.sliceBegin removeFromBegin).1.ids.size := by
  unfold SparseIdsSliceBuilder.sliceBegin
  split
  · simp only [SparseIdsSliceBuilder.eraseFromBegin, FlatSet.size_range]
    omega
  · split
    · change (builder.ids.size : Int) - count ≤ builder.ids.size
      omega
    · change (builder.ids.size : Int) - count ≤ builder.ids.size
      omega

theorem sliceToLimits : Trims builder builder.sliceToLimits := by
  have bounded := builder.ids.lowerBound_le_size builder.key
  unfold SparseIdsSliceBuilder.sliceToLimits
  split
  · split
    · exact requestMessagesCount builder
    · exact refl builder
  · have begun := sliceBegin builder
      (by omega : (builder.ids.lowerBound builder.key : Int) - builder.limitBefore ≤ _)
    have room := size_le_sliceBegin builder
      (by omega : (builder.ids.lowerBound builder.key : Int) - builder.limitBefore ≤
        builder.ids.lowerBound builder.key) (by omega)
    have ended := begun.trans (sliceEnd _
      (by omega : (builder.ids.size : Int) - builder.ids.lowerBound builder.key -
        builder.limitAfter - 1 ≤ _))
    dsimp only
    split
    · exact ended.trans (requestMessagesCount _)
    · exact ended

end

end Trims

theorem Shows.fillSkipped {builder : SparseIdsSliceBuilder}
    (shows : Shows held builder before after)
    (counted : ∀ known, builder.fullCount = some known → known = held.card) :
    Shows held builder.fillSkipped before after := by
  have whole := shows.card_eq
  unfold SparseIdsSliceBuilder.fillSkipped
  split
  next fullCount skippedBefore countEq beforeEq afterEq =>
    refine ⟨shows.listing, shows.skippedBefore, ?_⟩
    intro known filled
    have exactCount := counted fullCount countEq
    have exactBefore := shows.skippedBefore skippedBefore beforeEq
    have filledEq := some.inj filled
    omega
  next fullCount skippedAfter countEq beforeEq afterEq =>
    refine ⟨shows.listing, ?_, shows.skippedAfter⟩
    intro known filled
    have exactCount := counted fullCount countEq
    have exactAfter := shows.skippedAfter skippedAfter afterEq
    have filledEq := some.inj filled
    omega
  · exact shows

@[simp] theorem fillSkipped_ids (builder : SparseIdsSliceBuilder) :
    builder.fillSkipped.ids = builder.ids := by
  unfold fillSkipped
  split <;> rfl

@[simp] theorem fillSkipped_fullCount (builder : SparseIdsSliceBuilder) :
    builder.fillSkipped.fullCount = builder.fullCount := by
  unfold fillSkipped
  split <;> rfl

/-- With a known count, both skip counters are known or neither is. -/
def Filled (builder : SparseIdsSliceBuilder) : Prop :=
  builder.fullCount.isSome →
    builder.skippedBefore.isSome = builder.skippedAfter.isSome

theorem fillSkipped_filled (builder : SparseIdsSliceBuilder) : builder.fillSkipped.Filled := by
  intro counted
  rw [fillSkipped_fullCount] at counted
  obtain ⟨known, countEq⟩ := isSome_iff_exists.mp counted
  unfold fillSkipped
  cases beforeEq : builder.skippedBefore <;> cases afterEq : builder.skippedAfter <;>
    simp [countEq, beforeEq, afterEq]

section

variable {builder : SparseIdsSliceBuilder}

theorem fillSkipped_of_none (unknown : builder.fullCount = none) :
    builder.fillSkipped = builder := by
  unfold fillSkipped
  rw [unknown]

theorem fillSkipped_of_known (knownBefore : builder.skippedBefore.isSome)
    (knownAfter : builder.skippedAfter.isSome) :
    builder.fillSkipped = builder := by
  unfold fillSkipped
  split
  next absent =>
    simp [absent] at knownAfter
  next absent _ =>
    simp [absent] at knownBefore
  · rfl

theorem Trims.filled {trimmed : SparseIdsSliceBuilder} (trims : Trims builder trimmed)
    (filled : builder.Filled) : trimmed.Filled := by
  intro counted
  rw [trims.fullCount] at counted
  rw [trims.before, trims.after]
  exact filled counted

theorem Shows.mergeCount (shows : Shows held builder before after) {count : Option Int}
    (counted : ∀ known, count = some known → known = held.card) :
    Shows held (builder.mergeCount count) before after := by
  cases count with
  | none => exact shows
  | some known =>
    have whole := shows.card_eq
    have exactCount := counted known rfl
    unfold SparseIdsSliceBuilder.mergeCount
    dsimp only
    split
    · exact shows
    · split
      next reached =>
        have enough := reached.2
        refine ⟨shows.listing, ?_, ?_⟩
        · intro zero zeroEq
          rw [← some.inj zeroEq]
          omega
        · intro zero zeroEq
          rw [← some.inj zeroEq]
          omega
      · exact { shows with }

end

section

variable {ids : FlatSet Int} {left right : List Int} {id skipped : Int} {rest : Nat}
  (split : ids.keys = left ++ id :: right)

include split

theorem adjustSkippedBefore_eq (exact : skipped = rest + left.length) :
    adjustSkippedBefore ids id skipped = rest := by
  unfold adjustSkippedBefore
  rw [lowerBound_of_split split]
  omega

theorem adjustSkippedAfter_eq (exact : skipped = right.length + rest) :
    adjustSkippedAfter ids id skipped = rest := by
  have size : ids.size = left.length + (right.length + 1) := by
    rw [size, split, length_append, length_cons]
  unfold adjustSkippedAfter
  rw [lowerBound_of_split split]
  omega

end

theorem mergeMessages_shows {builder : SparseIdsSliceBuilder}
    {messageIds : FlatSet Int} {front back : Int} {low high : List Int}
    {skippedBefore skippedAfter : Option Int} (count : Option Int)
    (lists : IsListing held (low ++ messageIds.keys ++ high))
    (frontEq : messageIds.front? = some front) (backEq : messageIds.back? = some back)
    (nonneg : ∀ id ∈ messageIds, 0 ≤ id)
    (inside : ∀ id ∈ builder.ids, id ∈ messageIds)
    (beforeGiven : ∀ known, skippedBefore = some known → known = low.length)
    (afterGiven : ∀ known, skippedAfter = some known → known = high.length)
    (old : builder.ids ≠ ∅ → ∃ before after,
      IsListing held (before ++ builder.ids.keys ++ after) ∧
      (∀ known, builder.skippedBefore = some known → known = before.length) ∧
      (skippedAfter = none →
        ∀ known, builder.skippedAfter = some known → known = after.length)) :
    Shows held (builder.mergeMessages count messageIds front back
      skippedBefore skippedAfter) low high := by
  have merged : builder.ids.merge messageIds.keys = messageIds :=
    FlatSet.merge_of_subset inside
  have nested : builder.ids ≠ ∅ → ∃ left right,
      messageIds.keys = left ++ builder.ids.keys ++ right ∧
      (∀ known, builder.skippedBefore = some known → known = low.length + left.length) ∧
      (skippedAfter = none → ∀ known, builder.skippedAfter = some known →
        known = right.length + high.length) := by
    intro some
    obtain ⟨before, after, shown, beforeEq, afterEq⟩ := old some
    have keysNonempty : builder.ids.keys ≠ [] := fun none => some (FlatSet.ext_keys none)
    obtain ⟨left, right, split, rfl, rfl⟩ := lists.nested shown keysNonempty inside
    refine ⟨left, right, split, ?_, ?_⟩
    · intro known countEq
      rw [beforeEq known countEq, List.length_append]
      push_cast
      rfl
    · intro absent known countEq
      rw [afterEq absent known countEq, List.length_append]
      push_cast
      rfl
  refine ⟨?_, ?_, ?_⟩
  · simp only [mergeMessages, merged]
    exact lists
  · intro known reported
    simp only [mergeMessages, merged] at reported
    split at reported
    next given =>
      obtain ⟨tail, keysEq⟩ := List.head?_eq_some_iff.mp frontEq
      have first : messageIds.keys = [] ++ front :: tail := keysEq
      rw [← Option.some.inj reported]
      exact adjustSkippedBefore_eq first (beforeGiven given rfl)
    next was wasEq =>
      cases minEq : builder.ids.front? with
      | none => simp [minEq] at reported
      | some wasMinId =>
        have member := FlatSet.front?_mem minEq
        have positive := nonneg wasMinId (inside wasMinId member)
        have some : builder.ids ≠ ∅ := by
          rintro none
          simp [FlatSet.front?_eq_none.mpr none] at minEq
        obtain ⟨left, right, split, beforeEq, _⟩ := nested some
        obtain ⟨tail, keysEq⟩ := List.head?_eq_some_iff.mp minEq
        rw [keysEq, List.append_assoc, List.cons_append] at split
        simp only [minEq, Option.getD_some, if_pos positive, Option.some.injEq] at reported
        rw [← reported]
        exact adjustSkippedBefore_eq split (beforeEq was wasEq)
    · cases reported
  · intro known reported
    simp only [mergeMessages, merged] at reported
    split at reported
    next given =>
      obtain ⟨init, keysEq⟩ := List.getLast?_eq_some_iff.mp backEq
      rw [← Option.some.inj reported]
      refine adjustSkippedAfter_eq keysEq ?_
      rw [afterGiven given rfl, List.length_nil]
      omega
    next was wasEq =>
      cases maxEq : builder.ids.back? with
      | none => simp [maxEq] at reported
      | some wasMaxId =>
        have member := FlatSet.back?_mem maxEq
        have positive := nonneg wasMaxId (inside wasMaxId member)
        have some : builder.ids ≠ ∅ := by
          rintro none
          simp [FlatSet.back?_eq_none.mpr none] at maxEq
        obtain ⟨left, right, split, _, afterEq⟩ := nested some
        obtain ⟨init, keysEq⟩ := List.getLast?_eq_some_iff.mp maxEq
        have place : messageIds.keys = (left ++ init) ++ wasMaxId :: right := by
          rw [split, keysEq]
          simp
        simp only [maxEq, Option.getD_some, if_pos positive, Option.some.injEq] at reported
        rw [← reported]
        exact adjustSkippedAfter_eq place (afterEq rfl was wasEq)
    · cases reported

theorem decrement_isSome (counter : Option Int) :
    (decrement counter).isSome = counter.isSome := isSome_map

theorem decrement_eq {counter : Option Int} {size : Nat}
    (exact : ∀ known, counter = some known → known = (size + 1 : Nat)) :
    ∀ known, decrement counter = some known → known = size := by
  intro known reported
  obtain ⟨was, wasEq, rfl⟩ := map_eq_some_iff.mp reported
  have value := exact was wasEq
  rw [if_pos (by omega)]
  omega

section

variable (builder : SparseIdsSliceBuilder) (messageId : Int)
include builder messageId

theorem dropOne_fullCount :
    (builder.dropOne messageId).1.fullCount = decrement builder.fullCount := by
  unfold dropOne
  dsimp only
  split
  · rfl
  · split
    · split
      · rfl
      · split <;> rfl
    · rfl

theorem dropOne_ids : (builder.dropOne messageId).1.ids = builder.ids.erase messageId := by
  unfold dropOne
  dsimp only
  split
  · rfl
  next absent =>
    rw [erase_of_notMem absent]
    split
    · split
      · rfl
      · split <;> rfl
    · rfl

theorem dropOne_isSome :
    (builder.dropOne messageId).1.skippedBefore.isSome = builder.skippedBefore.isSome ∧
      (builder.dropOne messageId).1.skippedAfter.isSome = builder.skippedAfter.isSome := by
  unfold dropOne
  dsimp only
  split
  · exact ⟨rfl, rfl⟩
  · split
    · split
      · exact ⟨decrement_isSome _, rfl⟩
      · split
        · exact ⟨rfl, decrement_isSome _⟩
        · exact ⟨rfl, rfl⟩
    · exact ⟨rfl, rfl⟩

end

theorem dropOne_of_empty {builder : SparseIdsSliceBuilder} (empty : builder.ids = ∅)
    (messageId : Int) :
    builder.dropOne messageId =
      ({ builder with fullCount := decrement builder.fullCount },
        builder.fullCount.any (0 < ·)) := by
  unfold dropOne
  have absent : messageId ∉ builder.ids := by
    rw [empty]
    exact notMem_empty messageId
  rw [if_neg absent]
  simp only [front?_eq_none.mpr empty]

private theorem filter_ne_of_notMem {ids : List Int} {id : Int} (absent : id ∉ ids) :
    ids.filter (· ≠ id) = ids := by
  rw [filter_eq_self]
  intro other member
  simpa using fun same : other = id => absent (same ▸ member)

private theorem length_filter_ne {ids : List Int} {id : Int} (distinct : ids.Nodup)
    (member : id ∈ ids) : ids.length = (ids.filter (· ≠ id)).length + 1 := by
  have erased : ids.erase id = ids.filter (· ≠ id) :=
    (distinct.erase_eq_filter id).trans (filter_congr fun other _ => by rw [Bool.eq_iff_iff]; simp)
  rw [(perm_cons_erase member).length_eq, length_cons, erased]

/-- Removing an id of the set from a window keeps it a window.  An empty window
does not tell on which side the id was, so there a counter must not count
everything that is left, and both cannot be known. -/
theorem Shows.dropOne {builder : SparseIdsSliceBuilder} (shows : Shows held builder before after)
    {messageId : Int}
    (member : messageId ∈ held)
    (empty : builder.ids = ∅ →
      (builder.skippedBefore = none ∨ builder.skippedAfter = none) ∧
      ∀ known, builder.skippedBefore = some known ∨ builder.skippedAfter = some known →
        known < held.card) :
    ∃ before after,
      Shows (held.erase messageId) (builder.dropOne messageId).1 before after := by
  have distinct := shows.listing.nodup
  rw [append_assoc, nodup_append, nodup_append] at distinct
  obtain ⟨beforeNodup, ⟨_, afterNodup, _⟩, _⟩ := distinct
  have lists : IsListing (held.erase messageId) (before.filter (· ≠ messageId) ++
      (builder.ids.erase messageId).keys ++ after.filter (· ≠ messageId)) := by
    have erased := shows.listing.erase messageId
    rw [filter_append, filter_append] at erased
    exact erased
  have pairs := shows.listing.increasing
  rw [append_assoc, pairwise_append, pairwise_append] at pairs
  unfold SparseIdsSliceBuilder.dropOne
  dsimp only
  split
  next shown =>
    have notBefore : messageId ∉ before := fun isBefore =>
      lt_irrefl _ (pairs.2.2 messageId isBefore messageId (mem_append_left _ shown))
    have notAfter : messageId ∉ after := fun isAfter =>
      lt_irrefl _ (pairs.2.1.2.2 messageId shown messageId isAfter)
    rw [filter_ne_of_notMem notBefore, filter_ne_of_notMem notAfter] at lists
    exact ⟨before, after, lists, shows.skippedBefore, shows.skippedAfter⟩
  next absent =>
    rw [erase_of_notMem absent] at lists
    split
    next front back frontEq backEq =>
      have frontMem := front?_mem frontEq
      have backMem := back?_mem backEq
      have span := front?_le frontEq backMem
      have side : messageId ∈ before ∧ messageId < front ∧ messageId ∉ after ∨
          messageId ∈ after ∧ back < messageId ∧ messageId ∉ before := by
        have somewhere := (shows.listing.mem_iff messageId).mpr member
        rcases mem_append.mp somewhere with inFirst | isAfter
        · rcases mem_append.mp inFirst with isBefore | shown
          · have below := pairs.2.2 messageId isBefore front (mem_append_left _ frontMem)
            exact .inl ⟨isBefore, below, fun isAfter => lt_irrefl _
              (pairs.2.2 messageId isBefore messageId (mem_append_right _ isAfter))⟩
          · exact (absent shown).elim
        · have above := pairs.2.1.2.2 back backMem messageId isAfter
          exact .inr ⟨isAfter, above, fun isBefore => lt_irrefl _
            (pairs.2.2 messageId isBefore messageId (mem_append_right _ isAfter))⟩
      rcases side with ⟨isBefore, below, notAfter⟩ | ⟨isAfter, above, notBefore⟩
      · rw [filter_ne_of_notMem notAfter] at lists
        have shorter := length_filter_ne beforeNodup isBefore
        have notAbove : ¬ back < messageId := fun above =>
          lt_irrefl _ (below.trans_le (span.trans above.le))
        refine ⟨before.filter (· ≠ messageId), after, ?_⟩
        split
        · refine ⟨lists, decrement_eq ?_, shows.skippedAfter⟩
          intro known countEq
          rw [shows.skippedBefore known countEq, shorter]
        next unchanged =>
          rw [if_neg (fun both => notAbove both.1)]
          refine ⟨lists, ?_, shows.skippedAfter⟩
          intro known countEq
          have value := shows.skippedBefore known countEq
          refine (unchanged ⟨below, ?_⟩).elim
          rw [countEq]
          simp only [any_some, decide_eq_true_eq]
          omega
      · rw [filter_ne_of_notMem notBefore] at lists
        have shorter := length_filter_ne afterNodup isAfter
        have notBelow : ¬ messageId < front := fun below =>
          lt_irrefl _ (below.trans_le (span.trans above.le))
        refine ⟨before, after.filter (· ≠ messageId), ?_⟩
        rw [if_neg (fun both => notBelow both.1)]
        split
        · refine ⟨lists, shows.skippedBefore, decrement_eq ?_⟩
          intro known countEq
          rw [shows.skippedAfter known countEq, shorter]
        next unchanged =>
          refine ⟨lists, shows.skippedBefore, ?_⟩
          intro known countEq
          have value := shows.skippedAfter known countEq
          refine (unchanged ⟨above, ?_⟩).elim
          rw [countEq]
          simp only [any_some, decide_eq_true_eq]
          omega
    next noEnds =>
      have none : builder.ids = ∅ := by
        by_contra some
        cases frontEq : builder.ids.front? with
        | none => exact some (front?_eq_none.mp frontEq)
        | some front =>
          cases backEq : builder.ids.back? with
          | none => exact some (back?_eq_none.mp backEq)
          | some back => exact noEnds front back frontEq backEq
      obtain ⟨oneUnknown, small⟩ := empty none
      have card := Finset.card_erase_add_one member
      refine shows_of_empty none ?_ ?_ ?_
      · intro known countEq
        have value := shows.skippedBefore known countEq
        have room := small known (.inl countEq)
        omega
      · intro known countEq
        have value := shows.skippedAfter known countEq
        have room := small known (.inr countEq)
        omega
      · intro low high lowEq highEq
        rcases oneUnknown with unknown | unknown
        · simp [unknown] at lowEq
        · simp [unknown] at highEq

end TelegramDesktop.SparseIdsSliceBuilder
