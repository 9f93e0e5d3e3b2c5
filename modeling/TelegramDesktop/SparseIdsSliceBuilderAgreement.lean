import TelegramDesktop.SparseIdsSliceBuilderWindow

/-!
# The viewer and the list stay in step

A viewer starts from a query of a truthful list and then sees an event for every call.
-/

namespace TelegramDesktop.SparseIdsSliceBuilder

open SparseIdsList FlatSet Option List

/-- The ids of the viewer belong to one slice of the list, and an end of the
set that is known without a count is the end of that slice. -/
def InSlice (list : SparseIdsList) (builder : SparseIdsSliceBuilder) : Prop :=
  builder.ids ≠ ∅ → ∃ slice ∈ list.slices,
    (∀ id ∈ builder.ids, id ∈ slice.messages) ∧
    (builder.fullCount = none → builder.skippedAfter.isSome →
      serverMaxMsgId ≤ slice.range.till)

/-- The viewer shows a window of the server's ids with exact numbers, counts
what the list counts and has its ids from one slice. -/
structure Agrees (server : ServerIds) (list : SparseIdsList)
    (builder : SparseIdsSliceBuilder) : Prop where
  sound : Sound server list
  shows : ∃ before after, Shows server.held builder before after
  counted : builder.fullCount = list.count
  filled : builder.Filled
  inSlice : InSlice list builder

variable {list : SparseIdsList}

theorem InSlice.trims {builder trimmed : SparseIdsSliceBuilder}
    (inSlice : InSlice list builder) (trims : Trims builder trimmed) :
    InSlice list trimmed := by
  intro some
  have someBefore : builder.ids ≠ ∅ := by
    intro none
    apply some
    rw [eq_empty_iff]
    intro id member
    have was := trims.ids id member
    rw [none] at was
    exact notMem_empty id was
  obtain ⟨slice, member, inside, openEnd⟩ := inSlice someBefore
  refine ⟨slice, member, fun id idMem => inside id (trims.ids id idMem), ?_⟩
  rw [trims.fullCount, trims.after]
  exact openEnd

variable {builder : SparseIdsSliceBuilder}

theorem InSlice.fillSkipped
    (inSlice : InSlice list builder) : InSlice list builder.fillSkipped := by
  intro some
  rw [fillSkipped_ids] at some
  obtain ⟨slice, member, inside, openEnd⟩ := inSlice some
  refine ⟨slice, member, by simpa using inside, ?_⟩
  intro unknown
  rw [fillSkipped_fullCount] at unknown
  rw [fillSkipped_of_none unknown]
  exact openEnd unknown

variable {server : ServerIds}

theorem Agrees.trims {builder trimmed : SparseIdsSliceBuilder} (agrees : Agrees server list builder)
    (trims : Trims builder trimmed) : Agrees server list trimmed where
  sound := agrees.sound
  shows := by
    obtain ⟨before, after, shows⟩ := agrees.shows
    exact trims.shows shows
  counted := trims.fullCount.trans agrees.counted
  filled := trims.filled agrees.filled
  inSlice := agrees.inSlice.trims trims

theorem agrees_of_fill
    (sound : Sound server list) (shows : ∃ before after, Shows server.held builder before after)
    (counted : builder.fullCount = list.count) (inSlice : InSlice list builder) :
    Agrees server list builder.fillSkippedAndSliceToLimits := by
  obtain ⟨before, after, shows⟩ := shows
  have known : ∀ known, builder.fullCount = some known → known = server.held.card := by
    rw [counted]
    exact sound.count
  have filled : Agrees server list builder.fillSkipped :=
    { sound := sound
      shows := ⟨before, after, shows.fillSkipped known⟩
      counted := by rw [fillSkipped_fullCount, counted]
      filled := fillSkipped_filled builder
      inSlice := inSlice.fillSkipped }
  exact filled.trims (Trims.sliceToLimits _)

variable {count : Option Int}

theorem mergeCount_agrees (sound : Sound server list)
    (shows : ∃ before after, Shows server.held builder before after) (countEq : count = list.count)
    (kept : list.count = none → builder.fullCount = none) (inSlice : InSlice list builder) :
    Agrees server list (builder.mergeCount count).fillSkippedAndSliceToLimits := by
  obtain ⟨before, after, shows⟩ := shows
  have exact : ∀ known, count = some known → known = server.held.card := by
    rw [countEq]
    exact sound.count
  refine agrees_of_fill sound ⟨before, after, shows.mergeCount exact⟩ ?_ ?_
  · cases count with
    | none => exact (kept countEq.symm).trans countEq
    | some known =>
      have whole := shows.card_eq
      have value := exact known rfl
      rw [← countEq]
      unfold mergeCount
      dsimp only
      split
      · assumption
      · split
        next reached =>
          have enough := reached.2
          simp only [some.injEq]
          omega
        · rfl
  · cases count with
    | none => exact inSlice
    | some known =>
      intro some
      have counts : (builder.mergeCount (Option.some known)).ids = builder.ids ∧
          (builder.mergeCount (Option.some known)).fullCount ≠ none := by
        unfold mergeCount
        dsimp only
        split
        next same =>
          exact ⟨rfl, by simp [same]⟩
        · split <;> exact ⟨rfl, by simp⟩
      rw [counts.1] at some ⊢
      obtain ⟨slice, member, inside, _⟩ := inSlice some
      exact ⟨slice, member, inside, fun unknown => (counts.2 unknown).elim⟩

theorem mergeSliceData_empty (builder : SparseIdsSliceBuilder) (count : Option Int)
    (skippedBefore skippedAfter : Option Int) :
    builder.mergeSliceData count ∅ skippedBefore skippedAfter =
      (builder.mergeCount count).fillSkippedAndSliceToLimits := rfl

theorem mergeSliceData_agrees
    {messageIds : FlatSet Int}
    {skippedBefore skippedAfter : Option Int} {low high : List Int}
    (sound : Sound server list) (countEq : count = list.count)
    (kept : list.count = none → builder.fullCount = none)
    (lists : IsListing server.held (low ++ messageIds.keys ++ high))
    (beforeGiven : ∀ known, skippedBefore = some known → known = low.length)
    (afterGiven : ∀ known, skippedAfter = some known → known = high.length)
    (inside : ∀ id ∈ builder.ids, id ∈ messageIds)
    (old : builder.ids ≠ ∅ → ∃ before after,
      IsListing server.held (before ++ builder.ids.keys ++ after) ∧
      (∀ known, builder.skippedBefore = some known → known = before.length) ∧
      (skippedAfter = none →
        ∀ known, builder.skippedAfter = some known → known = after.length))
    (oldEmpty : messageIds = ∅ → ∃ before after, Shows server.held builder before after)
    (slice : messageIds ≠ ∅ → ∃ slice ∈ list.slices,
      (∀ id ∈ messageIds, id ∈ slice.messages) ∧
      (count = none → builder.fullCount = none →
        skippedAfter.isSome ∨ builder.ids ≠ ∅ ∧ builder.skippedAfter.isSome →
          serverMaxMsgId ≤ slice.range.till)) :
    Agrees server list (builder.mergeSliceData count messageIds
      skippedBefore skippedAfter) := by
  by_cases none : messageIds = ∅
  · subst none
    rw [mergeSliceData_empty]
    refine mergeCount_agrees sound (oldEmpty rfl) countEq kept ?_
    intro some
    refine (some (eq_empty_iff.mpr fun id member => ?_)).elim
    exact notMem_empty id (inside id member)
  · obtain ⟨front, frontEq⟩ : ∃ front, messageIds.front? = some front :=
      ne_none_iff_exists'.mp fun empty => none (front?_eq_none.mp empty)
    obtain ⟨back, backEq⟩ : ∃ back, messageIds.back? = some back :=
      ne_none_iff_exists'.mp fun empty => none (back?_eq_none.mp empty)
    have nonneg : ∀ id ∈ messageIds, 0 ≤ id := by
      intro id member
      have held := (lists.mem_iff id).mp (mem_append_left _ (mem_append_right _ member))
      exact (server.held_server id held).1.le
    unfold mergeSliceData
    simp only [frontEq, backEq]
    refine agrees_of_fill sound ⟨low, high, mergeMessages_shows count lists frontEq backEq
      nonneg inside beforeGiven afterGiven old⟩ ?_ ?_
    · cases count with
      | none => exact (kept countEq.symm).trans countEq
      | some known => exact countEq
    · intro some
      have merged : builder.ids.merge messageIds.keys = messageIds :=
        merge_of_subset inside
      obtain ⟨within, member, listed, openEnd⟩ := slice none
      refine ⟨within, member, ?_, ?_⟩
      · simp only [mergeMessages, merged]
        exact listed
      · intro unknown reported
        have counts : count = Option.none ∧ builder.fullCount = Option.none := by
          cases count with
          | none => exact ⟨rfl, unknown⟩
          | some known => cases unknown
        refine openEnd counts.1 counts.2 ?_
        by_cases given : skippedAfter.isSome
        · exact .inl given
        · right
          rw [not_isSome_iff_eq_none] at given
          subst given
          simp only [mergeMessages] at reported
          cases wasEq : builder.skippedAfter with
          | none => simp [wasEq] at reported
          | some was =>
            refine ⟨?_, rfl⟩
            intro empty
            simp [wasEq, back?_eq_none.mpr empty] at reported

variable {slice : Slice}

section Updates

variable {before after : ServerIds} {list next : SparseIdsList}
  {builder : SparseIdsSliceBuilder} {update : SparseIdsSliceUpdate}

/-- An update that does not reach the shown ids leaves them in their slice and
changes at most the count. -/
theorem untouched_agrees (agrees : Agrees before list builder) (sound : Sound after next)
    (apart : (update.messages.isSome && intersects update.range builder.idsRange) = false)
    (countEq : update.count = next.count)
    (kept : next.count = none → list.count = none)
    (shows : ∃ low high, Shows after.held builder low high)
    (survives : ∀ slice ∈ list.slices, builder.ids ≠ ∅ →
      (∀ id ∈ builder.ids, id ∈ slice.messages) →
        ∃ other ∈ next.slices, other.messages = slice.messages ∧
          (serverMaxMsgId ≤ slice.range.till → serverMaxMsgId ≤ other.range.till)) :
    Agrees after next (builder.applyUpdate update).1 := by
  have inSlice : InSlice next builder := by
    intro some
    obtain ⟨slice, member, inside, openEnd⟩ := agrees.inSlice some
    obtain ⟨other, otherMem, same, reaches⟩ := survives slice member some inside
    exact ⟨other, otherMem, same ▸ inside, fun unknown known =>
      reaches (openEnd unknown known)⟩
  have unknown : next.count = none → builder.fullCount = none := fun none =>
    agrees.counted.trans (kept none)
  unfold applyUpdate
  rw [apart]
  cases reported : update.count with
  | none =>
    have none : next.count = none := countEq.symm.trans reported
    exact ⟨sound, shows, (unknown none).trans none.symm, agrees.filled, inSlice⟩
  | some known =>
    have nextCount : some known = next.count := reported.symm.trans countEq
    exact mergeCount_agrees sound shows nextCount unknown inSlice

/-- An update that reaches the shown ids replaces them by the ids of its slice,
which contains theirs. -/
theorem touched_agrees (agrees : Agrees before list builder) (sound : Sound after next)
    (reaches : intersects update.range builder.idsRange = true)
    {messages : FlatSet Int} (messagesEq : update.messages = some messages)
    (countEq : update.count = next.count) (kept : next.count = none → list.count = none)
    (member : slice ∈ next.slices) (sliceEq : slice.messages = messages)
    (starts : update.range.from = 0 → slice.range.from = 0)
    (ends : update.range.till = serverMaxMsgId → slice.range.till = serverMaxMsgId)
    (inside : ∀ id ∈ builder.ids, id ∈ messages)
    (reachesEnd : builder.ids ≠ ∅ → builder.fullCount = none →
      builder.skippedAfter.isSome → serverMaxMsgId ≤ slice.range.till)
    (grows : before.held ⊆ after.held)
    (newer : ∀ id ∈ before.held, ∀ new ∈ after.held, new ∉ before.held → id < new)
    (arrives : after.held ≠ before.held →
      update.range.till = serverMaxMsgId ∧ messages ≠ ∅) :
    Agrees after next (builder.applyUpdate update).1 := by
  subst sliceEq
  obtain ⟨low, high, shows⟩ := agrees.shows
  obtain ⟨listing, lists⟩ : ∃ listing, IsListing after.held listing :=
    ⟨_, IsListing.sort after.held⟩
  have blocks := lists.eq_append_of_between (sound.normal.separated.ordered slice member)
    (sound.messages.isListing member)
  have unknown : next.count = none → builder.fullCount = none := fun none =>
    agrees.counted.trans (kept none)
  have merges : (builder.applyUpdate update).1 = builder.mergeSliceData update.count
      slice.messages (if update.range.from = 0 then some 0 else none)
      (if update.range.till = serverMaxMsgId then some 0 else none) := by
    unfold applyUpdate
    simp [messagesEq, reaches]
  rw [merges]
  refine mergeSliceData_agrees sound countEq unknown (blocks ▸ lists) ?_ ?_ inside ?_ ?_ ?_
  · intro known given
    split at given
    next zero =>
      rw [starts zero, after.filter_lt_zero lists, ← some.inj given]
      rfl
    · cases given
  · intro known given
    split at given
    next infinite =>
      rw [ends infinite, after.filter_max_lt lists, ← some.inj given]
      rfl
    · cases given
  · intro some
    by_cases same : after.held = before.held
    · rw [same]
      exact ⟨low, high, shows.listing, shows.skippedBefore, fun _ => shows.skippedAfter⟩
    · have initNewer : ∀ new ∈ after.held, new ∉ before.held →
          ∀ old ∈ low ++ builder.ids.keys, old < new := fun new newMem fresh old oldMem =>
        newer old ((shows.listing.mem_iff old).mp (mem_append_left _ oldMem)) new newMem fresh
      obtain ⟨later, extended⟩ := shows.listing.extend grows initNewer
      refine ⟨low, later, extended, shows.skippedBefore, ?_⟩
      intro notGiven
      rw [if_pos (arrives same).1] at notGiven
      cases notGiven
  · intro none
    have same : after.held = before.held := by
      by_contra changed
      exact (arrives changed).2 none
    rw [same]
    exact ⟨low, high, shows⟩
  · intro _
    refine ⟨slice, member, fun id idMem => idMem, ?_⟩
    rintro _ noCount (given | ⟨some, known⟩)
    · by_cases infinite : update.range.till = serverMaxMsgId
      · exact (ends infinite).ge
      · simp [infinite] at given
    · exact reachesEnd some noCount known

end Updates

/-- An added range, or a slice that it touches, meets the shown ids. -/
def ReachesViewer (list : SparseIdsList) (builder : SparseIdsSliceBuilder)
    (noSkipRange : MsgRange) : Prop :=
  intersects noSkipRange builder.idsRange = true ∨
    ∃ slice ∈ list.slices, slice.range.Touches noSkipRange ∧
      intersects slice.range builder.idsRange = true

theorem intersects_iff {first second : MsgRange} :
    intersects first second = true ↔ first.Touches second := by
  simp [intersects, MsgRange.Touches]

section Additions

variable {list : SparseIdsList} {builder : SparseIdsSliceBuilder}
  {messages : List Int} {noSkipRange : MsgRange} {result : AddResult}
  {below touched above : List Slice} {merged : Slice}

theorem idsRange_within (within : ∀ id ∈ slice.messages, slice.range.Covers id ∧ IsServerMsgId id)
    (some : builder.ids ≠ ∅) (inside : ∀ id ∈ builder.ids, id ∈ slice.messages) :
    slice.range.from ≤ builder.idsRange.from ∧
      builder.idsRange.from ≤ builder.idsRange.till ∧
      builder.idsRange.till ≤ slice.range.till := by
  obtain ⟨front, frontEq⟩ : ∃ front, builder.ids.front? = Option.some front :=
    ne_none_iff_exists'.mp fun empty => some (front?_eq_none.mp empty)
  obtain ⟨back, backEq⟩ : ∃ back, builder.ids.back? = Option.some back :=
    ne_none_iff_exists'.mp fun empty => some (back?_eq_none.mp empty)
  have frontMem := front?_mem frontEq
  have backMem := back?_mem backEq
  simp only [idsRange, frontEq, backEq, getD_some]
  exact ⟨(within front (inside front frontMem)).1.1, front?_le frontEq backMem,
    (within back (inside back backMem)).1.2⟩

section

variable (addition : Addition list.slices messages noSkipRange result below touched above merged)
include addition

theorem touches_of_source (separated : SlicesSeparated list.slices) (member : slice ∈ touched)
    {range : MsgRange} (touches : slice.range.Touches range) : merged.range.Touches range := by
  have ordered := separated.ordered slice (addition.mem_slices (.inr (.inl member)))
  have around := addition.unites.contains (mem_cons_of_mem _ member) ordered
  exact ⟨around.1.trans touches.1, touches.2.trans around.2⟩

theorem mem_touched (member : slice ∈ list.slices) (touches : slice.range.Touches noSkipRange) :
    slice ∈ touched := by
  rw [addition.split] at member
  rcases mem_append.mp member with first | later
  · rcases mem_append.mp first with before | inTouched
    · exact (addition.not_touches (.inl before) touches).elim
    · exact inTouched
  · exact (addition.not_touches (.inr later) touches).elim

theorem merged_touches_of_reaches (separated : SlicesSeparated list.slices)
    (ordered : noSkipRange.Ordered) (reaches : ReachesViewer list builder noSkipRange) :
    merged.range.Touches builder.idsRange := by
  rcases reaches with direct | ⟨slice, member, touches, meets⟩
  · have around := addition.contains_range ordered
    have meets := intersects_iff.mp direct
    exact ⟨around.1.trans meets.1, meets.2.trans around.2⟩
  · exact touches_of_source addition separated (mem_touched addition member touches)
      (intersects_iff.mp meets)

theorem inside_merged (normal : NormalForm list.slices) (ordered : noSkipRange.Ordered)
    (member : slice ∈ list.slices) (some : builder.ids ≠ ∅)
    (inside : ∀ id ∈ builder.ids, id ∈ slice.messages)
    (touches : merged.range.Touches builder.idsRange) :
    (∀ id ∈ builder.ids, id ∈ merged.messages) ∧ slice.range.till ≤ merged.range.till := by
  have span := idsRange_within (normal.within slice member) some inside
  have separated := addition.separated normal.separated ordered
  have sliceOrdered := normal.separated.ordered slice member
  have merges : slice ∈ touched ∨ slice = merged := by
    rw [addition.split] at member
    have apart : slice ∈ result.slices → slice = merged := fun stays =>
      separated.eq_of_overlap stays (addition.mem_result.mpr (.inr (.inl rfl)))
        (span.1.trans touches.2) (touches.1.trans span.2.2)
    rcases mem_append.mp member with first | later
    · rcases mem_append.mp first with before | inTouched
      · exact .inr (apart (addition.mem_result.mpr (.inl before)))
      · exact .inl inTouched
    · exact .inr (apart (addition.mem_result.mpr (.inr (.inr later))))
  rcases merges with inTouched | same
  · have sourceMem := mem_cons_of_mem (⟨ofList messages, noSkipRange⟩ : Slice) inTouched
    refine ⟨fun id idMem => ?_, (addition.unites.contains sourceMem sliceOrdered).2⟩
    exact (addition.unites.mem_iff id).mpr ⟨slice, sourceMem, inside id idMem⟩
  · rw [← same]
    exact ⟨inside, le_refl _⟩

end

end Additions

theorem countedBy_eq_none {incrementCount : Bool} {added : Int}
    (unknown : list.countedBy count incrementCount added = none) : list.count = none := by
  unfold countedBy at unknown
  split at unknown
  next given =>
    rw [unknown] at given
    cases given
  · split at unknown
    · exact map_eq_none_iff.mp unknown
    · exact unknown

/-- What the viewer may be told about new ids: they end the list, the slices
they touch are those that are open at the end, and unless the viewer is reached
it does not know both skip counters. -/
structure Arrival (list : SparseIdsList) (builder : SparseIdsSliceBuilder)
    (messages : List Int) (noSkipRange : MsgRange) : Prop where
  loaded : messages ≠ []
  till : noSkipRange.till = serverMaxMsgId
  ends : ∀ slice ∈ list.slices, slice.range.Touches noSkipRange →
    slice.range.till = serverMaxMsgId
  opened : ∀ slice ∈ list.slices, serverMaxMsgId ≤ slice.range.till →
    slice.range.Touches noSkipRange
  keeps : builder.skippedBefore.isSome → builder.skippedAfter.isSome →
    ReachesViewer list builder noSkipRange

variable {noSkipRange : MsgRange} {below touched above : List Slice} {messages : List Int}
  {result : AddResult}

theorem Arrival.open_end
        {merged : Slice}
    (arrival : Arrival list builder messages noSkipRange)
    (agrees : Agrees server list builder)
    (addition : Addition list.slices messages noSkipRange result
      below touched above merged) (ordered : noSkipRange.Ordered)
    (apart : ¬ merged.range.Touches builder.idsRange)
    (known : builder.skippedAfter.isSome) :
    builder.ids = ∅ ∧ builder.skippedBefore = none := by
  have normal := agrees.sound.normal
  have unknownBefore : builder.skippedBefore = none := by
    by_contra knownBefore
    exact apart (merged_touches_of_reaches addition normal.separated ordered
      (arrival.keeps (isSome_iff_ne_none.mpr knownBefore) known))
  have unknownCount : builder.fullCount = none := by
    by_contra counted
    have both := agrees.filled (isSome_iff_ne_none.mpr counted)
    rw [unknownBefore, known] at both
    cases both
  refine ⟨?_, unknownBefore⟩
  by_contra some
  obtain ⟨slice, member, inside, openEnd⟩ := agrees.inSlice some
  have touches := arrival.opened slice member (openEnd unknownCount known)
  have span := idsRange_within (normal.within slice member) some inside
  exact apart (touches_of_source addition normal.separated (mem_touched addition member touches)
    ⟨span.1.trans span.2.1, span.2.1.trans span.2.2⟩)

variable {before after : ServerIds}

section

variable {list : SparseIdsList} (agrees : Agrees before list builder)
  (ordered : noSkipRange.Ordered) (grows : before.held ⊆ after.held)
  (newer : ∀ id ∈ before.held, ∀ new ∈ after.held, new ∉ before.held → id < new)
  (arrival : after.held ≠ before.held → Arrival list builder messages noSkipRange)

include agrees ordered grows newer arrival

theorem merged_agrees {next : SparseIdsList} {update : SparseIdsSliceUpdate}
    (sound : Sound after next) {merged : Slice}
    (addition : Addition list.slices messages noSkipRange result below touched above merged)
    (messagesEq : update.messages = some merged.messages)
    (rangeEq : update.range = merged.range) (countEq : update.count = next.count)
    (kept : next.count = none → list.count = none)
    (member : slice ∈ next.slices) (sliceEq : slice.messages = merged.messages)
    (sliceRange : slice.range = merged.range ∨ slice.range = fullMsgRange)
    (others : ∀ other, other ∈ below ∨ other ∈ above → other ∈ next.slices) :
    Agrees after next (builder.applyUpdate update).1 := by
  have normal := agrees.sound.normal
  by_cases touches : merged.range.Touches builder.idsRange
  · have reaches : intersects update.range builder.idsRange = true := by
      rw [rangeEq]
      exact intersects_iff.mpr touches
    refine touched_agrees agrees sound reaches messagesEq countEq kept member sliceEq
      ?_ ?_ ?_ ?_ grows newer ?_
    · intro zero
      rcases sliceRange with same | full
      · rw [same, ← rangeEq, zero]
      · rw [full]
        rfl
    · intro infinite
      rcases sliceRange with same | full
      · rw [same, ← rangeEq, infinite]
      · rw [full]
        rfl
    · intro id idMem
      have some : builder.ids ≠ ∅ := fun none =>
        notMem_empty id (none ▸ idMem)
      obtain ⟨old, oldMem, inside, _⟩ := agrees.inSlice some
      exact (inside_merged addition normal ordered oldMem some inside touches).1 id idMem
    · intro some unknown known
      rcases sliceRange with same | full
      · obtain ⟨old, oldMem, inside, openEnd⟩ := agrees.inSlice some
        rw [same]
        exact (openEnd unknown known).trans
          (inside_merged addition normal ordered oldMem some inside touches).2
      · rw [full]
        exact le_refl _
    · intro changed
      have arrives := arrival changed
      constructor
      · obtain ⟨source, sourceMem, tillEq⟩ := addition.unites.till_eq
        rw [rangeEq, tillEq]
        rcases mem_cons.mp sourceMem with rfl | old
        · exact arrives.till
        · exact arrives.ends source (addition.mem_slices (.inr (.inl old)))
            (addition.touches source old)
      · obtain ⟨id, tail, rfl⟩ := exists_cons_of_ne_nil arrives.loaded
        intro none
        have idMem : id ∈ merged.messages := (addition.unites.mem_iff id).mpr
          ⟨_, mem_cons_self, mem_ofList.mpr mem_cons_self⟩
        exact notMem_empty id (none ▸ idMem)
  · have apart : (update.messages.isSome && intersects update.range builder.idsRange) =
        false := by
      rw [rangeEq, Bool.and_eq_false_iff, ← Bool.not_eq_true (intersects _ _), intersects_iff]
      exact .inr touches
    obtain ⟨low, high, shows⟩ := agrees.shows
    refine untouched_agrees agrees sound apart countEq kept ?_ ?_
    · by_cases same : after.held = before.held
      · rw [same]
        exact ⟨low, high, shows⟩
      · exact shows.grow grows (fun id idMem => newer id (shows.mem_held idMem))
          ((arrival same).open_end agrees addition ordered touches)
    · intro old oldMem some inside
      have span := idsRange_within (normal.within old oldMem) some inside
      have untouched : old ∉ touched := fun inTouched => touches
        (touches_of_source addition normal.separated inTouched
          ⟨span.1.trans span.2.1, span.2.1.trans span.2.2⟩)
      refine ⟨old, others old ?_, rfl, fun reaches => reaches⟩
      rw [addition.split] at oldMem
      rcases mem_append.mp oldMem with first | later
      · rcases mem_append.mp first with isBelow | inTouched
        · exact .inl isBelow
        · exact (untouched inTouched).elim
      · exact .inr later

theorem addRange_agrees {incrementCount : Bool}
    (sound : Sound after (list.addRange messages noSkipRange count incrementCount).1) :
    Agrees after (list.addRange messages noSkipRange count incrementCount).1
      (builder.applyUpdate (list.addRange messages noSkipRange count incrementCount).2).1 := by
  have outcome := addRange_outcome agrees.sound.normal.separated messages ordered count
    incrementCount
  generalize countedEq : list.countedBy count incrementCount
    (addRangeItemsAndCountNew list.slices messages noSkipRange).added = counted at outcome
  generalize list.addRange messages noSkipRange count incrementCount = added at outcome sound ⊢
  have unknown : counted = none → list.count = none := by
    rintro rfl
    exact countedBy_eq_none countedEq
  obtain ⟨low, high, shows⟩ := agrees.shows
  have unchanged : after.held = before.held →
      ∃ low high, Shows after.held builder low high := by
    intro same
    rw [same]
    exact ⟨low, high, shows⟩
  cases outcome with
  | nothing single absent =>
    have same : after.held = before.held := by
      by_contra changed
      exact (arrival changed).loaded absent
    apply untouched_agrees agrees sound rfl rfl unknown (unchanged same)
    exact fun slice member _ _ => ⟨slice, member, rfl, fun reaches => reaches⟩
  | nothingWhole single absent only =>
    have same : after.held = before.held := by
      by_contra changed
      exact (arrival changed).loaded absent
    apply untouched_agrees agrees sound rfl rfl (by simp) (unchanged same)
    intro slice member _ _
    rw [only, mem_singleton] at member
    subst member
    exact ⟨slice.widen, by simp, rfl, fun _ => le_refl _⟩
  | merged addition =>
    refine merged_agrees agrees ordered grows newer arrival sound addition rfl rfl rfl ?_
      (mem_append_right _ mem_cons_self) rfl (.inl rfl) ?_
    · exact fun none => unknown (map_eq_none_iff.mp none)
    · rintro other (isBelow | isAbove)
      · exact mem_append_left _ isBelow
      · exact mem_append_right _ (mem_cons_of_mem _ isAbove)
  | mergedWhole addition =>
    refine merged_agrees agrees ordered grows newer arrival sound addition rfl rfl rfl (by simp)
      mem_cons_self rfl (.inr rfl) (by simp)

end

variable {operation : Operation}

section Calls

variable {before after : ServerIds} {list : SparseIdsList}
  {builder : SparseIdsSliceBuilder}

theorem removeOne_slice (separated : SlicesSeparated list.slices)
    (member : slice ∈ list.slices) (messageId : Int) :
    ∃ other ∈ (list.removeOne messageId).slices, other.range = slice.range ∧
      ∀ id ∈ slice.messages, id ≠ messageId → id ∈ other.messages := by
  rcases removeOne_slices separated messageId with
    ⟨init, covered, tail, split, _, removed⟩ | ⟨_, unchanged⟩
  · rw [removed]
    rw [split] at member
    rcases mem_append.mp member with old | later
    · exact ⟨slice, mem_append_left _ old, rfl, fun _ idMem _ => idMem⟩
    · rcases mem_cons.mp later with rfl | old
      · refine ⟨_, mem_append_right _ mem_cons_self, rfl, ?_⟩
        exact fun id idMem other => mem_erase.mpr ⟨other, idMem⟩
      · exact ⟨slice, mem_append_right _ (mem_cons_of_mem _ old), rfl, fun _ idMem _ => idMem⟩
  · rw [unchanged]
    exact ⟨slice, member, rfl, fun _ idMem _ => idMem⟩

theorem removeOne_agrees (agrees : Agrees before list builder) {messageId : Int}
    (member : messageId ∈ before.held) (heldEq : after.held = before.held.erase messageId)
    (mentionedEq : after.mentioned = messageId :: before.mentioned)
    (empty : builder.ids = ∅ →
      (builder.skippedBefore = none ∨ builder.skippedAfter = none) ∧
      ∀ known, builder.skippedBefore = some known ∨ builder.skippedAfter = some known →
        known < before.held.card) :
    Agrees after (list.removeOne messageId) (builder.removeOne messageId).1 := by
  have dropped : Agrees after (list.removeOne messageId) (builder.dropOne messageId).1 := by
    obtain ⟨low, high, shows⟩ := agrees.shows
    have known := dropOne_isSome builder messageId
    have positive := Finset.card_pos.mpr ⟨messageId, member⟩
    refine ⟨removeOne_sound agrees.sound member heldEq mentionedEq, ?_, ?_, ?_, ?_⟩
    · rw [heldEq]
      exact shows.dropOne member empty
    · rw [dropOne_fullCount, agrees.counted]
      change decrement list.count = list.count.map (· - 1)
      cases countEq : list.count with
      | none => rfl
      | some count =>
        have value := agrees.sound.count count countEq
        simp only [decrement, map_some, some.injEq]
        rw [if_pos (by omega)]
    · intro counted
      rw [dropOne_fullCount, decrement_isSome] at counted
      rw [known.1, known.2]
      exact agrees.filled counted
    · intro some
      rw [dropOne_ids] at some
      have wasSome : builder.ids ≠ ∅ := by
        intro none
        refine some (eq_empty_iff.mpr fun id idMem => ?_)
        rw [none] at idMem
        exact notMem_empty id (mem_erase.mp idMem).2
      obtain ⟨slice, sliceMem, inside, openEnd⟩ := agrees.inSlice wasSome
      obtain ⟨other, otherMem, rangeEq, keeps⟩ :=
        removeOne_slice agrees.sound.normal.separated sliceMem messageId
      refine ⟨other, otherMem, ?_, ?_⟩
      · intro id idMem
        rw [dropOne_ids] at idMem
        have shown := mem_erase.mp idMem
        exact keeps id (inside id shown.2) shown.1
      · intro unknown
        rw [dropOne_fullCount] at unknown
        rw [known.2, rangeEq]
        exact openEnd (map_eq_none_iff.mp unknown)
  unfold removeOne
  dsimp only
  split
  · exact dropped.trims (Trims.sliceToLimits _)
  · exact dropped

theorem removeAll_agrees (list : SparseIdsList) (builder : SparseIdsSliceBuilder)
    (heldEq : after.held = ∅) : Agrees after list.removeAll builder.removeAll.1 where
  sound := removeAll_sound list heldEq
  shows := by
    refine ⟨[], [], ?_, ?_, ?_⟩
    · rw [heldEq]
      exact ⟨.nil, by simp [removeAll]⟩
    · intro known countEq
      exact (some.inj countEq).symm
    · intro known countEq
      exact (some.inj countEq).symm
  counted := rfl
  filled _ := rfl
  inSlice some := (some rfl).elim

theorem invalidateBottom_agrees (agrees : Agrees before list builder)
    {gained : Finset Int} (newer : ∀ id ∈ gained, ∀ old ∈ before.mentioned, old < id)
    (heldEq : after.held = before.held ∪ gained)
    (mentionedEq : after.mentioned = before.mentioned) :
    Agrees after list.invalidateBottom builder.invalidateBottom.1 := by
  let opened : SparseIdsSliceBuilder :=
    { builder with fullCount := none, skippedAfter := none }
  have open_agrees : Agrees after list.invalidateBottom opened := by
    obtain ⟨low, high, shows⟩ := agrees.shows
    refine ⟨invalidateBottom_sound agrees.sound newer heldEq mentionedEq, ?_, rfl, ?_, ?_⟩
    · have openShows : Shows before.held opened low high :=
        ⟨shows.listing, shows.skippedBefore, fun known absent => by cases absent⟩
      apply openShows.grow
      · rw [heldEq]
        exact Finset.subset_union_left
      · intro id idMem new newMem fresh
        have isGained : new ∈ gained := by
          rw [heldEq, Finset.mem_union] at newMem
          exact newMem.resolve_left fresh
        have some : builder.ids ≠ ∅ := fun none => notMem_empty id (none ▸ idMem)
        obtain ⟨slice, sliceMem, inside, _⟩ := agrees.inSlice some
        have listed := (agrees.sound.ends slice sliceMem).2.2 id (inside id idMem)
        exact newer new isGained id listed
      · intro known
        cases known
    · intro counted
      cases counted
    · intro some
      obtain ⟨slice, sliceMem, inside, _⟩ := agrees.inSlice some
      have keeps : ∃ other ∈ list.invalidateBottom.slices,
          other.messages = slice.messages := by
        rcases invalidateBottom_slices list with
          ⟨init, last, split, _, cut⟩ | ⟨unchanged, _⟩
        · rw [cut]
          rw [split] at sliceMem
          rcases mem_append.mp sliceMem with old | isLast
          · exact ⟨slice, mem_append_left _ old, rfl⟩
          · obtain rfl := mem_singleton.mp isLast
            exact ⟨slice.cutBottom, by simp, rfl⟩
        · rw [unchanged]
          exact ⟨slice, sliceMem, rfl⟩
      obtain ⟨other, otherMem, same⟩ := keeps
      exact ⟨other, otherMem, same ▸ inside, fun _ known => by cases known⟩
  exact open_agrees.trims (Trims.sliceToLimits opened)

/-- The calls that the viewer follows without losing count: a new id must reach
the viewer or find it without one of the skip counters, and an id may be
removed around an empty viewer only where no counter can still count it. -/
def KeepsViewer (server : ServerIds) (list : SparseIdsList)
    (builder : SparseIdsSliceBuilder) : Operation → Prop
  | .addNew messageId => builder.skippedBefore.isSome → builder.skippedAfter.isSome →
      ReachesViewer list builder ⟨messageId, serverMaxMsgId⟩
  | .removeOne _ => builder.ids = ∅ →
      (builder.skippedBefore = none ∨ builder.skippedAfter = none) ∧
      ∀ known, builder.skippedBefore = some known ∨ builder.skippedAfter = some known →
        known < server.held.card
  | .addExisting _ _ | .addSlice _ _ _ | .removeAll | .invalidateBottom => True

theorem follow_agrees (agrees : Agrees before list builder)
    (step : ServerStep before operation after) (keeps : KeepsViewer before list builder operation) :
    Agrees after (list.apply operation) (builder.follow list operation) := by
  have sound := apply_sound agrees.sound step
  cases step with
  | addNew server aboveHeld aboveMentioned heldEq mentionedEq =>
    refine addRange_agrees agrees (show MsgRange.Ordered ⟨_, serverMaxMsgId⟩ from server.2.le)
      ?_ ?_ ?_ sound
    · rw [heldEq]
      exact Finset.subset_insert _ _
    · intro id held new newMem fresh
      rw [heldEq, Finset.mem_insert] at newMem
      rcases newMem with rfl | old
      · exact aboveHeld id held
      · exact (fresh old).elim
    · intro _
      refine ⟨by simp, rfl, ?_, ?_, keeps⟩
      · intro slice member touches
        exact (agrees.sound.ends slice member).2.1.eq_of_le server aboveMentioned touches.2
      · intro slice member reaches
        refine ⟨?_, server.2.le.trans reaches⟩
        rcases (agrees.sound.ends slice member).1 with zero | infinite | listed
        · change slice.range.from ≤ serverMaxMsgId
          rw [zero]
          decide
        · exact infinite.le
        · exact ((aboveMentioned _ listed).trans server.2).le
  | addSlice ordered loaded counted heldEq mentionedEq =>
    refine addRange_agrees agrees ordered heldEq.ge ?_ ?_ sound
    · intro id _ new newMem fresh
      rw [heldEq] at newMem
      exact (fresh newMem).elim
    · exact fun changed => (changed heldEq).elim
  | addExisting only heldEq mentionedEq =>
    have covers := ((only _).mp rfl).2
    refine addRange_agrees agrees (covers.1.trans covers.2) heldEq.ge ?_ ?_ sound
    · intro id _ new newMem fresh
      rw [heldEq] at newMem
      exact (fresh newMem).elim
    · exact fun changed => (changed heldEq).elim
  | removeOne member heldEq mentionedEq =>
    exact removeOne_agrees agrees member heldEq mentionedEq keeps
  | removeAll heldEq => exact removeAll_agrees list builder heldEq
  | invalidateBottom newer heldEq mentionedEq =>
    exact invalidateBottom_agrees agrees newer heldEq mentionedEq

end Calls

theorem start_agrees (sound : Sound server list) (key : Int) (limitBefore limitAfter : Nat) :
    Agrees server list (start key limitBefore limitAfter list) := by
  let fresh : SparseIdsSliceBuilder :=
    { key := key, limitBefore := limitBefore, limitAfter := limitAfter }
  let asked : SparseIdsListQuery := ⟨key, limitBefore, limitAfter⟩
  have freshShows : ∃ before after, Shows server.held fresh before after :=
    shows_of_empty rfl (by simp [fresh]) (by simp [fresh]) (by simp [fresh])
  have notShown : fresh.ids ≠ ∅ → False := fun some => some rfl
  unfold start query
  cases found : list.sliceAround key with
  | some slice =>
    obtain ⟨_, member, covers⟩ := (sliceAround_eq_some sound.normal.separated).mp found
    obtain ⟨before, after, window⟩ := queryFromSlice_window sound asked member covers
    refine mergeSliceData_agrees sound (queryFromSlice_count asked slice) (fun _ => rfl)
      window.listing window.skippedBefore window.skippedAfter ?_ ?_ ?_ ?_
    · exact fun id shown => (notMem_empty id shown).elim
    · exact fun some => (notShown some).elim
    · exact fun _ => freshShows
    · intro _
      refine ⟨slice, member, ?_, ?_⟩
      · intro id shown
        rw [queryFromSlice_messageIds] at shown
        exact range_subset shown
      · rintro unknown _ (given | ⟨some, _⟩)
        · rw [queryFromSlice_count] at unknown
          by_contra short
          have closed : slice.range.till ≠ serverMaxMsgId := fun infinite =>
            short infinite.ge
          simp [queryFromSlice, unknown, closed] at given
        · exact (notShown some).elim
  | none =>
    cases countEq : list.count with
    | some known =>
      change Agrees server list (fresh.mergeSliceData (some known) ∅ none none)
      rw [mergeSliceData_empty]
      exact mergeCount_agrees sound freshShows countEq.symm (fun _ => rfl)
        fun some => (notShown some).elim
    | none =>
      exact ⟨sound, freshShows, countEq.symm, fun _ => rfl, fun some => (notShown some).elim⟩

/-- A list and its viewer, with the ids of the server. -/
structure Watched where
  server : ServerIds
  list : SparseIdsList
  viewer : SparseIdsSliceBuilder

/-- The server changes, and the list and its viewer are told. -/
def WatchedStep (before after : Watched) : Prop :=
  ∃ operation, ServerStep before.server operation after.server ∧
    after.list = before.list.apply operation ∧
    after.viewer = before.viewer.follow before.list operation

/-- One truthful call that the viewer follows without losing count. -/
def KeepingStep (before after : Watched) : Prop :=
  ∃ operation, ServerStep before.server operation after.server ∧
    after.list = before.list.apply operation ∧
    after.viewer = before.viewer.follow before.list operation ∧
    KeepsViewer before.server before.list before.viewer operation

/-- A viewer starts to watch a list that truthful calls have reached. -/
def WatchStarts (key : Int) (limitBefore limitAfter : Nat) (state : Watched) : Prop :=
  TruthfullyReachable (state.server, state.list) ∧
    state.viewer = start key limitBefore limitAfter state.list

theorem watchStarts (reachable : TruthfullyReachable (server, list))
    (key : Int) (limitBefore limitAfter : Nat) :
    WatchStarts key limitBefore limitAfter
      ⟨server, list, start key limitBefore limitAfter list⟩ := ⟨reachable, rfl⟩

theorem watchedStep {after : ServerIds} (step : ServerStep server operation after)
    (list : SparseIdsList) (viewer : SparseIdsSliceBuilder) :
    WatchedStep ⟨server, list, viewer⟩
      ⟨after, list.apply operation, viewer.follow list operation⟩ :=
  ⟨operation, step, rfl, rfl⟩

theorem keepingStep {after : ServerIds} {viewer : SparseIdsSliceBuilder}
    (step : ServerStep server operation after) (keeps : KeepsViewer server list viewer operation) :
    KeepingStep ⟨server, list, viewer⟩
      ⟨after, list.apply operation, viewer.follow list operation⟩ :=
  ⟨operation, step, rfl, rfl, keeps⟩

/-- The viewer lists one block of the server's ids and its numbers, once all
three are known, are exact. -/
def ExactlyWatched (state : Watched) : Prop :=
  ∃ before after,
    IsListing state.server.held (before ++ state.viewer.ids.keys ++ after) ∧
    ∀ fullCount skippedBefore skippedAfter,
      state.viewer.fullCount = some fullCount →
      state.viewer.skippedBefore = some skippedBefore →
      state.viewer.skippedAfter = some skippedAfter →
        fullCount = state.server.held.card ∧ skippedBefore = before.length ∧
          skippedAfter = after.length ∧
          fullCount = skippedBefore + state.viewer.ids.size + skippedAfter

theorem Agrees.exactlyWatched {state : Watched}
    (agrees : Agrees state.server state.list state.viewer) : ExactlyWatched state := by
  obtain ⟨before, after, shows⟩ := agrees.shows
  refine ⟨before, after, shows.listing, ?_⟩
  intro fullCount skippedBefore skippedAfter countEq beforeEq afterEq
  have count := agrees.sound.count fullCount (agrees.counted ▸ countEq)
  have exactBefore := shows.skippedBefore skippedBefore beforeEq
  have exactAfter := shows.skippedAfter skippedAfter afterEq
  have whole := shows.card_eq
  exact ⟨count, exactBefore, exactAfter, by omega⟩

/-- A viewer of a truthful list stays exact through every run of calls that it
can follow. -/
theorem exactlyWatched_of_keepingSteps {key : Int} {limitBefore limitAfter : Nat}
    {first last : Watched} (starts : WatchStarts key limitBefore limitAfter first)
    (run : Relation.ReflTransGen KeepingStep first last) : ExactlyWatched last := by
  have agrees : Agrees last.server last.list last.viewer := by
    induction run with
    | refl =>
      rw [starts.2]
      exact start_agrees starts.1.sound key limitBefore limitAfter
    | tail _ step ih =>
      obtain ⟨operation, serverStep, listEq, viewerEq, keeps⟩ := step
      rw [listEq, viewerEq]
      exact follow_agrees ih serverStep keeps
  exact agrees.exactlyWatched

theorem Shows.not_exactlyWatched {held : Finset Int} {state : Watched} {before after : List Int}
    (shows : Shows held state.viewer before after) (counted : state.viewer.fullCount.isSome)
    (knownBefore : state.viewer.skippedBefore.isSome)
    (knownAfter : state.viewer.skippedAfter.isSome) (changed : state.server.held.card ≠ held.card) :
    ¬ ExactlyWatched state := by
  rintro ⟨low, high, _, exact⟩
  obtain ⟨fullCount, countEq⟩ := isSome_iff_exists.mp counted
  obtain ⟨skippedBefore, beforeEq⟩ := isSome_iff_exists.mp knownBefore
  obtain ⟨skippedAfter, afterEq⟩ := isSome_iff_exists.mp knownAfter
  have sum := exact fullCount skippedBefore skippedAfter countEq beforeEq afterEq
  have oldBefore := shows.skippedBefore skippedBefore beforeEq
  have oldAfter := shows.skippedAfter skippedAfter afterEq
  have whole := shows.card_eq
  omega

theorem idsRange_ordered (builder : SparseIdsSliceBuilder) :
    builder.idsRange.from ≤ builder.idsRange.till := by
  unfold idsRange
  cases frontEq : builder.ids.front? with
  | none =>
    have backEq : builder.ids.back? = none :=
      back?_eq_none.mpr (front?_eq_none.mp frontEq)
    simp [backEq]
  | some front =>
    cases backEq : builder.ids.back? with
    | none =>
      have none := front?_eq_none.mpr (back?_eq_none.mp backEq)
      simp [none] at frontEq
    | some back => exact front?_le frontEq (back?_mem backEq)

theorem reaches_of_merged_touches
        {merged : Slice}
    (addition : Addition list.slices messages noSkipRange result
      below touched above merged) (ordered : merged.range.Ordered)
    (touches : merged.range.Touches builder.idsRange) :
    ReachesViewer list builder noSkipRange := by
  have shownOrdered := idsRange_ordered builder
  have covers : merged.range.Covers (max merged.range.from builder.idsRange.from) :=
    ⟨le_max_left _ _, max_le ordered touches.2⟩
  have inShown : max merged.range.from builder.idsRange.from ≤ builder.idsRange.till :=
    max_le touches.1 shownOrdered
  obtain ⟨source, sourceMem, sourceCovers⟩ := (addition.unites.covers_iff _).mp covers
  have meets : source.range.Touches builder.idsRange :=
    ⟨sourceCovers.1.trans inShown, (le_max_right _ _).trans sourceCovers.2⟩
  rcases mem_cons.mp sourceMem with rfl | old
  · exact .inl (intersects_iff.mpr meets)
  · exact .inr ⟨source, addition.mem_slices (.inr (.inl old)),
      addition.touches source old, intersects_iff.mpr meets⟩

/-- A new id that does not reach a viewer with known numbers changes nothing
but the count. -/
theorem addNew_unreached (agrees : Agrees before list builder) (counted : builder.fullCount.isSome)
    {messageId : Int} (step : ServerStep before (.addNew messageId) after)
    (unreached : ¬ ReachesViewer list builder ⟨messageId, serverMaxMsgId⟩) :
    ∃ known, builder.follow list (.addNew messageId) =
      (builder.mergeCount (some known)).fillSkippedAndSliceToLimits ∧
      known = after.held.card := by
  have admissible : IsServerMsgId messageId := by
    cases step
    assumption
  have ordered : MsgRange.Ordered ⟨messageId, serverMaxMsgId⟩ := admissible.2.le
  have sound := apply_sound agrees.sound step
  have outcome := addRange_outcome agrees.sound.normal.separated [messageId] ordered none true
  change Sound after (list.addNew messageId).1 at sound
  change AddRangeOutcome _ _ _ _ (list.addNew messageId) at outcome
  change ∃ known, (builder.applyUpdate (list.addNew messageId).2).1 = _ ∧ _
  generalize countedEq : list.countedBy none true (addRangeItemsAndCountNew list.slices [messageId]
      ⟨messageId, serverMaxMsgId⟩).added = total at outcome
  generalize list.addNew messageId = added at outcome sound ⊢
  have unseen : ∀ (update : SparseIdsSliceUpdate) (known : Int),
      (update.messages.isSome && intersects update.range builder.idsRange) = false →
      update.count = some known → (builder.applyUpdate update).1 =
        (builder.mergeCount (some known)).fillSkippedAndSliceToLimits := by
    intro update known apart countEq
    unfold applyUpdate
    rw [apart, countEq]
    rfl
  have apart : ∀ merged : Slice, ¬ merged.range.Touches builder.idsRange →
      (isSome (some merged.messages) &&
        intersects merged.range builder.idsRange) = false := by
    intro merged misses
    rw [isSome_some, Bool.true_and, ← Bool.not_eq_true, intersects_iff]
    exact misses
  cases outcome with
  | nothing _ absent => cases absent
  | nothingWhole _ absent => cases absent
  | merged addition =>
    have misses := fun touches => unreached
      (reaches_of_merged_touches addition (addition.merged_ordered ordered) touches)
    cases total with
    | none =>
      have unknown := countedBy_eq_none countedEq
      rw [agrees.counted, unknown] at counted
      cases counted
    | some known =>
      exact ⟨_, unseen _ _ (apart _ misses) rfl, sound.count _ rfl⟩
  | mergedWhole addition =>
    have misses := fun touches => unreached
      (reaches_of_merged_touches addition (addition.merged_ordered ordered) touches)
    exact ⟨_, unseen _ _ (apart _ misses) rfl, sound.count _ rfl⟩

/-- Where the count is known, a call that the viewer cannot follow leaves it
with wrong numbers. -/
theorem not_exactlyWatched_of_not_keeps (agrees : Agrees before list builder)
    (counted : builder.fullCount.isSome) (step : ServerStep before operation after)
    (loses : ¬ KeepsViewer before list builder operation) :
    ¬ ExactlyWatched ⟨after, list.apply operation, builder.follow list operation⟩ := by
  obtain ⟨low, high, shows⟩ := agrees.shows
  have whole := shows.card_eq
  cases operation with
  | addExisting => exact (loses trivial).elim
  | addSlice => exact (loses trivial).elim
  | removeAll => exact (loses trivial).elim
  | invalidateBottom => exact (loses trivial).elim
  | addNew messageId =>
    simp only [KeepsViewer, Classical.not_imp] at loses
    obtain ⟨knownBefore, knownAfter, unreached⟩ := loses
    obtain ⟨known, followEq, knownEq⟩ := addNew_unreached agrees counted step unreached
    have grown : after.held.card = before.held.card + 1 := by
      cases step with
      | addNew _ aboveHeld _ heldEq _ =>
        rw [heldEq]
        exact Finset.card_insert_of_notMem fun held =>
          lt_irrefl _ (aboveHeld messageId held)
    let recounted : SparseIdsSliceBuilder := { builder with fullCount := some known }
    have merged : builder.mergeCount (some known) = recounted := by
      unfold mergeCount
      dsimp only
      rw [if_neg, if_neg]
      · rintro ⟨_, reached⟩
        omega
      · intro same
        have old := agrees.sound.count known (agrees.counted ▸ same)
        omega
    have nothingToFill : recounted.fillSkipped = recounted :=
      fillSkipped_of_known knownBefore knownAfter
    rw [fillSkippedAndSliceToLimits, merged, nothingToFill] at followEq
    have trims := Trims.sliceToLimits recounted
    have kept : Shows before.held recounted low high :=
      { shows with }
    obtain ⟨newLow, newHigh, trimmed⟩ := trims.shows kept
    have changed : after.held.card ≠ before.held.card := by omega
    rw [followEq]
    exact trimmed.not_exactlyWatched (by rw [trims.fullCount]; rfl)
      (trims.before.trans knownBefore) (trims.after.trans knownAfter) changed
  | removeOne messageId =>
    simp only [KeepsViewer, Classical.not_imp] at loses
    obtain ⟨empty, stale⟩ := loses
    have both := agrees.filled counted
    have known : builder.skippedBefore.isSome ∧ builder.skippedAfter.isSome := by
      by_contra unknown
      have none : builder.skippedBefore = none ∧ builder.skippedAfter = none := by
        cases beforeEq : builder.skippedBefore <;> cases afterEq : builder.skippedAfter <;>
          simp [beforeEq, afterEq] at both unknown ⊢
      exact stale ⟨.inl none.1, by simp [none.1, none.2]⟩
    have shrunk : after.held.card + 1 = before.held.card := by
      cases step with
      | removeOne member heldEq _ =>
        rw [heldEq]
        exact Finset.card_erase_add_one member
    let dropped : SparseIdsSliceBuilder :=
      { builder with fullCount := decrement builder.fullCount }
    have trims : Trims dropped (builder.removeOne messageId).1 := by
      unfold removeOne
      rw [dropOne_of_empty empty messageId]
      dsimp only
      split
      · exact Trims.sliceToLimits dropped
      · exact Trims.refl dropped
    have kept : Shows before.held dropped low high :=
      { shows with }
    obtain ⟨newLow, newHigh, trimmed⟩ := trims.shows kept
    have recounted : (builder.removeOne messageId).1.fullCount.isSome := by
      rw [trims.fullCount]
      exact (decrement_isSome _).trans counted
    have changed : after.held.card ≠ before.held.card := by omega
    exact trimmed.not_exactlyWatched recounted (trims.before.trans known.1)
      (trims.after.trans known.2) changed

theorem not_exactlyWatched_of_not_keeps_arrived :
    let list := ({} : SparseIdsList).apply (.addSlice [3] ⟨0, 10⟩ (some 2))
    ¬ExactlyWatched ⟨⟨{3, 20, 30}, [30, 3, 0, 10], by decide⟩, list.apply (.addNew 30),
      (start 3 5 5 list).follow list (.addNew 30)⟩ := by
  have load : ServerStep ⟨{3, 20}, [], by decide⟩ (.addSlice [3] ⟨0, 10⟩ (some 2))
      ⟨{3, 20}, [3, 0, 10], by decide⟩ := by
    refine .addSlice (by decide : (0 : Int) ≤ 10) (fun id => ?_) (by simp) rfl (by decide)
    simp only [List.mem_singleton, Finset.mem_insert, Finset.mem_singleton, MsgRange.Covers]
    omega
  refine not_exactlyWatched_of_not_keeps (start_agrees (apply_sound (sound_empty _) load) 3 5 5)
    (by decide) (.addNew (by decide) (by decide) (by decide) (by decide) rfl) fun keeps => ?_
  exact absurd (keeps (by decide) (by decide)) (by unfold ReachesViewer; decide)

theorem exactlyWatched_of_keepingSteps_arrived :
    let list := ({} : SparseIdsList).apply (.addSlice [3] fullMsgRange (some 1))
    ∃ server : ServerIds, server.held = {3, 5} ∧ ExactlyWatched
      ⟨server, list.apply (.addNew 5), (start 3 5 5 list).follow list (.addNew 5)⟩ := by
  intro list
  have starts := watchStarts ⟨⟨{3}, [], by decide⟩, rfl,
    Relation.ReflTransGen.single (SparseIdsList.loadedOne_step.truthfulStep {})⟩ 3 5 5
  have keeps : KeepsViewer SparseIdsList.loadedOne list (start 3 5 5 list) (.addNew 5) := by
    intro _ _
    exact Or.inr ⟨⟨ofList [3], fullMsgRange⟩, mem_cons_self, by decide, by decide⟩
  exact ⟨SparseIdsList.arrivedTwo, rfl, exactlyWatched_of_keepingSteps starts
    (Relation.ReflTransGen.single (keepingStep SparseIdsList.arrivedTwo_step keeps))⟩

/-- A new id beyond an unloaded gap only changes the viewer's count: with five
ids on the server, three of them shown and all numbers known, the sixth leaves
the number of ids after the window at two. -/
theorem addNew_unseen_not_exact :
    ∃ first last : Watched, WatchStarts 2 5 5 first ∧ WatchedStep first last ∧
      last.server.held = {1, 2, 3, 20, 21, 30} ∧ last.viewer.ids.keys = [1, 2, 3] ∧
      last.viewer.fullCount = some 6 ∧ last.viewer.skippedBefore = some 0 ∧
      last.viewer.skippedAfter = some 2 ∧ ¬ ExactlyWatched last := by
  let empty : ServerIds := ⟨{1, 2, 3, 20, 21}, [], by decide⟩
  let loaded : ServerIds := ⟨{1, 2, 3, 20, 21}, [1, 2, 3, 0, 10], by decide⟩
  let arrived : ServerIds := ⟨{1, 2, 3, 20, 21, 30}, [30, 1, 2, 3, 0, 10], by decide⟩
  let list := ({} : SparseIdsList).apply (.addSlice [1, 2, 3] ⟨0, 10⟩ (some 5))
  have load : ServerStep empty (.addSlice [1, 2, 3] ⟨0, 10⟩ (some 5)) loaded := by
    refine .addSlice (by decide : (0 : Int) ≤ 10) ?_ ?_ rfl (by decide)
    · intro id
      simp only [mem_cons, not_mem_nil, or_false, empty, Finset.mem_insert,
        Finset.mem_singleton, MsgRange.Covers]
      omega
    · intro known countEq
      obtain rfl := some.inj countEq
      rfl
  have arrive : ServerStep loaded (.addNew 30) arrived :=
    .addNew (by decide) (by decide) (by decide) (by decide) rfl
  have reachable : TruthfullyReachable (loaded, list) :=
    ⟨empty, rfl, Relation.ReflTransGen.single (load.truthfulStep {})⟩
  have counters : ((start 2 5 5 list).follow list (.addNew 30)).fullCount = some 6 ∧
      ((start 2 5 5 list).follow list (.addNew 30)).skippedBefore = some 0 ∧
      ((start 2 5 5 list).follow list (.addNew 30)).skippedAfter = some 2 := by decide
  have shown : ((start 2 5 5 list).follow list (.addNew 30)).ids.keys = [1, 2, 3] := by
    decide
  have step := watchedStep arrive list (start 2 5 5 list)
  clear_value list
  refine ⟨_, _, watchStarts reachable 2 5 5, step, rfl, shown, counters.1, counters.2.1,
    counters.2.2, ?_⟩
  rintro ⟨before, after, _, exact⟩
  have sum := (exact 6 0 2 counters.1 counters.2.1 counters.2.2).2.2.2
  rw [size, shown] at sum
  exact absurd sum (by decide)

end TelegramDesktop.SparseIdsSliceBuilder
