import TelegramDesktop.SparseIdsListNormalForm

/-!
# Soundness of the sparse list against the server

The server holds a finite set of ids that changes while the list learns about it.
-/

namespace TelegramDesktop.SparseIdsList

open List FlatSet Option

/-- The ids the server holds, and every id and finite range end that calls
have mentioned. -/
structure ServerIds where
  held : Finset Int
  mentioned : List Int
  held_server : ∀ id ∈ held, IsServerMsgId id

/-- The ends of a range that are actual ids: the bound of all server ids
stands for "everything newer". -/
def finiteEnds (range : MsgRange) : List Int :=
  [range.from, range.till].filter (· ≠ serverMaxMsgId)

/-- The calls that report a change of the server's ids, or a part of them,
truthfully. -/
inductive ServerStep (before : ServerIds) : Operation → ServerIds → Prop
  /-- A message newer than everything arrives. -/
  | addNew {after : ServerIds} {messageId : Int}
      (server : IsServerMsgId messageId)
      (aboveHeld : ∀ id ∈ before.held, id < messageId)
      (aboveMentioned : ∀ id ∈ before.mentioned, id < messageId)
      (heldEq : after.held = insert messageId before.held)
      (mentionedEq : after.mentioned = messageId :: before.mentioned) :
      ServerStep before (.addNew messageId) after
  /-- A range is loaded, possibly with the size of the whole set. -/
  | addSlice {after : ServerIds} {messageIds : List Int} {noSkipRange : MsgRange}
      {count : Option Int}
      (ordered : noSkipRange.Ordered)
      (loaded : ∀ id, id ∈ messageIds ↔ id ∈ before.held ∧ noSkipRange.Covers id)
      (counted : ∀ known, count = some known → known = before.held.card)
      (heldEq : after.held = before.held)
      (mentionedEq : after.mentioned =
        messageIds ++ finiteEnds noSkipRange ++ before.mentioned) :
      ServerStep before (.addSlice messageIds noSkipRange count) after
  /-- One existing message is learned together with a gapless range around it. -/
  | addExisting {after : ServerIds} {messageId : Int} {noSkipRange : MsgRange}
      (only : ∀ id, id = messageId ↔ id ∈ before.held ∧ noSkipRange.Covers id)
      (heldEq : after.held = before.held)
      (mentionedEq : after.mentioned =
        messageId :: finiteEnds noSkipRange ++ before.mentioned) :
      ServerStep before (.addExisting messageId noSkipRange) after
  | removeOne {after : ServerIds} {messageId : Int}
      (member : messageId ∈ before.held)
      (heldEq : after.held = before.held.erase messageId)
      (mentionedEq : after.mentioned = messageId :: before.mentioned) :
      ServerStep before (.removeOne messageId) after
  | removeAll {after : ServerIds} (heldEq : after.held = ∅)
      (mentionedEq : after.mentioned = before.mentioned) :
      ServerStep before .removeAll after
  /-- Newer messages may have been missed. -/
  | invalidateBottom {after : ServerIds} {gained : Finset Int}
      (newer : ∀ id ∈ gained, ∀ old ∈ before.mentioned, old < id)
      (heldEq : after.held = before.held ∪ gained)
      (mentionedEq : after.mentioned = before.mentioned) :
      ServerStep before .invalidateBottom after

/-- The server changes, and the list is told. -/
def TruthfulStep (before after : ServerIds × SparseIdsList) : Prop :=
  ∃ operation, ServerStep before.1 operation after.1 ∧
    after.2 = before.2.apply operation

variable {after before : ServerIds} {operation : Operation}

theorem ServerStep.truthfulStep (step : ServerStep before operation after) (list : SparseIdsList) :
    TruthfulStep (before, list) (after, list.apply operation) := ⟨operation, step, rfl⟩

/-- The states that truthful calls reach from an empty list. -/
def TruthfullyReachable (state : ServerIds × SparseIdsList) : Prop :=
  ∃ server : ServerIds, server.mentioned = [] ∧
    Relation.ReflTransGen TruthfulStep (server, {}) state

/-- A sequence of slices describes the set `held`. -/
def SlicesSound (held : Finset Int) (slices : List Slice) : Prop :=
  ∀ slice ∈ slices, ∀ id, id ∈ slice.messages ↔ id ∈ held ∧ slice.range.Covers id

/-- An end of a slice: a bound of all server ids or a mentioned id. -/
def KnownEnd (mentioned : List Int) (id : Int) : Prop :=
  id = 0 ∨ id = serverMaxMsgId ∨ id ∈ mentioned

/-- The server has mentioned the ids and the ends of all slices. -/
def EndsMentioned (mentioned : List Int) (slices : List Slice) : Prop :=
  ∀ slice ∈ slices, KnownEnd mentioned slice.range.from ∧
    KnownEnd mentioned slice.range.till ∧ ∀ id ∈ slice.messages, id ∈ mentioned

/-- The list tells the truth about the ids of the server. -/
structure Sound (server : ServerIds) (list : SparseIdsList) : Prop where
  normal : NormalForm list.slices
  messages : SlicesSound server.held list.slices
  count : ∀ known, list.count = some known → known = server.held.card
  ends : EndsMentioned server.mentioned list.slices

variable {mentioned : List Int}

theorem KnownEnd.mono {more : List Int} {id : Int}
    (known : KnownEnd mentioned id) (grows : ∀ id ∈ mentioned, id ∈ more) :
    KnownEnd more id :=
  known.imp_right (Or.imp_right (grows id))

theorem KnownEnd.eq_of_le {id newer : Int} (known : KnownEnd mentioned id)
    (server : IsServerMsgId newer) (above : ∀ old ∈ mentioned, old < newer) (reaches : newer ≤ id) :
    id = serverMaxMsgId := by
  rcases known with rfl | infinite | listed
  · exact (not_lt.mpr reaches server.1).elim
  · exact infinite
  · exact (not_lt.mpr reaches (above id listed)).elim

variable {slices : List Slice}

theorem EndsMentioned.mono {more : List Int}
    (ends : EndsMentioned mentioned slices) (grows : ∀ id ∈ mentioned, id ∈ more) :
    EndsMentioned more slices := by
  intro slice member
  obtain ⟨fromEnd, tillEnd, listed⟩ := ends slice member
  exact ⟨fromEnd.mono grows, tillEnd.mono grows, fun id idMem => grows id (listed id idMem)⟩

theorem knownEnd_finiteEnds (range : MsgRange) :
    KnownEnd (finiteEnds range) range.from ∧ KnownEnd (finiteEnds range) range.till := by
  constructor
  · by_cases infinite : range.from = serverMaxMsgId
    · exact .inr (.inl infinite)
    · exact .inr (.inr (by simp [finiteEnds, infinite]))
  · by_cases infinite : range.till = serverMaxMsgId
    · exact .inr (.inl infinite)
    · exact .inr (.inr (by simp [finiteEnds, infinite]))

section Additions

variable {slices : List Slice} {messages : List Int} {noSkipRange : MsgRange}

/-- Loading the truth about a range keeps every slice true, also when ids of
that range have just appeared on the server. -/
theorem slicesSound_addRange {before after : Finset Int} (separated : SlicesSeparated slices)
    (ordered : noSkipRange.Ordered) (sound : SlicesSound before slices)
    (loaded : ∀ id, id ∈ messages ↔ id ∈ after ∧ noSkipRange.Covers id)
    (grows : ∀ id ∈ before, id ∈ after)
    (fresh : ∀ id ∈ after, id ∉ before → noSkipRange.Covers id) :
    SlicesSound after (addRangeItemsAndCountNew slices messages noSkipRange).slices := by
  have untouched : ∀ slice ∈ slices, (∀ id, noSkipRange.Covers id →
      ¬ slice.range.Covers id) → ∀ id, id ∈ slice.messages ↔
        id ∈ after ∧ slice.range.Covers id := by
    intro slice member apart id
    rw [sound slice member id]
    constructor
    · rintro ⟨old, covers⟩
      exact ⟨grows id old, covers⟩
    · rintro ⟨new, covers⟩
      by_contra absent
      have notOld : id ∉ before := fun old => absent ⟨old, covers⟩
      exact apart id (fresh id new notOld) covers
  rcases addRangeItemsAndCountNew_spec separated messages ordered with
    ⟨point, nothing, same⟩ | ⟨below, touched, above, merged, addition⟩
  · rw [same]
    intro slice member id
    rw [sound slice member id]
    have unchanged : id ∈ before ↔ id ∈ after := by
      refine ⟨grows id, fun new => ?_⟩
      by_contra absent
      have listed := (loaded id).mpr ⟨new, fresh id new absent⟩
      simp [nothing] at listed
    rw [unchanged]
  · intro slice member
    rcases addition.mem_result.mp member with old | rfl | old
    · refine untouched slice (addition.mem_slices (.inl old)) fun id covers inside => ?_
      have under := addition.below_lt slice old
      exact not_lt.mpr (covers.1.trans inside.2) under
    · intro id
      rw [addition.unites.mem_iff, addition.unites.covers_iff]
      constructor
      · rintro ⟨source, sourceMem, idMem⟩
        rcases mem_cons.mp sourceMem with rfl | old
        · have held := (loaded id).mp (mem_ofList.mp idMem)
          exact ⟨held.1, _, sourceMem, held.2⟩
        · have held := (sound source (addition.mem_slices (.inr (.inl old))) id).mp idMem
          exact ⟨grows id held.1, source, sourceMem, held.2⟩
      · rintro ⟨new, source, sourceMem, covers⟩
        have fromLoad : noSkipRange.Covers id → ∃ source ∈
            (⟨ofList messages, noSkipRange⟩ :: touched : List Slice),
            id ∈ source.messages := fun inside =>
          ⟨_, mem_cons_self, mem_ofList.mpr ((loaded id).mpr ⟨new, inside⟩)⟩
        rcases mem_cons.mp sourceMem with rfl | old
        · exact fromLoad covers
        · by_cases wasHeld : id ∈ before
          · exact ⟨source, sourceMem, (sound source
              (addition.mem_slices (.inr (.inl old))) id).mpr ⟨wasHeld, covers⟩⟩
          · exact fromLoad (fresh id new wasHeld)
    · refine untouched slice (addition.mem_slices (.inr (.inr old))) fun id covers inside => ?_
      have outside := addition.lt_above slice old
      exact not_lt.mpr (inside.1.trans covers.2) outside

theorem endsMentioned_addRange {more : List Int} (separated : SlicesSeparated slices)
    (ordered : noSkipRange.Ordered) (ends : EndsMentioned mentioned slices)
    (grows : ∀ id ∈ mentioned, id ∈ more) (listed : ∀ id ∈ messages, id ∈ more)
    (finite : ∀ id ∈ finiteEnds noSkipRange, id ∈ more) :
    EndsMentioned more
      (addRangeItemsAndCountNew slices messages noSkipRange).slices := by
  have still := ends.mono grows
  rcases addRangeItemsAndCountNew_spec separated messages ordered with
    ⟨_, _, same⟩ | ⟨below, touched, above, merged, addition⟩
  · rw [same]
    exact still
  have sources : EndsMentioned more
      (⟨ofList messages, noSkipRange⟩ :: touched) := by
    intro source member
    rcases mem_cons.mp member with rfl | old
    · have ends := knownEnd_finiteEnds noSkipRange
      exact ⟨ends.1.mono finite, ends.2.mono finite,
        fun id idMem => listed id (mem_ofList.mp idMem)⟩
    · exact still source (addition.mem_slices (.inr (.inl old)))
  intro slice member
  rcases addition.mem_result.mp member with old | rfl | old
  · exact still slice (addition.mem_slices (.inl old))
  · obtain ⟨first, firstMem, fromEq⟩ := addition.unites.from_eq
    obtain ⟨last, lastMem, tillEq⟩ := addition.unites.till_eq
    refine ⟨by rw [fromEq]; exact (sources first firstMem).1,
      by rw [tillEq]; exact (sources last lastMem).2.1, ?_⟩
    intro id idMem
    obtain ⟨source, sourceMem, idSource⟩ := (addition.unites.mem_iff id).mp idMem
    exact (sources source sourceMem).2.2 id idSource
  · exact still slice (addition.mem_slices (.inr (.inr old)))

end Additions

variable {slice : Slice}

section

variable {held : Finset Int} {slices : List Slice} (sound : SlicesSound held slices)
include sound

theorem SlicesSound.size_le (member : slice ∈ slices) : slice.messages.size ≤ held.card := by
  rw [size_eq_card]
  refine Finset.card_le_card fun id idMem => ?_
  exact ((sound slice member id).mp (FlatSet.mem_toFinset.mp idMem)).1

theorem SlicesSound.mem_of_size (member : slice ∈ slices) (full : held.card ≤ slice.messages.size)
    (id : Int) :
    id ∈ slice.messages ↔ id ∈ held := by
  have subset : slice.messages.toFinset ⊆ held := fun id idMem =>
    ((sound slice member id).mp (FlatSet.mem_toFinset.mp idMem)).1
  rw [FlatSet.size_eq_card] at full
  rw [← Finset.eq_of_subset_of_card_le subset full, FlatSet.mem_toFinset]

theorem settleSingle_sound {count : Option Int} (server : ∀ id ∈ held, IsServerMsgId id)
    (counted : ∀ known, count = some known → known = held.card) :
    SlicesSound held (settleSingle count slices).2 ∧
      ∀ known, (settleSingle count slices).1 = some known → known = held.card := by
  rcases settleSingle_cases count slices with
    ⟨slice, rfl, whole, settled⟩ | ⟨settled, _⟩
  · have all : ∀ id, id ∈ slice.messages ↔ id ∈ held := by
      rcases whole with ⟨known, countEq, enough⟩ | full
      · rw [counted known countEq] at enough
        exact sound.mem_of_size (by simp) (by exact_mod_cast enough.2)
      · intro id
        rw [sound slice (by simp) id, full]
        exact ⟨fun inside => inside.1, fun held =>
          ⟨held, fullMsgRange_covers (server id held)⟩⟩
    have sizeEq : slice.messages.size = held.card := by
      rw [size_eq_card]
      congr 1
      ext id
      rw [FlatSet.mem_toFinset, all]
    rw [settled]
    constructor
    · intro widened member id
      obtain rfl := mem_singleton.mp member
      change id ∈ slice.messages ↔ _
      rw [all]
      exact ⟨fun held => ⟨held, fullMsgRange_covers (server id held)⟩, fun inside => inside.1⟩
    · intro known countEq
      rw [← some.inj countEq, sizeEq]
  · rw [settled]
    exact ⟨sound, counted⟩

end

theorem settleSingle_ends (count : Option Int) (ends : EndsMentioned mentioned slices) :
    EndsMentioned mentioned (settleSingle count slices).2 := by
  rcases settleSingle_cases count slices with ⟨slice, rfl, _, settled⟩ | ⟨settled, _⟩
  · rw [settled]
    intro widened member
    obtain rfl := mem_singleton.mp member
    exact ⟨.inl rfl, .inr (.inl rfl), (ends slice (by simp)).2.2⟩
  · rw [settled]
    exact ends

/-- The slice an addition ends in is one of the resulting slices, up to the
range it gets when it is the only one. -/
theorem touched_size_le {held : Finset Int} {messages : List Int}
    {noSkipRange : MsgRange} (separated : SlicesSeparated slices) (ordered : noSkipRange.Ordered)
    (sound : SlicesSound held (addRangeItemsAndCountNew slices messages noSkipRange).slices)
    (reported : (addRangeItemsAndCountNew slices messages noSkipRange).touched = some slice) :
    slice.messages.size ≤ held.card := by
  rcases addRangeItemsAndCountNew_spec separated messages ordered with
    ⟨_, _, same⟩ | ⟨below, touched, above, merged, addition⟩
  · rw [same] at reported
    simp at reported
  · have mergedEq : merged = slice := by
      have := addition.reported
      rw [reported] at this
      exact (some.inj this).symm
    exact sound.size_le (addition.mem_result.mpr (.inr (.inl mergedEq.symm)))

variable {list : SparseIdsList}

theorem addRange_sound
    (sound : Sound before list) {messages : List Int} {noSkipRange : MsgRange}
    {count : Option Int} {incrementCount : Bool} (ordered : noSkipRange.Ordered)
    (loaded : ∀ id, id ∈ messages ↔ id ∈ after.held ∧ noSkipRange.Covers id)
    (grows : ∀ id ∈ before.held, id ∈ after.held)
    (fresh : ∀ id ∈ after.held, id ∉ before.held → noSkipRange.Covers id)
    (counted : ∀ known, list.countedBy count incrementCount
      (addRangeItemsAndCountNew list.slices messages noSkipRange).added = some known →
        known = after.held.card)
    (mentionedGrows : ∀ id ∈ before.mentioned, id ∈ after.mentioned)
    (listed : ∀ id ∈ messages, id ∈ after.mentioned)
    (finite : ∀ id ∈ finiteEnds noSkipRange, id ∈ after.mentioned) :
    Sound after (list.addRange messages noSkipRange count incrementCount).1 := by
  have slicesSound := slicesSound_addRange sound.normal.separated ordered
    sound.messages loaded grows fresh
  have settled := settleSingle_sound slicesSound after.held_server counted
  refine ⟨addRange_normalForm sound.normal ordered ?_ count incrementCount,
    settled.1, ?_, settleSingle_ends _ (endsMentioned_addRange sound.normal.separated
      ordered sound.ends mentionedGrows listed finite)⟩
  · intro id member
    have held := (loaded id).mp member
    exact ⟨held.2, after.held_server id held.1⟩
  · intro known repaired
    have settledCount := settled.2
    unfold addRange at repaired
    dsimp only at repaired
    split at repaired
    next value slice valueEq touchedEq =>
      have valueCard := settledCount value valueEq
      have bounded := touched_size_le sound.normal.separated ordered slicesSound touchedEq
      rw [← some.inj repaired, valueCard]
      exact max_eq_left (by exact_mod_cast bounded)
    · exact settledCount known repaired

theorem addNew_added {server : ServerIds} (sound : Sound server list) {messageId : Int}
    (isServer : IsServerMsgId messageId) (aboveHeld : ∀ id ∈ server.held, id < messageId)
    (aboveMentioned : ∀ id ∈ server.mentioned, id < messageId) :
    (addRangeItemsAndCountNew list.slices [messageId]
      ⟨messageId, serverMaxMsgId⟩).added = 1 := by
  have ordered : (⟨messageId, serverMaxMsgId⟩ : MsgRange).Ordered := isServer.2.le
  rcases addRangeItemsAndCountNew_spec sound.normal.separated [messageId] ordered with
    ⟨_, nothing, _⟩ | ⟨below, touched, above, merged, addition⟩
  · simp at nothing
  have open_ended : ∀ slice ∈ touched, slice.range.till = serverMaxMsgId := fun slice member =>
    ((sound.ends slice (addition.mem_slices (.inr (.inl member)))).2.1).eq_of_le
      isServer aboveMentioned (addition.touches slice member).2
  rw [addition.added_eq]
  match touched, addition, open_ended with
  | [], addition, _ =>
    have only : merged.messages = ofList [messageId] := by
      ext id
      rw [addition.unites.mem_iff]
      simp
    rw [only]
    rfl
  | [slice], addition, _ =>
    have sliceMem : slice ∈ list.slices := by simp [addition.split]
    have absent : messageId ∉ slice.messages := fun inside =>
      lt_irrefl _ (aboveHeld _ ((sound.messages slice sliceMem messageId).mp inside).1)
    have grown : merged.messages.toFinset = insert messageId slice.messages.toFinset := by
      ext id
      rw [FlatSet.mem_toFinset, addition.unites.mem_iff]
      simp
    have sizeEq : merged.messages.size = slice.messages.size + 1 := by
      rw [size_eq_card, size_eq_card, grown]
      exact Finset.card_insert_of_notMem (by simpa using absent)
    simp only [sizeEq, head?_cons, elim_some]
    omega
  | first :: second :: others, addition, open_ended =>
    have part : (first :: second :: others).Sublist list.slices := by
      rw [addition.split]
      exact (sublist_append_right below _).trans (sublist_append_left _ above)
    have separated := sound.normal.separated.sublist part
    have apart := separated.apart
    have secondOrdered := separated.ordered second (by simp)
    rw [pairwise_cons] at apart
    have before := apart.1 second (by simp)
    have firstTill := open_ended first (by simp)
    have secondTill := open_ended second (by simp)
    simp only [firstTill, secondTill] at before secondOrdered
    exact (not_lt.mpr secondOrdered before).elim

section

variable {list : SparseIdsList} (sound : Sound before list)
include sound

theorem addNew_sound {messageId : Int} (isServer : IsServerMsgId messageId)
    (aboveHeld : ∀ id ∈ before.held, id < messageId)
    (aboveMentioned : ∀ id ∈ before.mentioned, id < messageId)
    (heldEq : after.held = insert messageId before.held)
    (mentionedEq : after.mentioned = messageId :: before.mentioned) :
    Sound after (list.addNew messageId).1 := by
  have absent : messageId ∉ before.held := fun held =>
    lt_irrefl _ (aboveHeld messageId held)
  have added := addNew_added sound isServer aboveHeld aboveMentioned
  have ordered : MsgRange.Ordered ⟨messageId, serverMaxMsgId⟩ := isServer.2.le
  apply addRange_sound sound ordered
  · intro id
    rw [mem_singleton, heldEq, Finset.mem_insert]
    constructor
    · rintro rfl
      exact ⟨.inl rfl, le_refl _, isServer.2.le⟩
    · rintro ⟨rfl | old, covers⟩
      · rfl
      · exact (not_lt.mpr covers.1 (aboveHeld id old)).elim
  · intro id old
    rw [heldEq]
    exact Finset.mem_insert_of_mem old
  · intro id new notOld
    rw [heldEq, Finset.mem_insert] at new
    obtain rfl := new.resolve_right notOld
    exact ⟨le_refl _, isServer.2.le⟩
  · intro known counted
    simp only [countedBy, added, isSome_none, Bool.false_eq_true, if_false,
      Int.one_pos, and_self, if_true, map_eq_some_iff] at counted
    obtain ⟨old, oldEq, rfl⟩ := counted
    rw [sound.count old oldEq, heldEq, Finset.card_insert_of_notMem absent]
    push_cast
    rfl
  · intro id old
    simp [mentionedEq, old]
  · simp [mentionedEq]
  · intro id finite
    simp only [finiteEnds, mem_filter, mem_cons, not_mem_nil, or_false,
      decide_eq_true_eq, ne_eq] at finite
    rcases finite with ⟨rfl | rfl, notMax⟩
    · simp [mentionedEq]
    · exact (notMax rfl).elim

theorem addLoaded_sound {messages : List Int} {noSkipRange : MsgRange} {count : Option Int}
    (ordered : noSkipRange.Ordered)
    (loaded : ∀ id, id ∈ messages ↔ id ∈ before.held ∧ noSkipRange.Covers id)
    (counted : ∀ known, count = some known → known = before.held.card)
    (heldEq : after.held = before.held)
    (mentionedEq : after.mentioned = messages ++ finiteEnds noSkipRange ++ before.mentioned) :
    Sound after (list.addRange messages noSkipRange count false).1 := by
  apply addRange_sound sound ordered
  · simpa [heldEq] using loaded
  · simp [heldEq]
  · intro id new notOld
    exact (notOld (heldEq ▸ new)).elim
  · intro known countEq
    rw [heldEq]
    cases count with
    | none => exact sound.count known (by simpa [countedBy] using countEq)
    | some value => exact counted known (by simpa [countedBy] using countEq)
  · intro id old
    simp [mentionedEq, old]
  · intro id member
    simp [mentionedEq, member]
  · intro id member
    simp [mentionedEq, member]

theorem removeOne_sound {messageId : Int} (member : messageId ∈ before.held)
    (heldEq : after.held = before.held.erase messageId)
    (mentionedEq : after.mentioned = messageId :: before.mentioned) :
    Sound after (list.removeOne messageId) := by
  have stays : ∀ slice ∈ list.slices, ¬ slice.range.Covers messageId →
      ∀ id, id ∈ slice.messages ↔ id ∈ after.held ∧ slice.range.Covers id := by
    intro slice sliceMem outside id
    rw [sound.messages slice sliceMem id, heldEq, Finset.mem_erase]
    constructor
    · rintro ⟨held, covers⟩
      exact ⟨⟨fun same => outside (same ▸ covers), held⟩, covers⟩
    · rintro ⟨⟨_, held⟩, covers⟩
      exact ⟨held, covers⟩
  have grows : ∀ id ∈ before.mentioned, id ∈ after.mentioned := fun id old => by
    simp [mentionedEq, old]
  have countSound : ∀ known, (list.removeOne messageId).count = some known →
      known = after.held.card := by
    intro known countEq
    obtain ⟨old, oldEq, rfl⟩ := map_eq_some_iff.mp countEq
    have card := Finset.card_erase_add_one member
    rw [sound.count old oldEq, heldEq, ← card]
    omega
  rcases removeOne_slices sound.normal.separated messageId with
    ⟨init, slice, tail, split, covers, removed⟩ | ⟨none, unchanged⟩
  · have sliceMem : slice ∈ list.slices := by simp [split]
    have others : ∀ other ∈ init ++ tail, other ∈ list.slices ∧
        ¬ other.range.Covers messageId := fun other otherMem =>
      sound.normal.separated.others_not_covers split covers otherMem
    refine ⟨removeOne_normalForm sound.normal messageId, ?_, countSound, ?_⟩
    · rw [removed]
      intro other otherMem id
      rcases mem_append.mp otherMem with old | later
      · have apart := others other (mem_append_left _ old)
        exact stays other apart.1 apart.2 id
      · rcases mem_cons.mp later with rfl | old
        · rw [mem_erase, sound.messages slice sliceMem id, heldEq, Finset.mem_erase]
          tauto
        · have apart := others other (mem_append_right _ old)
          exact stays other apart.1 apart.2 id
    · rw [removed]
      intro other otherMem
      rcases mem_append.mp otherMem with old | later
      · exact sound.ends.mono grows other (others other (mem_append_left _ old)).1
      · rcases mem_cons.mp later with rfl | old
        · have ends := sound.ends.mono grows slice sliceMem
          exact ⟨ends.1, ends.2.1, fun id idMem =>
            ends.2.2 id (mem_erase.mp idMem).2⟩
        · exact sound.ends.mono grows other (others other (mem_append_right _ old)).1
  · refine ⟨removeOne_normalForm sound.normal messageId, ?_, countSound, ?_⟩
    · rw [unchanged]
      exact fun slice sliceMem => stays slice sliceMem (none slice sliceMem)
    · rw [unchanged]
      exact sound.ends.mono grows

end

theorem removeAll_sound (list : SparseIdsList) (heldEq : after.held = ∅) :
    Sound after list.removeAll := by
  refine ⟨removeAll_normalForm list, ?_, ?_, ?_⟩
  · intro slice member id
    obtain rfl := mem_singleton.mp member
    simp [heldEq]
  · intro known countEq
    rw [heldEq, ← some.inj countEq]
    rfl
  · intro slice member
    obtain rfl := mem_singleton.mp member
    exact ⟨.inl rfl, .inr (.inl rfl), by simp⟩

section Gap

variable {server : ServerIds} {list : SparseIdsList} {newer : Int}

section

variable (sound : Sound server list) (isServer : IsServerMsgId newer)
  (above : ∀ id ∈ server.mentioned, id < newer)
include sound isServer above

theorem Sound.not_covers_of_closed (member : slice ∈ list.slices)
    (closed : slice.range.till ≠ serverMaxMsgId) : ¬ slice.range.Covers newer :=
  fun covers => closed ((sound.ends slice member).2.1.eq_of_le isServer above covers.2)

theorem Sound.closed_of_init {init : List Slice} {last : Slice}
    (split : list.slices = init ++ [last]) (member : slice ∈ init) :
    slice.range.till ≠ serverMaxMsgId := by
  intro infinite
  have apart := sound.normal.separated.apart
  rw [split, pairwise_append] at apart
  have before := apart.2.2 slice member last (by simp)
  have lastFrom := (sound.ends last (by simp [split])).1
  rw [infinite] at before
  have reached := lastFrom.eq_of_le isServer above (isServer.2.le.trans before.le)
  exact lt_irrefl _ (reached ▸ before)

theorem Sound.not_covers_cutBottom (member : slice ∈ list.slices) :
    ¬ slice.cutBottom.range.Covers newer := by
  intro covers
  obtain ⟨fromEnd, _, listed⟩ := sound.ends slice member
  have reaches : newer ≤ slice.messages.back?.getD slice.range.from := covers.2
  cases backEq : slice.messages.back? with
  | some back =>
    rw [backEq, getD_some] at reaches
    exact not_lt.mpr reaches (above _ (listed back (back?_mem backEq)))
  | none =>
    rw [backEq, getD_none] at reaches
    have infinite := fromEnd.eq_of_le isServer above reaches
    have starts : serverMaxMsgId ≤ newer := infinite ▸ covers.1
    exact not_lt.mpr starts isServer.2

end

end Gap

theorem Slice.cutBottom_ends
    (ends : EndsMentioned mentioned [slice]) : EndsMentioned mentioned [slice.cutBottom] := by
  intro cut member
  obtain rfl := mem_singleton.mp member
  obtain ⟨fromEnd, _, listed⟩ := ends slice (by simp)
  refine ⟨fromEnd, ?_, listed⟩
  change KnownEnd mentioned (slice.messages.back?.getD slice.range.from)
  cases backEq : slice.messages.back? with
  | none => exact fromEnd
  | some back => exact .inr (.inr (listed back (back?_mem backEq)))

theorem invalidateBottom_sound (sound : Sound before list)
    {gained : Finset Int} (newer : ∀ id ∈ gained, ∀ old ∈ before.mentioned, old < id)
    (heldEq : after.held = before.held ∪ gained)
    (mentionedEq : after.mentioned = before.mentioned) :
    Sound after list.invalidateBottom := by
  have gainedServer : ∀ id ∈ gained, IsServerMsgId id := fun id member =>
    after.held_server id (heldEq ▸ Finset.mem_union_right _ member)
  have unreached : ∀ slice ∈ list.slices, (∀ id ∈ gained, ¬ slice.range.Covers id) →
      ∀ id, id ∈ slice.messages ↔ id ∈ after.held ∧ slice.range.Covers id := by
    intro slice member outside id
    rw [sound.messages slice member id, heldEq, Finset.mem_union]
    constructor
    · rintro ⟨held, covers⟩
      exact ⟨.inl held, covers⟩
    · rintro ⟨held | new, covers⟩
      · exact ⟨held, covers⟩
      · exact (outside id new covers).elim
  have initSound : ∀ init last, list.slices = init ++ [last] → SlicesSound after.held init := by
    intro init last split slice member
    have sliceMem : slice ∈ list.slices := by simp [split, member]
    exact unreached slice sliceMem fun id new =>
      sound.not_covers_of_closed (gainedServer id new) (newer id new) sliceMem
        (sound.closed_of_init (gainedServer id new) (newer id new) split member)
  have countSound : ∀ known, list.invalidateBottom.count = some known →
      known = after.held.card := by simp [invalidateBottom]
  refine ⟨invalidateBottom_normalForm sound.normal, ?_, countSound, ?_⟩
  · rcases invalidateBottom_slices list with
      ⟨init, last, split, _, cut⟩ | ⟨unchanged, closed⟩
    · rw [cut]
      intro slice member
      rcases mem_append.mp member with old | isLast
      · exact initSound init last split slice old
      obtain rfl := mem_singleton.mp isLast
      have lastMem : last ∈ list.slices := by simp [split]
      have shorter := Slice.cutBottom_ordered (sound.normal.separated.ordered last lastMem)
        fun id member => (sound.normal.within last lastMem id member).1
      intro id
      constructor
      · intro idMem
        have held := (sound.messages last lastMem id).mp idMem
        exact ⟨heldEq ▸ Finset.mem_union_left _ held.1, Slice.cutBottom_covers idMem held.2⟩
      · rintro ⟨held, covers⟩
        rw [heldEq, Finset.mem_union] at held
        rcases held with old | new
        · exact (sound.messages last lastMem id).mpr ⟨old, covers.1, covers.2.trans shorter.2⟩
        · exact (sound.not_covers_cutBottom (gainedServer id new) (newer id new)
            lastMem covers).elim
    · rw [unchanged]
      rcases eq_nil_or_concat list.slices with none | ⟨init, last, split⟩
      · rw [none]
        exact fun slice member => absurd member (by simp)
      · rw [concat_eq_append] at split
        intro slice member
        refine unreached slice member fun id new =>
          sound.not_covers_of_closed (gainedServer id new) (newer id new) member ?_
        rw [split] at member
        rcases mem_append.mp member with old | isLast
        · exact sound.closed_of_init (gainedServer id new) (newer id new) split old
        · obtain rfl := mem_singleton.mp isLast
          exact closed init slice split
  · rw [mentionedEq]
    rcases invalidateBottom_slices list with ⟨init, last, split, _, cut⟩ | ⟨unchanged, _⟩
    · rw [cut]
      have ends := sound.ends
      rw [split] at ends
      intro slice member
      rcases mem_append.mp member with old | isLast
      · exact ends slice (by simp [old])
      · exact Slice.cutBottom_ends (fun other otherMem => ends other (by
          simp [mem_singleton.mp otherMem])) slice isLast
    · rw [unchanged]
      exact sound.ends

theorem apply_sound (sound : Sound before list)
    (step : ServerStep before operation after) : Sound after (list.apply operation) := by
  cases step with
  | addNew server aboveHeld aboveMentioned heldEq mentionedEq =>
    exact addNew_sound sound server aboveHeld aboveMentioned heldEq mentionedEq
  | addSlice ordered loaded counted heldEq mentionedEq =>
    exact addLoaded_sound sound ordered loaded counted heldEq mentionedEq
  | addExisting only heldEq mentionedEq =>
    have covers := ((only _).mp rfl).2
    exact addLoaded_sound sound (covers.1.trans covers.2) (by simpa using only)
      (by simp) heldEq (by simpa using mentionedEq)
  | removeOne member heldEq mentionedEq =>
    exact removeOne_sound sound member heldEq mentionedEq
  | removeAll heldEq => exact removeAll_sound list heldEq
  | invalidateBottom newer heldEq mentionedEq =>
    exact invalidateBottom_sound sound newer heldEq mentionedEq

theorem sound_empty (server : ServerIds) : Sound server {} where
  normal := .nil
  messages := by simp [SlicesSound]
  count := by simp
  ends := by simp [EndsMentioned]

theorem TruthfullyReachable.sound {state : ServerIds × SparseIdsList}
    (reachable : TruthfullyReachable state) : Sound state.1 state.2 := by
  obtain ⟨server, _, run⟩ := reachable
  induction run with
  | refl => exact sound_empty server
  | tail _ step ih =>
    obtain ⟨operation, serverStep, applied⟩ := step
    rw [applied]
    exact apply_sound ih serverStep

end TelegramDesktop.SparseIdsList
