import TelegramDesktop.ChatFiltersFeed

/-!
# The folders show what their rules select

Every change of the filters compares the rules that were applied last with the new ones,
so the lists of the folders follow the rules through any run of changes.
-/

namespace TelegramDesktop.ChatFolders

open List

/-- The filter selects none of the listed chats and has no pinned ones. -/
def ChatFilter.Plain (world : World) (filter : ChatFilter) : Prop :=
  (∀ history ∈ world.listed, filter.contains world history = false) ∧ filter.pinned = []

instance (world : World) (filter : ChatFilter) : Decidable (filter.Plain world) :=
  inferInstanceAs (Decidable (_ ∧ _))

@[simp] theorem contains_withoutRules (world : World) (id : FilterId) (history : History) :
    (ChatFilter.withoutRules id).contains world history = false := by
  simp [ChatFilter.contains, ChatFilter.withoutRules]

theorem plain_withoutRules (world : World) (id : FilterId) :
    (ChatFilter.withoutRules id).Plain world :=
  ⟨fun history _ => contains_withoutRules world id history, rfl⟩

theorem contains_eq_of_rules (world : World) {filter updated : ChatFilter}
    (always : filter.always = updated.always) (flags : filter.flags = updated.flags)
    (never : filter.never = updated.never) (history : History) :
    updated.contains world history = filter.contains world history := by
  unfold ChatFilter.contains
  rw [always, flags, never]

namespace ChatFilters

variable {world : World} {filters next : ChatFilters} {filter updated : ChatFilter}
  {position : Nat}

/-- The list of every folder shows the listed chats that its rules select, and there is
none in the list of an id without a filter.  The other parts say how the ids, the
entries and the pinned lists are kept. -/
structure Consistent (world : World) (filters : ChatFilters) : Prop where
  shows : ∀ filter ∈ filters.list, ∀ history ∈ world.listed,
    ((filter.id, history) ∈ filters.rows ↔ filter.contains world history = true)
  noOthers : ∀ id ∉ filters.list.map ChatFilter.id, ∀ history ∈ world.listed,
    (id, history) ∉ filters.rows
  distinct : (filters.list.map ChatFilter.id).Nodup
  plain : ∀ filter ∈ filters.list, filter.id = 0 → filter.Plain world
  listed : ∀ history, ((0 : FilterId), history) ∈ filters.links ↔ history ∈ world.listed
  linked : ∀ id, id ≠ 0 → ∀ history ∈ world.listed,
    ((id, history) ∈ filters.links ↔ (id, history) ∈ filters.rows)
  nodup : ∀ id, (filters.pinned id).Nodup
  indexed : filters.Indexed

theorem Consistent.settled (consistent : filters.Consistent world) {history : History}
    (listed : history ∈ world.listed) : filters.Settled world history := by
  intro filter member nonzero
  rw [consistent.linked filter.id nonzero history listed]
  exact consistent.shows filter member history listed

theorem Consistent.quiet (consistent : filters.Consistent world) (history : History) :
    filters.Quiet world history :=
  fun present => consistent.settled ((consistent.listed history).mp present)

theorem Consistent.feedable (consistent : filters.Consistent world)
    (member : filter ∈ filters.list) (nonzero : filter.id ≠ 0) : Feedable world filters filter where
  member := member
  distinct := consistent.distinct
  nonzero := nonzero
  listed := consistent.listed
  settled _ listed := consistent.settled listed
  rows := consistent.shows filter member
  nodup := consistent.nodup filter.id
  indexed := consistent.indexed

variable {list : List ChatFilter}

theorem Consistent.of_perm (consistent : filters.Consistent world)
    (perm : list.Perm filters.list) : Consistent world { filters with list } where
  shows filter member := consistent.shows filter (perm.subset member)
  noOthers id absent := by
    refine consistent.noOthers id fun present => absent ?_
    exact (perm.map ChatFilter.id).symm.subset present
  distinct := (perm.map ChatFilter.id).nodup_iff.mpr consistent.distinct
  plain filter member := consistent.plain filter (perm.subset member)
  listed := consistent.listed
  linked := consistent.linked
  nodup := consistent.nodup
  indexed := consistent.indexed

theorem Consistent.cons (consistent : filters.Consistent world) {id : FilterId}
    (absent : id ∉ filters.list.map ChatFilter.id) :
    Consistent world { filters with list := ChatFilter.withoutRules id :: filters.list } where
  shows filter member history listed := by
    rcases mem_cons.mp member with rfl | member
    · exact iff_of_false (consistent.noOthers id absent history listed) (by simp)
    · exact consistent.shows filter member history listed
  noOthers other different := by
    refine consistent.noOthers other fun present => different ?_
    exact mem_cons_of_mem _ present
  distinct := nodup_cons.mpr ⟨absent, consistent.distinct⟩
  plain filter member zero := by
    rcases mem_cons.mp member with rfl | member
    · exact plain_withoutRules world id
    · exact consistent.plain filter member zero
  listed := consistent.listed
  linked := consistent.linked
  nodup := consistent.nodup
  indexed := consistent.indexed

theorem Consistent.tail (consistent : filters.Consistent world) {id : FilterId}
    (perm : filters.list.Perm (ChatFilter.withoutRules id :: list)) :
    Consistent world { filters with list } := by
  have inside : ∀ filter ∈ list, filter ∈ filters.list := fun filter member =>
    perm.symm.subset (mem_cons_of_mem _ member)
  have first : ChatFilter.withoutRules id ∈ filters.list := perm.symm.subset mem_cons_self
  have ids := perm.map ChatFilter.id
  refine
    { consistent with
      shows := fun filter member => consistent.shows filter (inside filter member)
      noOthers := ?_
      distinct := (nodup_cons.mp (ids.nodup_iff.mp consistent.distinct)).2
      plain := fun filter member => consistent.plain filter (inside filter member) }
  intro other absent history listed
  by_cases same : other = id
  · subst same
    intro present
    have selected := (consistent.shows _ first history listed).mp present
    rw [contains_withoutRules] at selected
    cases selected
  · refine consistent.noOthers other (fun present => ?_) history listed
    rcases mem_cons.mp (ids.subset present) with here | there
    · exact same here
    · exact absent there

/-- What a filter that is received must meet: with the id zero it has no effect, it pins no
chat twice, and no pinned chat is taken in by it that an earlier one leaves behind. -/
structure Accepts (world : World) (filters : ChatFilters) (updated : ChatFilter) : Prop where
  plain : updated.id = 0 → updated.Plain world
  nodup : updated.pinned.Nodup
  calm : ∀ filter ∈ filters.list, filter.id = updated.id →
    ¬Overtakes world (filters.pinned updated.id) filter updated

/-- The filter at the position has been replaced, and the rows have followed. -/
structure Changed (world : World) (filters : ChatFilters) (position : Nat) (updated : ChatFilter)
    (next : ChatFilters) : Prop where
  consistent : next.Consistent world
  list : next.list = filters.list.set position updated
  pinned : ∀ id, id ≠ updated.id → next.pinned id = filters.pinned id
  plays : filters.Plays next

theorem map_id_set (found : list[position]? = some filter) (same : filter.id = updated.id) :
    (list.set position updated).map ChatFilter.id = list.map ChatFilter.id := by
  obtain ⟨inside, rfl⟩ := List.getElem?_eq_some_iff.mp found
  rw [map_set, ← same, ← getElem_map (f := ChatFilter.id) (h := by simpa using inside),
    set_getElem_self]

theorem mem_set_of_ne (distinct : (list.map ChatFilter.id).Nodup)
    (found : list[position]? = some filter) (same : filter.id = updated.id)
    {other : ChatFilter} (member : other ∈ list.set position updated) :
    other = updated ∨ other ∈ list ∧ other.id ≠ updated.id := by
  obtain ⟨index, inside, rfl⟩ := mem_iff_getElem.mp member
  rw [getElem_set]
  obtain ⟨bound, rfl⟩ := List.getElem?_eq_some_iff.mp found
  split
  next => exact .inl rfl
  next different =>
    rw [length_set] at inside
    refine .inr ⟨getElem_mem inside, fun equal => different ?_⟩
    have same := eq_of_id distinct (getElem_mem bound) (getElem_mem inside) (same.trans equal.symm)
    exact (Nodup.getElem_inj_iff distinct.of_map).mp same

theorem Consistent.replace (consistent : filters.Consistent world)
    (found : filters.list[position]? = some filter) (same : filter.id = updated.id)
    (plain : updated.id = 0 → updated.Plain world)
    (list : next.list = filters.list.set position updated)
    (rows : ∀ id, ∀ history ∈ world.listed, (id, history) ∈ next.rows ↔
      if id = updated.id then updated.contains world history = true
      else (id, history) ∈ filters.rows)
    (listed : ∀ history, ((0 : FilterId), history) ∈ next.links ↔ history ∈ world.listed)
    (linked : ∀ id, id ≠ 0 → ∀ history ∈ world.listed,
      ((id, history) ∈ next.links ↔ (id, history) ∈ next.rows))
    (nodup : ∀ id, (next.pinned id).Nodup) (indexed : next.Indexed) :
    next.Consistent world where
  shows other member history listed := by
    rw [list] at member
    rw [rows other.id history listed]
    rcases mem_set_of_ne consistent.distinct found same member with rfl | ⟨before, different⟩
    · rw [if_pos rfl]
    · rw [if_neg different]
      exact consistent.shows other before history listed
  noOthers id absent history listed := by
    rw [list, map_id_set found same] at absent
    have different : id ≠ updated.id := by
      rintro rfl
      exact absent (same ▸ mem_map_of_mem (mem_of_getElem? found))
    rw [rows id history listed, if_neg different]
    exact consistent.noOthers id absent history listed
  distinct := by
    rw [list, map_id_set found same]
    exact consistent.distinct
  plain other member zero := by
    rw [list] at member
    rcases mem_set_of_ne consistent.distinct found same member with rfl | ⟨before, -⟩
    · exact plain zero
    · exact consistent.plain other before zero
  listed := listed
  linked := linked
  nodup := nodup
  indexed := indexed

theorem feed_of_same (depth : Nat) (filters : ChatFilters) {list : List History}
    (same : ∀ history ∈ list, updated.contains world history = filter.contains world history) :
    list.foldlM
      (fun filters history => feedHistory depth world filters filter updated history)
      filters = some filters := by
  induction list with
  | nil => rfl
  | cons history list ih =>
    rw [foldlM_cons, feedHistory, if_pos (same history mem_cons_self)]
    exact ih fun other member => same other (mem_cons_of_mem _ member)

section

variable (depth : Nat) (consistent : filters.Consistent world)
  (found : filters.list[position]? = some filter) (same : filter.id = updated.id)
  (accepts : filters.Accepts world updated)

include depth consistent found same accepts

/-- The chats are fed where the rules have changed, before the filter is replaced. -/
theorem Consistent.feed :
    ∃ next, world.listed.foldlM
        (fun filters history => feedHistory (depth + 1) world filters filter updated history)
        filters = some next ∧ next.list = filters.list ∧
      filters.Changed world position updated { next with list := filters.list.set position updated }
      := by
  have member := mem_of_getElem? found
  by_cases zero : updated.id = 0
  · have unchanged : ∀ history ∈ world.listed,
        updated.contains world history = filter.contains world history := fun history listed => by
      rw [(accepts.plain zero).1 history listed,
        (consistent.plain filter member (same.trans zero)).1 history listed]
    refine ⟨filters, feed_of_same (depth + 1) filters unchanged, rfl, ?_, rfl, fun _ _ => rfl,
      Plays.of_eq rfl rfl⟩
    refine consistent.replace found same accepts.plain rfl (fun id history listed => ?_)
      consistent.listed consistent.linked consistent.nodup consistent.indexed
    by_cases here : id = updated.id
    · rw [if_pos here, here, ← same, unchanged history listed]
      exact consistent.shows filter member history listed
    · rw [if_neg here]
  · have nonzero : filter.id ≠ 0 := fun equal => zero (same.symm.trans equal)
    have feedable := consistent.feedable member nonzero
    have calm := accepts.calm filter member same
    rw [← same] at calm
    obtain ⟨next, fed, invariant⟩ :=
      Fed.run depth feedable calm (nil_append _).symm (Fed.start feedable)
    refine ⟨next, fed, invariant.list, ?_, rfl, fun id different => ?_, ?_⟩
    · refine consistent.replace found same accepts.plain rfl (fun id history listed => ?_)
        (fun history => ?_) (fun id nonzeroId history listed => ?_) (fun id => ?_)
        invariant.indexed
      · simp only [invariant.rows, listed, and_true, same]
      · rw [invariant.links, if_neg (fun both => nonzero both.1.symm)]
        exact consistent.listed history
      · rw [invariant.links, invariant.rows]
        by_cases here : id = filter.id ∧ history ∈ world.listed
        · rw [if_pos here, if_pos here]
        · rw [if_neg here, if_neg here]
          exact consistent.linked id nonzeroId history listed
      · by_cases here : id = filter.id
        · rw [here]
          exact feedable.nodup.sublist invariant.pinned
        · rw [invariant.others id here]
          exact consistent.nodup id
    · exact invariant.others id (same ▸ different)
    · obtain ⟨made, calls, played⟩ := invariant.plays
      exact ⟨made, calls, played⟩

/-- `applyChange` succeeds, and the folders show what the rules select afterwards. -/
theorem Consistent.applyChange :
    ∃ next, applyChange (depth + 1) world filters position updated = some next ∧
      filters.Changed world position updated next := by
  have member := mem_of_getElem? found
  unfold ChatFilters.applyChange
  rw [found, Option.bind_some, if_neg (not_not.mpr same)]
  by_cases nothing : ¬(filter.always ≠ updated.always ∨ filter.flags ≠ updated.flags
      ∨ filter.never ≠ updated.never) ∧ ¬filter.pinned ≠ updated.pinned
      ∧ filter.title = updated.title ∧ filter.iconEmoji = updated.iconEmoji
  · rw [if_pos nothing]
    obtain ⟨rules, pinned, title, icon⟩ := nothing
    have equal : filter = updated := by
      cases filter
      cases updated
      simp_all
    subst equal
    obtain ⟨inside, rfl⟩ := List.getElem?_eq_some_iff.mp found
    exact ⟨filters, rfl, consistent, (set_getElem_self inside).symm, fun _ _ => rfl,
      Plays.refl filters⟩
  rw [if_neg nothing]
  obtain ⟨fed, fedAll, list, changed⟩ : ∃ next,
      (if filter.always ≠ updated.always ∨ filter.flags ≠ updated.flags
          ∨ filter.never ≠ updated.never then
        world.listed.foldlM
          (fun filters history => feedHistory (depth + 1) world filters filter updated history)
          filters
      else some filters) = some next ∧ next.list = filters.list ∧
      filters.Changed world position updated
        { next with list := filters.list.set position updated } := by
    obtain ⟨next, fed, list, changed⟩ := consistent.feed depth found same accepts
    split
    next => exact ⟨next, fed, list, changed⟩
    next rules =>
      simp only [ne_eq, not_or, not_not] at rules
      have unchanged := contains_eq_of_rules world rules.1 rules.2.1 rules.2.2
      rw [feed_of_same (depth + 1) filters fun history _ => unchanged history] at fed
      exact ⟨next, fed, list, changed⟩
  rw [fedAll, Option.bind_some, list]
  by_cases pinned : filter.pinned = updated.pinned
  · rw [if_neg (not_not.mpr pinned)]
    exact ⟨_, rfl, changed⟩
  rw [if_pos pinned]
  have nonzero : filter.id ≠ 0 := fun zero => pinned <| by
    rw [(consistent.plain filter member zero).2, (accepts.plain (same.symm.trans zero)).2]
  obtain ⟨pinnedIndex, applied, indexed⟩ := applyList_of_quiet
    (ChatFilters.removeFromChatList world (depth + 1))
    { fed with list := filters.list.set position updated } updated.pinned
    nonzero (fun chat _ => changed.consistent.quiet chat) changed.consistent.indexed
  refine ⟨_, applied, { changed.consistent with nodup := fun id => ?_, indexed }, rfl,
    fun id different => ?_, changed.plays⟩
  · by_cases here : id = filter.id
    · subst here
      simp only [Function.update_self]
      exact accepts.nodup
    · simp only [Function.update_of_ne here]
      exact changed.consistent.nodup id
  · simp only [Function.update_of_ne (same ▸ different : id ≠ filter.id)]
    exact changed.pinned id different

end

end ChatFilters

end TelegramDesktop.ChatFolders
