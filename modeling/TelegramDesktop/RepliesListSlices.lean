import TelegramDesktop.RepliesList

/-!
# Slices of replies

What the counters of a slice say about its ids, and what a slice keeps of the one before.
-/

namespace TelegramDesktop

open Option List
open Replies (Thread MessagesSlice Viewer Root Owner Divider)

namespace RepliesList

variable (replies : RepliesList) (thread : Thread) (owner : Owner) (viewer : Viewer)

/-- The id of the divider that is shown. -/
def dividerId : FullMessageId :=
  ⟨thread.peerId, replies.divider.elim owner.nextNonHistoryEntryId Divider.id⟩

/-- The divider is an entry of its own: no message of the list or at the root has its id. -/
structure DividerApart : Prop where
  list : ∀ id ∈ replies.list, (⟨thread.peerId, id⟩ : FullMessageId) ≠
    replies.dividerId thread owner
  root : ∀ root, owner.root = some root → root.fullId ≠ replies.dividerId thread owner
  group : ∀ root items, owner.root = some root → root.group = some items →
    ∀ item ∈ items, item ≠ replies.dividerId thread owner

/-- The count of a slice is that of the skipped ids and the ids other than the divider. -/
def Accounts (divider : FullMessageId) (slice : MessagesSlice) : Prop :=
  ∃ full before after, slice.fullCount = some full ∧ slice.skippedBefore = some before ∧
    slice.skippedAfter = some after ∧
      full = before + after + (slice.ids.countP fun id => id ≠ divider : Nat)

variable {replies thread owner viewer}

theorem countP_apart {ids : List FullMessageId} {divider : FullMessageId}
    (apart : ∀ id ∈ ids, id ≠ divider) : (ids.countP fun id => id ≠ divider) = ids.length := by
  rw [countP_eq_length]
  intro id member
  exact decide_eq_true (apart id member)

theorem injectRootMessage_skipped (replies : RepliesList) (thread : Thread) (owner : Owner)
    (viewer : Viewer) :
    (replies.injectRootMessage thread owner viewer).2.slice.skippedBefore =
        viewer.slice.skippedBefore ∧
      (replies.injectRootMessage thread owner viewer).2.slice.skippedAfter =
        viewer.slice.skippedAfter := by
  unfold injectRootMessage injectRootDivider
  dsimp only
  split
  · exact ⟨rfl, rfl⟩
  · split
    · exact ⟨rfl, rfl⟩
    next root _ =>
      cases root.group <;> exact ⟨rfl, rfl⟩

/-- What is injected for a root: the divider and the message, or the items of the album. -/
theorem injectRootMessage_root (replies : RepliesList) (thread : Thread) {root : Root}
    (isRoot : owner.root = some root) (atBeginning : viewer.slice.skippedBefore = some 0) :
    (replies.injectRootMessage thread owner viewer).2.slice.ids =
        viewer.slice.ids ++ replies.dividerId thread owner ::
          root.group.elim [root.fullId] List.reverse ∧
      (replies.injectRootMessage thread owner viewer).2.slice.fullCount =
        viewer.slice.fullCount.map
          (· + root.group.elim 1 fun items => (items.length + items.length : Int)) := by
  unfold injectRootMessage injectRootDivider
  rw [if_neg (not_not.mpr atBeginning), isRoot]
  cases isGroup : root.group with
  | none => simp [isGroup, dividerId]
  | some items =>
    simp only [isGroup, dividerId, Option.elim_some, Option.map_map, List.append_assoc,
      List.singleton_append, true_and]
    congr 1
    funext count
    exact Int.add_assoc count _ _

theorem injectRootMessage_none (not : viewer.slice.skippedBefore ≠ some 0 ∨ owner.root = none) :
    (replies.injectRootMessage thread owner viewer).2.slice = viewer.slice := by
  unfold injectRootMessage
  dsimp only
  split
  · rfl
  next atBeginning =>
    rw [not.resolve_left (not_not.mpr (not_not.mp atBeginning))]

/-- The root is shown at the top, and it is an album. -/
def InjectsAlbum (owner : Owner) (skippedBefore : Int) : Prop :=
  skippedBefore = 0 ∧ ∃ root items, owner.root = some root ∧ root.group = some items ∧ items ≠ []

theorem not_injectsAlbum_single {root : Root} (isRoot : owner.root = some root)
    (isGroup : root.group = none) : ¬InjectsAlbum owner 0 := by
  rintro ⟨-, other, items, isOther, isItems, -⟩
  rw [isRoot, some.injEq] at isOther
  rw [← isOther, isGroup] at isItems
  cases isItems

theorem injectsAlbum_group {root : Root} {items : List FullMessageId}
    (isRoot : owner.root = some root) (isGroup : root.group = some items) :
    InjectsAlbum owner 0 ↔ items ≠ [] := by
  constructor
  · rintro ⟨-, other, otherItems, isOther, isItems, some⟩
    rw [isRoot, Option.some.injEq] at isOther
    rw [← isOther, isGroup, Option.some.injEq] at isItems
    rwa [isItems]
  · intro some
    exact ⟨rfl, root, items, isRoot, isGroup, some⟩

/-- The counters of what is built are those of the slice before the root message. -/
theorem accounts_injected_iff {before after : Int}
    (isBefore : viewer.slice.skippedBefore = some before)
    (isAfter : viewer.slice.skippedAfter = some after) :
    Accounts (replies.dividerId thread owner)
        (replies.injectRootMessageAndReverse thread owner viewer).2.slice ↔
      ∃ count, (replies.injectRootMessage thread owner viewer).2.slice.fullCount = some count ∧
        count = before + after +
          ((replies.injectRootMessage thread owner viewer).2.slice.ids.countP fun id =>
            id ≠ replies.dividerId thread owner : Nat) := by
  have skipped := replies.injectRootMessage_skipped thread owner viewer
  unfold Accounts injectRootMessageAndReverse
  simp only [skipped.1, skipped.2, isBefore, isAfter, some.injEq, countP_reverse]
  constructor
  · rintro ⟨count, _, _, isCount, rfl, rfl, all⟩
    exact ⟨count, isCount, all⟩
  · rintro ⟨count, isCount, all⟩
    exact ⟨count, before, after, isCount, rfl, rfl, all⟩

/-- A slice that accounts for its ids does so with the root unless an album is injected, as
its items are added to the count twice. -/
theorem inject_accounts_iff {full before after : Int} (isFull : viewer.slice.fullCount = some full)
    (isBefore : viewer.slice.skippedBefore = some before)
    (isAfter : viewer.slice.skippedAfter = some after)
    (sum : full = before + after + viewer.slice.ids.length)
    (apart : ∀ id ∈ viewer.slice.ids, id ≠ replies.dividerId thread owner)
    (dividerApart : replies.DividerApart thread owner) :
    Accounts (replies.dividerId thread owner)
        (replies.injectRootMessageAndReverse thread owner viewer).2.slice ↔
      ¬InjectsAlbum owner before := by
  rw [accounts_injected_iff isBefore isAfter]
  by_cases injects : before = 0 ∧ ∃ root, owner.root = some root
  · obtain ⟨rfl, root, isRoot⟩ := injects
    obtain ⟨ids, count⟩ := replies.injectRootMessage_root thread isRoot isBefore
    rw [ids, count, isFull, countP_append, countP_apart apart, countP_cons]
    cases isGroup : root.group with
    | none =>
      have single : ([root.fullId].countP fun id => id ≠ replies.dividerId thread owner) =
          1 :=
        countP_apart (by simpa using dividerApart.root root isRoot)
      refine iff_of_true ⟨_, rfl, ?_⟩ (not_injectsAlbum_single isRoot isGroup)
      simp only [elim_none, single]
      simp
      omega
    | some items =>
      have all := countP_apart (dividerApart.group root items isRoot isGroup)
      rw [injectsAlbum_group isRoot isGroup, not_not]
      simp only [elim_some, map_some, some.injEq, countP_reverse, all, exists_eq_left']
      have empty : items = [] ↔ items.length = 0 := length_eq_zero_iff.symm
      simp [empty, -length_eq_zero_iff]
      omega
  · have untouched : (replies.injectRootMessage thread owner viewer).2.slice = viewer.slice := by
      apply injectRootMessage_none
      by_contra both
      rw [not_or, not_not, isBefore, some.injEq] at both
      exact injects ⟨both.1, ne_none_iff_exists'.mp both.2⟩
    have noAlbum : ¬InjectsAlbum owner before := by
      rintro ⟨atBeginning, root, -, isRoot, -⟩
      exact injects ⟨atBeginning, root, isRoot⟩
    rw [untouched, isFull, countP_apart apart]
    exact iff_of_true ⟨full, rfl, sum⟩ noAlbum

theorem aroundPosition_le (replies : RepliesList) (around : Int) :
    replies.aroundPosition around ≤ replies.list.length := by
  unfold aroundPosition
  split
  · exact ( takeWhile_prefix _).length_le
  · exact le_refl _

theorem length_fillSlice (replies : RepliesList) (thread : Thread) (owner : Owner)
    (viewer : Viewer) :
    (replies.fillSlice thread owner viewer).ids.length =
      replies.useBefore owner viewer + replies.useAfter owner viewer := by
  have inside := replies.aroundPosition_le (aroundId owner viewer)
  have before : replies.useBefore owner viewer ≤
      replies.availableBefore (aroundId owner viewer) := Nat.min_le_left ..
  have after : replies.useAfter owner viewer ≤ replies.availableAfter (aroundId owner viewer) :=
    Nat.min_le_left ..
  unfold availableBefore at before
  unfold availableAfter at after
  unfold fillSlice
  rw [length_map, length_segment (by omega)]
  omega

theorem mem_fillSlice {id : FullMessageId}
    (member : id ∈ (replies.fillSlice thread owner viewer).ids) :
    ∃ listed ∈ replies.list, id = ⟨thread.peerId, listed⟩ := by
  obtain ⟨listed, inWindow, rfl⟩ := mem_map.mp member
  exact ⟨listed, mem_of_mem_drop (mem_of_mem_take inWindow), rfl⟩

/-- What is skipped before the shown window. -/
def skippedBeforeWindow (replies : RepliesList) (owner : Owner) (viewer : Viewer)
    (skippedBefore : Int) : Int :=
  skippedBefore + (replies.availableBefore (aroundId owner viewer) -
    replies.useBefore owner viewer : Int)

/-- A built slice accounts for its ids exactly when no album is injected. -/
theorem buildFromData_accounts_iff (replies : RepliesList) (thread : Thread) (owner : Owner)
    (viewer : Viewer) {skippedBefore skippedAfter : Int}
    (knownBefore : replies.skippedBefore = some skippedBefore)
    (knownAfter : replies.skippedAfter = some skippedAfter)
    (knownFull : replies.fullCount = some (skippedBefore + replies.list.length + skippedAfter))
    (dividerApart : replies.DividerApart thread owner)
    (built : (replies.buildFromData thread owner viewer).1 = true) :
    Accounts (replies.dividerId thread owner)
        (replies.buildFromData thread owner viewer).2.2.slice ↔
      ¬InjectsAlbum owner (replies.skippedBeforeWindow owner viewer skippedBefore) := by
  unfold buildFromData at built ⊢
  split
  next reset =>
    simp only [Bool.and_eq_true, List.isEmpty_iff, decide_eq_true_eq] at reset
    obtain ⟨⟨empty, noneBefore⟩, -⟩ := reset
    have atBeginning : replies.skippedBeforeWindow owner viewer skippedBefore = 0 := by
      rw [knownBefore, Option.some.injEq] at noneBefore
      simp [skippedBeforeWindow, useBefore, availableBefore, empty, noneBefore]
    rw [atBeginning]
    exact inject_accounts_iff rfl rfl rfl (by simp) (by simp) dividerApart
  · split
    next unavailable needsAround =>
      rw [if_neg unavailable, if_pos needsAround] at built
      cases built
    · have length := replies.length_fillSlice thread owner viewer
      have before : (replies.fillSlice thread owner viewer).skippedBefore =
          some (replies.skippedBeforeWindow owner viewer skippedBefore) := by
        simp [fillSlice, knownBefore, skippedBeforeWindow]
      have after : (replies.fillSlice thread owner viewer).skippedAfter =
          some (skippedAfter + (replies.availableAfter (aroundId owner viewer) -
            replies.useAfter owner viewer : Int)) := by
        simp [fillSlice, knownAfter]
      refine inject_accounts_iff knownFull before after ?_ ?_ dividerApart
      · have inside := replies.aroundPosition_le (aroundId owner viewer)
        simp only [length, skippedBeforeWindow, availableBefore, availableAfter]
        omega
      · intro id member
        obtain ⟨listed, isListed, rfl⟩ := mem_fillSlice member
        exact dividerApart.list listed isListed

theorem buildFromData_accounts_iff_single :
    let replies : RepliesList :=
      { list := [5, 4], skippedBefore := some 0, skippedAfter := some 3, fullCount := some 5 }
    Accounts ⟨7, 90⟩ (replies.buildFromData ⟨7, 2⟩ ⟨some ⟨⟨7, 2⟩, none, 0⟩, 90⟩
      { around := 5, limitBefore := 2, limitAfter := 0 }).2.2.slice := by
  refine (buildFromData_accounts_iff _ _ _ _ rfl rfl rfl ⟨by decide, ?_, ?_⟩ (by decide)).mpr ?_
  · rintro root ⟨⟩
    decide
  · rintro root items ⟨⟩ ⟨⟩
  · rintro ⟨-, root, items, ⟨⟩, ⟨⟩, -⟩

/-- The album at the root has two items, yet the count of a thread of one message is five. -/
theorem album_counted_twice :
    ∃ (replies : RepliesList) (thread : Thread) (owner : Owner) (viewer : Viewer),
      replies.skippedBefore = some 0 ∧ replies.skippedAfter = some 0 ∧
        replies.fullCount = some (0 + replies.list.length + 0) ∧
        replies.DividerApart thread owner ∧
        (replies.buildFromData thread owner viewer).1 = true ∧
        (replies.buildFromData thread owner viewer).2.2.slice.fullCount = some 5 ∧
        ¬Accounts (replies.dividerId thread owner)
          (replies.buildFromData thread owner viewer).2.2.slice := by
  refine ⟨{ list := [5], skippedBefore := some 0, skippedAfter := some 0, fullCount := some 1 },
    ⟨7, 2⟩, ⟨some ⟨⟨7, 2⟩, some [⟨7, 2⟩, ⟨7, 3⟩], 0⟩, 90⟩,
    { around := 5, limitBefore := 2, limitAfter := 0 }, rfl, rfl, rfl, ⟨by decide, ?_, ?_⟩,
    by decide, by decide, ?_⟩
  · rintro root ⟨⟩
    decide
  · rintro root items ⟨⟩ ⟨⟩
    decide
  · rintro ⟨full, before, after, isFull, isBefore, isAfter, sum⟩
    cases isFull
    cases isBefore
    cases isAfter
    exact absurd sum (by decide)

section Previous

variable (replies : RepliesList) (thread : Thread) (owner : Owner) (viewer : Viewer)

/-- What is built when the slice of the viewer was `previous`. -/
def builtOver (previous : MessagesSlice) : Bool × RepliesList × Viewer :=
  replies.buildFromData thread owner { viewer with slice := previous }

/-- Only the counters of the slice before are read, and only those that are not known. -/
def KeepsCounters (first second : MessagesSlice) : Prop :=
  (replies.skippedBefore = none → first.skippedBefore = second.skippedBefore) ∧
    (replies.skippedAfter = none → first.skippedAfter = second.skippedAfter)

theorem fillSlice_eq (first second : MessagesSlice) (kept : replies.KeepsCounters first second) :
    replies.fillSlice thread owner { viewer with slice := first } =
      replies.fillSlice thread owner { viewer with slice := second } := by
  unfold fillSlice
  simp only [useBefore, useAfter, aroundId, MessagesSlice.mk.injEq, true_and, and_true]
  constructor
  · cases known : replies.skippedBefore with
    | some skippedBefore => rfl
    | none => exact kept.1 known
  · cases known : replies.skippedAfter with
    | some skippedAfter => rfl
    | none => exact kept.2 known

/-- What is shown when the list is not asked for more around the position. -/
def shownOver (previous : MessagesSlice) : MessagesSlice :=
  (replies.injectRootMessageAndReverse thread owner
    { viewer with slice :=
        replies.fillSlice thread owner { viewer with slice := previous } }).2.slice

theorem shownOver_skipped (previous : MessagesSlice) :
    (replies.skippedBefore = none →
      (replies.shownOver thread owner viewer previous).skippedBefore =
        previous.skippedBefore) ∧
    (replies.skippedAfter = none →
      (replies.shownOver thread owner viewer previous).skippedAfter =
        previous.skippedAfter) := by
  have kept := replies.injectRootMessage_skipped thread owner
    { viewer with slice := replies.fillSlice thread owner { viewer with slice := previous } }
  constructor
  · intro unknown
    apply kept.1.trans
    simp [fillSlice, unknown]
  · intro unknown
    apply kept.2.trans
    simp [fillSlice, unknown]

theorem shownOver_eq_iff (first second : MessagesSlice) :
    replies.shownOver thread owner viewer first = replies.shownOver thread owner viewer second ↔
      replies.KeepsCounters first second := by
  have ofFirst := replies.shownOver_skipped thread owner viewer first
  have ofSecond := replies.shownOver_skipped thread owner viewer second
  constructor
  · intro same
    constructor
    · intro unknown
      rw [← ofFirst.1 unknown, ← ofSecond.1 unknown, same]
    · intro unknown
      rw [← ofFirst.2 unknown, ← ofSecond.2 unknown, same]
  · intro kept
    have filled := replies.fillSlice_eq thread owner viewer first second kept
    unfold shownOver
    rw [filled]

theorem builtOver_eq (previous : MessagesSlice) (some : ¬(replies.list.isEmpty &&
      replies.skippedBefore = some 0 && replies.skippedAfter = some 0) = true)
    (available : ¬replies.needsAround (aroundId owner viewer) = true) :
    (replies.builtOver thread owner viewer previous).2.2.slice =
      replies.shownOver thread owner viewer previous := by
  have sameAround : aroundId owner { viewer with slice := previous } = aroundId owner viewer := rfl
  unfold builtOver buildFromData
  rw [if_neg some, sameAround, if_neg available]
  rfl

/-- Slices built over two slices are equal exactly when these agree in the counters that are
not known, and a counter that is not known stays as it was before. -/
theorem buildFromData_slice_eq_iff (first second : MessagesSlice)
    (built : (replies.builtOver thread owner viewer first).1 = true) :
    ((replies.builtOver thread owner viewer first).2.2.slice =
        (replies.builtOver thread owner viewer second).2.2.slice ↔
      replies.KeepsCounters first second) ∧
    (replies.skippedBefore = none →
      (replies.builtOver thread owner viewer first).2.2.slice.skippedBefore =
        first.skippedBefore) ∧
    (replies.skippedAfter = none →
      (replies.builtOver thread owner viewer first).2.2.slice.skippedAfter =
        first.skippedAfter) := by
  by_cases reset : (replies.list.isEmpty && replies.skippedBefore = some 0 &&
      replies.skippedAfter = some 0) = true
  · have known := reset
    simp only [Bool.and_eq_true, decide_eq_true_eq] at known
    obtain ⟨⟨-, before⟩, after⟩ := known
    have same : (replies.builtOver thread owner viewer first).2.2.slice =
        (replies.builtOver thread owner viewer second).2.2.slice := by
      unfold builtOver buildFromData
      rw [if_pos reset, if_pos reset]
    refine ⟨iff_of_true same ⟨?_, ?_⟩, ?_, ?_⟩ <;> simp [before, after]
  · have available : ¬replies.needsAround (aroundId owner viewer) = true := by
      intro needsAround
      have sameAround : aroundId owner { viewer with slice := first } = aroundId owner viewer :=
        rfl
      unfold builtOver buildFromData at built
      rw [if_neg reset, sameAround, if_pos needsAround] at built
      cases built
    rw [replies.builtOver_eq thread owner viewer first reset available,
      replies.builtOver_eq thread owner viewer second reset available]
    exact ⟨replies.shownOver_eq_iff thread owner viewer first second,
      replies.shownOver_skipped thread owner viewer first⟩

end Previous

theorem buildFromData_slice_eq_iff_known :
    let replies : RepliesList :=
      { list := [5], skippedBefore := some 0, skippedAfter := some 1, fullCount := some 2 }
    (replies.builtOver ⟨7, 2⟩ ⟨none, 90⟩ { around := 5, limitBefore := 2, limitAfter := 0 }
        { skippedAfter := some 0 }).2.2.slice =
      (replies.builtOver ⟨7, 2⟩ ⟨none, 90⟩ { around := 5, limitBefore := 2, limitAfter := 0 }
        {}).2.2.slice := by
  refine (buildFromData_slice_eq_iff _ _ _ _ _ _ (by decide)).1.mpr ⟨?_, ?_⟩ <;>
    · intro unknown
      cases unknown

/-- The ids after those loaded are not known, but the slice shows the counter that it had. -/
theorem unknown_counter_kept :
    ∃ (replies : RepliesList) (thread : Thread) (owner : Owner) (viewer : Viewer)
      (first second : MessagesSlice),
      replies.skippedAfter = none ∧ (replies.builtOver thread owner viewer first).1 = true ∧
        (replies.builtOver thread owner viewer second).1 = true ∧
        (replies.builtOver thread owner viewer first).2.2.slice.skippedAfter = some 0 ∧
        (replies.builtOver thread owner viewer second).2.2.slice.skippedAfter = none :=
  ⟨{ list := [5], skippedBefore := some 0 }, ⟨7, 2⟩, ⟨none, 90⟩,
    { around := 5, limitBefore := 2, limitAfter := 0 }, { skippedAfter := some 0 }, {},
    rfl, by decide, by decide, by decide, by decide⟩

end RepliesList

end TelegramDesktop
