import Mathlib.Data.Finset.Sort

/-!
# Increasing listings of finite sets

A finite set of a linear order has exactly one strictly increasing listing.
-/

namespace TelegramDesktop

open List

/-- `listing` enumerates `members` in strictly increasing order. -/
structure IsListing {α : Type*} [LinearOrder α] (members : Finset α)
    (listing : List α) : Prop where
  increasing : listing.Pairwise (· < ·)
  mem_iff : ∀ value, value ∈ listing ↔ value ∈ members

namespace IsListing

variable {α : Type*} [LinearOrder α] {members : Finset α}

variable {listing : List α}

theorem nodup (lists : IsListing members listing) :
    listing.Nodup :=
  lists.increasing.imp fun below => ne_of_lt below

theorem eq_of_mem_iff {first second : List α} (firstIncreasing : first.Pairwise (· < ·))
    (secondIncreasing : second.Pairwise (· < ·))
    (sameMembers : ∀ value, value ∈ first ↔ value ∈ second) :
    first = second := by
  have firstNodup : first.Nodup := firstIncreasing.imp fun below => ne_of_lt below
  have secondNodup : second.Nodup := secondIncreasing.imp fun below => ne_of_lt below
  have perm : first.Perm second :=
    (perm_ext_iff_of_nodup firstNodup secondNodup).mpr sameMembers
  exact perm.eq_of_pairwise (fun _ _ _ _ below above => (lt_asymm below above).elim)
    firstIncreasing secondIncreasing

theorem unique {first second : List α} (firstLists : IsListing members first)
    (secondLists : IsListing members second) :
    first = second :=
  eq_of_mem_iff firstLists.increasing secondLists.increasing fun value =>
    (firstLists.mem_iff value).trans (secondLists.mem_iff value).symm

theorem sort (members : Finset α) : IsListing members (members.sort (· ≤ ·)) where
  increasing := (Finset.sortedLT_sort members).pairwise
  mem_iff _ := Finset.mem_sort _

theorem length_eq_card (lists : IsListing members listing) :
    listing.length = members.card := by
  have same : listing.toFinset = members := by
    ext value
    rw [mem_toFinset, lists.mem_iff]
  rw [← same, toFinset_card_of_nodup lists.nodup]

/-- The members of a closed interval form one block of the listing: what is
below the interval precedes it and what is above follows it. -/
theorem eq_append_of_between {window : List α} {low high : α}
    (lists : IsListing members listing) (ordered : low ≤ high)
    (windowLists : IsListing
      (members.filter fun value => low ≤ value ∧ value ≤ high) window) :
    listing = listing.filter (· < low) ++ window ++ listing.filter (high < ·) := by
  refine eq_of_mem_iff lists.increasing ?_ ?_
  · rw [append_assoc, pairwise_append, pairwise_append]
    refine ⟨lists.increasing.filter _, ⟨windowLists.increasing, lists.increasing.filter _, ?_⟩, ?_⟩
    · intro inside insideMem above aboveMem
      have bounds := (Finset.mem_filter.mp ((windowLists.mem_iff inside).mp insideMem)).2
      have beyond : high < above := by simpa using (mem_filter.mp aboveMem).2
      exact lt_of_le_of_lt bounds.2 beyond
    · intro below belowMem other otherMem
      have under : below < low := by simpa using (mem_filter.mp belowMem).2
      rcases mem_append.mp otherMem with insideMem | aboveMem
      · have bounds := (Finset.mem_filter.mp ((windowLists.mem_iff other).mp insideMem)).2
        exact lt_of_lt_of_le under bounds.1
      · have beyond : high < other := by simpa using (mem_filter.mp aboveMem).2
        exact lt_trans (lt_of_lt_of_le under ordered) beyond
  · intro value
    simp only [mem_append, mem_filter, windowLists.mem_iff,
      Finset.mem_filter, lists.mem_iff, decide_eq_true_eq]
    constructor
    · intro member
      rcases lt_or_ge value low with under | reached
      · exact .inl (.inl ⟨member, under⟩)
      · rcases lt_or_ge high value with beyond | within
        · exact .inr ⟨member, beyond⟩
        · exact .inl (.inr ⟨member, reached, within⟩)
    · rintro ((⟨member, _⟩ | ⟨member, _⟩) | ⟨member, _⟩) <;> exact member

theorem eq_append_at (lists : IsListing members listing) (value : α) :
    listing = listing.filter (· < value) ++ listing.filter (value ≤ ·) := by
  refine eq_of_mem_iff lists.increasing ?_ ?_
  · rw [pairwise_append]
    refine ⟨lists.increasing.filter _, lists.increasing.filter _, ?_⟩
    intro below belowMem above aboveMem
    have under : below < value := by simpa using (mem_filter.mp belowMem).2
    have reached : value ≤ above := by simpa using (mem_filter.mp aboveMem).2
    exact lt_of_lt_of_le under reached
  · intro other
    simp only [mem_append, mem_filter, decide_eq_true_eq]
    constructor
    · intro member
      rcases lt_or_ge other value with under | reached
      · exact .inl ⟨member, under⟩
      · exact .inr ⟨member, reached⟩
    · rintro (⟨member, _⟩ | ⟨member, _⟩) <;> exact member

/-- Around a nonempty block that lies inside a larger block, the listing splits
the same way. -/
theorem nested {low inner high before block after : List α}
    (outer : IsListing members (low ++ inner ++ high))
    (lists : IsListing members (before ++ block ++ after)) (nonempty : block ≠ [])
    (inside : ∀ value ∈ block, value ∈ inner) :
    ∃ left right, inner = left ++ block ++ right ∧ before = low ++ left ∧
      after = right ++ high := by
  have noneLow : ∀ value ∈ block, value ∉ low := by
    intro value member isLow
    have distinct := outer.nodup
    rw [append_assoc, nodup_append] at distinct
    exact distinct.2.2 value isLow value (mem_append_left _ (inside value member)) rfl
  have noneHigh : ∀ value ∈ block, value ∉ high := by
    intro value member isHigh
    have distinct := outer.nodup
    rw [nodup_append] at distinct
    exact distinct.2.2 value (mem_append_right _ (inside value member)) value isHigh rfl
  have same := outer.unique lists
  obtain ⟨left, beforeEq, restEq⟩ :
      ∃ left, before = low ++ left ∧ inner ++ high = left ++ (block ++ after) := by
    rw [append_assoc, append_assoc] at same
    rcases append_eq_append_iff.mp same with ⟨left, beforeEq, rest⟩ | ⟨extra, lowEq, rest⟩
    · exact ⟨left, beforeEq, rest⟩
    · cases extra with
      | nil => exact ⟨[], by simpa using lowEq.symm, by simpa using rest.symm⟩
      | cons value extra =>
        obtain ⟨head, tail, rfl⟩ := exists_cons_of_ne_nil nonempty
        have headEq : head = value := by simpa using congrArg head? rest
        exact (noneLow head (by simp) (by simp [lowEq, headEq])).elim
  rw [← append_assoc] at restEq
  rcases append_eq_append_iff.mp restEq with ⟨extra, whole, highEq⟩ | ⟨right, innerEq, rest⟩
  · rcases eq_nil_or_concat extra with rfl | ⟨init, value, rfl⟩
    · refine ⟨left, [], ?_, beforeEq, by simpa using highEq.symm⟩
      simpa using whole.symm
    · obtain ⟨front, last, rfl⟩ : ∃ front last, block = front ++ [last] := by
        rcases eq_nil_or_concat block with none | ⟨front, last, blockEq⟩
        · exact (nonempty none).elim
        · exact ⟨front, last, by simpa using blockEq⟩
      have lastEq : last = value := by simpa using congrArg getLast? whole
      exact (noneHigh last (by simp) (by simp [highEq, lastEq])).elim
  · exact ⟨left, right, innerEq, beforeEq, rest⟩

theorem extend {more : Finset α} {init after : List α} (lists : IsListing members (init ++ after))
    (grows : members ⊆ more) (newer : ∀ value ∈ more, value ∉ members → ∀ old ∈ init, old < value) :
    ∃ later, IsListing more (init ++ later) := by
  have rest := sort (more.filter fun value => ∀ old ∈ init, old < value)
  refine ⟨_, ⟨pairwise_append.mpr ⟨?_, rest.increasing, ?_⟩, ?_⟩⟩
  · exact (pairwise_append.mp lists.increasing).1
  · intro old oldMem value member
    exact (Finset.mem_filter.mp ((rest.mem_iff value).mp member)).2 old oldMem
  · intro value
    rw [mem_append, rest.mem_iff, Finset.mem_filter]
    constructor
    · rintro (old | new)
      · exact grows ((lists.mem_iff value).mp (mem_append_left _ old))
      · exact new.1
    · intro member
      by_cases known : value ∈ members
      · rcases mem_append.mp ((lists.mem_iff value).mpr known) with old | later
        · exact .inl old
        · exact .inr ⟨member, fun old oldMem =>
            (pairwise_append.mp lists.increasing).2.2 old oldMem value later⟩
      · exact .inr ⟨member, newer value member known⟩

theorem erase (lists : IsListing members listing) (value : α) :
    IsListing (members.erase value) (listing.filter (· ≠ value)) where
  increasing := lists.increasing.filter _
  mem_iff other := by
    rw [mem_filter, lists.mem_iff, Finset.mem_erase, decide_eq_true_eq, and_comm]

end IsListing

end TelegramDesktop
