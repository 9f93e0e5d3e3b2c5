import TelegramDesktop.FlatSet

/-!
# Descending lists

A list that is strictly decreasing is a flat set of the opposite order.  A lower bound of it
is the position of the first item that is not above a value.
-/

namespace TelegramDesktop

open List

variable {α : Type*} [LinearOrder α]

/-- Every item is above all that follow. -/
abbrev Descending (items : List α) : Prop := items.Pairwise (· > ·)

/-- `ranges::lower_bound(items, bound, std::greater<>())` -/
def lowerBoundGreater (items : List α) (bound : α) : Nat :=
  (items.takeWhile (bound < ·)).length

/-- `items.insert(lower_bound, value)` -/
def insertGreater (items : List α) (value : α) : List α :=
  items.take (lowerBoundGreater items value) ++
    value :: items.drop (lowerBoundGreater items value)

namespace Descending

variable {items : List α} {bound value : α}

section

variable (descending : Descending items)
include descending

theorem nodup : items.Nodup :=
  descending.imp fun above => ne_of_gt above

theorem take_lowerBound (bound : α) :
    items.take (lowerBoundGreater items bound) = items.filter (bound < ·) :=
  @FlatSet.take_lowerBound αᵒᵈ _ ⟨items, descending⟩ bound

theorem drop_lowerBound (bound : α) :
    items.drop (lowerBoundGreater items bound) = items.filter (· ≤ bound) :=
  @FlatSet.drop_lowerBound αᵒᵈ _ ⟨items, descending⟩ bound

theorem le_head {front : α} (isFront : items.head? = some front) (member : value ∈ items) :
    value ≤ front :=
  @FlatSet.front?_le αᵒᵈ _ ⟨items, descending⟩ _ _ isFront member

theorem getLast_le {back : α} (isBack : items.getLast? = some back) (member : value ∈ items) :
    back ≤ value :=
  @FlatSet.le_back? αᵒᵈ _ ⟨items, descending⟩ _ _ isBack member

theorem insertGreater (unknown : value ∉ items) : Descending (insertGreater items value) := by
  have split : TelegramDesktop.insertGreater items value =
      items.filter (value < ·) ++ value :: items.filter (· ≤ value) := by
    rw [← descending.take_lowerBound value, ← descending.drop_lowerBound value]
    rfl
  rw [split, Descending, pairwise_append, pairwise_cons]
  refine ⟨descending.filter _, ⟨?_, descending.filter _⟩, ?_⟩
  · intro other member
    rw [mem_filter, decide_eq_true_eq] at member
    exact lt_of_le_of_ne member.2 fun same => unknown (same ▸ member.1)
  · intro first firstMem second secondMem
    rw [mem_filter, decide_eq_true_eq] at firstMem
    rcases mem_cons.mp secondMem with rfl | later
    · exact firstMem.2
    · rw [mem_filter, decide_eq_true_eq] at later
      exact lt_of_le_of_lt later.2 firstMem.2

theorem getElem?_lowerBound :
    items[lowerBoundGreater items bound]? = some bound ↔ bound ∈ items := by
  constructor
  · exact mem_of_getElem?
  · intro member
    have head : (items.drop (lowerBoundGreater items bound)).head? = some bound := by
      rw [descending.drop_lowerBound bound]
      have listed : bound ∈ items.filter (· ≤ bound) :=
        mem_filter.mpr ⟨member, decide_eq_true (le_refl bound)⟩
      have kept : Descending (items.filter (· ≤ bound)) := descending.filter _
      obtain ⟨first, rest, filtered⟩ := exists_cons_of_ne_nil (ne_nil_of_mem listed)
      have atMost : first ≤ bound := by
        have firstMem : first ∈ items.filter (· ≤ bound) := by
          rw [filtered]
          exact mem_cons_self
        exact of_decide_eq_true (mem_filter.mp firstMem).2
      have atLeast : bound ≤ first :=
        kept.le_head (by rw [filtered]; rfl) listed
      rw [filtered, head?_cons, le_antisymm atMost atLeast]
    rwa [head?_drop] at head

end

end Descending

end TelegramDesktop
