import Mathlib.Algebra.Order.BigOperators.Group.List
import Mathlib.Data.List.Sublists
import Mathlib.Tactic.Linarith

/-!
# Gapless numbered streams

Each item of a stream carries the position it ends at and the number of positions it
takes. The stream is gapless from a base when every item starts where the one before it
ended.
-/

namespace TelegramDesktop

open List

section Streams

variable {α : Type*} (ends count : α → Int)

/-- Every item starts where the one before it ended, and is not empty. -/
def Gapless : Int → List α → Prop
  | _, [] => True
  | base, item :: items =>
    ends item = base + count item ∧ 0 < count item ∧ Gapless (ends item) items

/-- Where a sequence of items that starts at `base` ends. -/
def lastEnd : Int → List α → Int
  | base, [] => base
  | _, item :: items => lastEnd (ends item) items

variable {ends count}

@[simp] theorem lastEnd_nil (base : Int) : lastEnd ends base [] = base := rfl

@[simp] theorem lastEnd_cons (base : Int) (item : α) (items : List α) :
    lastEnd ends base (item :: items) = lastEnd ends (ends item) items := rfl

theorem lastEnd_append (base : Int) (first second : List α) :
    lastEnd ends base (first ++ second) = lastEnd ends (lastEnd ends base first) second := by
  induction first generalizing base with
  | nil => rfl
  | cons item first ih => exact ih (ends item)

theorem lastEnd_eq_of_ne_nil {items : List α} (some : items ≠ []) (base other : Int) :
    lastEnd ends base items = lastEnd ends other items := by
  cases items with
  | nil => exact (some rfl).elim
  | cons item items => rfl

theorem lastEnd_lt {bound : Int} {items : List α} {base : Int} (below : base < bound)
    (bounded : ∀ item ∈ items, ends item < bound) : lastEnd ends base items < bound := by
  induction items generalizing base with
  | nil => exact below
  | cons item items ih =>
    exact ih (bounded item (by simp)) fun other member => bounded other (by simp [member])

namespace Gapless

theorem append {base : Int} {first second : List α} :
    Gapless ends count base (first ++ second) ↔
      Gapless ends count base first ∧
        Gapless ends count (lastEnd ends base first) second := by
  induction first generalizing base with
  | nil => simp [Gapless]
  | cons item first ih =>
    rw [cons_append, Gapless, Gapless, ih, lastEnd_cons]
    tauto

section

variable {base : Int} {items : List α} (gapless : Gapless ends count base items)
include gapless

theorem lt_ends {item : α} (member : item ∈ items) : base < ends item := by
  induction items generalizing base with
  | nil => cases member
  | cons head items ih =>
    obtain ⟨headEnds, positive, rest⟩ := gapless
    rcases mem_cons.mp member with rfl | later
    · omega
    · have beyond := ih rest later
      omega

theorem count_pos {item : α} (member : item ∈ items) : 0 < count item := by
  induction items generalizing base with
  | nil => cases member
  | cons head items ih =>
    rcases mem_cons.mp member with rfl | later
    · exact gapless.2.1
    · exact ih gapless.2.2 later

theorem increasing : items.Pairwise fun first second => ends first < ends second := by
  induction items generalizing base with
  | nil => exact .nil
  | cons head items ih =>
    rw [pairwise_cons]
    exact ⟨fun item member => gapless.2.2.lt_ends member, ih gapless.2.2⟩

theorem nodup : items.Nodup :=
  gapless.increasing.imp fun below same => ne_of_lt below (congrArg ends same)

theorem eq_of_ends {first second : α} (firstMem : first ∈ items) (secondMem : second ∈ items)
    (same : ends first = ends second) : first = second := by
  induction items generalizing base with
  | nil => cases firstMem
  | cons head items ih =>
    have beyond : ∀ item ∈ items, ends head < ends item :=
      fun item member => gapless.2.2.lt_ends member
    rcases mem_cons.mp firstMem with rfl | firstLater
    · rcases mem_cons.mp secondMem with rfl | secondLater
      · rfl
      · exact absurd same (ne_of_lt (beyond second secondLater))
    · rcases mem_cons.mp secondMem with rfl | secondLater
      · exact absurd same (ne_of_gt (beyond first firstLater))
      · exact ih gapless.2.2 firstLater secondLater

theorem ends_le_lastEnd {item : α} (member : item ∈ items) :
    ends item ≤ lastEnd ends base items := by
  induction items generalizing base item with
  | nil => cases member
  | cons head items ih =>
    rw [lastEnd_cons]
    rcases mem_cons.mp member with rfl | later
    · cases items with
      | nil => exact le_refl _
      | cons next items =>
        have nextMem : next ∈ next :: items := mem_cons_self
        exact (gapless.2.2.lt_ends nextMem).le.trans (ih gapless.2.2 nextMem)
    · exact ih gapless.2.2 later

theorem sublist_sum {part : List α} (sub : part.Sublist items) :
    base + (part.map count).sum ≤ lastEnd ends base part ∧
      (base + (part.map count).sum = lastEnd ends base part ↔ part <+: items) := by
  induction items generalizing base part with
  | nil =>
    obtain rfl := sublist_nil.mp sub
    simp
  | cons item items ih =>
    obtain ⟨itemEnds, positive, rest⟩ := gapless
    cases part with
    | nil => simp
    | cons head part =>
      cases sub with
      | cons _ skipped =>
        -- the first item is missing, so the sum falls short of the end
        have covered := (ih rest skipped).1
        have beyond := rest.lt_ends (skipped.subset mem_cons_self)
        rw [lastEnd_cons] at covered ⊢
        refine ⟨by omega, ?_⟩
        constructor
        · intro equal
          omega
        · intro isPrefix
          have same := (cons_prefix_cons.mp isPrefix).1
          rw [same] at beyond
          exact (lt_irrefl _ beyond).elim
      | cons_cons _ kept =>
        have covered := ih rest kept
        simp only [map_cons, sum_cons, lastEnd_cons, cons_prefix_cons, true_and]
        rw [← covered.2]
        constructor <;> omega

end

end Gapless

section Receiving

variable {items : List α} {seen seenNext : α → Bool} {item : α}

theorem filter_receive (distinct : items.Nodup) (member : item ∈ items)
    (unseen : ¬ seen item = true)
    (receives : ∀ other ∈ items, seenNext other = true ↔ seen other = true ∨ other = item) :
    ∃ left right, items.filter seen = left ++ right ∧
      items.filter seenNext = left ++ item :: right := by
  obtain ⟨before, after, rfl⟩ := append_of_mem member
  rw [nodup_append, nodup_cons] at distinct
  have stays : ∀ part : List α, (∀ other ∈ part, other ∈ before ++ item :: after) →
      item ∉ part → part.filter seenNext = part.filter seen := by
    intro part inside absent
    apply filter_congr
    intro other otherMem
    have other_ne : other ≠ item := fun same => absent (same ▸ otherMem)
    have same := receives other (inside other otherMem)
    simp only [other_ne, or_false] at same
    exact Bool.eq_iff_iff.mpr same
  have beforeEq := stays before (fun other otherMem => by simp [otherMem])
    (fun inBefore => distinct.2.2 item inBefore item (by simp) rfl)
  have afterEq := stays after (fun other otherMem => by simp [otherMem]) distinct.2.1.1
  have seenItem : seenNext item = true := (receives item member).mpr (.inr rfl)
  refine ⟨before.filter seen, after.filter seen, ?_, ?_⟩
  · rw [filter_append, filter_cons_of_neg unseen]
  · rw [filter_append, filter_cons_of_pos seenItem, beforeEq, afterEq]

theorem sum_receive {left right : List α} :
    ((left ++ item :: right).map count).sum =
      ((left ++ right).map count).sum + count item := by
  simp only [map_append, map_cons, sum_append, sum_cons]
  omega

theorem lastEnd_mem (some : items ≠ []) (base : Int) :
    ∃ last ∈ items, lastEnd ends base items = ends last := by
  induction items generalizing base with
  | nil => exact (some rfl).elim
  | cons head items ih =>
    cases items with
    | nil => exact ⟨head, mem_cons_self, rfl⟩
    | cons next items =>
      obtain ⟨last, member, lastEq⟩ := ih (by simp) (ends head)
      exact ⟨last, mem_cons_of_mem _ member, lastEq⟩

theorem lastEnd_receive {base : Int} {left right : List α}
    (increasing : (left ++ item :: right).Pairwise fun first second =>
      ends first < ends second)
    (above : base < ends item) :
    lastEnd ends base (left ++ item :: right) =
      max (lastEnd ends base (left ++ right)) (ends item) := by
  rw [pairwise_append, pairwise_cons] at increasing
  rw [lastEnd_append, lastEnd_cons, lastEnd_append]
  by_cases none : right = []
  · subst none
    rw [lastEnd_nil, lastEnd_nil]
    by_cases noLeft : left = []
    · subst noLeft
      exact (max_eq_right above.le).symm
    · obtain ⟨last, member, lastEq⟩ : ∃ last ∈ left, lastEnd ends base left = ends last :=
        lastEnd_mem noLeft base
      rw [lastEq]
      exact (max_eq_right (increasing.2.2 last member item (by simp)).le).symm
  · rw [lastEnd_eq_of_ne_nil none (ends item) (lastEnd ends base left)]
    obtain ⟨last, member, lastEq⟩ : ∃ last ∈ right,
        lastEnd ends (lastEnd ends base left) right = ends last := lastEnd_mem none _
    rw [lastEq]
    exact (max_eq_left (increasing.2.1.1 last member).le).symm

end Receiving

variable (ends count) in
/-- A receiver that is done with `finished` and has seen a part of `rest` knows
where the finished items end, the largest end seen and the positions covered. -/
structure Accounts (base : Int) (items : List α) (seen : α → Bool)
    (good last total : Int) (finished rest : List α) : Prop where
  split : items = finished ++ rest
  good_eq : good = lastEnd ends base finished
  finished_seen : ∀ item ∈ finished, seen item = true
  last_eq : last = lastEnd ends good (rest.filter seen)
  total_eq : total = good + ((rest.filter seen).map count).sum

namespace Accounts

variable {base good last total : Int} {items finished rest : List α}
  {seen seenNext : α → Bool}

theorem start (base : Int) (items : List α) :
    Accounts ends count base items (fun _ => false) base base base [] items where
  split := rfl
  good_eq := rfl
  finished_seen _ member := by cases member
  last_eq := by simp
  total_eq := by simp

section

variable (accounts : Accounts ends count base items seen good last total finished rest)
include accounts

section

variable (gapless : Gapless ends count base items)

include gapless

theorem gapless_rest : Gapless ends count good rest := by
  rw [accounts.split, Gapless.append] at gapless
  rw [accounts.good_eq]
  exact gapless.2

theorem ends_le_good_iff {item : α} (member : item ∈ items) :
    ends item ≤ good ↔ item ∈ finished := by
  have restGapless := accounts.gapless_rest gapless
  rw [accounts.split] at gapless member
  constructor
  · intro bounded
    rcases mem_append.mp member with inFinished | inRest
    · exact inFinished
    · exact absurd (restGapless.lt_ends inRest) (not_lt.mpr bounded)
  · intro inFinished
    rw [accounts.good_eq]
    exact (Gapless.append.mp gapless).1.ends_le_lastEnd inFinished

theorem total_le_last : total ≤ last := by
  rw [accounts.total_eq, accounts.last_eq]
  exact ((accounts.gapless_rest gapless).sublist_sum filter_sublist).1

theorem good_le_total : good ≤ total := by
  have counts : 0 ≤ ((rest.filter seen).map count).sum := by
    apply sum_nonneg
    intro value member
    obtain ⟨item, itemMem, rfl⟩ := mem_map.mp member
    exact ((accounts.gapless_rest gapless).count_pos (mem_filter.mp itemMem).1).le
  rw [accounts.total_eq]
  omega

end

theorem last_lt {bound : Int} (below : base < bound) (bounded : ∀ item ∈ items, ends item < bound) :
    last < bound := by
  rw [accounts.split] at bounded
  have goodBelow : good < bound := by
    rw [accounts.good_eq]
    exact lastEnd_lt below fun item member => bounded item (by simp [member])
  rw [accounts.last_eq]
  apply lastEnd_lt goodBelow
  intro item member
  exact bounded item (by simp [(mem_filter.mp member).1])

section

variable (gapless : Gapless ends count base items)

include gapless

theorem last_eq_total (all : ∀ item ∈ items, seen item = true) : last = total := by
  have everything : rest.filter seen = rest := by
    rw [filter_eq_self]
    intro item member
    apply all
    rw [accounts.split]
    exact mem_append_right _ member
  have covered := (accounts.gapless_rest gapless).sublist_sum (Sublist.refl rest)
  rw [accounts.last_eq, accounts.total_eq, everything]
  exact (covered.2.mpr prefix_rfl).symm

theorem nodup_rest : rest.Nodup :=
  (accounts.gapless_rest gapless).nodup

theorem receive {item : α} (member : item ∈ items) (unseen : ¬ seen item = true)
    (receives : ∀ other ∈ items, seenNext other = true ↔ seen other = true ∨ other = item) :
    Accounts ends count base items seenNext good (max last (ends item))
      (total + count item) finished rest := by
  have restGapless := accounts.gapless_rest gapless
  have inRest : item ∈ rest := by
    rw [accounts.split] at member
    exact (mem_append.mp member).resolve_left fun inFinished =>
      unseen (accounts.finished_seen item inFinished)
  have inItems : ∀ other, other ∈ finished ∨ other ∈ rest → other ∈ items := by
    intro other somewhere
    rw [accounts.split]
    exact mem_append.mpr somewhere
  obtain ⟨left, right, was, becomes⟩ := filter_receive (accounts.nodup_rest gapless)
    inRest unseen fun other otherMem => receives other (inItems other (.inr otherMem))
  have increasing : (left ++ item :: right).Pairwise fun first second =>
      ends first < ends second := by
    rw [← becomes]
    exact restGapless.increasing.sublist filter_sublist
  refine ⟨accounts.split, accounts.good_eq, ?_, ?_, ?_⟩
  · intro other otherMem
    exact (receives other (inItems other (.inl otherMem))).mpr
      (.inl (accounts.finished_seen other otherMem))
  · rw [becomes, lastEnd_receive increasing (restGapless.lt_ends inRest), ← was, ← accounts.last_eq]
  · rw [becomes, sum_receive, ← was, accounts.total_eq]
    omega

/-- When the covered positions reach the largest end, everything seen is
finished. -/
theorem close (closed : last = total) :
    ∃ later, rest = rest.filter seen ++ later ∧ later.filter seen = [] ∧
      Accounts ends count base items seen last last total
        (finished ++ rest.filter seen) later := by
  have covered := (accounts.gapless_rest gapless).sublist_sum
    (filter_sublist : (rest.filter seen).Sublist rest)
  rw [← accounts.last_eq, ← accounts.total_eq] at covered
  obtain ⟨later, split⟩ := covered.2.mp closed.symm
  have noneLater : later.filter seen = [] := by
    have filtered := congrArg (filter seen) split
    rw [filter_append, filter_filter] at filtered
    simpa using filtered
  refine ⟨later, split.symm, noneLater, ?_⟩
  refine ⟨?_, ?_, ?_, ?_, ?_⟩
  · rw [append_assoc, split]
    exact accounts.split
  · rw [lastEnd_append, ← accounts.good_eq]
    exact accounts.last_eq
  · intro item member
    rcases mem_append.mp member with inFinished | inRest
    · exact accounts.finished_seen item inFinished
    · exact (mem_filter.mp inRest).2
  · rw [noneLater, lastEnd_nil]
  · rw [noneLater]
    simpa using closed.symm

end

end

end Accounts

end Streams

end TelegramDesktop
