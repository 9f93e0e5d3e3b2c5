import TelegramDesktop.FlatMap
import Mathlib.Algebra.GroupWithZero.Nat

/-!
# Grouped items in sorted associative sequences

Items are added to the group of their key.
-/

namespace TelegramDesktop.FlatMap

open List

variable {κ α γ : Type*} [LinearOrder κ]

theorem ext_find? {first second : FlatMap κ γ}
    (same : ∀ key, first.find? key = second.find? key) : first = second :=
  ext_mem fun entry => by
    rw [← find?_eq_some, same, find?_eq_some]

variable {map : FlatMap κ γ} {key : κ} {value : γ}

theorem set_of_find? (found : map.find? key = some value) : map.set key value = map :=
  ext_find? fun other => by
    rw [find?_set]
    split
    next same =>
      rw [same, found]
    · rfl

theorem erase_set :
    (map.set key value).erase key = map.erase key :=
  ext_find? fun other => by
    rw [find?_erase, find?_erase, find?_set]
    split
    · rfl
    · rfl

theorem entries_perm_of_find? (found : map.find? key = some value) :
    map.entries.Perm ((key, value) :: (map.erase key).entries) := by
  have fresh : (key, value) ∉ (map.erase key).entries :=
    fun member => (mem_erase.mp member).2 rfl
  rw [perm_ext_iff_of_nodup map.nodup (nodup_cons.mpr ⟨fresh, (map.erase key).nodup⟩)]
  intro entry
  rw [mem_cons, mem_erase]
  constructor
  · intro member
    by_cases same : entry.1 = key
    · exact .inl (eq_of_key member (find?_eq_some.mp found) same)
    · exact .inr ⟨member, same⟩
  · rintro (rfl | ⟨member, -⟩)
    · exact find?_eq_some.mp found
    · exact member

theorem entries_set_perm :
    (map.set key value).entries.Perm ((key, value) :: (map.erase key).entries) := by
  have found : (map.set key value).find? key = some value := find?_set_self
  have perm := entries_perm_of_find? found
  rwa [erase_set] at perm

theorem size_set_pos : (map.set key value).size ≠ 0 := by
  intro none
  have found : (map.set key value).find? key = some value := find?_set_self
  have member := find?_eq_some.mp found
  exact ne_nil_of_mem member (length_eq_zero_iff.mp none)

theorem emplace_eq_set
    (fresh : map.find? key = none) : map.emplace key value = map.set key value := by
  have missing : map.contains key = false := by rw [contains, fresh]; rfl
  rw [set, erase_of_not_contains missing]

theorem find?_of_mem {entry : κ × γ} (member : entry ∈ map.entries) :
    map.find? entry.1 = some entry.2 :=
  find?_eq_some.mpr member

theorem find?_emplace {other : κ} :
    (map.emplace key value).find? other =
      if other = key then some ((map.find? key).getD value) else map.find? other := by
  cases found : map.find? key with
  | none =>
    rw [emplace_eq_set found, find?_set]
    rfl
  | some known =>
    have taken : map.contains key = true := by rw [contains, found]; rfl
    rw [emplace_of_contains taken]
    split
    next same =>
      rw [same, found]
      rfl
    · rfl

theorem find?_filter {keep : κ → Bool} :
    (map.filter fun entry => keep entry.1).find? key =
      if keep key then map.find? key else none := by
  ext found
  rw [find?_eq_some, mem_filter, ← find?_eq_some]
  split <;> simp [*]

theorem find?_mapValues {f : γ → γ} :
    (map.mapValues f).find? key = (map.find? key).map f := by
  unfold find? mapValues
  rw [find?_map, Option.map_map, Option.map_map]
  rfl

variable (init : γ) (add : γ → α → γ)

/-- An item is added to the group of its key, which starts as `init`. -/
def amend (map : FlatMap κ γ) (item : κ × α) : FlatMap κ γ :=
  map.set item.1 (add ((map.find? item.1).getD init) item.2)

variable {init add}

theorem find?_amend {item : κ × α} :
    (map.amend init add item).find? key =
      if key = item.1 then some (add ((map.find? item.1).getD init) item.2)
      else map.find? key :=
  find?_set

/-- What holds of the groups before and of an amended group holds of the groups
after. -/
theorem forall_amend {holds : κ → γ → Prop} {item : κ × α}
    (before : ∀ key group, map.find? key = some group → holds key group)
    (amended : holds item.1 (add ((map.find? item.1).getD init) item.2)) (key : κ)
    (group : γ) (found : (map.amend init add item).find? key = some group) :
    holds key group := by
  rw [find?_amend] at found
  split at found
  next same =>
    cases found
    rw [same]
    exact amended
  · exact before key group found

/-- The items of a group, each with its key. -/
def labelled (group : κ × List α) : List (κ × α) := group.2.map fun item => (group.1, item)

theorem find?_foldl_amend_labelled {group : κ × List α} :
    ((labelled group).foldl (amend init add) map).find? key =
      if key = group.1 ∧ group.2 ≠ [] then
        some (group.2.foldl add ((map.find? group.1).getD init))
      else map.find? key := by
  obtain ⟨label, items⟩ := group
  unfold labelled
  induction items generalizing map with
  | nil => simp
  | cons item items ih =>
    rw [map_cons, foldl_cons, ih, find?_amend, find?_amend, if_pos rfl]
    by_cases same : key = label
    · cases items with
      | nil => simp [same]
      | cons next items => simp [same]
    · simp [same]

theorem find?_foldl_amend {groups : List (κ × List α)}
    (distinct : groups.Pairwise fun first second => first.1 ≠ second.1)
    (filled : ∀ group ∈ groups, group.2 ≠ []) :
    ((groups.flatMap labelled).foldl (amend init add) map).find? key =
      match groups.find? fun group => group.1 = key with
      | none => map.find? key
      | some group => some (group.2.foldl add ((map.find? key).getD init)) := by
  induction groups generalizing map with
  | nil => rfl
  | cons group groups ih =>
    rw [pairwise_cons] at distinct
    have rest := fun map => @ih map distinct.2 fun other member => filled other (by simp [member])
    rw [flatMap_cons, foldl_append, rest, find?_foldl_amend_labelled]
    by_cases same : key = group.1
    · have others : (groups.find? fun other => other.1 = key) = none := by
        rw [find?_eq_none]
        intro other member
        rw [same, decide_eq_true_eq]
        exact Ne.symm (distinct.1 other member)
      rw [others, find?_cons_of_pos (by simp [same])]
      simp [same, filled group (by simp)]
    · rw [find?_cons_of_neg (by simp [Ne.symm same])]
      simp [same]

theorem find?_foldl_amend_entries {map : FlatMap κ (List α)}
    (filled : ∀ group ∈ map.entries, group.2 ≠ []) :
    ((map.entries.flatMap labelled).foldl (amend init add) ∅).find? key =
      (map.find? key).map fun items => items.foldl add init := by
  have distinct : map.entries.Pairwise fun first second => first.1 ≠ second.1 :=
    map.increasing.imp fun below => ne_of_lt below
  rw [find?_foldl_amend distinct filled]
  unfold find?
  cases map.entries.find? fun group => group.1 = key with
  | none => rfl
  | some group => rfl

theorem find?_foldl_amend_append {added : List (κ × α)} {map : FlatMap κ (List α)} :
    (added.foldl (amend [] fun group item => group ++ [item]) map).find? key =
      if key ∈ added.map Prod.fst then
        some ((map.find? key).getD [] ++ (added.filter (·.1 = key)).map Prod.snd)
      else map.find? key := by
  induction added generalizing map with
  | nil => simp
  | cons item added ih =>
    rw [foldl_cons, ih, find?_amend]
    by_cases same : key = item.1
    · subst same
      by_cases later : item.1 ∈ added.map Prod.fst
      · simp [later]
      · have none : added.filter (·.1 = item.1) = [] := by
          rw [filter_eq_nil_iff]
          intro other member equal
          exact later (mem_map.mpr ⟨other, member, of_decide_eq_true equal⟩)
        simp [later, none]
    · have there : key ∈ (item :: added).map Prod.fst ↔ key ∈ added.map Prod.fst := by
        rw [map_cons, mem_cons, or_iff_right same]
      rw [if_congr there rfl rfl]
      simp [same, Ne.symm same]

/-- The sum of the weights of all entries. -/
def total (weigh : κ → γ → Nat) (map : FlatMap κ γ) : Nat :=
  (map.entries.map fun entry => weigh entry.1 entry.2).sum

@[simp] theorem total_empty (weigh : κ → γ → Nat) : total weigh (∅ : FlatMap κ γ) = 0 := rfl

theorem total_erase (weigh : κ → γ → Nat) (found : map.find? key = some value) :
    total weigh map = weigh key value + total weigh (map.erase key) := by
  unfold total
  rw [((entries_perm_of_find? found).map _).sum_nat, map_cons, sum_cons]

theorem total_emplace (weigh : κ → γ → Nat) (fresh : map.contains key = false) :
    total weigh (map.emplace key value) = weigh key value + total weigh map := by
  have missing : map.find? key = none :=
    Option.not_isSome_iff_eq_none.mp (ne_true_of_eq_false fresh)
  rw [emplace_eq_set missing, total_erase weigh find?_set_self, erase_set,
    erase_of_not_contains fresh]

theorem total_congr {weigh other : κ → γ → Nat}
    (same : ∀ key value, map.find? key = some value → weigh key value = other key value) :
    total weigh map = total other map := by
  unfold total
  rw [map_congr_left fun entry member => same entry.1 entry.2 (find?_of_mem member)]

theorem total_const (weight : Nat) (map : FlatMap κ γ) :
    total (fun _ _ => weight) map = map.size * weight := by
  unfold total size
  rw [map_const', sum_replicate_nat]

theorem total_le_total {weigh other : κ → γ → Nat}
    (below : ∀ key value, weigh key value ≤ other key value) :
    total weigh map ≤ total other map := by
  unfold total
  induction map.entries with
  | nil => exact le_rfl
  | cons entry entries ih =>
    rw [map_cons, map_cons, sum_cons, sum_cons]
    exact Nat.add_le_add (below entry.1 entry.2) ih

variable [DecidableEq α]

/-- How often an item is in the groups. -/
def countItems (item : α) (map : FlatMap κ (List α)) : Nat :=
  (map.entries.map fun group => group.2.count item).sum

@[simp] theorem countItems_empty (item : α) : countItems item (∅ : FlatMap κ (List α)) = 0 := rfl

theorem countItems_emplace {map : FlatMap κ (List α)} (item : α) (items : List α)
    (fresh : map.contains key = false) :
    countItems item (map.emplace key items) = items.count item + countItems item map :=
  total_emplace (fun (_ : κ) (items : List α) => items.count item) fresh

theorem countItems_erase (map : FlatMap κ (List α)) (key : κ) (item : α) :
    countItems item map =
      ((map.find? key).getD []).count item + countItems item (map.erase key) := by
  cases found : map.find? key with
  | none =>
    have missing : map.contains key = false := by rw [contains, found]; rfl
    rw [erase_of_not_contains missing]
    simp
  | some items => exact total_erase (fun _ items => items.count item) found

theorem countItems_set (map : FlatMap κ (List α)) (key : κ) (items : List α) (item : α) :
    countItems item (map.set key items) = items.count item + countItems item (map.erase key) := by
  have gone : (map.erase key).contains key = false := by
    rw [← Bool.not_eq_true, contains_erase]
    exact fun contains => contains.1 rfl
  exact countItems_emplace item items gone

theorem countItems_emplaceAll {map : FlatMap κ (List α)} {groups : List (κ × List α)} (item : α)
    (distinct : groups.Pairwise fun first second => first.1 ≠ second.1)
    (fresh : ∀ group ∈ groups, map.contains group.1 = false) :
    countItems item (map.emplaceAll groups) =
      (groups.map fun group => group.2.count item).sum + countItems item map := by
  induction groups generalizing map with
  | nil => simp [emplaceAll]
  | cons group groups ih =>
    rw [pairwise_cons] at distinct
    have stillFresh : ∀ other ∈ groups, (map.emplace group.1 group.2).contains other.1 = false := by
      intro other member
      rw [← Bool.not_eq_true, contains_emplace, not_or]
      refine ⟨Ne.symm (distinct.1 other member), ?_⟩
      rw [fresh other (mem_cons_of_mem group member)]
      exact Bool.false_ne_true
    have rest := ih distinct.2 stillFresh
    have first := countItems_emplace item group.2 (fresh group mem_cons_self)
    rw [map_cons, sum_cons]
    change countItems item ((map.emplace group.1 group.2).emplaceAll groups) = _
    rw [rest, first]
    omega

end TelegramDesktop.FlatMap
