import Mathlib.Data.List.Nodup

/-!
# Lists with one entry for each key

An entry is found by its key.  A new entry takes the place of the one with its key, or
comes last.
-/

namespace TelegramDesktop

open List

section PlaceByKey

variable {α κ : Type*} [DecidableEq κ] (key : α → κ)

/-- The first entry with the key is replaced, or the new one is appended. -/
def placeByKey (new : α) (entries : List α) : List α :=
  match entries.findIdx? fun entry => key entry = key new with
  | none => entries ++ [new]
  | some index => entries.set index new

/-- The first entry of the key is erased. -/
def eraseByKey (removed : κ) (entries : List α) : List α :=
  entries.eraseP fun entry => key entry = removed

/-- The entries with one key. -/
def withKey (asked : κ) (entries : List α) : List α :=
  entries.filter fun entry => key entry = asked

variable {key} {entries : List α} {asked : κ}

theorem withKey_append (asked : κ) (first second : List α) :
    withKey key asked (first ++ second) = withKey key asked first ++ withKey key asked second :=
  filter_append _ _

theorem withKey_cons_self (entry : α) (entries : List α) :
    withKey key (key entry) (entry :: entries) = entry :: withKey key (key entry) entries :=
  filter_cons_of_pos (decide_eq_true rfl)

theorem withKey_cons_of_ne {entry : α} (other : key entry ≠ asked) (entries : List α) :
    withKey key asked (entry :: entries) = withKey key asked entries :=
  filter_cons_of_neg (by simp [other])

theorem withKey_eq_nil (absent : asked ∉ entries.map key) : withKey key asked entries = [] := by
  refine filter_eq_nil_iff.mpr fun entry member has => absent ?_
  exact mem_map.mpr ⟨entry, member, of_decide_eq_true has⟩

theorem exists_first_withKey (present : asked ∈ entries.map key) :
    ∃ before found after, entries = before ++ found :: after ∧ key found = asked ∧
      asked ∉ before.map key := by
  induction entries with
  | nil => cases present
  | cons head entries ih =>
    by_cases here : key head = asked
    · exact ⟨[], head, entries, rfl, here, not_mem_nil⟩
    · rw [map_cons, mem_cons] at present
      obtain ⟨before, found, after, rfl, has, fresh⟩ := ih (present.resolve_left (Ne.symm here))
      refine ⟨head :: before, found, after, rfl, has, ?_⟩
      rw [map_cons, mem_cons, not_or]
      exact ⟨Ne.symm here, fresh⟩

theorem placeByKey_of_notMem {new : α} (absent : key new ∉ entries.map key) :
    placeByKey key new entries = entries ++ [new] := by
  have none : entries.findIdx? (fun entry => key entry = key new) = none := by
    rw [findIdx?_eq_none_iff]
    intro entry member
    have other : key entry ≠ key new := fun same => absent (mem_map.mpr ⟨entry, member, same⟩)
    simp [other]
  rw [placeByKey, none]

variable {before after : List α}

theorem findIdx?_split {found : α} (has : key found = asked) (fresh : asked ∉ before.map key) :
    (before ++ found :: after).findIdx? (fun entry => key entry = asked) = some before.length := by
  rw [findIdx?_eq_some_iff_getElem]
  refine ⟨by simp, by simp [has], fun index earlier => ?_⟩
  rw [getElem_append_left earlier, decide_eq_true_eq]
  exact fun same => fresh (mem_map.mpr ⟨_, getElem_mem earlier, same⟩)

theorem placeByKey_split {new found : α}
    (has : key found = key new) (fresh : key new ∉ before.map key) :
    placeByKey key new (before ++ found :: after) = before ++ new :: after := by
  rw [placeByKey, findIdx?_split has fresh]
  simp

theorem eraseByKey_of_notMem (absent : asked ∉ entries.map key) :
    eraseByKey key asked entries = entries := by
  refine eraseP_of_forall_not fun entry member has => absent ?_
  exact mem_map.mpr ⟨entry, member, of_decide_eq_true has⟩

theorem eraseByKey_split {found : α} (has : key found = asked) (fresh : asked ∉ before.map key) :
    eraseByKey key asked (before ++ found :: after) = before ++ after := by
  unfold eraseByKey
  rw [eraseP_append_right _ fun entry member same => fresh
    (mem_map.mpr ⟨entry, member, of_decide_eq_true same⟩), eraseP_cons_of_pos]
  exact decide_eq_true has

theorem nodup_placeByKey (new : α) (distinct : (entries.map key).Nodup) :
    ((placeByKey key new entries).map key).Nodup := by
  by_cases present : key new ∈ entries.map key
  · obtain ⟨before, found, after, rfl, has, fresh⟩ := exists_first_withKey present
    rw [placeByKey_split has fresh, map_append, map_cons, ← has]
    rwa [map_append, map_cons] at distinct
  · rw [placeByKey_of_notMem present, map_append, nodup_append]
    refine ⟨distinct, nodup_singleton _, fun first firstMem second secondMem same => ?_⟩
    rw [map_singleton, mem_singleton] at secondMem
    exact present (secondMem ▸ same ▸ firstMem)

theorem nodup_eraseByKey (removed : κ) (distinct : (entries.map key).Nodup) :
    ((eraseByKey key removed entries).map key).Nodup :=
  distinct.sublist ((eraseP_sublist).map key)

theorem mem_eraseByKey_iff {entry : α} {removed : κ} (distinct : (entries.map key).Nodup) :
    entry ∈ eraseByKey key removed entries ↔ entry ∈ entries ∧ key entry ≠ removed := by
  by_cases present : removed ∈ entries.map key
  · obtain ⟨before, found, after, rfl, rfl, fresh⟩ := exists_first_withKey present
    rw [map_append, map_cons, nodup_append, nodup_cons] at distinct
    rw [eraseByKey_split rfl fresh]
    have notBefore : entry ∈ before → key entry ≠ key found := fun member same =>
      fresh (mem_map.mpr ⟨entry, member, same⟩)
    have notAfter : entry ∈ after → key entry ≠ key found := fun member same =>
      distinct.2.1.1 (mem_map.mpr ⟨entry, member, same⟩)
    simp only [mem_append, mem_cons]
    tauto
  · rw [eraseByKey_of_notMem present]
    refine (and_iff_left_of_imp fun member same => present ?_).symm
    exact mem_map.mpr ⟨entry, member, same⟩

theorem withKey_placeByKey_self (new : α) (distinct : (entries.map key).Nodup) :
    withKey key (key new) (placeByKey key new entries) = [new] := by
  by_cases present : key new ∈ entries.map key
  · obtain ⟨before, found, after, rfl, has, fresh⟩ := exists_first_withKey present
    rw [map_append, map_cons, nodup_append, nodup_cons] at distinct
    rw [placeByKey_split has fresh, withKey_append, withKey_eq_nil fresh, withKey_cons_self,
      withKey_eq_nil (has ▸ distinct.2.1.1), nil_append]
  · rw [placeByKey_of_notMem present, withKey_append, withKey_eq_nil present, withKey_cons_self]
    rfl

theorem withKey_placeByKey_of_ne {new : α} (other : key new ≠ asked) (entries : List α) :
    withKey key asked (placeByKey key new entries) = withKey key asked entries := by
  by_cases present : key new ∈ entries.map key
  · obtain ⟨before, found, after, rfl, has, fresh⟩ := exists_first_withKey present
    rw [placeByKey_split has fresh, withKey_append, withKey_append, withKey_cons_of_ne other,
      withKey_cons_of_ne (has ▸ other)]
  · rw [placeByKey_of_notMem present, withKey_append, withKey_cons_of_ne other]
    exact append_nil _

theorem mem_withKey {entry : α} :
    entry ∈ withKey key asked entries ↔ entry ∈ entries ∧ key entry = asked := by
  rw [withKey, mem_filter, decide_eq_true_eq]

theorem mem_placeByKey_iff {new entry : α} (distinct : (entries.map key).Nodup) :
    entry ∈ placeByKey key new entries ↔
      entry = new ∨ (entry ∈ entries ∧ key entry ≠ key new) := by
  have placed : entry ∈ placeByKey key new entries ↔
      entry ∈ withKey key (key entry) (placeByKey key new entries) := by
    rw [mem_withKey, and_iff_left rfl]
  rw [placed]
  by_cases same : key entry = key new
  · rw [same, withKey_placeByKey_self new distinct, mem_singleton]
    simp
  · rw [withKey_placeByKey_of_ne (Ne.symm same), mem_withKey]
    have other : entry ≠ new := fun equal => same (congrArg key equal)
    simp [same, other]

theorem withKey_eraseByKey_self (removed : κ) (distinct : (entries.map key).Nodup) :
    withKey key removed (eraseByKey key removed entries) = [] := by
  by_cases present : removed ∈ entries.map key
  · obtain ⟨before, found, after, rfl, rfl, fresh⟩ := exists_first_withKey present
    rw [map_append, map_cons, nodup_append, nodup_cons] at distinct
    rw [eraseByKey_split rfl fresh, withKey_append, withKey_eq_nil fresh,
      withKey_eq_nil distinct.2.1.1, nil_append]
  · rw [eraseByKey_of_notMem present, withKey_eq_nil present]

theorem withKey_eraseByKey_of_ne {removed : κ} (other : removed ≠ asked) (entries : List α) :
    withKey key asked (eraseByKey key removed entries) = withKey key asked entries := by
  by_cases present : removed ∈ entries.map key
  · obtain ⟨before, found, after, rfl, rfl, fresh⟩ := exists_first_withKey present
    rw [eraseByKey_split rfl fresh, withKey_append, withKey_append, withKey_cons_of_ne other]
  · rw [eraseByKey_of_notMem present]

/-- Where every key is there once, the first entry with a key is the last one too. -/
theorem find?_eq_getLast?_withKey (asked : κ) (distinct : (entries.map key).Nodup) :
    (entries.find? fun entry => key entry = asked) = (withKey key asked entries).getLast? := by
  by_cases present : asked ∈ entries.map key
  · obtain ⟨before, found, after, rfl, rfl, fresh⟩ := exists_first_withKey present
    rw [map_append, map_cons, nodup_append, nodup_cons] at distinct
    have none : before.find? (fun entry => key entry = key found) = none := by
      rw [find?_eq_none]
      intro entry member has
      exact fresh (mem_map.mpr ⟨entry, member, of_decide_eq_true has⟩)
    rw [withKey_append, withKey_eq_nil fresh, withKey_cons_self, withKey_eq_nil distinct.2.1.1,
      find?_append, none]
    simp
  · rw [withKey_eq_nil present, getLast?_nil, find?_eq_none]
    intro entry member has
    exact present (mem_map.mpr ⟨entry, member, of_decide_eq_true has⟩)

end PlaceByKey

end TelegramDesktop
