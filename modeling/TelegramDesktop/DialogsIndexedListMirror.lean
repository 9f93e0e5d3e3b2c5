import TelegramDesktop.DialogsIndexedList

/-!
# The letter index mirrors the list

What each operation changes of the keys in the lists of letters.  Only `clear` treats the lists
of letters and the list of all rows differently.
-/

namespace TelegramDesktop

open Function List FlatSet
open Dialogs (SortMode Row Entries)

namespace DialogsList

variable {K D N : Type*} [LinearOrder K] {list : DialogsList K}

/-- The key has a row in the list. -/
def Has (list : DialogsList K) (key : K) : Prop := (list.getRow key).isSome = true

/-- A change keeps a list addressable and says which keys are in it afterwards. -/
structure Changes (change : DialogsList K → DialogsList K) (keys : (K → Prop) → K → Prop) :
    Prop where
  addressable : ∀ list, list.Addressable → (change list).Addressable
  has : ∀ list, list.Addressable → ∀ key, (change list).Has key ↔ keys list.Has key

theorem Moved.has {moved : DialogsList K} (moves : Moved moved list) (key : K) :
    moved.Has key ↔ list.Has key := by
  rw [Has, Has, moves.getRow]

theorem has_appended {key : K} (unknown : list.getRow key = none) (other : K) :
    (list.appended key).Has other ↔ other = key ∨ list.Has other := by
  rw [Has, getRow_appended unknown]
  split
  next same =>
    exact iff_of_true rfl (.inl same)
  next different =>
    exact (or_iff_right different).symm

theorem changes_addToEnd [LinearOrder D] (entries : Entries K D N) (key : K) :
    Changes (fun list => (list.addToEnd entries key).1)
      (fun has other => other = key ∨ has other) := by
  constructor
  · intro list addressable
    cases known : list.getRow key with
    | some row => rwa [addToEnd_known known]
    | none => exact (moved_addToEnd addressable known entries).addressable
  · intro list addressable other
    cases known : list.getRow key with
    | some row =>
      rw [addToEnd_known known]
      refine (or_iff_right_of_imp ?_).symm
      rintro rfl
      rw [Has, known]
      rfl
    | none =>
      rw [(moved_addToEnd addressable known entries).has, has_appended known]

theorem changes_adjustByName [LinearOrder N] (entries : Entries K D N) (key : K) :
    Changes (fun list => (list.adjustByName entries key).1) (fun has other => has other) :=
  ⟨fun _ addressable => (moved_adjustByName addressable entries key).addressable,
    fun _ addressable => (moved_adjustByName addressable entries key).has⟩

theorem changes_addByName [LinearOrder D] [LinearOrder N] (entries : Entries K D N) (key : K) :
    Changes (fun list => (list.addByName entries key).1)
      (fun has other => other = key ∨ has other) := by
  have adds := changes_addToEnd entries key
  have adjusts := changes_adjustByName entries key
  constructor
  · intro list addressable
    exact adjusts.addressable _ (adds.addressable list addressable)
  · intro list addressable other
    exact (adjusts.has _ (adds.addressable list addressable) other).trans
      (adds.has list addressable other)

theorem changes_del (key : K) :
    Changes (fun list : DialogsList K => (list.del key).1)
      (fun has other => other ≠ key ∧ has other) := by
  constructor
  · intro list addressable
    cases known : list.getRow key with
    | none => rwa [del_unknown known]
    | some row => exact (del_known addressable known).2.2.2
  · intro list addressable other
    cases known : list.getRow key with
    | none =>
      rw [del_unknown known]
      refine (and_iff_right_of_imp ?_).symm
      rintro has rfl
      rw [Has, known] at has
      cases has
    | some row =>
      rw [Has, getRow, (del_known addressable known).2.1, FlatMap.find?_erase]
      split
      next same =>
        simp [same]
      next different =>
        exact (and_iff_right different).symm

theorem not_has_empty (sortMode : SortMode) (key : K) :
    ¬({ sortMode } : DialogsList K).Has key := by
  rintro ⟨⟩

end DialogsList

namespace DialogsIndexedList

open DialogsList

variable {K C D N : Type*} [LinearOrder K] [LinearOrder C]

/-- The key has a row under the letter. -/
def HasAt (index : FlatMap C (DialogsList K)) (ch : C) (key : K) : Prop :=
  ∃ list, index.find? ch = some list ∧ list.Has key

/-- The lists of all letters are addressable. -/
def AllAddressable (index : FlatMap C (DialogsList K)) : Prop :=
  ∀ ch list, index.find? ch = some list → list.Addressable

variable {index : FlatMap C (DialogsList K)}

theorem allAddressable_set (all : AllAddressable index) {list : DialogsList K}
    (addressable : list.Addressable) (ch : C) : AllAddressable (index.set ch list) := by
  intro other found isFound
  rw [FlatMap.find?_set] at isFound
  split at isFound
  · cases isFound
    exact addressable
  · exact all other found isFound

theorem hasAt_set {list : DialogsList K} {ch other : C} {key : K} :
    HasAt (index.set ch list) other key ↔ if other = ch then list.Has key else
      HasAt index other key := by
  unfold HasAt
  rw [FlatMap.find?_set]
  split <;> simp

theorem has_getD (all : AllAddressable index) (sortMode : SortMode) (ch : C) :
    ((index.find? ch).getD { sortMode }).Addressable ∧
      ∀ key, ((index.find? ch).getD { sortMode }).Has key ↔ HasAt index ch key := by
  cases found : index.find? ch with
  | none =>
    refine ⟨Addressable.empty sortMode, fun key => iff_of_false (not_has_empty sortMode key) ?_⟩
    rintro ⟨list, isFound, -⟩
    rw [found] at isFound
    cases isFound
  | some list =>
    refine ⟨all ch list found, fun key => ?_⟩
    simp [HasAt, found]

variable {change : DialogsList K → DialogsList K}

section

variable {key : K} (adds : Changes change fun has other => other = key ∨ has other)
  (all : AllAddressable index) (sortMode : SortMode)

include adds all sortMode

theorem changeLetter_adds (ch : C) :
    AllAddressable (changeLetter sortMode change index ch) ∧
      ∀ letter other, HasAt (changeLetter sortMode change index ch) letter other ↔
        (letter = ch ∧ other = key) ∨ HasAt index letter other := by
  obtain ⟨addressable, has⟩ := has_getD all sortMode ch
  refine ⟨allAddressable_set all (adds.addressable _ addressable) ch, ?_⟩
  intro letter other
  rw [changeLetter, hasAt_set]
  split
  next same =>
    rw [adds.has _ addressable, has, same]
    simp
  next different =>
    simp [different]

theorem foldl_changeLetter_adds (letters : List C) :
    AllAddressable (letters.foldl (changeLetter sortMode change) index) ∧
      ∀ letter other, HasAt (letters.foldl (changeLetter sortMode change) index) letter other ↔
        (letter ∈ letters ∧ other = key) ∨ HasAt index letter other := by
  induction letters generalizing index with
  | nil => simp [all]
  | cons ch letters ih =>
    obtain ⟨changed, hasAt⟩ := changeLetter_adds adds all sortMode ch
    obtain ⟨addressable, later⟩ := ih changed
    refine ⟨addressable, fun letter other => ?_⟩
    rw [foldl_cons, later, hasAt, mem_cons]
    tauto

end

theorem changeFound_changes {keys : (K → Prop) → K → Prop} (changes : Changes change keys)
    (nothing : ∀ other, ¬keys (fun _ => False) other) (all : AllAddressable index) (ch : C) :
    AllAddressable (changeFound change index ch) ∧
      ∀ letter other, HasAt (changeFound change index ch) letter other ↔
        if letter = ch then keys (HasAt index letter) other else HasAt index letter other := by
  unfold changeFound
  cases found : index.find? ch with
  | none =>
    refine ⟨all, fun letter other => ?_⟩
    dsimp only
    split
    next same =>
      have none : HasAt index letter = fun _ => False := by
        funext key
        apply eq_false
        rintro ⟨list, isFound, -⟩
        rw [same, found] at isFound
        cases isFound
      rw [none]
      exact (iff_false_left id).mpr (nothing other)
    · rfl
  | some list =>
    have addressable := all ch list found
    refine ⟨allAddressable_set all (changes.addressable list addressable) ch, ?_⟩
    intro letter other
    rw [hasAt_set]
    split
    next same =>
      have has : HasAt index letter = list.Has := by
        funext key
        simp [HasAt, same, found]
      rw [has, changes.has list addressable]
    · rfl

theorem changeFound_keeps
    (keeps : Changes change fun has other => has other) (all : AllAddressable index) (ch : C) :
    AllAddressable (changeFound change index ch) ∧
      ∀ letter other, HasAt (changeFound change index ch) letter other ↔
        HasAt index letter other := by
  obtain ⟨addressable, hasAt⟩ := changeFound_changes keeps (fun _ => id) all ch
  refine ⟨addressable, fun letter other => ?_⟩
  rw [hasAt, ite_self]

theorem foldl_changeFound_removes (all : AllAddressable index) (key : K) (letters : List C) :
    AllAddressable (letters.foldl (changeFound fun list => (list.del key).1) index) ∧
      ∀ letter other,
        HasAt (letters.foldl (changeFound fun list => (list.del key).1) index) letter other ↔
          HasAt index letter other ∧ ¬(letter ∈ letters ∧ other = key) := by
  induction letters generalizing index with
  | nil => simp [all]
  | cons ch letters ih =>
    obtain ⟨changed, hasAt⟩ := changeFound_changes (changes_del key)
      (fun other nothing => nothing.2) all ch
    obtain ⟨addressable, later⟩ := ih changed
    refine ⟨addressable, fun letter other => ?_⟩
    rw [foldl_cons, later, hasAt, mem_cons]
    split <;> tauto

section

variable {kept : FlatMap C (DialogsList K) → C → FlatMap C (DialogsList K)}
  (keeps : ∀ index, AllAddressable index → ∀ ch, AllAddressable (kept index ch) ∧
    ∀ letter other, HasAt (kept index ch) letter other ↔ HasAt index letter other)

include keeps

theorem foldl_compare (letters : List C) (distinct : letters.Nodup) (toRemove toAdd : FlatSet C)
    (all : AllAddressable index) :
    let result := letters.foldl
      (fun (toRemove, toAdd, index) ch =>
        if ch ∈ toRemove then (toRemove.erase ch, toAdd, kept index ch)
        else (toRemove, toAdd.insert ch, index))
      (toRemove, toAdd, index)
    (∀ ch, ch ∈ result.1 ↔ ch ∈ toRemove ∧ ch ∉ letters) ∧
      (∀ ch, ch ∈ result.2.1 ↔ ch ∈ toAdd ∨ (ch ∈ letters ∧ ch ∉ toRemove)) ∧
      AllAddressable result.2.2 ∧
      ∀ letter other, HasAt result.2.2 letter other ↔ HasAt index letter other := by
  induction letters generalizing toRemove toAdd index with
  | nil => simp [all]
  | cons ch letters ih =>
    obtain ⟨fresh, distinct⟩ := nodup_cons.mp distinct
    dsimp only
    rw [foldl_cons]
    by_cases known : ch ∈ toRemove
    · obtain ⟨addressable, hasAt⟩ := keeps index all ch
      obtain ⟨removes, adds, final, same⟩ :=
        ih distinct (toRemove.erase ch) toAdd addressable
      rw [if_pos known]
      refine ⟨fun letter => ?_, fun letter => ?_, final, fun letter other =>
        (same letter other).trans (hasAt letter other)⟩
      · rw [removes, mem_erase, mem_cons]
        tauto
      · rw [adds, mem_erase, mem_cons]
        by_cases isHead : letter = ch
        · rw [isHead]
          tauto
        · tauto
    · obtain ⟨removes, adds, final, same⟩ := ih distinct toRemove (toAdd.insert ch) all
      rw [if_neg known]
      refine ⟨fun letter => ?_, fun letter => ?_, final, same⟩
      · rw [removes, mem_cons]
        by_cases isHead : letter = ch
        · rw [isHead]
          tauto
        · tauto
      · rw [adds, mem_insert, mem_cons]
        by_cases isHead : letter = ch
        · rw [isHead]
          tauto
        · tauto

/-- The lists of letters when those of a name have changed: lost letters lose the key, and new
ones get it. -/
theorem adjustLetters_spec (indexed : DialogsIndexedList K C)
    (all : AllAddressable indexed.index)
    {add : DialogsList K → DialogsList K} {key : K}
    (adds : Changes add fun has other => other = key ∨ has other)
    (letters oldLetters : FlatSet C) :
    AllAddressable (indexed.adjustLetters kept add key letters oldLetters) ∧
      ∀ letter other, HasAt (indexed.adjustLetters kept add key letters oldLetters) letter other ↔
        (other = key ∧ letter ∈ letters ∧ letter ∉ oldLetters) ∨
          (HasAt indexed.index letter other ∧
            ¬(other = key ∧ letter ∈ oldLetters ∧ letter ∉ letters)) := by
  obtain ⟨toRemove, toAdd, compared, same⟩ := foldl_compare keeps letters.keys
    letters.isListing.nodup oldLetters ∅ all
  obtain ⟨removed, hasRemoved⟩ := foldl_changeFound_removes compared key
    (compareLetters kept letters oldLetters indexed.index).1.keys
  obtain ⟨added, hasAdded⟩ := foldl_changeLetter_adds adds removed indexed.sortMode
    (compareLetters kept letters oldLetters indexed.index).2.1.keys
  refine ⟨added, fun letter other => (hasAdded letter other).trans ?_⟩
  rw [hasRemoved]
  have isRemoved : letter ∈ (compareLetters kept letters oldLetters indexed.index).1.keys ↔
      letter ∈ oldLetters ∧ letter ∉ letters := toRemove letter
  have isAdded : letter ∈ (compareLetters kept letters oldLetters indexed.index).2.1.keys ↔
      letter ∈ letters ∧ letter ∉ oldLetters := by
    have := toAdd letter
    simp only [notMem_empty, false_or] at this
    exact this
  rw [isRemoved, isAdded]
  rw [same letter other, @and_comm (letter ∈ letters ∧ letter ∉ oldLetters),
    @and_comm (letter ∈ oldLetters ∧ letter ∉ letters)]

end

variable (index) in
theorem minimal_cases (words : List (List C)) (result : Option (DialogsList K)) :
    minimal index words result = result ∧ (result = none → ∀ word ∈ words, word = []) ∨
      ∃ ch rest, ch :: rest ∈ words ∧
        (minimal index words result).elim [] (·.rows) = (index.find? ch).elim [] (·.rows) := by
  fun_induction minimal index words result with
  | case1 => simp
  | case2 result words ih => simpa using ih
  | case3 ch word words result absent => exact .inr ⟨ch, word, mem_cons_self, by rw [absent]⟩
  | case4 ch word words result found isFound empty =>
    exact .inr ⟨ch, word, mem_cons_self, by simp [isFound, empty]⟩
  | case5 ch word words result found isFound _ ih =>
    rcases ih with ⟨same, -⟩ | ⟨letter, rest, member, rows⟩
    · rw [same]
      split
      · exact .inl ⟨rfl, by rintro rfl; simp_all⟩
      · exact .inr ⟨ch, word, mem_cons_self, by rw [isFound]⟩
    · exact .inr ⟨letter, rest, mem_cons_of_mem _ member, rows⟩

end DialogsIndexedList

namespace Dialogs

/-- An indexed list with the entries that it sorts and their first letters. -/
structure Indexed (K C D N : Type*) [LinearOrder K] [LinearOrder C] where
  indexed : DialogsIndexedList K C
  entries : Entries K D N
  firstLetters : DialogsIndexedList.Letters K C

/-- The operations of an indexed list, with the change of a name. -/
inductive IndexedEvent (K C N : Type*) [LinearOrder C]
  | addToEnd (key : K)
  | addByName (key : K)
  | del (key : K)
  | clear
  | nameChanged (key : K) (nameSortKey : N) (letters : FlatSet C)

namespace Indexed

open DialogsList DialogsIndexedList

variable {K C D N : Type*} [LinearOrder K] [LinearOrder C]

/-- What happens to an indexed list.  The list is told of a changed name with the letters that
the name had; rows are added by name only if they are sorted so. -/
def step [LinearOrder D] [LinearOrder N] (state : Indexed K C D N) :
    IndexedEvent K C N → Option (Indexed K C D N)
  | .addToEnd key =>
    some { state with indexed := state.indexed.addToEnd state.entries state.firstLetters key }
  | .addByName key =>
    if state.indexed.sortMode = .name then
      some { state with indexed := state.indexed.addByName state.entries state.firstLetters key }
    else none
  | .del key => some { state with indexed := state.indexed.del state.firstLetters key }
  | .clear => some { state with indexed := state.indexed.clear }
  | .nameChanged key nameSortKey letters =>
    let entries :=
      { state.entries with
        nameSortKey := Function.update state.entries.nameSortKey key nameSortKey }
    let firstLetters := Function.update state.firstLetters key letters
    some
      { indexed :=
          state.indexed.peerNameChanged entries firstLetters key (state.firstLetters key)
        entries
        firstLetters }

/-- The list of each letter has the keys of the rows whose names begin with the letter, each
once. -/
def Mirrors (state : Indexed K C D N) : Prop :=
  ∀ ch, (state.indexed.letterKeys ch).Nodup ∧ ∀ key, key ∈ state.indexed.letterKeys ch ↔
    key ∈ state.indexed.list.rows.map Row.key ∧ ch ∈ state.firstLetters key

/-- Every row is found at its position, in the list and under every letter. -/
structure Sound (state : Indexed K C D N) : Prop where
  list : state.indexed.list.Addressable
  index : AllAddressable state.indexed.index

variable {state next : Indexed K C D N}

section

variable (sound : state.Sound)
include sound

theorem Sound.mirrors_iff :
    state.Mirrors ↔ ∀ ch key, HasAt state.indexed.index ch key ↔
      state.indexed.list.Has key ∧ ch ∈ state.firstLetters key := by
  have listed : ∀ ch, (state.indexed.letterKeys ch).Nodup ∧
      ∀ key, key ∈ state.indexed.letterKeys ch ↔ HasAt state.indexed.index ch key := by
    intro ch
    unfold letterKeys HasAt
    cases found : state.indexed.index.find? ch with
    | none => simp
    | some list =>
      have addressable := sound.index ch list found
      refine ⟨addressable.keys_nodup, fun key => (mem_rows_iff addressable).trans ?_⟩
      simp [Has]
  unfold Mirrors
  simp only [listed, true_and, mem_rows_iff sound.list, Has]

theorem Sound.added {add : DialogsList K → DialogsList K} {key : K}
    (adds : Changes add fun has other => other = key ∨ has other) :
    let next : Indexed K C D N :=
      { state with
        indexed :=
          { state.indexed with
            list := add state.indexed.list
            index := (state.firstLetters key).keys.foldl
              (changeLetter state.indexed.sortMode add) state.indexed.index } }
    next.Sound ∧ (state.Mirrors → next.Mirrors) := by
  obtain ⟨index, hasAt⟩ := foldl_changeLetter_adds adds sound.index state.indexed.sortMode
    (state.firstLetters key).keys
  intro next
  have soundNext : next.Sound := ⟨adds.addressable _ sound.list, index⟩
  refine ⟨soundNext, fun mirrors => ?_⟩
  rw [sound.mirrors_iff] at mirrors
  rw [soundNext.mirrors_iff]
  intro ch other
  have has := adds.has state.indexed.list sound.list other
  refine (hasAt ch other).trans ?_
  rw [mirrors, has, FlatSet.mem_keys]
  by_cases same : other = key
  · rw [same]
    tauto
  · tauto

theorem Sound.addToEnd [LinearOrder D] (key : K) : let next : Indexed K C D N :=
      { state with indexed := state.indexed.addToEnd state.entries state.firstLetters key }
    next.Sound ∧ (state.Mirrors → next.Mirrors) := by
  unfold DialogsIndexedList.addToEnd
  cases known : state.indexed.list.getRow key with
  | some row => exact ⟨sound, id⟩
  | none => exact sound.added (changes_addToEnd state.entries key)

theorem Sound.addByName [LinearOrder D] [LinearOrder N] (key : K) : let next : Indexed K C D N :=
      { state with indexed := state.indexed.addByName state.entries state.firstLetters key }
    next.Sound ∧ (state.Mirrors → next.Mirrors) := by
  unfold DialogsIndexedList.addByName
  cases known : state.indexed.list.getRow key with
  | some row => exact ⟨sound, id⟩
  | none => exact sound.added (changes_addByName state.entries key)

theorem Sound.del (key : K) : let next : Indexed K C D N :=
      { state with indexed := state.indexed.del state.firstLetters key }
    next.Sound ∧ (state.Mirrors → next.Mirrors) := by
  have deletes := changes_del key
  unfold DialogsIndexedList.del
  cases known : state.indexed.list.getRow key with
  | none =>
    rw [del_unknown known]
    exact ⟨sound, id⟩
  | some row =>
    have deleted : state.indexed.list.del key = ((state.indexed.list.del key).1, true) := by
      rw [DialogsList.del, known]
    obtain ⟨index, hasAt⟩ := foldl_changeFound_removes sound.index key (state.firstLetters key).keys
    rw [deleted]
    intro next
    have soundNext : next.Sound := ⟨deletes.addressable _ sound.list, index⟩
    refine ⟨soundNext, fun mirrors => ?_⟩
    rw [sound.mirrors_iff] at mirrors
    rw [soundNext.mirrors_iff]
    intro ch other
    have has := deletes.has state.indexed.list sound.list other
    refine (hasAt ch other).trans ?_
    rw [mirrors, FlatSet.mem_keys]
    refine trans ?_ (and_congr_left fun _ => has.symm)
    by_cases same : other = key
    · rw [same]
      tauto
    · tauto

theorem Sound.renamed {list : DialogsList K} {index : FlatMap C (DialogsList K)}
    (addressable : list.Addressable)
    (has : ∀ other, list.Has other ↔ state.indexed.list.Has other) (all : AllAddressable index)
    {key : K} (known : state.indexed.list.Has key) {letters : FlatSet C}
    (hasAt : ∀ letter other, HasAt index letter other ↔
      (other = key ∧ letter ∈ letters ∧ letter ∉ state.firstLetters key) ∨
        (HasAt state.indexed.index letter other ∧
          ¬(other = key ∧ letter ∈ state.firstLetters key ∧ letter ∉ letters)))
    (entries : Entries K D N) :
    let next : Indexed K C D N :=
      { indexed := { state.indexed with list, index }
        entries
        firstLetters := update state.firstLetters key letters }
    next.Sound ∧ (state.Mirrors → next.Mirrors) := by
  intro next
  have soundNext : next.Sound := ⟨addressable, all⟩
  refine ⟨soundNext, fun mirrors => ?_⟩
  rw [sound.mirrors_iff] at mirrors
  rw [soundNext.mirrors_iff]
  intro ch other
  refine (hasAt ch other).trans ?_
  rw [mirrors]
  refine trans ?_ (and_congr_left fun _ => (has other).symm)
  show _ ↔ _ ∧ ch ∈ update state.firstLetters key letters other
  by_cases same : other = key
  · rw [same, update_self]
    tauto
  · rw [update_of_ne same]
    tauto

theorem Sound.renamed_unknown {key : K} (unknown : state.indexed.list.getRow key = none)
    (letters : FlatSet C) (entries : Entries K D N) :
    let next : Indexed K C D N :=
      { indexed := state.indexed
        entries
        firstLetters := update state.firstLetters key letters }
    next.Sound ∧ (state.Mirrors → next.Mirrors) := by
  intro next
  have soundNext : next.Sound := ⟨sound.list, sound.index⟩
  refine ⟨soundNext, fun mirrors => ?_⟩
  rw [sound.mirrors_iff] at mirrors
  rw [soundNext.mirrors_iff]
  intro ch other
  refine (mirrors ch other).trans ?_
  apply and_congr_right
  intro known
  have different : other ≠ key := by
    rintro rfl
    rw [Has, unknown] at known
    cases known
  rw [show next.firstLetters other = state.firstLetters other from update_of_ne different _ _]

theorem Sound.nameChanged [LinearOrder D] [LinearOrder N] (key : K) (letters : FlatSet C)
    (entries : Entries K D N) :
    let firstLetters := update state.firstLetters key letters
    let next : Indexed K C D N :=
      { indexed :=
          state.indexed.peerNameChanged entries firstLetters key (state.firstLetters key)
        entries
        firstLetters }
    next.Sound ∧ (state.Mirrors → next.Mirrors) := by
  intro firstLetters
  have isNew : firstLetters key = letters := update_self ..
  unfold peerNameChanged
  split
  · have adjusts := changes_adjustByName entries key
    unfold DialogsIndexedList.adjustByName
    cases known : state.indexed.list.getRow key with
    | none =>
      rw [DialogsList.adjustByName, known]
      exact sound.renamed_unknown known letters entries
    | some row =>
      have adjusted : state.indexed.list.adjustByName entries key =
          ((state.indexed.list.adjustByName entries key).1, some row) := by
        rw [DialogsList.adjustByName, known]
      obtain ⟨index, hasAt⟩ := adjustLetters_spec
        (fun _ all ch => changeFound_keeps adjusts all ch) state.indexed sound.index
        (changes_addByName entries key) letters (state.firstLetters key)
      rw [adjusted, isNew]
      exact sound.renamed (adjusts.addressable _ sound.list) (adjusts.has _ sound.list) index
        (by rw [Has, known]; rfl) hasAt entries
  · unfold adjustNames
    cases known : state.indexed.list.getRow key with
    | none => exact sound.renamed_unknown known letters entries
    | some row =>
      obtain ⟨index, hasAt⟩ := adjustLetters_spec
        (fun index all _ => ⟨all, fun _ _ => Iff.rfl⟩) state.indexed sound.index
        (changes_addToEnd entries key) letters (state.firstLetters key)
      rw [isNew]
      exact sound.renamed sound.list (fun _ => Iff.rfl) index (by rw [Has, known]; rfl) hasAt
        entries

end

/-- The index is cleared only while no listed name has letters. -/
def ClearsNothing (state : Indexed K C D N) : IndexedEvent K C N → Prop
  | .clear => ∀ key ∈ state.indexed.list.rows.map Row.key, state.firstLetters key = ∅
  | _ => True

theorem Sound.clear (sound : state.Sound) :
    let next : Indexed K C D N := { state with indexed := state.indexed.clear }
    next.Sound ∧ (next.Mirrors ↔ state.ClearsNothing .clear) := by
  intro next
  have soundNext : next.Sound := by
    refine ⟨sound.list, ?_⟩
    rintro ch list ⟨⟩
  refine ⟨soundNext, ?_⟩
  rw [soundNext.mirrors_iff]
  have none : ∀ ch key, ¬HasAt next.indexed.index ch key := by
    rintro ch key ⟨list, ⟨⟩, -⟩
  simp only [none, false_iff, not_and, ClearsNothing, eq_empty_iff, mem_rows_iff sound.list]
  constructor
  · intro all key known ch
    exact all ch key known
  · intro all ch key known
    exact all key known ch

theorem Sound.empty (sortMode : SortMode) (entries : Entries K D N) (firstLetters : Letters K C) :
    Sound { indexed := { sortMode }, entries, firstLetters } := by
  refine ⟨Addressable.empty sortMode, ?_⟩
  rintro ch list ⟨⟩

theorem mirrors_empty (sortMode : SortMode) (entries : Entries K D N) (firstLetters : Letters K C) :
    Mirrors { indexed := { sortMode }, entries, firstLetters } := by
  intro ch
  refine ⟨nodup_nil, fun key => iff_of_false not_mem_nil ?_⟩
  rintro ⟨⟨⟩, -⟩

section Runs

variable [LinearOrder D] [LinearOrder N]

/-- Only a clear can make the letters differ from the list. -/
theorem Sound.step (sound : state.Sound) (event : IndexedEvent K C N) :
    (∀ next, state.step event = some next → next.Sound) ∧
      (state.Mirrors →
        ((∀ next, state.step event = some next → next.Mirrors) ↔ state.ClearsNothing event)) := by
  have always : ∀ {next : Indexed K C D N}, next.Sound ∧ (state.Mirrors → next.Mirrors) →
      (∀ last, some next = some last → last.Sound) ∧
        (state.Mirrors → ((∀ last, some next = some last → last.Mirrors) ↔ True)) := by
    rintro next ⟨soundNext, mirrorsNext⟩
    refine ⟨?_, fun mirrors => iff_of_true ?_ trivial⟩
    · rintro _ ⟨⟩
      exact soundNext
    · rintro _ ⟨⟩
      exact mirrorsNext mirrors
  cases event with
  | addToEnd key => exact always (sound.addToEnd key)
  | addByName key =>
    by_cases byName : state.indexed.sortMode = .name
    · rw [Indexed.step, if_pos byName]
      exact always (sound.addByName key)
    · rw [Indexed.step, if_neg byName]
      refine ⟨?_, fun _ => iff_of_true ?_ trivial⟩ <;> rintro _ ⟨⟩
  | del key => exact always (sound.del key)
  | clear =>
    obtain ⟨soundNext, mirrorsIff⟩ := sound.clear
    refine ⟨?_, fun _ => trans ?_ mirrorsIff⟩
    · rintro _ ⟨⟩
      exact soundNext
    · constructor
      · intro all
        exact all _ rfl
      · rintro mirrors _ ⟨⟩
        exact mirrors
  | nameChanged key nameSortKey letters => exact always (sound.nameChanged key letters _)

/-- The runs in which the letters always mirror the list are those that clear the index only
while no listed name has letters. -/
theorem letters_mirror_iff (sortMode : SortMode) (entries : Entries K D N)
    (firstLetters : DialogsIndexedList.Letters K C) (events : List (IndexedEvent K C N)) :
    RunKeeps Indexed.step Mirrors { indexed := { sortMode }, entries, firstLetters } events ↔
      RunMeets Indexed.step ClearsNothing { indexed := { sortMode }, entries, firstLetters }
        events :=
  runKeeps_iff_runMeets (fun _ event next sound _ steps => (Sound.step sound event).1 next steps)
    (fun _ event sound mirrors => (Sound.step sound event).2 mirrors) events
    (Sound.empty sortMode entries firstLetters) (mirrors_empty sortMode entries firstLetters)

/-- What is found through the shortest list of a letter is what a look at every row would find,
where the words of a name begin with its letters. -/
theorem filtered_iff_scan {sortMode : SortMode} {entries : Entries K D N}
    {firstLetters : Letters K C} {events : List (IndexedEvent K C N)}
    {reached : Indexed K C D N}
    (clears : RunMeets Indexed.step ClearsNothing { indexed := { sortMode }, entries, firstLetters }
      events)
    (ends : run Indexed.step { indexed := { sortMode }, entries, firstLetters } events =
      some reached) {nameWords : K → List (List C)}
    (letters : ∀ key ch rest, ch :: rest ∈ nameWords key → ch ∈ reached.firstLetters key)
    (words : List (List C)) :
    ((reached.indexed.filtered nameWords words).map Row.key).Nodup ∧
      ∀ key, key ∈ (reached.indexed.filtered nameWords words).map Row.key ↔
        (∃ word ∈ words, word ≠ []) ∧ key ∈ reached.indexed.list.rows.map Row.key ∧
          ∀ word ∈ words, ∃ name ∈ nameWords key, word <+: name := by
  have kept : ∀ (state : Indexed K C D N) event next, state.Sound ∧ state.Mirrors →
      state.ClearsNothing event → state.step event = some next → next.Sound ∧ next.Mirrors :=
    fun state event next holds clears taken => ⟨(holds.1.step event).1 next taken,
      ((holds.1.step event).2 holds.2).mpr clears next taken⟩
  obtain ⟨-, mirrors⟩ := run_invariant_of_meets kept
    ⟨Sound.empty sortMode entries firstLetters, mirrors_empty sortMode entries firstLetters⟩
    clears ends
  unfold filtered
  by_cases empty : reached.indexed.list.rows = []
  · simp [empty]
  rw [if_neg empty]
  rcases minimal_cases reached.indexed.index words none with
    ⟨same, blank⟩ | ⟨ch, rest, inWords, rows⟩
  · rw [same]
    refine ⟨nodup_nil, fun key => iff_of_false not_mem_nil ?_⟩
    rintro ⟨⟨word, member, filled⟩, -⟩
    exact filled (blank rfl word member)
  · obtain ⟨nodup, listed⟩ := mirrors ch
    have keys : reached.indexed.letterKeys ch =
        ((reached.indexed.index.find? ch).elim [] (·.rows)).map Row.key := by
      unfold letterKeys
      cases reached.indexed.index.find? ch <;> rfl
    rw [keys] at nodup listed
    rw [rows]
    refine ⟨nodup.sublist (filter_sublist.map Row.key), fun key => ?_⟩
    have begins : (∀ word ∈ words, ∃ name ∈ nameWords key, word <+: name) →
        ch ∈ reached.firstLetters key := by
      intro all
      obtain ⟨_, isName, after, rfl⟩ := all _ inWords
      exact letters key ch (rest ++ after) isName
    have filled : ∃ word ∈ words, word ≠ [] := ⟨_, inWords, cons_ne_nil _ _⟩
    have here := listed key
    simp only [mem_map, mem_filter, all_eq_true, any_eq_true, isPrefixOf_iff_prefix] at here ⊢
    grind

theorem filtered_iff_scan_two :
    let start : Indexed Nat Nat Nat Nat :=
      ⟨{ sortMode := .date }, ⟨fun key => key, fun _ => 0⟩, fun _ => ⟨[5], by decide⟩⟩
    ∃ reached, run Indexed.step start [.addToEnd 1, .addToEnd 2] = some reached ∧
      2 ∈ (reached.indexed.filtered (fun key => [[5, key]]) [[], [5, 2]]).map Row.key := by
  intro start
  have clears : RunMeets Indexed.step ClearsNothing start [.addToEnd 1, .addToEnd 2] :=
    ⟨trivial, fun _ _ => ⟨trivial, fun _ _ => trivial⟩⟩
  refine ⟨_, rfl, ((filtered_iff_scan clears rfl ?_ _).2 2).mpr (by decide)⟩
  rintro key ch rest member
  cases mem_singleton.mp member
  exact mem_singleton_self 5

end Runs

/-- A chat with the letter 5 is listed after the index was cleared, and adding it again does not
bring it back to the list of its letter. -/
theorem cleared_letters_stay_empty :
    ∃ (state : Indexed Nat Nat Nat Nat) (events : List (IndexedEvent Nat Nat Nat))
      (reached : Indexed Nat Nat Nat Nat),
      state.indexed.list.rows = [] ∧ state.indexed.index = ∅ ∧
        run step state events = some reached ∧
        reached.indexed.list.rows.map Row.key = [1] ∧ 5 ∈ reached.firstLetters 1 ∧
        reached.indexed.letterKeys 5 = [] ∧ ¬reached.Mirrors := by
  refine ⟨⟨{ sortMode := .date }, ⟨fun key => key, fun _ => 0⟩, fun _ => ⟨[5], by decide⟩⟩,
    [.addToEnd 1, .clear, .addToEnd 1], _, rfl, rfl, rfl, by decide, by decide, by decide, ?_⟩
  intro mirrors
  exact absurd (((mirrors 5).2 1).mpr ⟨by decide, by decide⟩) (by decide)

end Indexed

end Dialogs

end TelegramDesktop
