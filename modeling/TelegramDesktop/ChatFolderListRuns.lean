import TelegramDesktop.ChatFolderList

/-!
# Runs of the list of folders

The ids stay distinct and what is pinned in a folder is always shown in it, whatever
happens.  The folder with all the chats is there from the first answer of the server on,
unless an update removes it.
-/

namespace TelegramDesktop.ChatFolders

open List Option ChatFilters ChatFilter

open ChatFilters (findId)

namespace FolderList

variable {list : List ChatFilter} {filter updated : ChatFilter} {position : Nat} {id : FilterId}

/-- What is pinned in a folder is always shown in it. -/
def PinsShown (filter : ChatFilter) : Prop :=
  ∀ history ∈ filter.pinned, history ∈ filter.always

theorem pinsShown_default : PinsShown default :=
  fun _ pinned => absurd pinned not_mem_nil

theorem pinsShown_fromTL (filter : DialogFilter) : PinsShown (fromTL filter) := by
  cases filter with
  | dialogFilter flags id title emoticon pinned include_ exclude =>
    intro history member
    exact mem_toFinset.mpr (mem_append_right _ member)
  | dialogFilterDefault => exact pinsShown_default

theorem mem_updatedPinned {limit : Nat} {always : Finset History} {dialogs : List (Option History)}
    {history : History} (pinned : history ∈ (updatedPinned limit always dialogs).2) :
    history ∈ (updatedPinned limit always dialogs).1 := by
  induction dialogs generalizing always with
  | nil => cases pinned
  | cons row dialogs ih =>
    cases row with
    | none => exact ih pinned
    | some other =>
      unfold updatedPinned at pinned ⊢
      split at pinned
      next shown =>
        rw [if_pos shown]
        rcases mem_cons.mp pinned with rfl | later
        · exact (updatedPinned_spec limit always dialogs).1 shown
        · exact ih later
      next hidden =>
      rw [if_neg hidden]
      split at pinned
      next fits =>
        rw [if_pos fits]
        rcases mem_cons.mp pinned with rfl | later
        · exact (updatedPinned_spec limit _ dialogs).1 (Finset.mem_insert_self _ _)
        · exact ih later
      next full =>
        rw [if_neg full]
        exact ih pinned

/-- No id comes twice, and what is pinned in a folder is always shown in it. -/
structure Tidy (list : List ChatFilter) : Prop where
  distinct : (list.map ChatFilter.id).Nodup
  pinned : ∀ filter ∈ list, PinsShown filter

theorem tidy_initial : Tidy initial.list where
  distinct := nodup_singleton _
  pinned filter member := by
    rw [mem_singleton.mp member]
    exact pinsShown_default

theorem Tidy.withDefault (tidy : Tidy list) : Tidy (withDefault list) := by
  unfold FolderList.withDefault
  split
  next => exact tidy
  next absent => exact ⟨nodup_cons.mpr ⟨absent, tidy.distinct⟩,
    forall_mem_cons.mpr ⟨pinsShown_default, tidy.pinned⟩⟩

theorem Tidy.fromTL {list : List DialogFilter}
    (distinct : (list.map fun filter => (ChatFilter.fromTL filter).id).Nodup) :
    Tidy (list.map ChatFilter.fromTL) where
  distinct := by
    rw [List.map_map]
    exact distinct
  pinned := List.forall_mem_map.mpr fun filter _ => pinsShown_fromTL filter

theorem Tidy.eraseIdx (tidy : Tidy list) (search : findId ChatFilter.id list id = some position) :
    Tidy (list.eraseIdx position) where
  distinct := by
    rw [map_id_eraseIdx search]
    exact tidy.distinct.erase id
  pinned filter member := tidy.pinned filter (mem_of_mem_eraseIdx member)

theorem Tidy.remove (tidy : Tidy list) (id : FilterId) :
    ∃ next, remove list id = some next ∧ Tidy next ∧
      next.map ChatFilter.id = (list.map ChatFilter.id).erase id := by
  refine ⟨_, remove_eq list id, ?_⟩
  cases search : findId ChatFilter.id list id with
  | none => exact ⟨tidy, (erase_of_not_mem (findId_eq_none.mp search)).symm⟩
  | some position => exact ⟨tidy.eraseIdx search, map_id_eraseIdx search⟩

theorem Tidy.set (tidy : Tidy list) (filter : ChatFilter) (shown : PinsShown filter) :
    ∃ next, set list filter = some next ∧ Tidy next ∧
      list.map ChatFilter.id ⊆ next.map ChatFilter.id := by
  refine ⟨_, set_eq list filter, ?_⟩
  split
  · exact ⟨tidy, List.Subset.refl _⟩
  cases search : findId ChatFilter.id list filter.id with
  | none =>
    rw [map_append]
    have absent := ChatFilters.findId_eq_none.mp search
    refine ⟨⟨?_, ?_⟩, subset_append_left _ _⟩
    · rw [map_append]
      exact tidy.distinct.append (nodup_singleton _) (disjoint_singleton.mpr absent)
    · intro other member
      rcases mem_append.mp member with before | last
      · exact tidy.pinned other before
      · rw [mem_singleton.mp last]
        exact shown
  | some position =>
    obtain ⟨entry, found, same⟩ := ChatFilters.findId_eq_some search
    have ids := ChatFilters.map_id_set found same
    rw [ids]
    refine ⟨⟨by rw [ids]; exact tidy.distinct, ?_⟩, List.Subset.refl _⟩
    intro other member
    rcases mem_or_eq_of_mem_set member with before | rfl
    · exact tidy.pinned other before
    · exact shown

theorem Tidy.moveAllToFront (tidy : Tidy list) : Tidy (moveAllToFront list) where
  distinct := by
    rw [map_id_moveAllToFront]
    exact nodup_cons.mpr ⟨tidy.distinct.not_mem_erase, tidy.distinct.erase 0⟩
  pinned := by
    unfold FolderList.moveAllToFront
    split
    next => exact forall_mem_cons.mpr ⟨pinsShown_default, tidy.pinned⟩
    next => exact tidy.pinned
    next => exact forall_mem_cons.mpr ⟨pinsShown_default, fun filter member =>
      tidy.pinned filter (mem_of_mem_eraseIdx member)⟩

theorem Tidy.of_perm {next : List ChatFilter} (tidy : Tidy list) (perm : next.Perm list) :
    Tidy next where
  distinct := (perm.map ChatFilter.id).nodup_iff.mpr tidy.distinct
  pinned filter member := tidy.pinned filter (perm.subset member)

theorem Ordered.perm {order : List FilterId} {applied : Bool × List ChatFilter}
    (ordered : Ordered list order applied) : applied.2.Perm list := by
  cases done : applied.1 with
  | false => rw [ordered.unchanged done]
  | true => exact (ordered.sorted done).1

theorem Tidy.applyUpdatedPinned (tidy : Tidy list) {limit : FilterId → Nat}
    {dialogs : List (Option History)} {next : List ChatFilter}
    (applied : applyUpdatedPinned list limit id dialogs = some next) :
    Tidy next ∧ list.map ChatFilter.id ⊆ next.map ChatFilter.id := by
  obtain ⟨position, -, applied⟩ := bind_eq_some_iff.mp applied
  obtain ⟨filter, found, applied⟩ := bind_eq_some_iff.mp applied
  obtain ⟨after, taken, kept⟩ := tidy.set
    { filter with
      id
      always := (updatedPinned (limit id) filter.always dialogs).1
      pinned := (updatedPinned (limit id) filter.always dialogs).2 }
    fun history pinned => mem_updatedPinned pinned
  cases applied.symm.trans taken
  exact kept

variable {limit : FilterId → Nat} {folders next : FolderList}

theorem received_spec (folders : FolderList) {list : List DialogFilter}
    (distinct : (list.map fun filter => (fromTL filter).id).Nodup) :
    ∃ next, received folders list = some next ∧ Tidy next.list ∧ next.loaded = true ∧
      (0 : FilterId) ∈ next.list.map ChatFilter.id := by
  refine ⟨_, received_eq folders list, (Tidy.fromTL distinct).withDefault, rfl, ?_⟩
  unfold withDefault
  split
  next present => exact present
  next => exact mem_cons_self

theorem Tidy.step {event : Event} (tidy : Tidy folders.list)
    (taken : step limit folders event = some next) : Tidy next.list := by
  cases event with
  | received list distinct =>
    obtain ⟨after, received, kept, -⟩ := received_spec folders distinct
    cases taken.symm.trans received
    exact kept
  | updateDialogFilter id filter =>
    cases filter with
    | none =>
      obtain ⟨after, removed, kept, -⟩ := tidy.remove id
      obtain ⟨changed, applied, rfl⟩ := map_eq_some_iff.mp taken
      cases applied.symm.trans removed
      exact kept
    | some filter =>
      obtain ⟨after, replaced, kept, -⟩ := tidy.set _ (pinsShown_fromTL filter)
      obtain ⟨changed, applied, rfl⟩ := map_eq_some_iff.mp taken
      cases applied.symm.trans replaced
      exact kept
  | updateDialogFilterOrder order =>
    obtain ⟨after, ordering, ordered⟩ := applyOrder_spec folders.list order
    obtain ⟨changed, applied, rfl⟩ := map_eq_some_iff.mp taken
    cases applied.symm.trans ordering
    exact tidy.of_perm ordered.perm
  | moveAllToFront =>
    cases taken
    exact tidy.moveAllToFront
  | applyUpdatedPinned id dialogs =>
    obtain ⟨changed, applied, rfl⟩ := map_eq_some_iff.mp taken
    exact (tidy.applyUpdatedPinned applied).1

/-- The server removes the folder of all chats. -/
def Event.RemovesDefault : Event → Prop
  | .updateDialogFilter id none => id = 0
  | _ => False

/-- The folder with all the chats is there once the folders have been loaded. -/
def HasDefault (folders : FolderList) : Prop :=
  folders.loaded = true → (0 : FilterId) ∈ folders.list.map ChatFilter.id

theorem HasDefault.step {event : Event} (has : folders.HasDefault) (tidy : Tidy folders.list)
    (spares : folders.loaded = true → ¬event.RemovesDefault)
    (taken : step limit folders event = some next) : next.HasDefault := by
  intro loaded
  cases event with
  | received list distinct =>
    obtain ⟨after, received, -, -, present⟩ := received_spec folders distinct
    cases taken.symm.trans received
    exact present
  | updateDialogFilter id filter =>
    cases filter with
    | none =>
      obtain ⟨after, removed, -, ids⟩ := tidy.remove id
      obtain ⟨changed, applied, rfl⟩ := map_eq_some_iff.mp taken
      cases applied.symm.trans removed
      rw [ids]
      exact (mem_erase_of_ne fun zero => spares loaded zero.symm).mpr (has loaded)
    | some filter =>
      obtain ⟨after, replaced, -, grows⟩ := tidy.set _ (pinsShown_fromTL filter)
      obtain ⟨changed, applied, rfl⟩ := map_eq_some_iff.mp taken
      cases applied.symm.trans replaced
      exact grows (has loaded)
  | updateDialogFilterOrder order =>
    obtain ⟨after, ordering, ordered⟩ := applyOrder_spec folders.list order
    obtain ⟨changed, applied, rfl⟩ := map_eq_some_iff.mp taken
    cases applied.symm.trans ordering
    exact (ordered.perm.map ChatFilter.id).mem_iff.mpr (has loaded)
  | moveAllToFront =>
    cases taken
    rw [map_id_moveAllToFront]
    exact mem_cons_self
  | applyUpdatedPinned id dialogs =>
    obtain ⟨changed, applied, rfl⟩ := map_eq_some_iff.mp taken
    exact (tidy.applyUpdatedPinned applied).2 (has loaded)

theorem not_hasDefault_of_removes (limit : FilterId → Nat) {event : Event}
    (tidy : Tidy folders.list)
    (loaded : folders.loaded = true) (removes : event.RemovesDefault) :
    ∃ next, step limit folders event = some next ∧ ¬next.HasDefault := by
  cases event with
  | updateDialogFilter id filter =>
    cases filter with
    | some filter => cases removes
    | none =>
      cases removes
      obtain ⟨after, removed, -, ids⟩ := tidy.remove 0
      refine ⟨{ folders with list := after }, ?_, fun has => ?_⟩
      · exact congrArg (Option.map fun list => { folders with list }) removed
      · have present := has loaded
        rw [ids] at present
        exact tidy.distinct.not_mem_erase present
  | received list distinct => cases removes
  | updateDialogFilterOrder order => cases removes
  | moveAllToFront => cases removes
  | applyUpdatedPinned id dialogs => cases removes

/-- What the list of folders is like: once loaded it has the folder of all the chats. -/
structure Sound (folders : FolderList) : Prop where
  distinct : (folders.list.map ChatFilter.id).Nodup
  default : folders.loaded = true → (folders.list.map ChatFilter.id).count 0 = 1
  pinned : ∀ filter ∈ folders.list, ∀ history ∈ filter.pinned, history ∈ filter.always

theorem sound_iff (folders : FolderList) :
    folders.Sound ↔ Tidy folders.list ∧ folders.HasDefault := by
  constructor
  · intro sound
    refine ⟨⟨sound.distinct, sound.pinned⟩, fun loaded => ?_⟩
    rw [← count_pos_iff, sound.default loaded]
    exact Nat.one_pos
  · rintro ⟨tidy, has⟩
    exact ⟨tidy.distinct, fun loaded =>
      count_eq_one_of_mem tidy.distinct (has loaded), tidy.pinned⟩

/-- The folder list is as it should be in every state of a run exactly if no update removes the
folder with all the chats once the folders are loaded.  An answer of the server is taken over
in its order, and an order is either applied as it is given or not at all. -/
theorem sound_iff_keeps_default (limit : FilterId → Nat) (events : List Event) :
    (RunKeeps (step limit) Sound initial events ↔
      RunMeets (step limit)
        (fun folders event => folders.loaded = true → ¬event.RemovesDefault) initial events) ∧
    (∀ folders list, ∃ next, received folders list = some next ∧
      next.list.map ChatFilter.id =
        if (0 : FilterId) ∈ list.map fun filter => (ChatFilter.fromTL filter).id
        then list.map fun filter => (ChatFilter.fromTL filter).id
        else 0 :: list.map fun filter => (ChatFilter.fromTL filter).id) ∧
    ∀ list order, ∃ applied, applyOrder list order = some applied ∧
      Ordered list order applied := by
  refine ⟨?_, ?_, applyOrder_spec⟩
  · have kept : ∀ (folders : FolderList) event next, Tidy folders.list → folders.Sound →
        step limit folders event = some next → Tidy next.list :=
      fun folders event next tidy _ taken => tidy.step taken
    have sound : initial.Sound :=
      (sound_iff _).mpr ⟨tidy_initial, fun loaded => absurd loaded Bool.false_ne_true⟩
    refine runKeeps_iff_runMeets kept (fun folders event tidy sound => ?_) events tidy_initial sound
    have has := ((sound_iff folders).mp sound).2
    constructor
    · intro good loaded removes
      obtain ⟨next, taken, missing⟩ := not_hasDefault_of_removes limit tidy loaded removes
      exact missing ((sound_iff next).mp (good next taken)).2
    · intro spares next taken
      exact (sound_iff next).mpr ⟨tidy.step taken, has.step tidy spares taken⟩
  · intro folders list
    refine ⟨_, received_eq folders list, ?_⟩
    unfold withDefault
    rw [apply_ite (List.map ChatFilter.id), List.map_cons, List.map_map]
    rfl

/-- An answer without filters leaves the folder with all the chats, and an update removes it. -/
theorem not_sound_default_removed :
    ¬∀ (limit : FilterId → Nat) (events : List Event),
      RunKeeps (step limit) Sound initial events := by
  intro claim
  have keeps := claim (fun _ => 100) [.received [] nodup_nil, .updateDialogFilter 0 none]
  have sound := keeps.at_end (show run (step fun _ => 100) initial
    [.received [] nodup_nil, .updateDialogFilter 0 none] = some ⟨[], true⟩ from rfl)
  cases sound.default rfl

end FolderList

end TelegramDesktop.ChatFolders
