import TelegramDesktop.DownloadManagerResolving

/-!
# Items of downloaded files

The manager finds an entry by its item, and it keeps a set of all the items that have
one.
-/

namespace TelegramDesktop.Downloads

open List

theorem split_at {α : Type*} {list : List α} {i : Nat} {value : α} (found : list[i]? = some value) :
    ∃ left right, list = left ++ value :: right ∧ list.eraseIdx i = left ++ right ∧
      ∀ other, list.set i other = left ++ other :: right := by
  obtain ⟨inside, rfl⟩ := List.getElem?_eq_some_iff.mp found
  refine ⟨list.take i, list.drop (i + 1), ?_, eraseIdx_eq_take_drop_succ list i, fun other => ?_⟩
  · rw [getElem_cons_drop, take_append_drop]
  · rw [set_eq_take_append_cons_drop, if_pos inside]

theorem nodup_around {α : Type*} {left right : List α} {value : α} :
    (left ++ value :: right).Nodup ↔ value ∉ left ++ right ∧ (left ++ right).Nodup := by
  rw [nodup_middle, nodup_cons]

theorem mem_around {α : Type*} {left right : List α} {value other : α} :
    other ∈ left ++ value :: right ↔ other = value ∨ other ∈ left ++ right := by
  rw [mem_append, mem_cons, mem_append, or_left_comm]

namespace Listing

/-- The items of a listing. -/
def items (listing : Listing) : List Item := listing.downloaded.filterMap DownloadedId.item

theorem items_around {left right : List DownloadedId} {entry : DownloadedId}
    {object : DownloadObject} (has : entry.object = some object) :
    (left ++ entry :: right).filterMap DownloadedId.item =
      left.filterMap DownloadedId.item ++ object.item :: right.filterMap DownloadedId.item := by
  have item : DownloadedId.item entry = some object.item := by
    rw [DownloadedId.item, has]
    rfl
  rw [filterMap_append, filterMap_cons_some item]

theorem items_around_none {left right : List DownloadedId} {entry : DownloadedId}
    (none : entry.object = none) :
    (left ++ entry :: right).filterMap DownloadedId.item =
      left.filterMap DownloadedId.item ++ right.filterMap DownloadedId.item := by
  have item : DownloadedId.item entry = Option.none := by
    rw [DownloadedId.item, none]
    rfl
  rw [filterMap_append, filterMap_cons_none item]

end Listing

namespace DownloadManager

/-- The set of loaded items is that of the listings, each with its own session. -/
structure ItemsSound (manager : DownloadManager) : Prop where
  own : ∀ session listing, manager.listing session = some listing →
    ∀ item ∈ listing.items, item.session = session
  nodup : AllListings (fun listing => listing.items.Nodup) manager
  loaded : ∀ item, item ∈ manager.loaded ↔
    ∃ listing, manager.listing item.session = some listing ∧ item ∈ listing.items
  known : ∀ item ∈ manager.loaded, manager.hasItem item = true
  shaped : AllListings (fun listing => ∀ entry ∈ listing.downloaded, ∀ object,
    entry.object = some object → object.Shaped) manager

variable {world : World} {manager next : DownloadManager} {session : Session} {item : Item}

variable {before after : DownloadManager}

theorem hasItem_mono (more : before.made ≤ after.made)
    (has : before.hasItem item = true) : after.hasItem item = true := by
  unfold hasItem at has ⊢
  rcases Bool.or_eq_true_iff.mp has with message | earlier
  · rw [message, Bool.true_or]
  · have later : item.number < after.made := lt_of_lt_of_le (of_decide_eq_true earlier) more
    rw [decide_eq_true later, Bool.or_true]

theorem ItemsSound.same (sound : before.ItemsSound)
    (same : SameListings before after) : after.ItemsSound where
  own session listing found := by
    rw [same.listing] at found
    exact sound.own session listing found
  nodup := sound.nodup.same same
  loaded item := by
    rw [same.loaded, same.listing]
    exact sound.loaded item
  known item member := by
    rw [same.loaded] at member
    exact hasItem_mono same.made.ge (sound.known item member)
  shaped := sound.shaped.same same

theorem ItemsSound.relisted {listing after' : Listing}
    (sound : before.ItemsSound) (relisted : Relisted before after session listing after')
    (own : ∀ item ∈ after'.items, item.session = session) (nodup : after'.items.Nodup)
    (here : ∀ item, item.session = session → (item ∈ after.loaded ↔ item ∈ after'.items))
    (elsewhere : ∀ item, item.session ≠ session →
      (item ∈ after.loaded ↔ item ∈ before.loaded))
    (known : ∀ item ∈ after.loaded, after.hasItem item = true)
    (shaped : ∀ entry ∈ after'.downloaded, ∀ object, entry.object = some object →
      object.Shaped) : after.ItemsSound where
  own other found there := by
    by_cases this : other = session
    · rw [this, relisted.now] at there
      cases there
      rw [this]
      exact own
    · rw [relisted.others other this] at there
      exact sound.own other found there
  nodup := sound.nodup.relisted relisted nodup
  loaded item := by
    by_cases this : item.session = session
    · rw [here item this, this, relisted.now]
      constructor
      · exact fun member => ⟨after', rfl, member⟩
      · rintro ⟨found, same, member⟩
        cases same
        exact member
    · rw [elsewhere item this, relisted.others item.session this]
      exact sound.loaded item
  known := known
  shaped := sound.shaped.relisted relisted shaped

theorem ItemsSound.mem_loaded {listing : Listing} (sound : manager.ItemsSound)
    (found : manager.listing session = some listing) (own : item.session = session) :
    item ∈ manager.loaded ↔ item ∈ listing.items := by
  rw [sound.loaded, own, found]
  constructor
  · rintro ⟨other, same, member⟩
    cases same
    exact member
  · exact fun member => ⟨listing, rfl, member⟩

theorem ItemsSound.insert {listing after' : Listing}
    (sound : before.ItemsSound) (relisted : Relisted before after session listing after')
    (own : item.session = session) (fresh : item ∉ before.loaded)
    (items : ∃ left right, listing.items = left ++ right ∧ after'.items = left ++ item :: right)
    (loaded : after.loaded = Insert.insert item before.loaded)
    (known : after.hasItem item = true) (more : before.made ≤ after.made)
    (shaped : ∀ entry ∈ after'.downloaded, ∀ object, entry.object = some object →
      object.Shaped) : after.ItemsSound := by
  obtain ⟨left, right, old, new⟩ := items
  have notListed : item ∉ left ++ right := by
    rw [← old, ← sound.mem_loaded relisted.was own]
    exact fresh
  have were := sound.own session listing relisted.was
  have distinct := sound.nodup session listing relisted.was
  rw [old] at were distinct
  refine sound.relisted relisted ?_ ?_ ?_ ?_ ?_ shaped
  · intro other member
    rw [new] at member
    rcases mem_around.mp member with rfl | before
    · exact own
    · exact were other before
  · rw [new]
    exact nodup_around.mpr ⟨notListed, distinct⟩
  · intro other same
    rw [loaded, Finset.mem_insert, sound.mem_loaded relisted.was same, old, new, mem_around]
  · intro other different
    rw [loaded, Finset.mem_insert, or_iff_right]
    rintro rfl
    exact different own
  · intro other member
    rw [loaded] at member
    rcases Finset.mem_insert.mp member with rfl | before
    · exact known
    · exact hasItem_mono more (sound.known other before)

variable {allowed : Prop}

theorem shaped_of_set {entries : List DownloadedId} {i : Nat} {entry : DownloadedId}
    (shaped : ∀ entry ∈ entries, ∀ object, entry.object = some object → object.Shaped)
    (new : ∀ object, entry.object = some object → object.Shaped) :
    ∀ other ∈ entries.set i entry, ∀ object, other.object = some object → object.Shaped := by
  intro other member
  rcases mem_or_eq_of_mem_set member with old | rfl
  · exact shaped other old
  · exact new

theorem Effect.items (effect : Effect False before after)
    (sound : before.ItemsSound) : after.ItemsSound := by
  cases effect with
  | same same => exact sound.same same
  | @append session listing entry object relisted accepted has shaped own fresh loaded generated
      made =>
      obtain ⟨unlisted, known⟩ := fresh.resolve_left id
      have new : DownloadedId.item entry = some object.item := by
        rw [DownloadedId.item, has]
        rfl
      refine sound.insert relisted own unlisted ⟨listing.items, [], ?_, ?_⟩ loaded
        (hasItem_mono made.ge known) made.ge fun other member => ?_
      · rw [append_nil]
      · unfold Listing.items
        rw [filterMap_append, filterMap_cons_some new, filterMap_nil]
      · rcases mem_append.mp member with old | last
        · exact sound.shaped session listing relisted.was other old
        · rw [mem_singleton.mp last, has]
          intro other same
          cases same
          exact shaped
  | @erase session listing entry object i relisted found has loaded generated made =>
    obtain ⟨left, right, whole, erased, -⟩ := split_at found
    have old : listing.items = left.filterMap DownloadedId.item ++
        object.item :: right.filterMap DownloadedId.item := by
      rw [Listing.items, whole, Listing.items_around has]
    have were := sound.own session listing relisted.was
    have distinct := sound.nodup session listing relisted.was
    have own : object.item.session = session := by
      refine were object.item ?_
      rw [old]
      exact mem_around.mpr (.inl rfl)
    rw [old] at were distinct
    obtain ⟨gone, rest⟩ := nodup_around.mp distinct
    have new : Listing.items { listing with downloaded := listing.downloaded.eraseIdx i } =
        left.filterMap DownloadedId.item ++ right.filterMap DownloadedId.item := by
      rw [Listing.items, erased, filterMap_append]
    refine sound.relisted relisted ?_ ?_ ?_ ?_ ?_ fun other member => ?_
    · rw [new]
      exact fun other member => were other (mem_around.mpr (.inr member))
    · rw [new]
      exact rest
    · intro other same
      rw [loaded, Finset.mem_erase, sound.mem_loaded relisted.was same, old, new, mem_around]
      constructor
      · rintro ⟨different, member⟩
        exact member.resolve_left different
      · intro member
        refine ⟨fun same => gone (same ▸ member), .inr member⟩
    · intro other different
      rw [loaded, Finset.mem_erase, and_iff_right]
      rintro rfl
      exact different own
    · intro other member
      rw [loaded] at member
      exact hasItem_mono made.ge (sound.known other (Finset.mem_of_mem_erase member))
    · exact sound.shaped session listing relisted.was other (mem_of_mem_eraseIdx member)
  | @renew session listing entry object i relisted found has loaded generated made =>
    obtain ⟨left, right, whole, -, put⟩ := split_at found
    have old : listing.items = left.filterMap DownloadedId.item ++
        object.item :: right.filterMap DownloadedId.item := by
      rw [Listing.items, whole, Listing.items_around has]
    have were := sound.own session listing relisted.was
    have distinct := sound.nodup session listing relisted.was
    have own : object.item.session = session := by
      refine were object.item ?_
      rw [old]
      exact mem_around.mpr (.inl rfl)
    obtain ⟨now, nowIs⟩ : ∃ now : Item, now = ⟨object.item.session, before.made, true⟩ :=
      ⟨_, rfl⟩
    rw [← nowIs] at relisted loaded
    have unmade : before.hasItem now = false := by simp [nowIs, hasItem]
    have fresh : now ∉ before.loaded := by
      intro member
      rw [sound.known now member] at unmade
      cases unmade
    have nowOwn : now.session = session := by
      rw [nowIs]
      exact own
    have absent : now ∉ left.filterMap DownloadedId.item ++
        object.item :: right.filterMap DownloadedId.item := by
      rw [← old, ← sound.mem_loaded relisted.was nowOwn]
      exact fresh
    rw [old] at were distinct
    obtain ⟨gone, rest⟩ := nodup_around.mp distinct
    have new : Listing.items
        { listing with downloaded := listing.downloaded.set i (entry.renewed object now) } =
        left.filterMap DownloadedId.item ++ now :: right.filterMap DownloadedId.item := by
      have has' : (entry.renewed object now).object = some { object with item := now } := rfl
      rw [Listing.items, put, Listing.items_around has']
    refine sound.relisted relisted ?_ ?_ ?_ ?_ ?_ ?_
    · intro other member
      rw [new] at member
      rcases mem_around.mp member with rfl | there
      · exact nowOwn
      · exact were other (mem_around.mpr (.inr there))
    · rw [new]
      exact nodup_around.mpr ⟨fun member => absent (mem_around.mpr (.inr member)), rest⟩
    · intro other same
      rw [loaded, Finset.mem_insert, Finset.mem_erase, sound.mem_loaded relisted.was same, old,
        new, mem_around, mem_around]
      refine or_congr_right ⟨?_, ?_⟩
      · rintro ⟨different, member⟩
        exact member.resolve_left different
      · exact fun member => ⟨fun same => gone (same ▸ member), .inr member⟩
    · intro other different
      rw [loaded, Finset.mem_insert, Finset.mem_erase]
      constructor
      · rintro (rfl | ⟨-, member⟩)
        · exact absurd nowOwn different
        · exact member
      · intro member
        refine .inr ⟨?_, member⟩
        rintro rfl
        exact different own
    · intro other member
      rw [loaded] at member
      rcases Finset.mem_insert.mp member with rfl | old
      · rw [hasItem, nowIs, made]
        simp
      · exact hasItem_mono (made ▸ Nat.le_succ _) (sound.known other (Finset.mem_of_mem_erase old))
    · refine shaped_of_set (sound.shaped session listing relisted.was) fun other same => ?_
      cases same
      exact sound.shaped session listing relisted.was entry (mem_of_getElem? found) object has

theorem Effects.items (effects : Effects False before after)
    (sound : before.ItemsSound) : after.ItemsSound := by
  induction effects with
  | refl => exact sound
  | tail _ effect ih => exact effect.items ih

theorem Finishes.items (finishes : Finishes world False session before after)
    (counters : before.Sound) (sound : before.ItemsSound) : after.ItemsSound := by
  cases finishes with
  | @drop listing entry positive found deleted relisted loaded generated made =>
    obtain ⟨left, right, whole, erased, -⟩ := split_at found
    have none := (counters session listing relisted.was).2 _ entry (by omega) found
    have same : Listing.items
        { listing with
          downloaded := listing.downloaded.eraseIdx (listing.resolveNeeded - 1)
          resolveNeeded := listing.resolveNeeded - 1
          resolveSentTotal := listing.resolveSentTotal - 1 } = listing.items := by
      rw [Listing.items, Listing.items, erased, whole, Listing.items_around_none none,
        filterMap_append]
    refine sound.relisted relisted ?_ ?_ ?_ ?_ ?_ fun other member => ?_
    · rw [same]
      exact sound.own session listing relisted.was
    · rw [same]
      exact sound.nodup session listing relisted.was
    · intro other own
      rw [same, loaded, sound.mem_loaded relisted.was own]
    · intro other _
      rw [loaded]
    · intro other member
      rw [loaded] at member
      exact hasItem_mono made.ge (sound.known other member)
    · exact sound.shaped session listing relisted.was other (mem_of_mem_eraseIdx member)
  | @resolve listing entry object positive found kept relisted own shaped origin fresh loaded
      made =>
    obtain ⟨unlisted, known⟩ := fresh.resolve_left id
    obtain ⟨left, right, whole, -, put⟩ := split_at found
    have none := (counters session listing relisted.was).2 _ entry (by omega) found
    refine sound.insert relisted own unlisted
      ⟨left.filterMap DownloadedId.item, right.filterMap DownloadedId.item, ?_, ?_⟩ loaded known
      made (shaped_of_set (sound.shaped session listing relisted.was) fun other same => ?_)
    · rw [Listing.items, whole, Listing.items_around_none none]
    · rw [Listing.items, put]
      exact Listing.items_around rfl
    · cases same
      exact shaped

end DownloadManager

end TelegramDesktop.Downloads
