import TelegramDesktop.DownloadManagerLoading
import TelegramDesktop.DownloadManagerRestart

/-!
# No entry outlives its message

In the runs where nothing is added for an item that has an entry already, the set of
items is that of the lists, every item has one entry, and a message that is removed
leaves no entry behind.
-/

namespace TelegramDesktop.Downloads

open Option List FlatMap DownloadedId Listing

namespace DownloadManager

variable {world : World} {manager next : DownloadManager} {session : Session} {item : Item}

/-- The items of all listings. -/
def listedItems (manager : DownloadManager) : List Item :=
  manager.sessions.entries.flatMap fun entry => entry.2.toListing.items

/-- The set of items is that of the lists, and no item has two entries. -/
structure Consistent (manager : DownloadManager) : Prop where
  nodup : manager.listedItems.Nodup
  loaded : ∀ item, item ∈ manager.loaded ↔ item ∈ manager.listedItems

theorem mem_listedItems :
    item ∈ manager.listedItems ↔
      ∃ session listing, manager.listing session = some listing ∧ item ∈ listing.items := by
  unfold listedItems
  rw [mem_flatMap]
  constructor
  · rintro ⟨entry, member, here⟩
    exact ⟨entry.1, _, listing_of_sessionData (find?_of_mem member), here⟩
  · rintro ⟨session, listing, found, here⟩
    obtain ⟨data, known, rfl⟩ := sessionData_of_listing found
    exact ⟨_, find?_eq_some.mp known, here⟩

theorem ItemsSound.consistent (sound : manager.ItemsSound) : manager.Consistent where
  nodup := by
    unfold listedItems
    rw [nodup_flatMap]
    have listed : ∀ entry ∈ manager.sessions.entries,
        manager.listing entry.1 = some entry.2.toListing := fun entry member =>
      listing_of_sessionData (find?_of_mem member)
    refine ⟨fun entry member => sound.nodup _ _ (listed entry member), ?_⟩
    have apart := manager.sessions.nodup
    refine apart.imp_of_mem fun {first second} firstIn secondIn different => ?_
    intro item left right
    refine different (manager.sessions.eq_of_key firstIn secondIn ?_)
    rw [← sound.own _ _ (listed first firstIn) item left,
      ← sound.own _ _ (listed second secondIn) item right]
  loaded item := by
    rw [sound.loaded, mem_listedItems]
    constructor
    · rintro ⟨listing, found, member⟩
      exact ⟨_, listing, found, member⟩
    · rintro ⟨session, listing, found, member⟩
      refine ⟨listing, ?_, member⟩
      rw [sound.own session listing found item member]
      exact found

/-- What `check` adds has no entry. -/
def AddsUnlisted (world : World) (manager : DownloadManager) (session : Session)
    (which : DownloadingId → Bool) : Prop :=
  ∀ item, manager.addedBy world session which = some item → item ∉ manager.loaded

/-- The messages that these entries are resolved to are different and have no entry. -/
structure FindsUnlisted (world : World) (manager : DownloadManager) (session : Session)
    (entries : List DownloadedId) : Prop where
  nodup : (entries.filterMap (keptMessage world session)).Nodup
  unlisted : ∀ item ∈ entries.filterMap (keptMessage world session), item ∉ manager.loaded

/-- Nothing is added for an item that has an entry, no item of the manager itself loses
its message, and all the lists are taken only when their entries have been resolved. -/
def ListsOnce (manager : DownloadManager) (event : Event) : Prop :=
  match event.action with
  | .addLoading item document photo started => ∀ middle,
      manager.enlist event.world item document photo started = some (middle, true) →
        middle.AddsUnlisted event.world item.session (DownloadingId.hasItem item)
  | .checkItem item => manager.AddsUnlisted event.world item.session (DownloadingId.hasItem item)
  | .checkDocument session document =>
    manager.AddsUnlisted event.world session fun entry => entry.document = document
  | .addLoaded object path _ =>
    (event.world.acceptedSize path).isSome = true → object.item ∉ manager.loaded
  | .changed item =>
    (item ∈ manager.generated → ∀ listing, manager.listing item.session = some listing →
      ∀ entry ∈ listing.downloaded, entry.item = some item →
        hasOtherMedia event.world item entry = false) ∧
    ∀ middle, manager.changedLoaded event.world item = some middle →
      middle.AddsUnlisted event.world item.session (DownloadingId.hasItem item)
  | .removed item => item ∉ manager.generated
  | .resolve session => ∀ listing, manager.listing session = some listing →
      (∀ entry ∈ listing.batch, asks event.world session entry = false) →
        manager.FindsUnlisted event.world session
          (listing.batch.filter fun entry => !isDeleted event.world entry)
  | .requestFinished session => ∀ listing, manager.listing session = some listing →
      listing.resolveSentRequests = 1 →
        manager.FindsUnlisted event.world session
          ((listing.lastUnresolved listing.resolveSentTotal).filter fun entry =>
            !entry.path.isEmpty)
  | .deleteAll => manager.NothingUnresolved
  | .trackSession _ _ | .clearLoading | .deleteFiles _ | .untrack _ => True

/-- All that holds between two calls of the manager. -/
structure Tidy (manager : DownloadManager) : Prop where
  counters : manager.Sound
  paced : AllListings Listing.Paced manager
  items : manager.ItemsSound
  loading : manager.LoadingFound

theorem AddsUnlisted.addsNew {which : DownloadingId → Bool} (loading : manager.LoadingFound)
    (adds : manager.AddsUnlisted world session which) :
    AddsNew False world manager session which := by
  intro item added
  have known := added
  obtain ⟨data, -, taken⟩ := bind_eq_some_iff.mp added
  obtain ⟨i, -, rest⟩ := bind_eq_some_iff.mp taken
  obtain ⟨entry, -, last⟩ := bind_eq_some_iff.mp rest
  split at last
  next here =>
    cases last
    exact .inr ⟨adds _ known, (loading _ (.inl here.2.2.1)).2⟩
  · cases last

variable {listing : Listing} {entry : DownloadedId}

theorem lastUnresolved_succ (after : Listing) (count : Nat)
    (positive : listing.resolveNeeded ≠ 0)
    (found : listing.downloaded[listing.resolveNeeded - 1]? = some entry)
    (needed : after.resolveNeeded = listing.resolveNeeded - 1)
    (same : after.downloaded.take after.resolveNeeded =
      listing.downloaded.take after.resolveNeeded) :
    listing.lastUnresolved (count + 1) = after.lastUnresolved count ++ [entry] := by
  have inside := lt_length_of_getElem? found
  have start : listing.resolveNeeded - (count + 1) = after.resolveNeeded - count := by omega
  have next : listing.resolveNeeded = after.resolveNeeded + 1 := by omega
  rw [← needed] at found inside
  unfold lastUnresolved
  rw [start, next, take_add_one, found, toList_some, same, drop_append_of_le_length]
  rw [length_take]
  omega

theorem finishLoop_items {count : Nat}
    (found : manager.listing session = some listing) (counters : manager.Sound)
    (items : manager.ItemsSound)
    (finds : manager.FindsUnlisted world session
      ((listing.lastUnresolved count).filter fun entry => !entry.path.isEmpty))
    (known : ∀ entry ∈ listing.lastUnresolved count, ∀ item,
      world.message session entry.itemId = some item → manager.hasItem item = true)
    (finished : finishLoop world session count manager = some next) : next.ItemsSound := by
  induction count generalizing manager listing with
  | zero =>
    cases finished
    exact items
  | succ count ih =>
    obtain ⟨middle, first, rest⟩ := bind_eq_some_iff.mp finished
    have message : ∀ {entry item}, keptMessage world session entry = some item →
        world.message session entry.itemId = some item :=
      fun kept => (filter_eq_some_iff.mp kept).1
    have positive : listing.resolveNeeded ≠ 0 := by
      intro zero
      obtain ⟨data, same, taken⟩ := bind_eq_some_iff.mp first
      obtain rfl : data.toListing = listing :=
        some.inj ((listing_of_sessionData same).symm.trans found)
      rw [if_pos zero] at taken
      cases taken
    have finishes : Finishes world False session manager middle := by
      refine finishOne_finishes (.inr items.known) ?_ first
      intro there entry item here present path kept
      obtain rfl : there = listing := some.inj (here.symm.trans found)
      have last : entry ∈ there.lastUnresolved (count + 1) := by
        rw [lastUnresolved_succ { there with resolveNeeded := there.resolveNeeded - 1 } count
          positive present rfl rfl]
        exact mem_append_right _ (mem_singleton.mpr rfl)
      have filtered : entry ∈ (there.lastUnresolved (count + 1)).filter fun entry =>
          !entry.path.isEmpty := mem_filter.mpr ⟨last, by rw [path]; rfl⟩
      exact .inr ⟨finds.unlisted item (mem_filterMap.mpr ⟨entry, filtered, kept⟩),
        known entry last item (message kept)⟩
    have later := finishes.items counters items
    have sound := finishes.sound counters
    obtain ⟨nodup, unlisted⟩ := finds
    cases finishes with
    | @drop before entry positive present deleted relisted loaded generated made =>
      obtain rfl : before = listing := some.inj (relisted.was.symm.trans found)
      have shorter := lastUnresolved_succ { before with
          downloaded := before.downloaded.eraseIdx (before.resolveNeeded - 1)
          resolveNeeded := before.resolveNeeded - 1
          resolveSentTotal := before.resolveSentTotal - 1 } count positive present rfl
        (take_eraseIdx_eq_take_of_le _ _ _ le_rfl)
      rw [shorter] at nodup unlisted known
      rw [filter_append, filterMap_append] at nodup unlisted
      refine ih relisted.now sound later ⟨(nodup_append.mp nodup).1, ?_⟩ ?_ rest
      · intro item member
        rw [loaded]
        exact unlisted item (mem_append_left _ member)
      · intro other member item there
        exact hasItem_mono made.ge (known other (mem_append_left _ member) item there)
    | @resolve before entry object positive present kept relisted own shaped origin fresh loaded
        made =>
        obtain rfl : before = listing := some.inj (relisted.was.symm.trans found)
        have shorter := lastUnresolved_succ { before with
            downloaded := before.downloaded.set (before.resolveNeeded - 1)
              { entry with object := some object }
            resolveNeeded := before.resolveNeeded - 1
            resolveSentTotal := before.resolveSentTotal - 1 } count positive present rfl
          (take_set_of_le le_rfl)
        rw [shorter] at nodup unlisted known
        rw [filter_append, filterMap_append] at nodup unlisted
        obtain ⟨first, -, apart⟩ := nodup_append.mp nodup
        refine ih relisted.now sound later ⟨first, ?_⟩ ?_ rest
        · intro item member
          rw [loaded, Finset.mem_insert, not_or]
          refine ⟨?_, unlisted item (mem_append_left _ member)⟩
          rintro rfl
          rcases origin with message' | unmade
          · refine apart _ member _ ?_ rfl
            refine mem_filterMap.mpr ⟨entry, ?_, message'⟩
            exact mem_filter.mpr ⟨mem_singleton.mpr rfl, by rw [kept]; rfl⟩
          · obtain ⟨other, listed, kept'⟩ := mem_filterMap.mp member
            have has := known other (mem_append_left _ (mem_filter.mp listed).1) _ (message kept')
            rw [unmade] at has
            cases has
        · intro other member item there
          exact hasItem_mono made (known other (mem_append_left _ member) item there)

theorem known_of_hasMessages (found : manager.listing session = some listing)
    (messages : manager.hasMessages world session = true) :
    ∀ entry ∈ listing.downloaded, ∀ item, world.message session entry.itemId = some item →
      manager.hasItem item = true := by
  obtain ⟨data, here, rfl⟩ := sessionData_of_listing found
  intro entry member item message
  unfold hasMessages at messages
  rw [here, getD_some] at messages
  have one := all_eq_true.mp messages entry member
  rw [message] at one
  exact one

theorem lastUnresolved_subset {count : Nat}
    (member : entry ∈ listing.lastUnresolved count) : entry ∈ listing.downloaded :=
  mem_of_mem_take (mem_of_mem_drop member)

theorem keptMessage_marked (entry : DownloadedId) :
    keptMessage world session (marked world entry) = keptMessage world session entry := by
  unfold marked
  split <;> rfl

variable {before after : DownloadManager}

/-- The entries that wait after `resolve` are those of the batch. -/
theorem Starts.waiting {started : Listing}
    (starts : Starts world session listing started before after)
    (first : listing.resolveSentTotal = 0) :
    started.lastUnresolved started.resolveSentTotal = listing.batch.map (marked world) := by
  have entries := starts.entries
  have sent := starts.sent
  have needed := starts.needed
  refine ext_getElem? fun i => ?_
  have start : listing.resolveNeeded - started.resolveSentTotal =
      listing.resolveNeeded - maxResolvePerAttempt := by omega
  rw [getElem?_map, batch, getElem?_lastUnresolved, getElem?_lastUnresolved, needed, start, entries]
  split
  · rw [if_pos (by omega)]
  · rfl

theorem Starts.items {started : Listing}
    (starts : Starts world session listing started before after) :
    started.items = listing.items := by
  have same : started.downloaded.map item =
      listing.downloaded.map item := by
    refine ext_getElem? fun j => ?_
    rw [getElem?_map, getElem?_map, starts.entries]
    split
    · rw [Option.map_map]
      refine congrFun (congrArg _ (funext fun entry => ?_)) _
      rw [Function.comp_apply, item, item, marked_object]
    · rfl
  have through : ∀ entries : List DownloadedId, entries.filterMap item =
      (entries.map item).filterMap id := by
    intro entries
    rw [filterMap_map]
    rfl
  rw [Listing.items, Listing.items, through, through, same]

theorem ItemsSound.reworked {after' : Listing}
    (sound : before.ItemsSound) (relisted : Relisted before after session listing after')
    (loaded : after.loaded = before.loaded) (made : before.made ≤ after.made)
    (items : after'.items = listing.items)
    (shaped : ∀ entry ∈ after'.downloaded, ∀ object, entry.object = some object →
      object.Shaped) : after.ItemsSound := by
  refine sound.relisted relisted ?_ ?_ ?_ ?_ ?_ shaped
  · rw [items]
    exact sound.own session listing relisted.was
  · rw [items]
    exact sound.nodup session listing relisted.was
  · intro item own
    rw [loaded, items, sound.mem_loaded relisted.was own]
  · intro item _
    rw [loaded]
  · intro item member
    rw [loaded] at member
    exact hasItem_mono made (sound.known item member)

theorem Tidy.resolve_items (tidy : manager.Tidy)
    (messages : manager.hasMessages world session = true)
    (finds : ∀ listing, manager.listing session = some listing →
      (∀ entry ∈ listing.batch, asks world session entry = false) →
        manager.FindsUnlisted world session
          (listing.batch.filter fun entry => !isDeleted world entry))
    (resolved : manager.resolve world session = some next) : next.ItemsSound := by
  rcases resolve_cases resolved with ⟨same, -⟩ |
    ⟨listing, started, middle, last, starts, checked, same⟩
  · exact tidy.items.same same
  · refine ItemsSound.same ?_ same
    have found := starts.relisted.was
    have first : listing.resolveSentTotal = 0 := by
      have whole := (tidy.paced session listing found).whole
      have below := starts.below
      have few := starts.few
      omega
    have waiting := starts.waiting first
    have middleItems : middle.ItemsSound := by
      refine tidy.items.reworked starts.relisted starts.loaded starts.made.ge starts.items ?_
      intro entry member
      obtain ⟨j, there⟩ := mem_iff_getElem?.mp member
      have shaped := tidy.items.shaped session listing found
      rw [starts.entries] at there
      split at there
      · obtain ⟨old, listed, rfl⟩ := map_eq_some_iff.mp there
        rw [marked_object]
        exact shaped old (mem_of_getElem? listed)
      · exact shaped entry (mem_of_getElem? there)
    rcases checkRequests_cases starts.relisted.now checked with ⟨-, rfl⟩ | ⟨none, finished⟩
    · exact middleItems
    · have silent := starts.silent.mp none
      simp only [first, Nat.sub_zero] at silent
      have quiet : ∀ entry ∈ listing.batch, asks world session entry = false := by
        intro entry member
        obtain ⟨j, above, below, there⟩ := mem_batch.mp member
        exact silent.2 j entry ⟨above, below⟩ there
      have known := known_of_hasMessages found messages
      obtain ⟨nodup, unlisted⟩ := finds listing found quiet
      have messagesSame : ((started.lastUnresolved started.resolveSentTotal).filter fun entry =>
          !entry.path.isEmpty).filterMap (keptMessage world session) =
          (listing.batch.filter fun entry => !isDeleted world entry).filterMap
            (keptMessage world session) := by
        rw [waiting, List.filter_map, List.filterMap_map]
        have path : ((fun entry : DownloadedId => !entry.path.isEmpty) ∘ marked world) =
            fun entry => !isDeleted world entry := funext fun entry => by
          rw [Function.comp_apply, marked_isEmpty]
        have message : keptMessage world session ∘ marked world = keptMessage world session :=
          funext fun entry => keptMessage_marked entry
        rw [path, message]
      refine finishLoop_items starts.relisted.now (starts.sound tidy.counters) middleItems
        ⟨?_, ?_⟩ ?_ finished
      · rw [messagesSame]
        exact nodup
      · rw [messagesSame, starts.loaded]
        exact unlisted
      · intro entry member item message
        rw [waiting] at member
        obtain ⟨old, listed, rfl⟩ := mem_map.mp member
        refine hasItem_mono starts.made.ge (known old (lastUnresolved_subset listed) item ?_)
        rw [← message, marked]
        split <;> rfl

theorem Tidy.requestFinished_items (tidy : manager.Tidy)
    (messages : manager.hasMessages world session = true)
    (finds : ∀ listing, manager.listing session = some listing →
      listing.resolveSentRequests = 1 → manager.FindsUnlisted world session
        ((listing.lastUnresolved listing.resolveSentTotal).filter fun entry =>
          !entry.path.isEmpty))
    (finished : manager.requestFinished world session = some next) : next.ItemsSound := by
  obtain ⟨listing, middle, waits, relisted, loaded, made, checked⟩ :=
    requestFinished_cases finished
  have found := relisted.was
  have middleItems : middle.ItemsSound :=
    tidy.items.reworked relisted loaded made.ge rfl (tidy.items.shaped session listing found)
  rcases checkRequests_cases relisted.now checked with ⟨-, rfl⟩ | ⟨none, rounds⟩
  · exact middleItems
  · have one : listing.resolveSentRequests = 1 := by
      dsimp only at none
      omega
    obtain ⟨nodup, unlisted⟩ := finds listing found one
    refine finishLoop_items relisted.now (requestFinished_middle relisted tidy.counters)
      middleItems ⟨nodup, ?_⟩ ?_ rounds
    · rw [loaded]
      exact unlisted
    · intro entry member item message
      exact hasItem_mono made.ge
        (known_of_hasMessages found messages entry (lastUnresolved_subset member) item message)

theorem deleteAll_items (items : manager.ItemsSound) : manager.deleteAll.ItemsSound := by
  obtain ⟨loaded, made⟩ := forgetLists_spec manager.sessions.entries manager
  have none : ∀ item, item ∉ manager.deleteAll.loaded := by
    intro item member
    obtain ⟨before, gone⟩ := (loaded item).mp member
    obtain ⟨listing, found, listed⟩ := (items.loaded item).mp before
    obtain ⟨data, here, rfl⟩ := sessionData_of_listing found
    obtain ⟨entry, listedEntry, is⟩ := mem_filterMap.mp listed
    exact gone _ (find?_eq_some.mp here) entry listedEntry is
  have empty : ∀ session listing, manager.deleteAll.listing session = some listing →
      listing.downloaded = [] := by
    intro session listing found
    rw [listing_deleteAll] at found
    obtain ⟨before, -, rfl⟩ := map_eq_some_iff.mp found
    rfl
  refine ⟨?_, ?_, ?_, ?_, ?_⟩
  · intro session listing found item member
    rw [Listing.items, empty session listing found] at member
    cases member
  · intro session listing found
    rw [Listing.items, empty session listing found]
    exact nodup_nil
  · intro item
    refine iff_of_false (none item) ?_
    rintro ⟨listing, found, member⟩
    rw [Listing.items, empty _ listing found] at member
    cases member
  · exact fun item member => absurd member (none item)
  · intro session listing found
    rw [empty session listing found]
    exact fun entry member => absurd member not_mem_nil

theorem untrack_items (items : manager.ItemsSound)
    (untracked : manager.untrack session = some next) : next.ItemsSound := by
  have lists : ∀ other listing, next.listing other = some listing →
      other ≠ session ∧ manager.listing other = some listing := by
    intro other listing found
    rw [listing_untrack untracked] at found
    split at found
    · cases found
    · exact ⟨‹_›, found⟩
  obtain ⟨data, found, rfl⟩ := map_eq_some_iff.mp untracked
  obtain ⟨loaded, made⟩ := forgetSession_spec manager data
  refine ⟨?_, ?_, ?_, ?_, ?_⟩
  · exact fun other listing there => items.own other listing (lists other listing there).2
  · exact fun other listing there => items.nodup other listing (lists other listing there).2
  · intro item
    refine (loaded item).trans ⟨?_, ?_⟩
    · rintro ⟨before, gone⟩
      obtain ⟨listing, here, member⟩ := (items.loaded item).mp before
      refine ⟨listing, ?_, member⟩
      rw [listing_untrack untracked, if_neg, here]
      intro same
      rw [same, listing_of_sessionData found] at here
      cases here
      obtain ⟨entry, listed, is⟩ := mem_filterMap.mp member
      exact gone entry listed is
    · rintro ⟨listing, there, member⟩
      obtain ⟨different, here⟩ := lists _ listing there
      refine ⟨(items.loaded item).mpr ⟨listing, here, member⟩, fun entry listed is => different ?_⟩
      exact items.own session _ (listing_of_sessionData found) item
        (mem_filterMap.mpr ⟨entry, listed, is⟩)
  · intro item member
    exact hasItem_mono made.ge (items.known item ((loaded item).mp member).1)
  · exact fun other listing there => items.shaped other listing (lists other listing there).2

theorem trackSession_items {bytes : Bytes} (fresh : manager.isTracked session = false)
    (items : manager.ItemsSound) : (manager.trackSession session bytes).ItemsSound := by
  have unresolved : ∀ entry ∈ deserialize bytes, entry.object = none :=
    fun entry member => ((deserialize_accepted bytes).2 entry member).2
  have empty : (deserialize bytes).filterMap item = [] := by
    refine filterMap_eq_nil_iff.mpr fun entry member => ?_
    rw [item, unresolved entry member]
    rfl
  have untracked : manager.listing session = none := by
    rw [isTracked, isSome_eq_false_iff, isNone_iff_eq_none] at fresh
    rw [listing, fresh]
    rfl
  have lists : ∀ other listing, (manager.trackSession session bytes).listing other = some listing →
      listing.downloaded = deserialize bytes ∧ other = session ∨
        manager.listing other = some listing := by
    intro other listing found
    rw [listing_trackSession fresh] at found
    split at found
    · cases found
      exact .inl ⟨rfl, ‹_›⟩
    · exact .inr found
  refine ⟨?_, ?_, ?_, items.known, ?_⟩
  · intro other listing found
    rcases lists other listing found with ⟨new, -⟩ | old
    · rw [Listing.items, new, empty]
      exact fun item member => absurd member not_mem_nil
    · exact items.own other listing old
  · intro other listing found
    rcases lists other listing found with ⟨new, -⟩ | old
    · rw [Listing.items, new, empty]
      exact nodup_nil
    · exact items.nodup other listing old
  · intro item
    refine (items.loaded item).trans ⟨?_, ?_⟩
    · rintro ⟨listing, found, member⟩
      refine ⟨listing, ?_, member⟩
      rw [listing_trackSession fresh, if_neg, found]
      intro same
      rw [same, untracked] at found
      cases found
    · rintro ⟨listing, found, member⟩
      rcases lists _ listing found with ⟨new, -⟩ | old
      · rw [Listing.items, new, empty] at member
        cases member
      · exact ⟨listing, old, member⟩
  · intro other listing found
    rcases lists other listing found with ⟨new, -⟩ | old
    · rw [new]
      intro entry member object has
      rw [unresolved entry member] at has
      cases has
    · exact items.shaped other listing old

section

variable {event : Event} (tidy : manager.Tidy) (once : manager.ListsOnce event)
  (taken : manager.step event = some next)

include tidy once taken

theorem Tidy.step_items : next.ItemsSound := by
  obtain ⟨possible, performed⟩ := isPossible_of_step taken
  obtain ⟨world, action⟩ := event
  have items := tidy.items
  cases action with
  | trackSession session bytes =>
    cases performed
    exact trackSession_items (Bool.not_eq_true' _ ▸ possible) items
  | addLoading item document photo started =>
    obtain ⟨-, known⟩ := Bool.and_eq_true_iff.mp possible
    refine Effect.items (addLoading_effect (fun middle enlisted => ?_) performed) items
    exact (once middle enlisted).addsNew (tidy.loading.enlist known enlisted)
  | checkItem item => exact (check_effect (once.addsNew tidy.loading) performed).items items
  | checkDocument session document =>
    exact (checkDocument_effect (once.addsNew tidy.loading) performed).items items
  | addLoaded object path started =>
    obtain ⟨both, -⟩ := Bool.and_eq_true_iff.mp possible
    obtain ⟨-, known⟩ := Bool.and_eq_true_iff.mp both
    refine Effect.items (addLoaded_effect (fun accepted => .inr ⟨?_, known⟩) performed) items
    exact once accepted
  | clearLoading => exact items.same (clearLoading_same performed)
  | resolve session =>
    obtain ⟨-, messages⟩ := Bool.and_eq_true_iff.mp possible
    exact tidy.resolve_items messages once performed
  | requestFinished session =>
    obtain ⟨-, messages⟩ := Bool.and_eq_true_iff.mp possible
    exact tidy.requestFinished_items messages once performed
  | changed item =>
    refine Effects.items (changed_effects (fun middle first => ?_) performed) items
    exact (once.2 middle first).addsNew ((changedLoaded_loads first).shrinks.found tidy.loading)
  | removed item => exact (removed_effect performed).items items
  | deleteFiles ids => exact (deleteFiles_effects performed).items items
  | deleteAll =>
    cases performed
    exact deleteAll_items items
  | untrack session => exact untrack_items items performed

theorem Tidy.step : next.Tidy where
  counters := by
    by_cases all : event.action = .deleteAll
    · obtain ⟨world, action⟩ := event
      cases all
      cases taken
      have counted := (deleteAll_counted_iff fun session listing found =>
        (tidy.counters session listing found).1).mpr once
      exact fun session listing found =>
        ⟨counted session listing found, deleteAll_unresolved session listing found⟩
    · exact step_sound taken all tidy.counters
  paced := step_paced tidy.paced taken
  items := tidy.step_items once taken
  loading := tidy.loading.step taken

end

theorem findIdx?_of_mem {α : Type*} {entries : List α} (holds : α → Bool) {entry : α}
    (member : entry ∈ entries) (here : holds entry = true) :
    ∃ i found, entries.findIdx? holds = some i ∧ entries[i]? = some found ∧
      holds found = true := by
  have some : (entries.findIdx? holds).isSome = true :=
    findIdx?_isSome.trans (any_eq_true.mpr ⟨entry, member, here⟩)
  obtain ⟨i, index⟩ := isSome_iff_exists.mp some
  obtain ⟨inside, first, -⟩ := findIdx?_eq_some_iff_getElem.mp index
  exact ⟨i, _, index, getElem?_eq_getElem inside, first⟩

variable {data : SessionData}

theorem remove_succeeds {entry : DownloadingId} {i : Nat}
    (found : manager.sessionData session = some data)
    (present : data.downloading[i]? = some entry) : ∃ next, manager.remove session i = some next :=
  ⟨_, by unfold remove; rw [found, bind_some, present]; rfl⟩

theorem addLoaded_succeeds {object : DownloadObject} (path : QString)
    (started : Int64) (found : manager.sessionData object.item.session = some data)
    (document : object.document.isSome = true) :
    ∃ next, manager.addLoaded world object path started = some next := by
  obtain ⟨id, has⟩ := isSome_iff_exists.mp document
  unfold addLoaded
  have named : downloadId object = some ⟨id, .document⟩ := by
    unfold downloadId
    rw [has]
  rw [named, bind_some]
  split
  · exact ⟨_, rfl⟩
  · dsimp only
    rw [found]
    exact ⟨_, rfl⟩

theorem checkAt_succeeds (world : World) {entry : DownloadingId} {i : Nat}
    (found : manager.sessionData session = some data)
    (present : data.downloading[i]? = some entry) (own : entry.item.session = session) :
    ∃ next, manager.checkAt world session i = some next := by
  unfold checkAt
  rw [found, bind_some, present, bind_some]
  dsimp only
  split
  · exact remove_succeeds found present
  · split
    · split
      · have tracked : manager.sessionData entry.object.item.session = some data := by
          rw [DownloadingId.object, own]
          exact found
        exact addLoaded_succeeds _ _ tracked rfl
      · exact ⟨_, rfl⟩
    · split
      · exact remove_succeeds found present
      · exact ⟨_, rfl⟩

theorem LoadingFound.check_succeeds (loading : manager.LoadingFound)
    (known : manager.IsLoading item) : ∃ next, manager.check world item = some next := by
  obtain ⟨⟨data, found, entry, member, is⟩, -⟩ := loading item known
  obtain ⟨i, first, index, present, here⟩ :=
    findIdx?_of_mem (DownloadingId.hasItem item) member (decide_eq_true is)
  have own : first.item = item := of_decide_eq_true here
  unfold DownloadManager.check
  rw [found, bind_some, index, bind_some]
  exact checkAt_succeeds world found present (own ▸ rfl)

theorem ItemsSound.findIdx? (items : manager.ItemsSound) (member : item ∈ manager.loaded) :
    ∃ data i entry object, manager.sessionData item.session = some data ∧
      data.downloaded.findIdx? (DownloadedId.hasItem item) = some i ∧
      data.downloaded[i]? = some entry ∧ entry.object = some object ∧ object.item = item := by
  obtain ⟨listing, found, listed⟩ := (items.loaded item).mp member
  obtain ⟨data, here, rfl⟩ := sessionData_of_listing found
  obtain ⟨entry, there, is⟩ := mem_filterMap.mp listed
  obtain ⟨i, first, index, present, has⟩ :=
    findIdx?_of_mem (DownloadedId.hasItem item) there (decide_eq_true is)
  obtain ⟨object, shown, same⟩ := map_eq_some_iff.mp (of_decide_eq_true has)
  exact ⟨data, i, first, object, here, index, present, shown, same⟩

theorem ItemsSound.detach_succeeds {i : Nat} {object : DownloadObject} (items : manager.ItemsSound)
    (found : manager.sessionData session = some data) (present : data.downloaded[i]? = some entry)
    (has : entry.object = some object) (listed : object.item ∈ manager.loaded)
    (real : object.item ∉ manager.generated) : ∃ next, manager.detach session i = some next := by
  have shaped := items.shaped session _ (listing_of_sessionData found) entry
    (mem_of_getElem? present) object has
  have again : manager.regenerateItem object =
      some (manager.generateItem object.item.session) := if_pos shaped
  unfold detach
  rw [found, bind_some, present, bind_some, has, bind_some, if_pos ⟨listed, real⟩, again]
  exact ⟨_, rfl⟩

theorem Tidy.changed_succeeds (tidy : manager.Tidy)
    (real : item ∈ manager.generated → ∀ listing, manager.listing item.session = some listing →
      ∀ entry ∈ listing.downloaded, entry.item = some item →
        hasOtherMedia world item entry = false) :
    ∃ next, manager.changed world item = some next := by
  have first : ∃ middle, manager.changedLoaded world item = some middle := by
    unfold changedLoaded
    split
    next listed =>
      obtain ⟨data, i, entry, object, found, index, present, has, is⟩ := tidy.items.findIdx? listed
      rw [found, bind_some, index, bind_some, present, bind_some]
      split
      next other =>
        refine tidy.items.detach_succeeds found present has (is ▸ listed) fun made => ?_
        rw [is] at made
        have same := real made _ (listing_of_sessionData found) entry
          (mem_of_getElem? present) (by rw [DownloadedId.item, has, ← is]; rfl)
        rw [same] at other
        cases other
      · exact ⟨_, rfl⟩
    · exact ⟨_, rfl⟩
  obtain ⟨middle, taken⟩ := first
  unfold changed
  rw [taken, bind_some]
  split
  next known =>
    exact ((changedLoaded_loads taken).shrinks.found tidy.loading).check_succeeds known
  · exact ⟨_, rfl⟩

theorem Tidy.removed_succeeds (tidy : manager.Tidy) (real : item ∉ manager.generated) :
    ∃ next, manager.removed item = some next := by
  have first : ∃ middle, manager.removedLoaded item = some middle := by
    unfold removedLoaded
    split
    next listed =>
      obtain ⟨data, i, entry, object, found, index, present, has, is⟩ := tidy.items.findIdx? listed
      rw [found, bind_some, index, bind_some]
      exact tidy.items.detach_succeeds found present has (is ▸ listed) (is ▸ real)
    · exact ⟨_, rfl⟩
  obtain ⟨middle, taken⟩ := first
  unfold removed
  rw [taken, bind_some]
  split
  next known =>
    obtain ⟨⟨data, found, entry, member, is⟩, -⟩ :=
      (removedLoaded_loads taken).shrinks.found tidy.loading item known
    obtain ⟨i, other, index, present, -⟩ :=
      findIdx?_of_mem (DownloadingId.hasItem item) member (decide_eq_true is)
    rw [found, bind_some, index, bind_some]
    exact remove_succeeds found present
  · exact ⟨_, rfl⟩

theorem Tidy.removed_notMem (tidy : manager.Tidy)
    (removed : manager.removed item = some next) : item ∉ next.loaded := by
  obtain ⟨middle, first, taken⟩ := bind_eq_some_iff.mp removed
  have same : SameListings middle next := by
    split at taken
    · obtain ⟨data, -, rest⟩ := bind_eq_some_iff.mp taken
      obtain ⟨i, -, last⟩ := bind_eq_some_iff.mp rest
      exact remove_same last
    · cases taken
      exact .refl _
  rw [same.loaded]
  unfold removedLoaded at first
  split at first
  next listed =>
    obtain ⟨data, i, entry, object, found, index, present, has, is⟩ := tidy.items.findIdx? listed
    rw [found, bind_some, index, bind_some] at first
    unfold detach at first
    rw [found, bind_some, present, bind_some, has, bind_some] at first
    split at first
    · obtain ⟨⟨now, between⟩, generated, rfl⟩ := map_eq_some_iff.mp first
      unfold regenerateItem at generated
      split at generated
      · cases generated
        intro member
        rcases Finset.mem_insert.mp member with new | old
        · have known := tidy.items.known item listed
          rw [new] at known
          simp [hasItem] at known
        · rw [is] at old
          exact Finset.notMem_erase item _ old
      · cases generated
    · cases first
  · cases first
    assumption

/-- In the runs that list every item once, the set of items is that of the lists and no
item has two entries.  No assertion about a changed or a removed message fails, and a
removed message has no entry. -/
theorem listed_once {events : List Event} (meets : RunMeets step ListsOnce {} events)
    (ends : run step {} events = some manager) :
    manager.Consistent ∧ ∀ event, manager.isPossible event = true → manager.ListsOnce event →
      (∀ item, event.action = .changed item → (manager.step event).isSome = true) ∧
      ∀ item, event.action = .removed item →
        ∃ next, manager.step event = some next ∧ item ∉ next.listedItems := by
  have start : Tidy {} := by
    refine ⟨nofun, nofun, ⟨nofun, nofun, ?_, nofun, nofun⟩, ?_⟩
    · exact fun item => ⟨nofun, fun ⟨listing, found, _⟩ => nomatch found⟩
    · rintro item (known | known) <;> cases known
  have tidy : manager.Tidy := run_invariant_of_meets
    (fun _ _ _ tidy once taken => Tidy.step tidy once taken) start meets ends
  refine ⟨tidy.items.consistent, fun event possible once => ⟨fun item is => ?_, fun item is => ?_⟩⟩
  · obtain ⟨world, action⟩ := event
    cases is
    obtain ⟨next, taken⟩ := tidy.changed_succeeds once.1
    unfold DownloadManager.step
    rw [if_pos possible]
    exact isSome_iff_exists.mpr ⟨next, taken⟩
  · obtain ⟨world, action⟩ := event
    cases is
    obtain ⟨next, taken⟩ := tidy.removed_succeeds once
    have steps : manager.step ⟨world, .removed item⟩ = some next := by
      unfold DownloadManager.step
      rw [if_pos possible]
      exact taken
    refine ⟨next, steps, fun listed => tidy.removed_notMem taken ?_⟩
    exact ((tidy.step once steps).items.consistent.loaded item).mpr listed

def savedOnce : List Event := [
  ⟨lonelyWorld, .trackSession 0 []⟩,
  ⟨lonelyWorld, .addLoaded ⟨⟨0, 1, false⟩, some 5, none⟩ (letterPath 97) 0⟩]

theorem listed_once_saved :
    ∃ manager, run step {} savedOnce = some manager ∧ manager.Consistent ∧
      manager.listedItems = [⟨0, 1, false⟩] := by
  have meets : RunMeets step ListsOnce {} savedOnce := by
    refine ⟨trivial, fun next taken => ⟨?_, fun _ _ => trivial⟩⟩
    obtain rfl : _ = next := some.inj taken
    exact fun _ => Finset.notMem_empty _
  obtain ⟨manager, ends⟩ : ∃ manager, run step {} savedOnce = some manager := ⟨_, rfl⟩
  refine ⟨manager, ends, (listed_once meets ends).1, ?_⟩
  obtain rfl : _ = manager := some.inj ends
  decide

/-- A message whose file was saved twice is removed: one of its entries stays. -/
theorem removed_message_keeps_entry :
    (run step {} [
        ⟨lonelyWorld, .trackSession 0 []⟩,
        ⟨lonelyWorld, .addLoaded ⟨⟨0, 1, false⟩, some 5, none⟩ (letterPath 97) 0⟩,
        ⟨lonelyWorld, .addLoaded ⟨⟨0, 1, false⟩, some 5, none⟩ (letterPath 98) 1⟩,
        ⟨lonelyWorld, .removed ⟨0, 1, false⟩⟩]).map (fun manager =>
      (manager.listedItems, decide (⟨0, 1, false⟩ ∈ manager.loaded))) =
      some ([⟨0, 0, true⟩, ⟨0, 1, false⟩], false) := by
  decide

end DownloadManager

end TelegramDesktop.Downloads
