import TelegramDesktop.DownloadManager

/-!
# What operations do to the lists of downloaded files

Apart from resolving and from taking whole lists, an operation adds an entry at the
end of a list, takes the entry of an item out, or gives an entry a new item.
-/

namespace TelegramDesktop.Downloads

open Option

namespace DownloadedId

/-- A finished download with a new item. -/
def renewed (entry : DownloadedId) (object : DownloadObject) (now : Item) : DownloadedId :=
  { entry with object := some { object with item := now } }

/-- What a finished download needs to be written and read again. -/
structure Accepted (entry : DownloadedId) : Prop where
  path : entry.path.isEmpty = false
  positive : 0 < entry.size
  small : entry.size ≤ maxFileSize

end DownloadedId

/-- The object has a document or a photo. -/
def DownloadObject.Shaped (object : DownloadObject) : Prop :=
  object.document.isSome = true ∨ object.photo.isSome = true

theorem World.accepted_of_acceptedSize {world : World} {path : QString} {size : Nat}
    (accepted : world.acceptedSize path = some size) :
    path.isEmpty = false ∧ 0 < size ∧ size ≤ maxFileSize := by
  obtain ⟨found, bounds⟩ := filter_eq_some_iff.mp accepted
  refine ⟨?_, of_decide_eq_true bounds⟩
  cases empty : path.isEmpty with
  | false => rfl
  | true =>
    rw [world.fileSize_empty path empty] at found
    cases found

namespace DownloadManager

/-- The finished downloads of a session. -/
def listing (manager : DownloadManager) (session : Session) : Option Listing :=
  (manager.sessionData session).map SessionData.toListing

variable {data : SessionData} {manager : DownloadManager}

theorem sessionData_setData {session other : Session} :
    (manager.setData session data).sessionData other =
      if other = session then some data else manager.sessionData other :=
  FlatMap.find?_set

theorem listing_setData {session other : Session} :
    (manager.setData session data).listing other =
      if other = session then some data.toListing else manager.listing other := by
  unfold listing
  rw [sessionData_setData]
  split <;> rfl

variable {session : Session}

theorem listing_of_sessionData (found : manager.sessionData session = some data) :
    manager.listing session = some data.toListing := by
  rw [listing, found]
  rfl

theorem sessionData_of_listing
    {listing : Listing} (found : manager.listing session = some listing) :
    ∃ data, manager.sessionData session = some data ∧ data.toListing = listing :=
  map_eq_some_iff.mp found

/-- The finished downloads stay as they are. -/
structure SameListings (before after : DownloadManager) : Prop where
  listing : ∀ session, after.listing session = before.listing session
  loaded : after.loaded = before.loaded
  generated : after.generated = before.generated
  made : after.made = before.made

/-- The finished downloads of one session change. -/
structure Relisted (before after : DownloadManager) (session : Session) (listing next : Listing) :
    Prop where
  was : before.listing session = some listing
  now : after.listing session = some next
  others : ∀ other, other ≠ session → after.listing other = before.listing other

variable {middle : DownloadManager}

namespace SameListings

theorem refl (manager : DownloadManager) : SameListings manager manager :=
  ⟨fun _ => rfl, rfl, rfl, rfl⟩

theorem trans {first second third : DownloadManager} (left : SameListings first second)
    (right : SameListings second third) : SameListings first third where
  listing session := (right.listing session).trans (left.listing session)
  loaded := right.loaded.trans left.loaded
  generated := right.generated.trans left.generated
  made := right.made.trans left.made

theorem setData {manager : DownloadManager} {session : Session} {next : SessionData}
    (found : manager.sessionData session = some data)
    (sessions : middle.sessions = manager.sessions)
    (rest : SameListings manager middle) (same : next.toListing = data.toListing) :
    SameListings manager (middle.setData session next) where
  listing other := by
    rw [listing_setData]
    split
    next here =>
      rw [here, listing_of_sessionData found, same]
    · unfold DownloadManager.listing sessionData
      rw [sessions]
  loaded := rest.loaded
  generated := rest.generated
  made := rest.made

end SameListings

theorem Relisted.setData {manager other : DownloadManager} {next : SessionData}
    (found : manager.sessionData session = some data) (same : other.sessions = manager.sessions) :
    Relisted manager (other.setData session next) session data.toListing next.toListing where
  was := listing_of_sessionData found
  now := by rw [listing_setData, if_pos rfl]
  others elsewhere different := by
    rw [listing_setData, if_neg different]
    unfold DownloadManager.listing sessionData
    rw [same]

variable {before after : DownloadManager}

theorem Relisted.same
    {listing next : Listing} (relisted : Relisted before middle session listing next)
    (same : SameListings middle after) : Relisted before after session listing next where
  was := relisted.was
  now := (same.listing session).trans relisted.now
  others other different := (same.listing other).trans (relisted.others other different)

/-- What an operation does to a list.  An entry is added for an item that is listed,
or that nobody has made, only where that is said to be `allowed`. -/
inductive Effect (allowed : Prop) (before after : DownloadManager) : Prop
  | same (same : SameListings before after)
  | append {session : Session} {listing : Listing} {entry : DownloadedId}
      {object : DownloadObject}
      (relisted : Relisted before after session listing
        { listing with downloaded := listing.downloaded ++ [entry] })
      (accepted : entry.Accepted) (has : entry.object = some object) (shaped : object.Shaped)
      (own : object.item.session = session)
      (fresh : allowed ∨ object.item ∉ before.loaded ∧ before.hasItem object.item = true)
      (loaded : after.loaded = insert object.item before.loaded)
      (generated : after.generated = before.generated) (made : after.made = before.made)
  | erase {session : Session} {listing : Listing} {entry : DownloadedId}
      {object : DownloadObject} {i : Nat}
      (relisted : Relisted before after session listing
        { listing with downloaded := listing.downloaded.eraseIdx i })
      (found : listing.downloaded[i]? = some entry) (has : entry.object = some object)
      (loaded : after.loaded = before.loaded.erase object.item)
      (generated : after.generated = before.generated.erase object.item)
      (made : after.made = before.made)
  | renew {session : Session} {listing : Listing} {entry : DownloadedId}
      {object : DownloadObject} {i : Nat}
      (relisted : Relisted before after session listing
        { listing with
          downloaded := listing.downloaded.set i
            (entry.renewed object ⟨object.item.session, before.made, true⟩) })
      (found : listing.downloaded[i]? = some entry) (has : entry.object = some object)
      (loaded : after.loaded =
        insert ⟨object.item.session, before.made, true⟩ (before.loaded.erase object.item))
      (generated : after.generated =
        insert ⟨object.item.session, before.made, true⟩ before.generated)
      (made : after.made = before.made + 1)

variable {allowed : Prop}

theorem Effect.before_same
    (same : SameListings before middle) (effect : Effect allowed middle after) :
    Effect allowed before after := by
  have relist : ∀ {session listing next}, Relisted middle after session listing next →
      Relisted before after session listing next := by
    intro session listing next relisted
    exact {
      was := (same.listing session).symm.trans relisted.was
      now := relisted.now
      others := fun other different =>
        (relisted.others other different).trans (same.listing other) }
  have known : ∀ item, before.hasItem item = middle.hasItem item := by
    intro item
    rw [hasItem, hasItem, same.made]
  cases effect with
  | same right => exact .same (same.trans right)
  | append relisted accepted has shaped own fresh loaded generated made =>
    rw [same.loaded] at fresh loaded
    rw [same.generated] at generated
    rw [same.made] at made
    rw [← known] at fresh
    exact .append (relist relisted) accepted has shaped own fresh loaded generated made
  | erase relisted found has loaded generated made =>
    rw [same.loaded] at loaded
    rw [same.generated] at generated
    rw [same.made] at made
    exact .erase (relist relisted) found has loaded generated made
  | renew relisted found has loaded generated made =>
    rw [same.made] at relisted loaded generated made
    rw [same.loaded] at loaded
    rw [same.generated] at generated
    exact .renew (relist relisted) found has loaded generated made

/-- Any number of effects, one after another. -/
abbrev Effects (allowed : Prop) := Relation.ReflTransGen (Effect allowed)

theorem SameListings.effects (same : SameListings before after) :
    Effects allowed before after := .single (.same same)

variable {world : World} {manager next : DownloadManager} {session : Session} {item : Item}

theorem forgetLoading_same (entry : DownloadingId) :
    SameListings manager (manager.forgetLoading entry) := ⟨fun _ => rfl, rfl, rfl, rfl⟩

theorem forgetAllLoading_same (data : SessionData) :
    SameListings manager (manager.forgetAllLoading data) := by
  unfold forgetAllLoading
  generalize data.downloading.reverse = entries
  induction entries generalizing manager with
  | nil => exact .refl manager
  | cons entry entries ih => exact (forgetLoading_same entry).trans ih

theorem remove_same {i : Nat} (removed : manager.remove session i = some next) :
    SameListings manager next := by
  obtain ⟨data, found, taken⟩ := bind_eq_some_iff.mp removed
  obtain ⟨entry, -, rfl⟩ := map_eq_some_iff.mp taken
  exact .setData found rfl (forgetLoading_same entry) rfl

theorem finishLoading_same (found : manager.sessionData session = some data) :
    SameListings manager (manager.finishLoading world item session data) := by
  unfold finishLoading
  split
  · exact .refl manager
  · split
    · exact .refl manager
    · dsimp only
      split
      · exact ⟨fun _ => rfl, rfl, rfl, rfl⟩
      · exact .setData found rfl ⟨fun _ => rfl, rfl, rfl, rfl⟩ rfl

theorem Effect.after_same
    (effect : Effect allowed before middle) (same : SameListings middle after) :
    Effect allowed before after := by
  cases effect with
  | same left => exact .same (left.trans same)
  | append relisted accepted has shaped own fresh loaded generated made =>
    exact .append (relisted.same same) accepted has shaped own fresh
      (same.loaded.trans loaded) (same.generated.trans generated) (same.made.trans made)
  | erase relisted found has loaded generated made =>
    exact .erase (relisted.same same) found has (same.loaded.trans loaded)
      (same.generated.trans generated) (same.made.trans made)
  | renew relisted found has loaded generated made =>
    exact .renew (relisted.same same) found has (same.loaded.trans loaded)
      (same.generated.trans generated) (same.made.trans made)

theorem shaped_of_downloadId {object : DownloadObject} {id : DownloadId}
    (named : downloadId object = some id) : object.Shaped := by
  unfold downloadId at named
  split at named
  next document _ is =>
    exact .inl (is ▸ rfl)
  next photo _ is =>
    exact .inr (is ▸ rfl)
  · cases named

theorem addLoaded_effect {object : DownloadObject} {path : QString} {started : Int64}
    (fresh : (world.acceptedSize path).isSome = true →
      allowed ∨ object.item ∉ manager.loaded ∧ manager.hasItem object.item = true)
    (added : manager.addLoaded world object path started = some next) :
    Effect allowed manager next := by
  obtain ⟨id, named, taken⟩ := bind_eq_some_iff.mp added
  cases size : world.acceptedSize path with
  | none =>
    rw [size] at taken
    cases taken
    exact .same (.refl manager)
  | some size' =>
    rw [size] at taken fresh
    obtain ⟨data, found, rfl⟩ := map_eq_some_iff.mp taken
    obtain ⟨nonempty, positive, small⟩ := World.accepted_of_acceptedSize size
    refine Effect.after_same ?_ (finishLoading_same ?_)
    · exact .append (.setData found rfl) ⟨nonempty, positive, small⟩ rfl
        (shaped_of_downloadId named) rfl (fresh rfl) rfl rfl rfl
    · rw [sessionData_setData, if_pos rfl]

/-- The file of an entry being downloaded is there, and the entry is added by `check`. -/
def Adds (world : World) (manager : DownloadManager) (session : Session) (entry : DownloadingId) :
    Prop :=
  matchesMedia world entry = true ∧ (world.filepath session entry.document).isEmpty = false ∧
    entry.item ∈ manager.loading ∧
    (world.acceptedSize (world.filepath session entry.document)).isSome = true

instance (world : World) (manager : DownloadManager) (session : Session)
    (entry : DownloadingId) : Decidable (manager.Adds world session entry) :=
  inferInstanceAs (Decidable (_ ∧ _ ∧ _ ∧ _))

theorem checkAt_effect {i : Nat}
    (fresh : ∀ data entry, manager.sessionData session = some data →
      data.downloading[i]? = some entry → manager.Adds world session entry →
        allowed ∨ entry.item ∉ manager.loaded ∧ manager.hasItem entry.item = true)
    (checked : manager.checkAt world session i = some next) : Effect allowed manager next := by
  obtain ⟨data, found, taken⟩ := bind_eq_some_iff.mp checked
  obtain ⟨entry, present, rest⟩ := bind_eq_some_iff.mp taken
  cases media : matchesMedia world entry with
  | false =>
    rw [media] at rest
    exact .same (remove_same rest)
  | true =>
    rw [media] at rest
    cases path : (world.filepath session entry.document).isEmpty with
    | false =>
      by_cases loading : entry.item ∈ manager.loading
      · simp only [path, loading, Bool.not_true, Bool.not_false, Bool.false_eq_true, if_false,
          if_true] at rest
        exact addLoaded_effect
          (fun accepted => fresh data entry found present ⟨media, path, loading, accepted⟩) rest
      · simp only [path, loading, Bool.not_true, Bool.not_false, Bool.false_eq_true, if_false,
          if_true] at rest
        cases rest
        exact .same (.refl manager)
    | true =>
      simp only [path, Bool.not_true, Bool.false_eq_true, if_false] at rest
      split at rest
      · exact .same (remove_same rest)
      · cases rest
        exact .same (.setData found rfl ⟨fun _ => rfl, rfl, rfl, rfl⟩ rfl)

/-- The item that `check` adds for the first entry of a kind, if it adds one. -/
def addedBy (world : World) (manager : DownloadManager) (session : Session)
    (which : DownloadingId → Bool) : Option Item :=
  (manager.sessionData session).bind fun data =>
    (data.downloading.findIdx? which).bind fun i =>
      (data.downloading[i]?).bind fun entry =>
        if manager.Adds world session entry then some entry.item else none

theorem addedBy_eq_some {which : DownloadingId → Bool} {i : Nat}
    {entry : DownloadingId} (found : manager.sessionData session = some data)
    (index : data.downloading.findIdx? which = some i) (present : data.downloading[i]? = some entry)
    (adds : manager.Adds world session entry) :
    manager.addedBy world session which = some entry.item := by
  simp only [addedBy, found, index, present, bind_some, if_pos adds]

/-- What `check` adds is new. -/
def AddsNew (allowed : Prop) (world : World) (manager : DownloadManager) (session : Session)
    (which : DownloadingId → Bool) : Prop :=
  ∀ item, manager.addedBy world session which = some item →
    allowed ∨ item ∉ manager.loaded ∧ manager.hasItem item = true

theorem check_effect (fresh : AddsNew allowed world manager item.session
    (DownloadingId.hasItem item))
    (checked : manager.check world item = some next) : Effect allowed manager next := by
  obtain ⟨data, found, taken⟩ := bind_eq_some_iff.mp checked
  obtain ⟨i, index, rest⟩ := bind_eq_some_iff.mp taken
  refine checkAt_effect ?_ rest
  intro other entry same present adds
  rw [found] at same
  cases same
  exact fresh entry.item (addedBy_eq_some found index present adds)

variable {document : DocumentId}

theorem checkDocument_effect
    (fresh : AddsNew allowed world manager session fun entry => entry.document = document)
    (checked : manager.checkDocument world session document = some next) :
    Effect allowed manager next := by
  obtain ⟨data, found, taken⟩ := bind_eq_some_iff.mp checked
  obtain ⟨i, index, rest⟩ := bind_eq_some_iff.mp taken
  refine checkAt_effect ?_ rest
  intro other entry same present adds
  rw [found] at same
  cases same
  exact fresh entry.item (addedBy_eq_some found index present adds)

variable {photo : Option PhotoId}

theorem startLoading_same {date : Int64} {checked : Bool}
    (started : manager.startLoading world item document photo date = some (next, checked)) :
    SameListings manager next := by
  obtain ⟨data, found, taken⟩ := map_eq_some_iff.mp started
  dsimp only at taken
  split at taken
  · cases taken
    exact .refl manager
  · cases taken
    exact .setData found rfl ⟨fun _ => rfl, rfl, rfl, rfl⟩ rfl

theorem enlist_same {date : Int64} {checked : Bool}
    (enlisted : manager.enlist world item document photo date = some (next, checked)) :
    SameListings manager next := by
  obtain ⟨data, found, taken⟩ := bind_eq_some_iff.mp enlisted
  split at taken
  · exact startLoading_same taken
  · obtain ⟨already, -, rest⟩ := bind_eq_some_iff.mp taken
    split at rest
    · cases rest
      exact .refl manager
    · obtain ⟨middle, removed, started⟩ := bind_eq_some_iff.mp rest
      exact (remove_same removed).trans (startLoading_same started)

theorem addLoading_effect {date : Int64}
    (fresh : ∀ middle, manager.enlist world item document photo date = some (middle, true) →
      AddsNew allowed world middle item.session (DownloadingId.hasItem item))
    (added : manager.addLoading world item document photo date = some next) :
    Effect allowed manager next := by
  obtain ⟨⟨middle, checked⟩, enlisted, taken⟩ := bind_eq_some_iff.mp added
  have same := enlist_same enlisted
  cases checked with
  | false =>
    cases taken
    exact .same same
  | true => exact .before_same same (check_effect (fresh middle enlisted) taken)

theorem detach_effect {i : Nat} (detached : manager.detach session i = some next) :
    Effect allowed manager next := by
  obtain ⟨data, found, taken⟩ := bind_eq_some_iff.mp detached
  obtain ⟨entry, present, rest⟩ := bind_eq_some_iff.mp taken
  obtain ⟨object, has, last⟩ := bind_eq_some_iff.mp rest
  split at last
  · obtain ⟨⟨now, middle⟩, generated, rfl⟩ := map_eq_some_iff.mp last
    unfold regenerateItem at generated
    split at generated
    · cases generated
      exact .renew (.setData found rfl) present has rfl rfl rfl
    · cases generated
  · cases last

theorem changedLoaded_effect (changed : manager.changedLoaded world item = some next) :
    Effect allowed manager next := by
  unfold changedLoaded at changed
  split at changed
  · obtain ⟨data, -, taken⟩ := bind_eq_some_iff.mp changed
    obtain ⟨i, -, rest⟩ := bind_eq_some_iff.mp taken
    obtain ⟨entry, -, last⟩ := bind_eq_some_iff.mp rest
    split at last
    · exact detach_effect last
    · cases last
      exact .same (.refl manager)
  · cases changed
    exact .same (.refl manager)

theorem changed_effects
    (fresh : ∀ middle, manager.changedLoaded world item = some middle →
      AddsNew allowed world middle item.session (DownloadingId.hasItem item))
    (changed : manager.changed world item = some next) : Effects allowed manager next := by
  obtain ⟨middle, first, taken⟩ := bind_eq_some_iff.mp changed
  refine Relation.ReflTransGen.head (changedLoaded_effect first) ?_
  split at taken
  · exact .single (check_effect (fresh middle first) taken)
  · cases taken
    exact .refl

theorem removedLoaded_effect (removed : manager.removedLoaded item = some next) :
    Effect allowed manager next := by
  unfold removedLoaded at removed
  split at removed
  · obtain ⟨data, -, taken⟩ := bind_eq_some_iff.mp removed
    obtain ⟨i, -, rest⟩ := bind_eq_some_iff.mp taken
    exact detach_effect rest
  · cases removed
    exact .same (.refl manager)

theorem removed_effect (removed : manager.removed item = some next) :
    Effect allowed manager next := by
  obtain ⟨middle, first, taken⟩ := bind_eq_some_iff.mp removed
  refine (removedLoaded_effect first).after_same ?_
  split at taken
  · obtain ⟨data, -, rest⟩ := bind_eq_some_iff.mp taken
    obtain ⟨i, -, last⟩ := bind_eq_some_iff.mp rest
    exact remove_same last
  · cases taken
    exact .refl _

theorem deleteEntry_effect (found : manager.sessionData item.session = some data) :
    Effect allowed manager (manager.deleteEntry item data) := by
  unfold deleteEntry
  cases index : data.downloaded.findIdx? (DownloadedId.hasItem item) with
  | none => exact .same (.refl manager)
  | some k =>
    obtain ⟨inside, here, -⟩ := List.findIdx?_eq_some_iff_getElem.mp index
    obtain ⟨object, has, rfl⟩ := map_eq_some_iff.mp (of_decide_eq_true here)
    exact .erase (.setData found rfl) (List.getElem?_eq_getElem inside) has rfl rfl rfl

theorem cancelLoading_same
    (cancelled : manager.cancelLoading item data = some next) : SameListings manager next := by
  unfold cancelLoading at cancelled
  split at cancelled
  · cases cancelled
    exact .refl manager
  · exact remove_same cancelled

theorem deleteFile_effect {id : Session × FullMsgId}
    (deleted : manager.deleteFile world id = some next) : Effect allowed manager next := by
  unfold deleteFile at deleted
  split at deleted
  · cases deleted
    exact .same (.refl manager)
  · split at deleted
    · cases deleted
      exact .same (.refl manager)
    · obtain ⟨middle, cancelled, taken⟩ := bind_eq_some_iff.mp deleted
      obtain ⟨data, found, rfl⟩ := map_eq_some_iff.mp taken
      exact .before_same (cancelLoading_same cancelled) (deleteEntry_effect found)

theorem deleteFiles_effects {ids : List (Session × FullMsgId)}
    (deleted : manager.deleteFiles world ids = some next) : Effects allowed manager next := by
  induction ids generalizing manager with
  | nil =>
    cases deleted
    exact .refl
  | cons id ids ih =>
    obtain ⟨middle, first, taken⟩ := bind_eq_some_iff.mp deleted
    exact .head (deleteFile_effect first) (ih taken)

theorem forgetEntry_spec (entries : List DownloadedId) (manager : DownloadManager) :
    (∀ item, item ∈ (entries.foldl forgetEntry manager).loaded ↔
      item ∈ manager.loaded ∧ ∀ entry ∈ entries, entry.item ≠ some item) ∧
    (entries.foldl forgetEntry manager).made = manager.made ∧
    (entries.foldl forgetEntry manager).sessions = manager.sessions := by
  induction entries generalizing manager with
  | nil => simp
  | cons entry entries ih =>
    obtain ⟨loaded, made, sessions⟩ := ih (manager.forgetEntry entry)
    rw [List.foldl_cons]
    have one : (∀ item, item ∈ (manager.forgetEntry entry).loaded ↔
        item ∈ manager.loaded ∧ entry.item ≠ some item) ∧
        (manager.forgetEntry entry).made = manager.made ∧
        (manager.forgetEntry entry).sessions = manager.sessions := by
      unfold forgetEntry
      cases has : entry.item with
      | none => simp
      | some item =>
        refine ⟨fun other => ?_, rfl, rfl⟩
        rw [Finset.mem_erase, and_comm, Ne.eq_def, Ne.eq_def, some.injEq, eq_comm (a := item)]
    refine ⟨fun item => ?_, made.trans one.2.1, sessions.trans one.2.2⟩
    rw [loaded, one.1, List.forall_mem_cons, and_assoc]

theorem forgetAllLoading_fold (manager : DownloadManager)
    (entries : List (Session × SessionData)) : SameListings manager
      (entries.foldl (fun manager entry => manager.forgetAllLoading entry.2) manager) := by
  induction entries generalizing manager with
  | nil => exact .refl manager
  | cons entry entries ih => exact (forgetAllLoading_same entry.2).trans (ih _)

theorem listing_mapValues (f : SessionData → SessionData) (g : Listing → Listing)
    (same : ∀ data, (f data).toListing = g data.toListing) {other : DownloadManager}
    (sessions : other.sessions = manager.sessions.mapValues f) :
    other.listing session = (manager.listing session).map g := by
  unfold listing sessionData
  rw [sessions, FlatMap.find?_mapValues, map_map, map_map]
  exact congrFun (congrArg _ (funext same)) _

theorem clearLoading_same (cleared : manager.clearLoading = some next) :
    SameListings manager next := by
  unfold clearLoading at cleared
  split at cleared
  · cases cleared
    have same := forgetAllLoading_fold { manager with clearLoadingTimer := false }
      manager.sessions.entries
    refine ⟨fun session => ?_, same.loaded, same.generated, same.made⟩
    exact (listing_mapValues (fun data => { data with downloading := [] }) id (fun _ => rfl)
      rfl).trans (congrFun map_id _)
  · cases cleared

theorem listing_deleteAll :
    manager.deleteAll.listing session =
      (manager.listing session).map fun listing => { listing with downloaded := [] } :=
  listing_mapValues (fun data => { data with downloaded := [], downloading := [] })
    (fun listing => { listing with downloaded := [] }) (fun _ => rfl) rfl

theorem listing_untrack {other : Session} (untracked : manager.untrack session = some next) :
    next.listing other = if other = session then none else manager.listing other := by
  obtain ⟨data, -, rfl⟩ := map_eq_some_iff.mp untracked
  unfold listing sessionData
  rw [FlatMap.find?_erase]
  split <;> rfl

theorem listing_trackSession {bytes : Bytes} {other : Session}
    (fresh : manager.isTracked session = false) :
    (manager.trackSession session bytes).listing other =
      if other = session then
        some { downloaded := deserialize bytes, resolveNeeded := (deserialize bytes).length }
      else manager.listing other := by
  unfold trackSession
  rw [listing_setData, isSome_eq_false_iff.mp fresh |> isNone_iff_eq_none.mp]
  rfl

theorem addsNew_true {which : DownloadingId → Bool} : AddsNew True world manager session which :=
  fun _ _ => .inl trivial

/-- All that a step can do. -/
theorem step_cases {event : Event} (taken : manager.step event = some next) :
    Effects True manager next ∨
    (∃ session bytes, event.action = .trackSession session bytes ∧
      manager.isTracked session = false ∧ next = manager.trackSession session bytes) ∨
    (∃ session, event.action = .resolve session ∧
      manager.resolve event.world session = some next) ∨
    (∃ session, event.action = .requestFinished session ∧
      manager.requestFinished event.world session = some next) ∨
    (event.action = .deleteAll ∧ next = manager.deleteAll) ∨
    (∃ session, event.action = .untrack session ∧ manager.untrack session = some next) := by
  unfold step at taken
  split at taken
  next possible =>
    obtain ⟨world, action⟩ := event
    cases action with
    | trackSession session bytes =>
      cases taken
      have fresh := Bool.not_eq_true' _ ▸ possible
      exact .inr (.inl ⟨session, bytes, rfl, fresh, rfl⟩)
    | addLoading item document photo started =>
      exact .inl (.single (addLoading_effect (fun _ _ => addsNew_true) taken))
    | checkItem item => exact .inl (.single (check_effect addsNew_true taken))
    | checkDocument session document =>
      exact .inl (.single (checkDocument_effect addsNew_true taken))
    | addLoaded object path started =>
      exact .inl (.single (addLoaded_effect (fun _ => .inl trivial) taken))
    | clearLoading => exact .inl (clearLoading_same taken).effects
    | resolve session => exact .inr (.inr (.inl ⟨session, rfl, taken⟩))
    | requestFinished session => exact .inr (.inr (.inr (.inl ⟨session, rfl, taken⟩)))
    | changed item => exact .inl (changed_effects (fun _ _ => addsNew_true) taken)
    | removed item => exact .inl (.single (removed_effect taken))
    | deleteFiles ids => exact .inl (deleteFiles_effects taken)
    | deleteAll =>
      cases taken
      exact .inr (.inr (.inr (.inr (.inl ⟨rfl, rfl⟩))))
    | untrack session => exact .inr (.inr (.inr (.inr (.inr ⟨session, rfl, taken⟩))))
  · cases taken

end DownloadManager

end TelegramDesktop.Downloads
