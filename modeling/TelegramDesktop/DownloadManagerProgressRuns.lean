import TelegramDesktop.DownloadManagerProgress

/-!
# Runs and the progress of downloads

Every operation keeps the totals and the sets in step with the lists, also those that
take all the downloads of a session or of all sessions.
-/

namespace TelegramDesktop.Downloads

open Option Multiset

/-- The events of before, and those that only stop downloads. -/
inductive LoadingEvent
  | event (event : Event)
  /-- `remove` and `cancel` of one entry: where the document is cancelled, it tells its other
  messages afterwards, and each of them checks itself in a step of its own. -/
  | remove (session : Session) (i : Nat)
  | loadingStop (onlyInSession : Option Session)

namespace DownloadManager

variable {world : World} {manager next : DownloadManager} {session : Session} {item : Item}
  {rest : Multiset (Session × DownloadingId)}

/-- `stopInSession` of `loadingStop`: the last entry is cancelled as long as there is one. -/
def stopInSession (session : Session) : Nat → DownloadManager → Option DownloadManager
  | 0, manager => some manager
  | count + 1, manager => (manager.remove session count).bind (stopInSession session count)

/-- All downloads of a session are stopped. -/
def stopSession (manager : DownloadManager) (session : Session) : Option DownloadManager :=
  (manager.sessionData session).bind fun data =>
    stopInSession session data.downloading.length manager

/-- The downloads of one session or of all are stopped. -/
def loadingStop (manager : DownloadManager) : Option Session → Option DownloadManager
  | some session => if manager.isTracked session then manager.stopSession session else some manager
  | none =>
    manager.sessions.entries.foldlM (fun manager entry => manager.stopSession entry.1) manager

/-- The totals of the manager are those of all its downloads. -/
def Accounted (manager : DownloadManager) : Prop := Accounts manager manager.downloads

theorem SameLoads.accounted {before after : DownloadManager} (same : SameLoads before after)
    (accounted : before.Accounted) : after.Accounted :=
  accounted.keeps same.keeps

section

variable (accounted : manager.Accounted)
include accounted

theorem Accounted.remove {i : Nat} (removed : manager.remove session i = some next) :
    next.Accounted := by
  obtain ⟨data, found, taken⟩ := bind_eq_some_iff.mp removed
  obtain ⟨entry, present, -⟩ := map_eq_some_iff.mp taken
  exact accounted.drops (remove_drops found present removed)

theorem Accounted.addLoaded {object : DownloadObject} {path : QString} {started : Int64}
    (added : manager.addLoaded world object path started = some next) : next.Accounted := by
  rcases addLoaded_cases added with ⟨same, -⟩ | ⟨-, download, -, -, -, drops⟩
  · exact same.accounted accounted
  · exact accounted.drops drops

theorem Accounted.checkAt {i : Nat} (checked : manager.checkAt world session i = some next) :
    next.Accounted := by
  obtain ⟨data, found, taken⟩ := bind_eq_some_iff.mp checked
  obtain ⟨entry, present, -⟩ := bind_eq_some_iff.mp taken
  have cases := checkAt_cases accounted.placed found present checked
  split at cases
  · exact accounted.drops cases
  · exact accounted.keeps cases

theorem Accounted.check (checked : manager.check world item = some next) : next.Accounted := by
  obtain ⟨data, found, taken⟩ := bind_eq_some_iff.mp checked
  obtain ⟨i, -, last⟩ := bind_eq_some_iff.mp taken
  exact accounted.checkAt last

end

variable {data : SessionData}

theorem Placed.absent (placed : Placed manager.downloads)
    (found : manager.sessionData item.session = some data)
    (search : data.downloading.findIdx? (DownloadingId.hasItem item) = none) :
    ∀ other ∈ manager.downloads, other.2.item ≠ item := by
  rintro other member rfl
  rw [placed.session other member] at found
  obtain ⟨data', there, inside⟩ := mem_downloads.mp member
  cases found.symm.trans there
  have different := List.findIdx?_eq_none_iff.mp search other.2 inside
  rw [DownloadingId.hasItem, decide_eq_false_iff_not] at different
  exact different rfl

theorem findIdx?_hasItem {entries : List DownloadingId} {i : Nat}
    (search : entries.findIdx? (DownloadingId.hasItem item) = some i) :
    ∃ entry, entries[i]? = some entry ∧ entry.item = item := by
  obtain ⟨inside, holds, -⟩ := List.findIdx?_eq_some_iff_getElem.mp search
  exact ⟨_, List.getElem?_eq_getElem inside, of_decide_eq_true holds⟩

variable {photo : Option PhotoId} {document : DocumentId}

section

variable (accounted : manager.Accounted)
include accounted

theorem Accounted.enlists {entry : DownloadingId}
    (fresh : ∀ other ∈ manager.downloads, other.2.item ≠ item)
    (enlists : Enlists item document photo entry manager next) : next.Accounted := by
  unfold Accounted
  rw [enlists.now]
  exact Accounts.enlist accounted fresh enlists

theorem Accounted.startLoading {date : Int64} {checked : Bool}
    (fresh : ∀ other ∈ manager.downloads, other.2.item ≠ item)
    (started : manager.startLoading world item document photo date = some (next, checked)) :
    next.Accounted := by
  have cases := startLoading_cases started
  split at cases
  · rw [cases.1]
    exact accounted
  · obtain ⟨-, entry, enlists⟩ := cases
    exact accounted.enlists fresh enlists

theorem Accounted.absent_of_remove {data : SessionData} {i : Nat}
    (found : manager.sessionData session = some data)
    (search : data.downloading.findIdx? (DownloadingId.hasItem item) = some i)
    (removed : manager.remove session i = some next) :
    ∀ other ∈ next.downloads, other.2.item ≠ item := by
  obtain ⟨entry, present, same⟩ := findIdx?_hasItem search
  obtain ⟨was, -⟩ := remove_forgets found present removed
  have placed := accounted.placed
  rw [was] at placed
  exact fun other member => same ▸ placed.apart member

theorem Accounted.enlist {date : Int64} {checked : Bool}
    (enlisted : manager.enlist world item document photo date = some (next, checked)) :
    next.Accounted := by
  obtain ⟨data, found, taken⟩ := bind_eq_some_iff.mp enlisted
  split at taken
  next search => exact accounted.startLoading (accounted.placed.absent found search) taken
  next i search =>
    obtain ⟨already, present, last⟩ := bind_eq_some_iff.mp taken
    split at last
    · cases last
      exact accounted
    · obtain ⟨middle, removed, started⟩ := bind_eq_some_iff.mp last
      obtain ⟨entry, here, same⟩ := findIdx?_hasItem search
      refine (accounted.remove removed).startLoading (fun other member => ?_) started
      -- the entry that was there has been removed, and the others have other messages
      obtain ⟨was, -⟩ := remove_forgets found here removed
      have placed := accounted.placed
      rw [was] at placed
      exact same ▸ placed.apart member

theorem Accounted.addLoading {date : Int64}
    (added : manager.addLoading world item document photo date = some next) : next.Accounted := by
  obtain ⟨⟨middle, checked⟩, enlisted, last⟩ := bind_eq_some_iff.mp added
  have between := accounted.enlist enlisted
  cases checked with
  | false =>
    cases last
    exact between
  | true => exact between.check last

theorem Accounted.changed (changed : manager.changed world item = some next) : next.Accounted := by
  obtain ⟨middle, first, last⟩ := bind_eq_some_iff.mp changed
  have between := (changedLoaded_loads first).accounted accounted
  split at last
  · exact between.check last
  · cases last
    exact between

theorem Accounted.removed (removed : manager.removed item = some next) : next.Accounted := by
  obtain ⟨middle, first, last⟩ := bind_eq_some_iff.mp removed
  have between := (removedLoaded_loads first).accounted accounted
  split at last
  · obtain ⟨data, -, taken⟩ := bind_eq_some_iff.mp last
    obtain ⟨i, -, gone⟩ := bind_eq_some_iff.mp taken
    exact between.remove gone
  · cases last
    exact between

theorem Accounted.deleteFiles {ids : List (Session × FullMsgId)}
    (deleted : manager.deleteFiles world ids = some next) : next.Accounted := by
  induction ids generalizing manager with
  | nil =>
    cases deleted
    exact accounted
  | cons id ids ih =>
    obtain ⟨middle, first, last⟩ := bind_eq_some_iff.mp deleted
    refine ih ?_ last
    unfold deleteFile at first
    split at first
    · cases first
      exact accounted
    split at first
    · cases first
      exact accounted
    obtain ⟨between, cancelled, taken⟩ := bind_eq_some_iff.mp first
    obtain ⟨data, found, rfl⟩ := map_eq_some_iff.mp taken
    refine (deleteEntry_loads found).accounted ?_
    unfold cancelLoading at cancelled
    split at cancelled
    · cases cancelled
      exact accounted
    · exact accounted.remove cancelled

end

/-- The running downloads of a session. -/
def sessionDownloads (session : Session) (data : SessionData) :
    Multiset (Session × DownloadingId) :=
  Multiset.ofList (data.downloading.map (Prod.mk session))

theorem Accounts.forgetAll (session : Session) {entries : List DownloadingId}
    (accounts : Accounts manager (ofList (entries.map (Prod.mk session)) + rest)) :
    Accounts (entries.foldl forgetLoading manager) rest := by
  induction entries generalizing manager with
  | nil => simpa using accounts
  | cons entry entries ih =>
    rw [List.map_cons, ← cons_coe, cons_add] at accounts
    exact ih accounts.forget

theorem Accounts.forgetAllLoading
    (accounts : Accounts manager (sessionDownloads session data + rest)) :
    Accounts (manager.forgetAllLoading data) rest := by
  refine Accounts.forgetAll session ?_
  rw [List.map_reverse, coe_reverse]
  exact accounts

theorem forgetEntries_known (entries : List DownloadedId) (manager : DownloadManager) :
    SameKnown manager (entries.foldl forgetEntry manager) := by
  induction entries generalizing manager with
  | nil => exact .refl manager
  | cons entry entries ih =>
    refine SameKnown.trans ?_ (ih _)
    unfold forgetEntry
    split
    · exact .refl manager
    · exact ⟨rfl, rfl, rfl, rfl, rfl⟩

theorem Accounts.forgetSession
    (accounts : Accounts manager (sessionDownloads session data + rest)) :
    Accounts (manager.forgetSession data) rest :=
  accounts.forgetAllLoading.known (forgetEntries_known _ _)

/-- What forgets the downloads of one session after the other forgets all of them. -/
theorem Accounts.forgetLists {forget : DownloadManager → SessionData → DownloadManager}
    (each : ∀ manager session data rest, Accounts manager (sessionDownloads session data + rest) →
      Accounts (forget manager data) rest) (lists : List (Session × SessionData))
    (accounts : Accounts manager (ofList
      (lists.flatMap fun list => list.2.downloading.map (Prod.mk list.1)))) :
    Accounts (lists.foldl (fun manager list => forget manager list.2) manager) 0 := by
  induction lists generalizing manager with
  | nil => exact accounts
  | cons list lists ih =>
    rw [List.flatMap_cons, ← coe_add] at accounts
    exact ih (each manager list.1 list.2 _ accounts)

theorem downloadsIn_mapValues_nil (sessions : FlatMap Session SessionData)
    {change : SessionData → SessionData} (none : ∀ data, (change data).downloading = []) :
    downloadsIn (sessions.mapValues change) = 0 := by
  unfold downloadsIn FlatMap.mapValues
  rw [List.flatMap_map]
  simp [none]

section

variable (accounted : manager.Accounted)
include accounted

theorem Accounted.clearLoading (cleared : manager.clearLoading = some next) : next.Accounted := by
  unfold DownloadManager.clearLoading at cleared
  split at cleared
  · cases cleared
    have stopped : Accounts { manager with clearLoadingTimer := false } manager.downloads :=
      ⟨accounted.placed, accounted.ready, accounted.total, accounted.loading,
        accounted.loadingDone, fun active => absurd active Bool.false_ne_true⟩
    have forgotten := stopped.forgetLists
      (fun _ _ _ _ accounts => accounts.forgetAllLoading) manager.sessions.entries
    unfold Accounted downloads
    rw [downloadsIn_mapValues_nil manager.sessions fun _ => rfl]
    exact forgotten.known ⟨rfl, rfl, rfl, rfl, rfl⟩
  · cases cleared

theorem Accounted.deleteAll : manager.deleteAll.Accounted := by
  have forgotten := Accounts.forgetLists
    (fun _ _ _ _ accounts => accounts.forgetSession) manager.sessions.entries accounted
  unfold Accounted downloads DownloadManager.deleteAll
  rw [downloadsIn_mapValues_nil manager.sessions fun _ => rfl]
  exact forgotten.known ⟨rfl, rfl, rfl, rfl, rfl⟩

theorem Accounted.untrack (untracked : manager.untrack session = some next) : next.Accounted := by
  obtain ⟨data, found, rfl⟩ := map_eq_some_iff.mp untracked
  have accounts : Accounts manager manager.downloads := accounted
  rw [downloads_of_sessionData found] at accounts
  exact accounts.forgetSession.known ⟨rfl, rfl, rfl, rfl, rfl⟩

theorem Accounted.trackSession {bytes : Bytes} (fresh : manager.isTracked session = false) :
    (manager.trackSession session bytes).Accounted := by
  have none : manager.sessionData session = none := by
    rwa [isTracked, isSome_eq_false_iff, isNone_iff_eq_none] at fresh
  have missing : manager.sessions.contains session = false := fresh
  unfold Accounted DownloadManager.trackSession
  rw [downloads_setData, none]
  unfold otherDownloads
  rw [FlatMap.erase_of_not_contains missing]
  exact accounted.known ⟨rfl, rfl, rfl, rfl, rfl⟩

theorem Accounted.stopSession (stopped : manager.stopSession session = some next) :
    next.Accounted := by
  obtain ⟨data, -, taken⟩ := bind_eq_some_iff.mp stopped
  clear stopped
  generalize data.downloading.length = count at taken
  induction count generalizing manager with
  | zero =>
    cases taken
    exact accounted
  | succ count ih =>
    obtain ⟨middle, removed, last⟩ := bind_eq_some_iff.mp taken
    exact ih (accounted.remove removed) last

theorem Accounted.loadingStop {onlyInSession : Option Session}
    (stopped : manager.loadingStop onlyInSession = some next) : next.Accounted := by
  cases onlyInSession with
  | some session =>
    unfold DownloadManager.loadingStop at stopped
    dsimp only at stopped
    split at stopped
    · exact accounted.stopSession stopped
    · cases stopped
      exact accounted
  | none =>
    unfold DownloadManager.loadingStop at stopped
    generalize manager.sessions.entries = entries at stopped
    induction entries generalizing manager with
    | nil =>
      cases stopped
      exact accounted
    | cons entry entries ih =>
      rw [List.foldlM_cons] at stopped
      obtain ⟨middle, first, last⟩ := bind_eq_some_iff.mp stopped
      exact ih (accounted.stopSession first) last

end

/-- Every step accounts for its progress. -/
theorem Accounted.step {event : Event} (accounted : manager.Accounted)
    (taken : manager.step event = some next) : next.Accounted := by
  unfold DownloadManager.step at taken
  split at taken
  next possible =>
    obtain ⟨world, action⟩ := event
    cases action with
    | trackSession session bytes =>
      cases taken
      exact accounted.trackSession (Bool.not_eq_true' _ ▸ possible)
    | addLoading item document photo started => exact accounted.addLoading taken
    | checkItem item => exact accounted.check taken
    | checkDocument session document =>
      obtain ⟨data, -, rest⟩ := bind_eq_some_iff.mp taken
      obtain ⟨i, -, last⟩ := bind_eq_some_iff.mp rest
      exact accounted.checkAt last
    | addLoaded object path started => exact accounted.addLoaded taken
    | clearLoading => exact accounted.clearLoading taken
    | resolve session => exact (resolve_loads taken).accounted accounted
    | requestFinished session => exact (requestFinished_loads taken).accounted accounted
    | changed item => exact accounted.changed taken
    | removed item => exact accounted.removed taken
    | deleteFiles ids => exact accounted.deleteFiles taken
    | deleteAll =>
      cases taken
      exact accounted.deleteAll
    | untrack session => exact accounted.untrack taken
  next => cases taken

/-- An event, or a stop of all downloads. -/
def loadingStep (manager : DownloadManager) : LoadingEvent → Option DownloadManager
  | .event event => manager.step event
  | .remove session i => manager.remove session i
  | .loadingStop onlyInSession => manager.loadingStop onlyInSession

theorem Accounted.loadingStep {event : LoadingEvent} (accounted : manager.Accounted)
    (taken : manager.loadingStep event = some next) : next.Accounted := by
  cases event with
  | event event => exact accounted.step taken
  | remove session i => exact accounted.remove taken
  | loadingStop onlyInSession => exact accounted.loadingStop taken

theorem accounted_initial : Accounted {} where
  placed := ⟨fun _ member => absurd member (notMem_zero _), nodup_zero⟩
  ready := rfl
  total := rfl
  loading _ := by
    refine iff_of_false (Finset.notMem_empty _) ?_
    rintro ⟨download, member, -⟩
    exact notMem_zero _ member
  loadingDone _ := by
    refine iff_of_false (Finset.notMem_empty _) ?_
    rintro ⟨download, member, -⟩
    exact notMem_zero _ member
  timer _ := rfl

/-- The progress is that of all the downloads, and the sets are their messages. -/
structure ExactProgress (manager : DownloadManager) : Prop where
  ready : manager.loadingProgress.ready =
    (manager.downloads.map fun download => download.2.ready).sum
  total : manager.loadingProgress.total =
    (manager.downloads.map fun download => download.2.total).sum
  disjoint : Disjoint manager.loading manager.loadingDone
  loading : ∀ item, item ∈ manager.loading ↔
    ∃ download ∈ manager.downloads, download.2.item = item ∧ download.2.done = false
  loadingDone : ∀ item, item ∈ manager.loadingDone ↔
    ∃ download ∈ manager.downloads, download.2.item = item ∧ download.2.done = true
  timer : manager.clearLoadingTimer = true → manager.loading = ∅

theorem Accounted.exactProgress (accounted : manager.Accounted) : manager.ExactProgress where
  ready := accounted.ready
  total := accounted.total
  disjoint := by
    rw [Finset.disjoint_left]
    intro item loading done
    obtain ⟨first, firstMem, rfl, unfinished⟩ := (accounted.loading item).mp loading
    obtain ⟨second, secondMem, same, isDone⟩ := (accounted.loadingDone _).mp done
    rw [accounted.placed.eq_of_item secondMem firstMem same, unfinished] at isDone
    cases isDone
  loading := accounted.loading
  loadingDone := accounted.loadingDone
  timer := accounted.timer

/-- In every state of every run the progress is exact. -/
theorem exactProgress_of_run (events : List LoadingEvent) :
    RunKeeps loadingStep ExactProgress {} events :=
  (runKeeps_invariant (fun _ _ _ accounted taken => Accounted.loadingStep accounted taken)
    events accounted_initial).mono fun _ accounted => accounted.exactProgress

end DownloadManager

end TelegramDesktop.Downloads
