import TelegramDesktop.DownloadManagerItems

/-!
# Files that are being downloaded

What the manager knows to be downloaded has an entry in the list of its session.
-/

namespace TelegramDesktop.Downloads

open Option List

namespace DownloadManager

variable {world : World} {manager next : DownloadManager} {session : Session} {item : Item}

/-- The item is downloaded, or its download is done. -/
def IsLoading (manager : DownloadManager) (item : Item) : Prop :=
  item ∈ manager.loading ∨ item ∈ manager.loadingDone

/-- The session has a download of the item. -/
def HasLoading (manager : DownloadManager) (session : Session) (item : Item) : Prop :=
  ∃ data, manager.sessionData session = some data ∧ ∃ entry ∈ data.downloading, entry.item = item

/-- What is known to be downloaded is in the list of its session. -/
def LoadingFound (manager : DownloadManager) : Prop :=
  ∀ item, manager.IsLoading item →
    manager.HasLoading item.session item ∧ manager.hasItem item = true

/-- Nothing new is downloaded, and what is still known has its entry. -/
structure Shrinks (before after : DownloadManager) : Prop where
  known : ∀ item, after.IsLoading item → before.IsLoading item
  entries : ∀ item, after.IsLoading item → before.HasLoading item.session item →
    after.HasLoading item.session item
  made : before.made ≤ after.made

variable {data : SessionData}

theorem hasLoading_setData {other : Session} :
    (manager.setData session data).HasLoading other item ↔
      if other = session then ∃ entry ∈ data.downloading, entry.item = item
      else manager.HasLoading other item := by
  unfold HasLoading
  rw [sessionData_setData]
  split <;> simp

variable {before after : DownloadManager}

theorem HasLoading.of_sessions (sessions : after.sessions = before.sessions) :
    after.HasLoading session item ↔ before.HasLoading session item := by
  unfold HasLoading sessionData
  rw [sessions]

theorem hasLoading_iff (found : manager.sessionData session = some data) :
    manager.HasLoading session item ↔ ∃ entry ∈ data.downloading, entry.item = item := by
  unfold HasLoading
  rw [found]
  simp

namespace Shrinks

theorem refl (manager : DownloadManager) : Shrinks manager manager :=
  ⟨fun _ => id, fun _ _ => id, le_rfl⟩

theorem trans {first second third : DownloadManager} (left : Shrinks first second)
    (right : Shrinks second third) : Shrinks first third where
  known item loading := left.known item (right.known item loading)
  entries item loading has :=
    right.entries item loading (left.entries item (right.known item loading) has)
  made := left.made.trans right.made

theorem found (shrinks : Shrinks before after)
    (found : before.LoadingFound) : after.LoadingFound := by
  intro item loading
  obtain ⟨has, known⟩ := found item (shrinks.known item loading)
  exact ⟨shrinks.entries item loading has, hasItem_mono shrinks.made known⟩

theorem of_downloading (loading : after.loading = before.loading)
    (loadingDone : after.loadingDone = before.loadingDone) (made : before.made ≤ after.made)
    (same : ∀ session, (after.sessionData session).map SessionData.downloading =
      (before.sessionData session).map SessionData.downloading) : Shrinks before after where
  known item known := by
    unfold IsLoading at known ⊢
    rw [loading, loadingDone] at known
    exact known
  entries item _ has := by
    obtain ⟨data, found, entry, member, rfl⟩ := has
    have here := same entry.item.session
    rw [found] at here
    obtain ⟨after', there, downloading⟩ := map_eq_some_iff.mp here
    exact ⟨after', there, entry, downloading ▸ member, rfl⟩
  made := made

theorem rewrite {middle : DownloadManager} {i : Nat} {entry now : DownloadingId}
    (found : before.sessionData session = some data) (sessions : middle.sessions = before.sessions)
    (present : data.downloading[i]? = some entry) (item : now.item = entry.item)
    (known : ∀ item, middle.IsLoading item → before.IsLoading item)
    (made : before.made ≤ middle.made) :
    Shrinks before (middle.setData session
      { data with downloading := data.downloading.set i now }) where
  known := known
  entries other _ has := by
    rw [hasLoading_setData]
    split
    next this =>
      rw [this, hasLoading_iff found] at has
      obtain ⟨old, member, rfl⟩ := has
      obtain ⟨left, right, whole, -, put⟩ := split_at present
      rw [put]
      rw [whole] at member
      rcases mem_around.mp member with rfl | there
      · exact ⟨now, mem_around.mpr (.inl rfl), item⟩
      · exact ⟨old, mem_around.mpr (.inr there), rfl⟩
    · exact (HasLoading.of_sessions sessions).mpr has
  made := made

end Shrinks

/-- Nothing is different about files that are being downloaded. -/
structure SameLoads (before after : DownloadManager) : Prop where
  downloading : ∀ session, (after.sessionData session).map SessionData.downloading =
    (before.sessionData session).map SessionData.downloading
  loading : after.loading = before.loading
  loadingDone : after.loadingDone = before.loadingDone
  loadingDocuments : after.loadingDocuments = before.loadingDocuments
  loadingProgress : after.loadingProgress = before.loadingProgress
  clearLoadingTimer : after.clearLoadingTimer = before.clearLoadingTimer
  made : before.made ≤ after.made

namespace SameLoads

theorem refl (manager : DownloadManager) : SameLoads manager manager :=
  ⟨fun _ => rfl, rfl, rfl, rfl, rfl, rfl, le_rfl⟩

theorem trans {first second third : DownloadManager} (left : SameLoads first second)
    (right : SameLoads second third) : SameLoads first third where
  downloading session := (right.downloading session).trans (left.downloading session)
  loading := right.loading.trans left.loading
  loadingDone := right.loadingDone.trans left.loadingDone
  loadingDocuments := right.loadingDocuments.trans left.loadingDocuments
  loadingProgress := right.loadingProgress.trans left.loadingProgress
  clearLoadingTimer := right.clearLoadingTimer.trans left.clearLoadingTimer
  made := left.made.trans right.made

theorem shrinks (same : SameLoads before after) :
    Shrinks before after :=
  .of_downloading same.loading same.loadingDone same.made same.downloading

theorem setData {middle : DownloadManager} {after : SessionData} (rest : SameLoads before middle)
    (found : before.sessionData session = some data) (same : after.downloading = data.downloading) :
    SameLoads before (middle.setData session after) where
  downloading other := by
    rw [sessionData_setData]
    split
    next this =>
      rw [this, found, map_some, map_some, same]
    · exact rest.downloading other
  loading := rest.loading
  loadingDone := rest.loadingDone
  loadingDocuments := rest.loadingDocuments
  loadingProgress := rest.loadingProgress
  clearLoadingTimer := rest.clearLoadingTimer
  made := rest.made

end SameLoads

theorem forgetLoading_known {entry : DownloadingId} :
    (manager.forgetLoading entry).IsLoading item ↔ item ≠ entry.item ∧ manager.IsLoading item := by
  unfold IsLoading forgetLoading
  rw [Finset.mem_erase, Finset.mem_erase, ← and_or_left]

theorem remove_shrinks {i : Nat} (removed : manager.remove session i = some next) :
    Shrinks manager next := by
  obtain ⟨data, found, taken⟩ := bind_eq_some_iff.mp removed
  obtain ⟨entry, present, rfl⟩ := map_eq_some_iff.mp taken
  refine ⟨fun item known => (forgetLoading_known.mp known).2, fun item known has => ?_, le_rfl⟩
  obtain ⟨different, -⟩ := forgetLoading_known.mp known
  rw [hasLoading_setData]
  split
  next this =>
    rw [this, hasLoading_iff found] at has
    obtain ⟨old, member, rfl⟩ := has
    obtain ⟨left, right, whole, erased, -⟩ := split_at present
    rw [erased]
    rw [whole] at member
    exact ⟨old, (mem_around.mp member).resolve_left fun same => different (congrArg _ same), rfl⟩
  · exact has

theorem finishLoading_shrinks (found : manager.sessionData session = some data) :
    Shrinks manager (manager.finishLoading world item session data) := by
  unfold finishLoading
  split
  · exact .refl manager
  · split
    · exact .refl manager
    next i index entry present =>
      dsimp only
      split
      · exact .of_downloading rfl rfl le_rfl fun _ => rfl
      next loading =>
        refine Shrinks.rewrite found rfl present rfl ?_ le_rfl
        rintro other (still | done)
        · exact .inl (Finset.mem_of_mem_erase still)
        · rcases Finset.mem_insert.mp done with rfl | before
          · exact .inl (not_not.mp loading)
          · exact .inr before

theorem addLoaded_shrinks {object : DownloadObject} {path : QString} {started : Int64}
    (added : manager.addLoaded world object path started = some next) : Shrinks manager next := by
  obtain ⟨id, -, taken⟩ := bind_eq_some_iff.mp added
  split at taken
  · cases taken
    exact .refl manager
  · obtain ⟨data, found, rfl⟩ := map_eq_some_iff.mp taken
    have listed : SameLoads manager { manager with loaded := insert object.item manager.loaded } :=
      ⟨fun _ => rfl, rfl, rfl, rfl, rfl, rfl, le_rfl⟩
    refine (listed.setData found ?_).shrinks.trans (finishLoading_shrinks ?_)
    · rfl
    · rw [sessionData_setData, if_pos rfl]

theorem checkAt_shrinks {i : Nat} (checked : manager.checkAt world session i = some next) :
    Shrinks manager next := by
  obtain ⟨data, found, taken⟩ := bind_eq_some_iff.mp checked
  obtain ⟨entry, present, rest⟩ := bind_eq_some_iff.mp taken
  dsimp only at rest
  split at rest
  · exact remove_shrinks rest
  · split at rest
    · split at rest
      · exact addLoaded_shrinks rest
      · cases rest
        exact .refl manager
    · split at rest
      · exact remove_shrinks rest
      · cases rest
        exact Shrinks.rewrite found rfl present rfl (fun _ => id) le_rfl

theorem check_shrinks (checked : manager.check world item = some next) : Shrinks manager next := by
  obtain ⟨data, found, taken⟩ := bind_eq_some_iff.mp checked
  obtain ⟨i, index, rest⟩ := bind_eq_some_iff.mp taken
  exact checkAt_shrinks rest

theorem detach_loads {i : Nat} (detached : manager.detach session i = some next) :
    SameLoads manager next := by
  obtain ⟨data, found, taken⟩ := bind_eq_some_iff.mp detached
  obtain ⟨entry, present, rest⟩ := bind_eq_some_iff.mp taken
  obtain ⟨object, has, last⟩ := bind_eq_some_iff.mp rest
  split at last
  · obtain ⟨⟨now, middle⟩, generated, rfl⟩ := map_eq_some_iff.mp last
    unfold regenerateItem at generated
    split at generated
    · cases generated
      exact SameLoads.setData ⟨fun _ => rfl, rfl, rfl, rfl, rfl, rfl, Nat.le_succ _⟩ found rfl
    · cases generated
  · cases last

theorem changedLoaded_loads (changed : manager.changedLoaded world item = some next) :
    SameLoads manager next := by
  unfold changedLoaded at changed
  split at changed
  · obtain ⟨data, -, taken⟩ := bind_eq_some_iff.mp changed
    obtain ⟨i, -, rest⟩ := bind_eq_some_iff.mp taken
    obtain ⟨entry, -, last⟩ := bind_eq_some_iff.mp rest
    split at last
    · exact detach_loads last
    · cases last
      exact .refl manager
  · cases changed
    exact .refl manager

theorem changed_shrinks (changed : manager.changed world item = some next) :
    Shrinks manager next := by
  obtain ⟨middle, first, taken⟩ := bind_eq_some_iff.mp changed
  refine (changedLoaded_loads first).shrinks.trans ?_
  split at taken
  · exact check_shrinks taken
  · cases taken
    exact .refl _

theorem removedLoaded_loads (removed : manager.removedLoaded item = some next) :
    SameLoads manager next := by
  unfold removedLoaded at removed
  split at removed
  · obtain ⟨data, -, taken⟩ := bind_eq_some_iff.mp removed
    obtain ⟨i, -, rest⟩ := bind_eq_some_iff.mp taken
    exact detach_loads rest
  · cases removed
    exact .refl manager

theorem removed_shrinks (removed : manager.removed item = some next) : Shrinks manager next := by
  obtain ⟨middle, first, taken⟩ := bind_eq_some_iff.mp removed
  refine (removedLoaded_loads first).shrinks.trans ?_
  split at taken
  · obtain ⟨data, -, rest⟩ := bind_eq_some_iff.mp taken
    obtain ⟨i, -, last⟩ := bind_eq_some_iff.mp rest
    exact remove_shrinks last
  · cases taken
    exact .refl _

theorem deleteEntry_loads (found : manager.sessionData item.session = some data) :
    SameLoads manager (manager.deleteEntry item data) := by
  unfold deleteEntry
  split
  · exact .refl _
  · exact SameLoads.setData ⟨fun _ => rfl, rfl, rfl, rfl, rfl, rfl, le_rfl⟩ found rfl

theorem deleteFiles_shrinks {ids : List (Session × FullMsgId)}
    (deleted : manager.deleteFiles world ids = some next) : Shrinks manager next := by
  induction ids generalizing manager with
  | nil =>
    cases deleted
    exact .refl _
  | cons id ids ih =>
    obtain ⟨middle, first, rest⟩ := bind_eq_some_iff.mp deleted
    refine Shrinks.trans ?_ (ih rest)
    unfold deleteFile at first
    split at first
    · cases first
      exact .refl manager
    · split at first
      · cases first
        exact .refl manager
      · obtain ⟨between, cancelled, taken⟩ := bind_eq_some_iff.mp first
        obtain ⟨data, found, rfl⟩ := map_eq_some_iff.mp taken
        refine Shrinks.trans ?_ (deleteEntry_loads found).shrinks
        unfold cancelLoading at cancelled
        split at cancelled
        · cases cancelled
          exact .refl _
        · exact remove_shrinks cancelled

theorem forgetAllLoading_known :
    (manager.forgetAllLoading data).IsLoading item ↔
      manager.IsLoading item ∧ ∀ entry ∈ data.downloading, entry.item ≠ item := by
  have reversed : (∀ entry ∈ data.downloading, entry.item ≠ item) ↔
      ∀ entry ∈ data.downloading.reverse, entry.item ≠ item := by
    simp
  unfold forgetAllLoading
  rw [reversed]
  generalize data.downloading.reverse = entries
  induction entries generalizing manager with
  | nil => simp
  | cons entry entries ih =>
    refine trans (@ih (manager.forgetLoading entry)) ?_
    rw [forgetLoading_known, forall_mem_cons, ← and_assoc, ne_comm, and_comm (a := _ ≠ _)]

theorem forgetEntry_known {entries : List DownloadedId} :
    (entries.foldl forgetEntry manager).IsLoading item ↔ manager.IsLoading item := by
  induction entries generalizing manager with
  | nil => rfl
  | cons entry entries ih =>
    refine trans (@ih (manager.forgetEntry entry)) ?_
    unfold forgetEntry
    split <;> rfl

theorem forgetSession_known :
    (manager.forgetSession data).IsLoading item ↔
      manager.IsLoading item ∧ ∀ entry ∈ data.downloading, entry.item ≠ item :=
  forgetEntry_known.trans forgetAllLoading_known

section

variable {forget : DownloadManager → SessionData → DownloadManager}
  (known : ∀ manager data item, (forget manager data).IsLoading item ↔
    manager.IsLoading item ∧ ∀ entry ∈ data.downloading, entry.item ≠ item)

include known

theorem forgetLists_known {lists : List (Session × SessionData)} :
    (lists.foldl (fun manager list => forget manager list.2) manager).IsLoading item ↔
      manager.IsLoading item ∧
        ∀ list ∈ lists, ∀ entry ∈ list.2.downloading, entry.item ≠ item := by
  induction lists generalizing manager with
  | nil => simp
  | cons list lists ih =>
    refine trans (@ih (forget manager list.2)) ?_
    rw [known, forall_mem_cons, and_assoc]

theorem forgetLists_shrinks (start : DownloadManager)
    (same : ∀ item, start.IsLoading item ↔ manager.IsLoading item)
    (sessions : start.sessions = manager.sessions)
    (loading : ∀ item, after.IsLoading item ↔ (start.sessions.entries.foldl
      (fun manager list => forget manager list.2) start).IsLoading item)
    (made : manager.made ≤ after.made) : Shrinks manager after where
  known item here := (same item).mp ((forgetLists_known known).mp ((loading item).mp here)).1
  entries item here has := by
    obtain ⟨-, gone⟩ := (forgetLists_known known).mp ((loading item).mp here)
    obtain ⟨data, found, entry, member, is⟩ := has
    rw [sessions] at gone
    exact absurd is (gone _ (FlatMap.find?_eq_some.mp found) entry member)
  made := made

end

theorem clearLoading_shrinks (cleared : manager.clearLoading = some next) :
    Shrinks manager next := by
  unfold clearLoading at cleared
  split at cleared
  · cases cleared
    refine forgetLists_shrinks (fun _ _ _ => forgetAllLoading_known)
      { manager with clearLoadingTimer := false } ?_ ?_ ?_ ?_
    · exact fun _ => Iff.rfl
    · rfl
    · exact fun _ => Iff.rfl
    · exact (forgetAllLoading_fold { manager with clearLoadingTimer := false } _).made.ge
  · cases cleared

theorem forgetSession_spec (manager : DownloadManager) (data : SessionData) :
    (∀ item, item ∈ (manager.forgetSession data).loaded ↔
      item ∈ manager.loaded ∧ ∀ entry ∈ data.downloaded, entry.item ≠ some item) ∧
    (manager.forgetSession data).made = manager.made := by
  obtain ⟨loaded, made, -⟩ := forgetEntry_spec data.downloaded (manager.forgetAllLoading data)
  have same : SameListings manager _ := forgetAllLoading_same data
  refine ⟨fun item => ?_, made.trans same.made⟩
  rw [forgetSession, loaded, same.loaded]

theorem forgetLists_spec (lists : List (Session × SessionData)) (manager : DownloadManager) :
    (∀ item, item ∈ (lists.foldl (fun manager list => manager.forgetSession list.2)
        manager).loaded ↔ item ∈ manager.loaded ∧
          ∀ list ∈ lists, ∀ entry ∈ list.2.downloaded, entry.item ≠ some item) ∧
    (lists.foldl (fun manager list => manager.forgetSession list.2) manager).made =
      manager.made := by
  induction lists generalizing manager with
  | nil => simp
  | cons list lists ih =>
    obtain ⟨loaded, made⟩ := ih (manager.forgetSession list.2)
    obtain ⟨one, same⟩ := forgetSession_spec manager list.2
    refine ⟨fun item => ?_, made.trans same⟩
    rw [foldl_cons, loaded, one, forall_mem_cons, and_assoc]

theorem deleteAll_shrinks : Shrinks manager manager.deleteAll :=
  forgetLists_shrinks (fun _ _ _ => forgetSession_known) manager (fun _ => Iff.rfl) rfl
    (fun _ => Iff.rfl) (forgetLists_spec _ manager).2.ge

theorem untrack_shrinks (untracked : manager.untrack session = some next) :
    Shrinks manager next := by
  obtain ⟨data, found, rfl⟩ := map_eq_some_iff.mp untracked
  refine ⟨fun item known => (forgetSession_known.mp known).1, fun item known has => ?_,
    (forgetSession_spec manager data).2.ge⟩
  obtain ⟨-, gone⟩ := forgetSession_known.mp known
  by_cases this : item.session = session
  · rw [this, hasLoading_iff found] at has
    obtain ⟨entry, member, is⟩ := has
    exact absurd is (gone entry member)
  · obtain ⟨other, here, entry⟩ := has
    refine ⟨other, ?_, entry⟩
    unfold sessionData at here ⊢
    rw [FlatMap.find?_erase, if_neg this]
    exact here

theorem trackSession_shrinks {bytes : Bytes} (fresh : manager.isTracked session = false) :
    Shrinks manager (manager.trackSession session bytes) where
  known _ := id
  entries item _ has := by
    unfold trackSession
    rw [hasLoading_setData]
    split
    next this =>
      obtain ⟨data, found, -⟩ := has
      rw [isTracked, ← this, found] at fresh
      cases fresh
    · exact has
  made := le_rfl

theorem resolveEntry_loads {entry resolved : DownloadedId}
    (taken : manager.resolveEntry world session entry = some (resolved, next)) :
    SameLoads manager next := by
  unfold resolveEntry at taken
  dsimp only at taken
  split at taken
  · obtain ⟨item, -, result⟩ := map_eq_some_iff.mp taken
    cases result
    exact ⟨fun _ => rfl, rfl, rfl, rfl, rfl, rfl, le_rfl⟩
  · unfold generateEntry at taken
    split at taken
    · cases taken
      exact ⟨fun _ => rfl, rfl, rfl, rfl, rfl, rfl, Nat.le_succ _⟩
    · cases taken

theorem finishOne_loads (finished : manager.finishOne world session = some next) :
    SameLoads manager next := by
  obtain ⟨data, found, taken⟩ := bind_eq_some_iff.mp finished
  split at taken
  · cases taken
  · obtain ⟨entry, present, rest⟩ := bind_eq_some_iff.mp taken
    split at rest
    · cases rest
      exact (SameLoads.refl manager).setData found rfl
    · obtain ⟨⟨resolved, middle⟩, result, rfl⟩ := map_eq_some_iff.mp rest
      exact (resolveEntry_loads result).setData found rfl

theorem checkRequests_loads (checked : manager.checkRequests world session = some next) :
    SameLoads manager next := by
  obtain ⟨data, found, taken⟩ := bind_eq_some_iff.mp checked
  split at taken
  · obtain ⟨again, -, rest⟩ := bind_eq_some_iff.mp taken
    clear checked taken found
    generalize again.resolveSentTotal = count at rest
    induction count generalizing manager with
    | zero =>
      cases rest
      exact .refl _
    | succ count ih =>
      obtain ⟨middle, first, more⟩ := bind_eq_some_iff.mp rest
      exact (finishOne_loads first).trans (ih more)
  · cases taken
    exact .refl manager

theorem checkFullResolveDone_loads : SameLoads manager manager.checkFullResolveDone := by
  unfold checkFullResolveDone
  split
  · exact .refl _
  · exact ⟨fun _ => rfl, rfl, rfl, rfl, rfl, rfl, le_rfl⟩

theorem resolve_loads (resolved : manager.resolve world session = some next) :
    SameLoads manager next := by
  obtain ⟨data, found, taken⟩ := bind_eq_some_iff.mp resolved
  split at taken
  · cases taken
    exact checkFullResolveDone_loads
  · dsimp only at taken
    split at taken
    · cases taken
    · obtain ⟨⟨downloaded, sentTotal, prepared⟩, -, rest⟩ := bind_eq_some_iff.mp taken
      obtain ⟨last, checked, rfl⟩ := map_eq_some_iff.mp rest
      refine SameLoads.trans ?_ ((checkRequests_loads checked).trans checkFullResolveDone_loads)
      exact (SameLoads.refl manager).setData found rfl

theorem requestFinished_loads (finished : manager.requestFinished world session = some next) :
    SameLoads manager next := by
  obtain ⟨data, found, taken⟩ := bind_eq_some_iff.mp finished
  split at taken
  · cases taken
  · refine SameLoads.trans ?_ (checkRequests_loads taken)
    exact (SameLoads.refl manager).setData found rfl

section

variable {document : DocumentId} {photo : Option PhotoId} {date : Int64} {checked : Bool}
  (loading : manager.LoadingFound) (known : manager.hasItem item = true)

include loading known

theorem LoadingFound.startLoading
    (started : manager.startLoading world item document photo date = some (next, checked)) :
    next.LoadingFound := by
  obtain ⟨data, found, taken⟩ := map_eq_some_iff.mp started
  dsimp only at taken
  split at taken
  · cases taken
    exact loading
  · cases taken
    intro other here
    have cases : other = item ∨ manager.IsLoading other := by
      rcases here with now | done
      · exact (Finset.mem_insert.mp now).imp id .inl
      · exact .inr (.inr done)
    rw [hasLoading_setData]
    rcases cases with rfl | before
    · rw [if_pos rfl]
      exact ⟨⟨_, mem_append_right _ (mem_singleton.mpr rfl), rfl⟩, known⟩
    · obtain ⟨has, there⟩ := loading other before
      refine ⟨?_, there⟩
      split
      next this =>
        rw [this, hasLoading_iff found] at has
        obtain ⟨entry, member, is⟩ := has
        exact ⟨entry, mem_append_left _ member, is⟩
      · exact has

theorem LoadingFound.enlist
    (enlisted : manager.enlist world item document photo date = some (next, checked)) :
    next.LoadingFound := by
  obtain ⟨data, found, taken⟩ := bind_eq_some_iff.mp enlisted
  split at taken
  · exact loading.startLoading known taken
  · obtain ⟨already, -, rest⟩ := bind_eq_some_iff.mp taken
    split at rest
    · cases rest
      exact loading
    · obtain ⟨middle, removed, started⟩ := bind_eq_some_iff.mp rest
      have shrinks := remove_shrinks removed
      exact (shrinks.found loading).startLoading (hasItem_mono shrinks.made known) started

end

/-- What is in the sets of loading messages has an entry. -/
theorem LoadingFound.step {event : Event} (loading : manager.LoadingFound)
    (taken : manager.step event = some next) : next.LoadingFound := by
  unfold DownloadManager.step at taken
  split at taken
  next possible =>
    obtain ⟨world, action⟩ := event
    cases action with
    | trackSession session bytes =>
      cases taken
      exact (trackSession_shrinks (Bool.not_eq_true' _ ▸ possible)).found loading
    | addLoading item document photo started =>
      obtain ⟨-, known⟩ := Bool.and_eq_true_iff.mp possible
      obtain ⟨⟨middle, checked⟩, enlisted, rest⟩ := bind_eq_some_iff.mp taken
      have found := loading.enlist known enlisted
      cases checked with
      | false =>
        cases rest
        exact found
      | true => exact (check_shrinks rest).found found
    | checkItem item => exact (check_shrinks taken).found loading
    | checkDocument session document =>
      obtain ⟨data, -, rest⟩ := bind_eq_some_iff.mp taken
      obtain ⟨i, -, last⟩ := bind_eq_some_iff.mp rest
      exact (checkAt_shrinks last).found loading
    | addLoaded object path started => exact (addLoaded_shrinks taken).found loading
    | clearLoading => exact (clearLoading_shrinks taken).found loading
    | resolve session => exact (resolve_loads taken).shrinks.found loading
    | requestFinished session => exact (requestFinished_loads taken).shrinks.found loading
    | changed item => exact (changed_shrinks taken).found loading
    | removed item => exact (removed_shrinks taken).found loading
    | deleteFiles ids => exact (deleteFiles_shrinks taken).found loading
    | deleteAll =>
      cases taken
      exact deleteAll_shrinks.found loading
    | untrack session => exact (untrack_shrinks taken).found loading
  · cases taken

end DownloadManager

end TelegramDesktop.Downloads
