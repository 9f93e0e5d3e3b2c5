import TelegramDesktop.DownloadManagerLoading
import Mathlib.Algebra.BigOperators.Group.Multiset.Basic

/-!
# Progress of downloads

The totals of the downloads and the two sets of their messages are kept beside the
lists of the sessions.  What is downloaded anywhere is seen here as one collection, and
every operation takes an entry from it, adds one or exchanges one for another.
-/

namespace TelegramDesktop.Downloads

open Multiset List Option FlatMap

namespace DownloadManager

variable {world : World} {manager next : DownloadManager} {session : Session} {item : Item}

/-- The running downloads of the sessions. -/
def downloadsIn (sessions : FlatMap Session SessionData) : Multiset (Session × DownloadingId) :=
  Multiset.ofList (sessions.entries.flatMap fun entry => entry.2.downloading.map (Prod.mk entry.1))

/-- All running downloads. -/
def downloads (manager : DownloadManager) : Multiset (Session × DownloadingId) :=
  downloadsIn manager.sessions

/-- The running downloads of the other sessions. -/
def otherDownloads (manager : DownloadManager) (session : Session) :
    Multiset (Session × DownloadingId) :=
  downloadsIn (manager.sessions.erase session)

variable {data : SessionData}

theorem downloads_of_sessionData (found : manager.sessionData session = some data) :
    manager.downloads =
      ofList (data.downloading.map (Prod.mk session)) + manager.otherDownloads session :=
  coe_eq_coe.mpr ((entries_perm_of_find? found).flatMap_right _)

theorem downloads_setData :
    (manager.setData session data).downloads =
      ofList (data.downloading.map (Prod.mk session)) + manager.otherDownloads session :=
  coe_eq_coe.mpr (entries_set_perm.flatMap_right _)

theorem mem_downloads {download : Session × DownloadingId} :
    download ∈ manager.downloads ↔
      ∃ data, manager.sessionData download.1 = some data ∧ download.2 ∈ data.downloading := by
  unfold downloads downloadsIn sessionData
  rw [mem_coe, mem_flatMap]
  constructor
  · rintro ⟨entry, member, listed⟩
    obtain ⟨id, inside, rfl⟩ := mem_map.mp listed
    exact ⟨entry.2, find?_of_mem member, inside⟩
  · rintro ⟨data, found, inside⟩
    exact ⟨_, find?_eq_some.mp found, mem_map_of_mem inside⟩

variable {before after : DownloadManager}

theorem downloads_eq_of_downloading
    (same : ∀ session, (after.sessionData session).map SessionData.downloading =
      (before.sessionData session).map SessionData.downloading) :
    after.downloads = before.downloads := by
  -- only what the lists are made of
  have bare : ∀ manager : DownloadManager, manager.downloads = downloadsIn
      (manager.sessions.mapValues fun data => { downloading := data.downloading }) := by
    intro manager
    unfold downloads downloadsIn mapValues
    rw [List.flatMap_map]
  rw [bare, bare before]
  congr 1
  apply ext_find?
  intro session
  rw [find?_mapValues, find?_mapValues]
  have here := congrArg (Option.map fun downloading : List DownloadingId =>
    ({ downloading := downloading } : SessionData)) (same session)
  rw [Option.map_map, Option.map_map] at here
  exact here

/-- What is known of the running downloads stays as it is. -/
structure SameKnown (before after : DownloadManager) : Prop where
  loading : after.loading = before.loading
  loadingDone : after.loadingDone = before.loadingDone
  loadingDocuments : after.loadingDocuments = before.loadingDocuments
  loadingProgress : after.loadingProgress = before.loadingProgress
  clearLoadingTimer : after.clearLoadingTimer = before.clearLoadingTimer

theorem SameKnown.refl (manager : DownloadManager) : SameKnown manager manager :=
  ⟨rfl, rfl, rfl, rfl, rfl⟩

/-- A download is no longer counted or watched. -/
def unwatch (manager : DownloadManager) (download : Session × DownloadingId) : DownloadManager :=
  { manager with
    loadingDocuments := manager.loadingDocuments.erase (download.1, download.2.document) }

/-- The totals go on. -/
def advance (manager : DownloadManager) (ready total : Int) : DownloadManager :=
  { manager with
    loadingProgress :=
      ⟨manager.loadingProgress.ready + ready, manager.loadingProgress.total + total⟩ }

/-- The item is done. -/
def markDone (manager : DownloadManager) (item : Item) : DownloadManager :=
  { manager with
    loading := manager.loading.erase item
    loadingDone := insert item manager.loadingDone
    clearLoadingTimer := manager.clearLoadingTimer || manager.loading.erase item = ∅ }

/-- The download with other bytes. -/
def advanced (download : Session × DownloadingId) (ready total : Int) : Session × DownloadingId :=
  (download.1,
    { download.2 with ready := download.2.ready + ready, total := download.2.total + total })

def finished (download : Session × DownloadingId) : Session × DownloadingId :=
  (download.1, { download.2 with done := true })

/-- A download is taken from the list, or it is finished; its document is not watched then. -/
inductive Drops (download : Session × DownloadingId) (before after : DownloadManager) : Prop
  | forget {rest : Multiset (Session × DownloadingId)} (was : before.downloads = download ::ₘ rest)
      (now : after.downloads = rest) (known : SameKnown (before.forgetLoading download.2) after)
  | finish {rest : Multiset (Session × DownloadingId)} {ready total : Int}
      (was : before.downloads = download ::ₘ rest) (loading : download.2.item ∈ before.loading)
      (now : after.downloads = finished (advanced download ready total) ::ₘ rest)
      (known : SameKnown
        (((before.unwatch download).markDone download.2.item).advance ready total) after)
  | unwatch (was : download ∈ before.downloads) (loading : download.2.item ∉ before.loading)
      (now : after.downloads = before.downloads) (known : SameKnown (before.unwatch download) after)

/-- At most the progress of a download is another one. -/
inductive Keeps (before after : DownloadManager) : Prop
  | same (now : after.downloads = before.downloads) (known : SameKnown before after)
  | advance {download : Session × DownloadingId} {rest : Multiset (Session × DownloadingId)}
      {ready total : Int} (was : before.downloads = download ::ₘ rest)
      (now : after.downloads = advanced download ready total ::ₘ rest)
      (known : SameKnown (before.advance ready total) after)

theorem SameLoads.known (same : SameLoads before after) :
    SameKnown before after :=
  ⟨same.loading, same.loadingDone, same.loadingDocuments, same.loadingProgress,
    same.clearLoadingTimer⟩

theorem SameLoads.keeps (same : SameLoads before after) :
    Keeps before after :=
  .same (downloads_eq_of_downloading same.downloading) same.known

variable {entry : DownloadingId}

section

variable {i : Nat} (found : manager.sessionData session = some data)
  (present : data.downloading[i]? = some entry)
include found present

theorem downloads_of_getElem? :
    ∃ rest, manager.downloads = (session, entry) ::ₘ rest ∧
      (∀ before : DownloadManager, before.sessions = manager.sessions →
        (before.setData session
          { data with downloading := data.downloading.eraseIdx i }).downloads = rest) ∧
      ∀ (before : DownloadManager) (now : DownloadingId), before.sessions = manager.sessions →
        (before.setData session
          { data with downloading := data.downloading.set i now }).downloads =
            (session, now) ::ₘ rest := by
  obtain ⟨left, right, whole, erased, put⟩ := split_at present
  refine ⟨ofList ((left ++ right).map (Prod.mk session)) +
    manager.otherDownloads session, ?_, fun before same => ?_, fun before now same => ?_⟩
  · rw [downloads_of_sessionData found, whole, ← cons_add]
    congr 1
    rw [cons_coe, ← List.map_cons]
    exact coe_eq_coe.mpr (perm_middle.map _)
  · rw [downloads_setData, erased]
    unfold otherDownloads
    rw [same]
  · rw [downloads_setData, put, ← cons_add]
    unfold otherDownloads
    rw [same]
    congr 1
    rw [cons_coe, ← List.map_cons]
    exact coe_eq_coe.mpr (perm_middle.map _)

theorem remove_forgets (removed : manager.remove session i = some next) :
    manager.downloads = (session, entry) ::ₘ next.downloads ∧
      SameKnown (manager.forgetLoading entry) next := by
  unfold remove at removed
  rw [found, bind_some, present] at removed
  cases removed
  obtain ⟨rest, was, erased, -⟩ := downloads_of_getElem? found present
  have now := erased (manager.forgetLoading entry) rfl
  refine ⟨?_, ⟨rfl, rfl, rfl, rfl, rfl⟩⟩
  rw [was, now]

theorem remove_drops (removed : manager.remove session i = some next) :
    Drops (session, entry) manager next := by
  obtain ⟨was, known⟩ := remove_forgets found present removed
  exact .forget was rfl known

end

theorem finishLoading_cases (world : World) (item : Item)
    (found : manager.sessionData session = some data) :
    manager.finishLoading world item session data = manager ∧
        (∀ entry ∈ data.downloading, entry.item ≠ item) ∨
      ∃ entry ∈ data.downloading, entry.item = item ∧
        Drops (session, entry) manager (manager.finishLoading world item session data) := by
  unfold finishLoading
  split
  next search =>
    refine .inl ⟨rfl, fun entry member same => ?_⟩
    have other := findIdx?_eq_none_iff.mp search entry member
    rw [DownloadingId.hasItem, decide_eq_false_iff_not] at other
    exact other same
  next i search =>
    obtain ⟨inside, holds, -⟩ := findIdx?_eq_some_iff_getElem.mp search
    have present : data.downloading[i]? = some data.downloading[i] := getElem?_eq_getElem inside
    rw [present]
    have same : data.downloading[i].item = item := of_decide_eq_true holds
    refine .inr ⟨data.downloading[i], getElem_mem inside, same, ?_⟩
    obtain ⟨rest, was, -, put⟩ := downloads_of_getElem? found present
    dsimp only
    split
    next gone =>
      refine .unwatch ?_ (same ▸ gone) rfl (.refl _)
      rw [was]
      exact mem_cons_self _ _
    next loading =>
      refine .finish was (same ▸ not_not.mp loading) (put _ _ rfl) ?_
      subst same
      exact ⟨rfl, rfl, rfl, rfl, rfl⟩

theorem SameKnown.trans {first second third : DownloadManager} (left : SameKnown first second)
    (right : SameKnown second third) : SameKnown first third where
  loading := right.loading.trans left.loading
  loadingDone := right.loadingDone.trans left.loadingDone
  loadingDocuments := right.loadingDocuments.trans left.loadingDocuments
  loadingProgress := right.loadingProgress.trans left.loadingProgress
  clearLoadingTimer := right.clearLoadingTimer.trans left.clearLoadingTimer

theorem SameLoads.drops {middle : DownloadManager}
    {download : Session × DownloadingId} (same : SameLoads before middle)
    (drops : Drops download middle after) : Drops download before after := by
  have downloads := downloads_eq_of_downloading same.downloading
  cases drops with
  | forget was now known =>
    rw [downloads] at was
    refine .forget was now (SameKnown.trans ?_ known)
    unfold forgetLoading
    rw [same.loading, same.loadingDone, same.loadingDocuments, same.loadingProgress,
      same.clearLoadingTimer]
    exact ⟨rfl, rfl, rfl, rfl, rfl⟩
  | finish was loading now known =>
    rw [downloads] at was
    rw [same.loading] at loading
    refine .finish was loading now (SameKnown.trans ?_ known)
    unfold DownloadManager.advance markDone DownloadManager.unwatch
    rw [same.loading, same.loadingDone, same.loadingDocuments, same.loadingProgress,
      same.clearLoadingTimer]
    exact ⟨rfl, rfl, rfl, rfl, rfl⟩
  | unwatch was loading now known =>
    rw [downloads] at was now
    rw [same.loading] at loading
    refine .unwatch was loading now (SameKnown.trans ?_ known)
    unfold DownloadManager.unwatch
    rw [same.loadingDocuments]
    exact ⟨same.loading, same.loadingDone, rfl, same.loadingProgress, same.clearLoadingTimer⟩

/-- A file that is accepted finishes the download of its message, and nothing else does. -/
theorem addLoaded_cases {object : DownloadObject} {path : QString} {started : Int64}
    (added : manager.addLoaded world object path started = some next) :
    SameLoads manager next ∧ ((world.acceptedSize path).isSome →
        ∀ download ∈ manager.downloads, download.1 = object.item.session →
          download.2.item ≠ object.item) ∨
      (world.acceptedSize path).isSome ∧ ∃ download ∈ manager.downloads,
        download.1 = object.item.session ∧ download.2.item = object.item ∧
          Drops download manager next := by
  obtain ⟨id, -, taken⟩ := bind_eq_some_iff.mp added
  split at taken
  next refused =>
    cases taken
    refine .inl ⟨.refl manager, fun accepted => ?_⟩
    rw [refused] at accepted
    cases accepted
  next size accepted =>
    obtain ⟨data, found, rfl⟩ := map_eq_some_iff.mp taken
    have listed : SameLoads manager { manager with loaded := insert object.item manager.loaded } :=
      ⟨fun _ => rfl, rfl, rfl, rfl, rfl, rfl, le_rfl⟩
    generalize entries : data.downloaded ++ _ = downloaded
    have same : SameLoads manager ({ manager with
        loaded := insert object.item manager.loaded }.setData object.item.session
          { data with downloaded }) := listed.setData found rfl
    have here : ({ manager with loaded := insert object.item manager.loaded }.setData
        object.item.session { data with downloaded }).sessionData object.item.session =
          some { data with downloaded } := by
      rw [sessionData_setData, if_pos rfl]
    rcases finishLoading_cases world object.item here with ⟨unchanged, absent⟩ |
      ⟨entry, member, item, drops⟩
    · rw [unchanged]
      refine .inl ⟨same, fun _ download member session => absent download.2 ?_⟩
      obtain ⟨other, there, inside⟩ := mem_downloads.mp member
      rw [session, found] at there
      cases there
      exact inside
    · refine .inr ⟨by rw [accepted]; rfl, (object.item.session, entry), ?_, rfl, item,
        same.drops drops⟩
      exact mem_downloads.mpr ⟨data, found, member⟩

/-- Whether `check` of such a download takes it from the list or finds its file. -/
def settles (world : World) (isLoading : Bool) (session : Session) (item : Item)
    (document : DocumentId) (photo : Option PhotoId) : Bool :=
  !decide (photo = world.itemPhoto item ∧ some document = world.itemDocument item) ||
    if (world.filepath session document).isEmpty then !world.isLoading session document
    else isLoading && (world.acceptedSize (world.filepath session document)).isSome

/-- The check drops the download: it is not loading and is not done, or it has another file. -/
def dropped (world : World) (manager : DownloadManager) (download : Session × DownloadingId) :
    Bool :=
  settles world (decide (download.2.item ∈ manager.loading)) download.1 download.2.item
    download.2.document download.2.photo

/-- In which each message is downloaded once, in its own session -/
structure Placed (downloads : Multiset (Session × DownloadingId)) : Prop where
  session : ∀ download ∈ downloads, download.2.item.session = download.1
  once : (downloads.map fun download => download.2.item).Nodup

variable {downloads : Multiset (Session × DownloadingId)}

theorem Placed.eq_of_item (placed : Placed downloads) {first second : Session × DownloadingId}
    (firstMem : first ∈ downloads) (secondMem : second ∈ downloads)
    (same : first.2.item = second.2.item) : first = second :=
  inj_on_of_nodup_map placed.once first firstMem second secondMem same

theorem checkAt_cases (placed : Placed manager.downloads) {i : Nat}
    (found : manager.sessionData session = some data) (present : data.downloading[i]? = some entry)
    (checked : manager.checkAt world session i = some next) :
    if dropped world manager (session, entry) then Drops (session, entry) manager next
    else Keeps manager next := by
  have member : (session, entry) ∈ manager.downloads :=
    mem_downloads.mpr ⟨data, found, mem_of_getElem? present⟩
  have own : entry.item.session = session := placed.session _ member
  unfold checkAt at checked
  rw [found, bind_some, present, bind_some] at checked
  have fits : decide (entry.photo = world.itemPhoto entry.item ∧
      some entry.document = world.itemDocument entry.item) = matchesMedia world entry := rfl
  unfold dropped settles
  dsimp only at checked ⊢
  rw [fits]
  cases media : matchesMedia world entry with
  | false =>
    rw [media] at checked
    exact remove_drops found present checked
  | true =>
    rw [media] at checked
    rw [Bool.not_true, Bool.false_or]
    cases path : (world.filepath session entry.document).isEmpty with
    | true =>
      rw [path] at checked
      cases loading : world.isLoading session entry.document with
      | false =>
        rw [loading] at checked
        exact remove_drops found present checked
      | true =>
        rw [loading] at checked
        cases checked
        obtain ⟨rest, was, -, put⟩ := downloads_of_getElem? found present
        exact .advance was (put _ _ rfl) ⟨rfl, rfl, rfl, rfl, rfl⟩
    | false =>
      rw [path] at checked
      by_cases loading : entry.item ∈ manager.loading
      · rw [if_neg Bool.false_ne_true, decide_eq_true loading, Bool.true_and]
        rw [Bool.not_true, if_neg Bool.false_ne_true, Bool.not_false, if_pos rfl,
          if_pos loading] at checked
        rcases addLoaded_cases checked with ⟨same, absent⟩ |
          ⟨accepted, download, other, -, item, drops⟩
        · rw [if_neg]
          · exact same.keeps
          · exact fun accepted => absent accepted _ member own.symm rfl
        · rw [if_pos accepted, ← placed.eq_of_item other member item]
          exact drops
      · rw [if_neg Bool.false_ne_true, decide_eq_false loading, Bool.false_and]
        rw [Bool.not_true, if_neg Bool.false_ne_true, Bool.not_false, if_pos rfl,
          if_neg loading] at checked
        cases checked
        exact .same rfl (.refl manager)

/-- A file that is to be loaded gets an entry at the end of the list of its session. -/
structure Enlists (item : Item) (document : DocumentId) (photo : Option PhotoId)
    (entry : DownloadingId) (before after : DownloadManager) : Prop where
  ofItem : entry.item = item
  ofDocument : entry.document = document
  ofPhoto : entry.photo = photo
  ready : entry.ready = 0
  done : entry.done = false
  now : after.downloads = (item.session, entry) ::ₘ before.downloads
  loading : after.loading = insert item before.loading
  loadingDone : after.loadingDone = before.loadingDone
  loadingDocuments : after.loadingDocuments =
    insert (item.session, document) before.loadingDocuments
  loadingProgress : after.loadingProgress =
    ⟨before.loadingProgress.ready, before.loadingProgress.total + entry.total⟩
  clearLoadingTimer : after.clearLoadingTimer = false

theorem startLoading_cases {document : DocumentId} {photo : Option PhotoId} {date : Int64}
    {checked : Bool}
    (started : manager.startLoading world item document photo date = some (next, checked)) :
    if (world.loadingFilePath item.session document).isEmpty then next = manager ∧ checked = false
    else checked = true ∧ ∃ entry, Enlists item document photo entry manager next := by
  obtain ⟨data, found, taken⟩ := map_eq_some_iff.mp started
  dsimp only at taken
  split at taken
  next empty =>
    cases taken
    rw [if_pos empty]
    exact ⟨rfl, rfl⟩
  next path =>
    cases taken
    rw [if_neg path]
    refine ⟨rfl,
      { item := item
        document := document
        photo := photo
        started := date
        path := world.loadingFilePath item.session document
        total := world.documentSize item.session document },
      rfl, rfl, rfl, rfl, rfl, ?_, rfl, rfl, rfl, rfl, rfl⟩
    rw [downloads_setData, downloads_of_sessionData found, ← cons_add]
    congr 1
    rw [cons_coe, map_append]
    exact coe_eq_coe.mpr (perm_append_singleton _ _)

/-- What the manager knows beside the lists is what these downloads add up to. -/
structure Accounts (manager : DownloadManager) (downloads : Multiset (Session × DownloadingId)) :
    Prop where
  placed : Placed downloads
  ready : manager.loadingProgress.ready = (downloads.map fun download => download.2.ready).sum
  total : manager.loadingProgress.total = (downloads.map fun download => download.2.total).sum
  loading : ∀ item, item ∈ manager.loading ↔
    ∃ download ∈ downloads, download.2.item = item ∧ download.2.done = false
  loadingDone : ∀ item, item ∈ manager.loadingDone ↔
    ∃ download ∈ downloads, download.2.item = item ∧ download.2.done = true
  timer : manager.clearLoadingTimer = true → manager.loading = ∅

theorem Accounts.known (accounts : Accounts before downloads)
    (known : SameKnown before after) : Accounts after downloads where
  placed := accounts.placed
  ready := by rw [known.loadingProgress, accounts.ready]
  total := by rw [known.loadingProgress, accounts.total]
  loading item := by rw [known.loading, accounts.loading]
  loadingDone item := by rw [known.loadingDone, accounts.loadingDone]
  timer active := by
    rw [known.loading]
    exact accounts.timer (known.clearLoadingTimer ▸ active)

section Changing

variable {download : Session × DownloadingId} {rest : Multiset (Session × DownloadingId)}

section

variable (placed : Placed (download ::ₘ rest))
include placed

theorem Placed.tail : Placed rest where
  session other member := placed.session other (Multiset.mem_cons_of_mem member)
  once := by
    have once := placed.once
    rw [Multiset.map_cons, Multiset.nodup_cons] at once
    exact once.2

theorem Placed.apart {other : Session × DownloadingId} (member : other ∈ rest) :
    other.2.item ≠ download.2.item := by
  have once := placed.once
  rw [Multiset.map_cons, Multiset.nodup_cons] at once
  exact fun same => once.1 (same ▸ Multiset.mem_map_of_mem _ member)

theorem Placed.others (item : Item) (done : Bool) :
    (item ≠ download.2.item ∧
      ∃ other ∈ download ::ₘ rest, other.2.item = item ∧ other.2.done = done) ↔
    ∃ other ∈ rest, other.2.item = item ∧ other.2.done = done := by
  constructor
  · rintro ⟨different, other, member, same, is⟩
    rcases mem_cons.mp member with rfl | inside
    · exact absurd same.symm different
    · exact ⟨other, inside, same, is⟩
  · rintro ⟨other, member, rfl, is⟩
    exact ⟨placed.apart member, other, mem_cons_of_mem member, rfl, is⟩

theorem Placed.replace {now : Session × DownloadingId} (session : now.1 = download.1)
    (item : now.2.item = download.2.item) :
    Placed (now ::ₘ rest) where
  session other member := by
    rcases Multiset.mem_cons.mp member with rfl | inside
    · rw [item, session]
      exact placed.session download (Multiset.mem_cons_self _ _)
    · exact placed.session other (Multiset.mem_cons_of_mem inside)
  once := by
    have once := placed.once
    rw [Multiset.map_cons] at once ⊢
    rwa [item]

end

section

variable (accounts : Accounts manager (download ::ₘ rest))
include accounts

theorem Accounts.forget : Accounts (manager.forgetLoading download.2) rest where
  placed := accounts.placed.tail
  ready := by
    have ready := accounts.ready
    rw [Multiset.map_cons, Multiset.sum_cons] at ready
    unfold forgetLoading
    dsimp only
    omega
  total := by
    have total := accounts.total
    rw [Multiset.map_cons, Multiset.sum_cons] at total
    unfold forgetLoading
    dsimp only
    omega
  loading item := by
    unfold forgetLoading
    rw [Finset.mem_erase, accounts.loading]
    exact accounts.placed.others item false
  loadingDone item := by
    unfold forgetLoading
    rw [Finset.mem_erase, accounts.loadingDone]
    exact accounts.placed.others item true
  timer active := by
    unfold forgetLoading at active ⊢
    rw [Bool.or_eq_true, Bool.and_eq_true, decide_eq_true_iff] at active
    rcases active with before | ⟨none, -⟩
    · rw [accounts.timer before, Finset.erase_empty]
    · exact none

theorem Accounts.advance (ready total : Int) :
    Accounts (manager.advance ready total) (advanced download ready total ::ₘ rest) where
  placed := accounts.placed.replace rfl rfl
  ready := by
    have before := accounts.ready
    rw [Multiset.map_cons, Multiset.sum_cons] at before ⊢
    unfold DownloadManager.advance advanced
    dsimp only
    omega
  total := by
    have before := accounts.total
    rw [Multiset.map_cons, Multiset.sum_cons] at before ⊢
    unfold DownloadManager.advance advanced
    dsimp only
    omega
  loading item := by
    refine (accounts.loading item).trans ?_
    simp only [Multiset.mem_cons, exists_eq_or_imp, advanced]
  loadingDone item := by
    refine (accounts.loadingDone item).trans ?_
    simp only [Multiset.mem_cons, exists_eq_or_imp, advanced]
  timer := accounts.timer

theorem Accounts.markDone :
    Accounts (manager.markDone download.2.item) (finished download ::ₘ rest) where
  placed := accounts.placed.replace rfl rfl
  ready := by
    have before := accounts.ready
    rw [Multiset.map_cons] at before ⊢
    exact before
  total := by
    have before := accounts.total
    rw [Multiset.map_cons] at before ⊢
    exact before
  loading item := by
    unfold DownloadManager.markDone
    rw [Finset.mem_erase, accounts.loading, accounts.placed.others]
    simp [finished]
  loadingDone item := by
    unfold DownloadManager.markDone
    rw [Finset.mem_insert, accounts.loadingDone]
    simp only [Multiset.mem_cons, exists_eq_or_imp, finished, and_true]
    constructor
    · rintro (rfl | ⟨same, -⟩ | later)
      · exact .inl rfl
      · exact .inl same
      · exact .inr later
    · rintro (rfl | later)
      · exact .inl rfl
      · exact .inr (.inr later)
  timer active := by
    unfold DownloadManager.markDone at active ⊢
    rw [Bool.or_eq_true, decide_eq_true_iff] at active
    rcases active with before | none
    · rw [accounts.timer before, Finset.erase_empty]
    · exact none

end

theorem Accounts.enlist {document : DocumentId} {photo : Option PhotoId}
    (accounts : Accounts manager rest) (fresh : ∀ other ∈ rest, other.2.item ≠ item)
    (enlists : Enlists item document photo entry manager next) :
    Accounts next ((item.session, entry) ::ₘ rest) where
  placed := by
    refine ⟨fun other member => ?_, ?_⟩
    · rcases Multiset.mem_cons.mp member with rfl | inside
      · rw [enlists.ofItem]
      · exact accounts.placed.session other inside
    · rw [Multiset.map_cons, Multiset.nodup_cons, enlists.ofItem]
      refine ⟨fun present => ?_, accounts.placed.once⟩
      obtain ⟨other, inside, same⟩ := Multiset.mem_map.mp present
      exact fresh other inside same
  ready := by
    rw [Multiset.map_cons, Multiset.sum_cons, enlists.loadingProgress, enlists.ready, Int.zero_add]
    exact accounts.ready
  total := by
    rw [Multiset.map_cons, Multiset.sum_cons, enlists.loadingProgress, accounts.total]
    exact Int.add_comm _ _
  loading other := by
    rw [enlists.loading, Finset.mem_insert, accounts.loading]
    simp only [Multiset.mem_cons, exists_eq_or_imp, enlists.ofItem, enlists.done, and_true, eq_comm]
  loadingDone other := by
    rw [enlists.loadingDone, accounts.loadingDone]
    simp [enlists.done]
  timer active := by
    rw [enlists.clearLoadingTimer] at active
    cases active

theorem Accounts.unwatch
    (accounts : Accounts manager downloads) : Accounts (manager.unwatch download) downloads :=
  { accounts with }

theorem Accounts.drops
    (accounts : Accounts before before.downloads) (drops : Drops download before after) :
    Accounts after after.downloads := by
  cases drops with
  | forget was now known =>
    rw [was] at accounts
    rw [now]
    exact accounts.forget.known known
  | @finish rest ready total was loading now known =>
    rw [was] at accounts
    rw [now]
    exact (accounts.unwatch.markDone.advance ready total).known known
  | unwatch was loading now known =>
    rw [now]
    exact accounts.unwatch.known known

theorem Accounts.keeps (accounts : Accounts before before.downloads) (keeps : Keeps before after) :
    Accounts after after.downloads := by
  cases keeps with
  | same now known =>
    rw [now]
    exact accounts.known known
  | advance was now known =>
    rw [was] at accounts
    rw [now]
    exact (accounts.advance _ _).known known

end Changing

end DownloadManager

end TelegramDesktop.Downloads
