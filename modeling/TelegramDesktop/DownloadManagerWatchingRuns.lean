import TelegramDesktop.DownloadManagerCancelling

/-!
# Runs and the documents that are watched

Where no step leaves behind an unfinished download of a document that it takes from what is
watched, every unfinished download is watched in every state of a run, and the end of a load
leaves none of its downloads unfinished.
-/

namespace TelegramDesktop.Downloads

open Option Multiset

/-- What happens to files that are being downloaded -/
inductive WatchAction
  | trackSession (session : Session) (serialized : Bytes)
  | addLoading (item : Item) (document : DocumentId) (photo : Option PhotoId) (started : Int64)
  | checkItem (item : Item)
  | checkDocument (session : Session) (document : DocumentId)
  | addLoaded (object : DownloadObject) (path : QString) (started : Int64)
  | remove (session : Session) (i : Nat)
  | cancel (session : Session) (i : Nat)
  | changed (item : Item)
  | removed (item : Item)

/-- An action, with what the manager finds around it. -/
structure WatchEvent where
  world : NotifyingWorld
  action : WatchAction

namespace DownloadManager

variable {world : NotifyingWorld} {manager middle next : DownloadManager} {session : Session}
  {item : Item} {document : DocumentId} {photo : Option PhotoId} {entry : DownloadingId}
  {download : Session × DownloadingId} {before after : DownloadManager}
  {key : Session × DocumentId}

section

variable (world : NotifyingWorld) (manager : DownloadManager)

/-- `cancel` of documents, of which there are as many as messages that are loading at most. -/
def cancelDocument : Canceling → Session → DocumentId → Option Canceling :=
  Canceling.cancel world (manager.loading.card + 1)

/-- `check`, with all that its cancelling leads to. -/
def checkCanceling (item : Item) : Option DownloadManager :=
  (Canceling.check world (manager.cancelDocument world) { manager } item).map Canceling.manager

def checkDocumentCanceling (session : Session) (document : DocumentId) : Option DownloadManager :=
  (Canceling.checkDocument world (manager.cancelDocument world) { manager } session document).map
    Canceling.manager

/-- `cancel` of an entry -/
def cancelAt (session : Session) (i : Nat) : Option DownloadManager :=
  (manager.sessionData session).bind fun data =>
    (data.downloading[i]?).bind fun entry =>
      (manager.remove session i).bind fun removed =>
        (manager.cancelDocument world { manager := removed } entry.item.session entry.document).map
          Canceling.manager

def addLoadingCanceling (item : Item) (document : DocumentId) (photo : Option PhotoId)
    (started : Int64) : Option DownloadManager :=
  (manager.enlist world.toWorld item document photo started).bind fun (manager, checked) =>
    if checked then manager.checkCanceling world item else some manager

/-- `changed`, with all that its cancelling leads to. -/
def changedCanceling (item : Item) : Option DownloadManager :=
  (manager.changedLoaded world.toWorld item).bind fun manager =>
    if item ∈ manager.loading ∨ item ∈ manager.loadingDone then manager.checkCanceling world item
    else some manager

/-- `removed`, with all that its cancelling leads to. -/
def removedCanceling (item : Item) : Option DownloadManager :=
  (manager.removedLoaded item).bind fun manager =>
    if item ∈ manager.loading ∨ item ∈ manager.loadingDone then
      (manager.sessionData item.session).bind fun data =>
        (data.downloading.findIdx? (DownloadingId.hasItem item)).bind fun i =>
          manager.cancelAt world item.session i
    else some manager

/-- `documentLoadDone` of the session -/
def documentLoadDone (session : Session) (document : DocumentId) : Option DownloadManager :=
  (Canceling.documentLoadDone world (manager.cancelDocument world) { manager } session document
    ).map Canceling.manager

end

/-- A step together with the checks of the messages of documents that it cancels -/
def watchStep (manager : DownloadManager) (event : WatchEvent) : Option DownloadManager :=
  match event.action with
  | .trackSession session serialized =>
    if !manager.isTracked session then some (manager.trackSession session serialized) else none
  | .addLoading item document photo started =>
    if manager.isTracked item.session && manager.hasItem item then
      manager.addLoadingCanceling event.world item document photo started
    else none
  | .checkItem item =>
    if item ∈ manager.loading then manager.checkCanceling event.world item else none
  | .checkDocument session document =>
    if (session, document) ∈ manager.loadingDocuments then
      manager.checkDocumentCanceling event.world session document
    else none
  | .addLoaded object path started =>
    if manager.isTracked object.item.session && manager.hasItem object.item &&
        (object.document.isSome || object.photo.isSome) then
      manager.addLoaded event.world.toWorld object path started
    else none
  | .remove session i => manager.remove session i
  | .cancel session i => manager.cancelAt event.world session i
  | .changed item =>
    if manager.isTracked item.session then manager.changedCanceling event.world item else none
  | .removed item =>
    if manager.isTracked item.session then manager.removedCanceling event.world item else none

/-- A check does not leave behind an unfinished download of the document: where it drops the
download that it is about, no other message shares the document, or all that do are told. -/
def SparesChecked (world : NotifyingWorld) (others : Set (Session × DownloadingId))
    (isLoading : Bool) (session : Session) (item : Item) (document : DocumentId)
    (photo : Option PhotoId) : Prop :=
  if photo = world.itemPhoto item ∧ some document = world.itemDocument item then
    settles world.toWorld isLoading session item document photo = true →
      ¬Shared others (session, document)
  else SparesCanceled world others (session, document)

/-- The check of a download spares the others of its document. -/
def SparesAt (world : NotifyingWorld) (manager : DownloadManager)
    (download : Session × DownloadingId) : Prop :=
  SparesChecked world (manager.others download.2.item)
    (decide (download.2.item ∈ manager.loading)) download.1 download.2.item download.2.document
    download.2.photo

/-- What `addLoading` drops: the download that it takes the place of, unless the new one has
the same document, and what the last check drops. -/
structure SparesAdded (world : NotifyingWorld) (manager : DownloadManager) (item : Item)
    (document : DocumentId) (photo : Option PhotoId) : Prop where
  same : ∀ download ∈ manager.downloads, download.2.item = item →
    download.2.document = document ∧ download.2.photo = photo → SparesAt world manager download
  replaced : ∀ download ∈ manager.downloads, download.2.item = item →
    ¬(download.2.document = document ∧ download.2.photo = photo) →
      (world.loadingFilePath item.session document).isEmpty = true ∨
        download.2.document ≠ document → ¬Shared (manager.others item) (watchKey download)
  added : (∀ download ∈ manager.downloads, download.2.item = item →
      ¬(download.2.document = document ∧ download.2.photo = photo)) →
    (world.loadingFilePath item.session document).isEmpty = false →
      SparesChecked world (manager.others item) true item.session item document photo

/-- The step does not leave behind a download of a document that it takes from what is
watched. -/
def Spares (manager : DownloadManager) (event : WatchEvent) : Prop :=
  match event.action with
  | .trackSession _ _ => True
  | .addLoading item document photo _ => SparesAdded event.world manager item document photo
  | .checkItem item | .changed item => ∀ download ∈ manager.downloads, download.2.item = item →
      SparesAt event.world manager download
  | .checkDocument session document => ∀ entry, manager.firstOf session document = some entry →
      SparesAt event.world manager (session, entry)
  | .addLoaded object path _ => (event.world.acceptedSize path).isSome →
      ∀ download ∈ manager.downloads, download.1 = object.item.session →
        download.2.item = object.item → ¬Shared (manager.others object.item) (watchKey download)
  | .remove session i => ∀ data entry, manager.sessionData session = some data →
      data.downloading[i]? = some entry →
        ¬Shared (manager.others entry.item) (session, entry.document)
  | .cancel session i => ∀ data entry, manager.sessionData session = some data →
      data.downloading[i]? = some entry →
        SparesCanceled event.world (manager.others entry.item) (session, entry.document)
  | .removed item => ∀ download ∈ manager.downloads, download.2.item = item →
      SparesCanceled event.world (manager.others item) (watchKey download)

theorem without_empty (world : NotifyingWorld) : world.without ∅ = world.toWorld := by
  unfold NotifyingWorld.without
  simp

/-- What every step keeps: the lists and the sets agree, and watched documents are found. -/
structure Steady (manager : DownloadManager) : Prop where
  accounted : manager.Accounted
  found : manager.AllFound

/-- A step from one state leads to a steady one, and to one where all downloads are watched
if they were and the step spares them. -/
structure Leads (manager next : DownloadManager) (spares : Prop) : Prop where
  steady : next.Steady
  watched : manager.AllWatched → spares → next.AllWatched

theorem DropFacts.unfinished_eq (facts : DropFacts download before after) :
    after.Unfinished = before.others download.2.item :=
  Set.ext fun _ => facts.mem_unfinished

section

variable (steady : manager.Steady)
include steady

/-- The document of a download that was dropped is cancelled. -/
theorem Steady.cancelDocument (facts : DropFacts download manager middle)
    (between : middle.Accounted) (member : download ∈ manager.downloads) {state : Canceling}
    (done : manager.cancelDocument world { manager := middle } download.1 download.2.document =
      some state) :
    Leads manager state.manager
      (SparesCanceled world (manager.others download.2.item) (watchKey download)) := by
  have found := facts.allFound steady.accounted member steady.found
  have apart : watchKey download ∉ middle.loadingDocuments := by
    rw [facts.documents]
    exact Finset.notMem_erase _ _
  have fewer : middle.loading ⊆ manager.loading := steady.accounted.loading_subset between
    fun _ stays => (facts.mem_unfinished.mp stays).1
  have small := Nat.lt_succ_of_le (Finset.card_le_card fewer)
  refine ⟨?_, fun watched spares => ?_⟩
  · obtain ⟨same, isSame, accounted, allFound⟩ :=
      cancel_found world between found apart small
    cases isSame.symm.trans done
    exact ⟨accounted, allFound⟩
  · rw [← facts.unfinished_eq] at spares
    exact cancel_watched between found (facts.watched_or watched) apart small spares done

/-- What a check does, with the documents that are cancelled by it. -/
theorem Steady.checked (checked : Checked world.toWorld download manager middle)
    (between : middle.Accounted) {state : Canceling}
    (done : Canceling.cancelMismatched world (manager.cancelDocument world) download.2
      { manager := middle } = some state) :
    Leads manager state.manager (SparesAt world manager download) := by
  unfold Canceling.cancelMismatched at done
  unfold SparesAt SparesChecked
  cases media : matchesMedia world.toWorld download.2 with
  | true =>
    rw [media, if_pos rfl] at done
    cases done
    rw [if_pos (of_decide_eq_true media)]
    cases drop : dropped world.toWorld manager download with
    | true =>
      have facts := checked.drops drop
      exact ⟨⟨between, facts.allFound steady.accounted checked.member steady.found⟩,
        fun watched spares => facts.allWatched watched (spares drop)⟩
    | false =>
      have facts := checked.keeps drop
      exact ⟨⟨between, facts.allFound steady.found⟩, fun watched _ => facts.allWatched watched⟩
  | false =>
    rw [media, if_neg Bool.false_ne_true, steady.accounted.placed.session download checked.member]
      at done
    rw [if_neg (of_decide_eq_false media)]
    exact steady.cancelDocument (checked.drops (dropped_of_mismatch media)) between checked.member
      done

theorem Steady.check (checked : manager.checkCanceling world item = some next) :
    ∃ download ∈ manager.downloads, download.2.item = item ∧
      Leads manager next (SparesAt world manager download) := by
  obtain ⟨state, taken, rfl⟩ := map_eq_some_iff.mp checked
  obtain ⟨entry, search, taken⟩ := bind_eq_some_iff.mp taken
  obtain ⟨middle, isChecked, done⟩ := bind_eq_some_iff.mp taken
  rw [without_empty] at isChecked
  obtain ⟨download, rfl, facts⟩ := check_checked steady.accounted isChecked
  cases search.symm.trans (steady.accounted.entryOf_eq facts.member)
  exact ⟨download, facts.member, rfl,
    steady.checked facts (steady.accounted.check isChecked) done⟩

/-- The download of a message is the only one that a condition on its downloads is about. -/
theorem Steady.check_item (checked : manager.checkCanceling world item = some next) :
    Leads manager next
      (∀ download ∈ manager.downloads, download.2.item = item →
        SparesAt world manager download) := by
  obtain ⟨download, member, own, leads⟩ := steady.check checked
  exact ⟨leads.steady, fun watched spares => leads.watched watched (spares download member own)⟩

theorem Steady.checkDocument
    (checked : manager.checkDocumentCanceling world session document = some next) :
    ∃ entry, manager.firstOf session document = some entry ∧
      Leads manager next (SparesAt world manager (session, entry)) := by
  obtain ⟨state, taken, rfl⟩ := map_eq_some_iff.mp checked
  obtain ⟨entry, search, taken⟩ := bind_eq_some_iff.mp taken
  obtain ⟨middle, isChecked, done⟩ := bind_eq_some_iff.mp taken
  rw [without_empty] at isChecked
  obtain ⟨same, isSame, facts⟩ := checkDocument_checked steady.accounted isChecked
  cases search.symm.trans isSame
  obtain ⟨data, -, rest⟩ := bind_eq_some_iff.mp isChecked
  obtain ⟨i, -, last⟩ := bind_eq_some_iff.mp rest
  exact ⟨entry, search, steady.checked facts (steady.accounted.checkAt last) done⟩

theorem Steady.cancelAt {i : Nat} {data : SessionData}
    (found : manager.sessionData session = some data) (present : data.downloading[i]? = some entry)
    (canceled : manager.cancelAt world session i = some next) :
    Leads manager next
      (SparesCanceled world (manager.others entry.item) (session, entry.document)) := by
  obtain ⟨data', found', taken⟩ := bind_eq_some_iff.mp canceled
  cases found.symm.trans found'
  obtain ⟨entry', present', taken⟩ := bind_eq_some_iff.mp taken
  cases present.symm.trans present'
  obtain ⟨middle, removed, last⟩ := bind_eq_some_iff.mp taken
  obtain ⟨state, done, rfl⟩ := map_eq_some_iff.mp last
  have member : (session, entry) ∈ manager.downloads :=
    mem_downloads.mpr ⟨data, found, List.mem_of_getElem? present⟩
  rw [steady.accounted.placed.session _ member] at done
  exact steady.cancelDocument ((remove_drops found present removed).facts steady.accounted)
    (steady.accounted.remove removed) member done

theorem Steady.stays (spares : Prop) : Leads manager manager spares :=
  ⟨steady, fun watched _ => watched⟩

/-- Only the downloaded files are different. -/
theorem Steady.sameLoads (same : SameLoads manager middle) : middle.Steady :=
  ⟨same.accounted steady.accounted, same.keeps.facts.allFound steady.found⟩

end

theorem SameLoads.others_eq (same : SameLoads before after) (item : Item) :
    after.others item = before.others item := by
  unfold others Unfinished
  rw [downloads_eq_of_downloading same.downloading]

theorem SameLoads.sparesAt (same : SameLoads before after) (download : Session × DownloadingId) :
    SparesAt world after download ↔ SparesAt world before download := by
  unfold SparesAt
  rw [same.others_eq, same.loading]

/-- A step that does not change the downloads comes first. -/
theorem Leads.after_same {spares sparesAfter : Prop} (same : SameLoads manager middle)
    (leads : Leads middle next sparesAfter) (implies : spares → sparesAfter) :
    Leads manager next spares :=
  ⟨leads.steady, fun watched spared =>
    leads.watched (same.keeps.facts.allWatched watched) (implies spared)⟩

section

variable (steady : manager.Steady)
include steady

theorem Steady.changed (changed : manager.changedCanceling world item = some next) :
    Leads manager next
      (∀ download ∈ manager.downloads, download.2.item = item →
        SparesAt world manager download) := by
  obtain ⟨middle, first, last⟩ := bind_eq_some_iff.mp changed
  have same := changedLoaded_loads first
  have between := steady.sameLoads same
  have downloads : middle.downloads = manager.downloads :=
    downloads_eq_of_downloading same.downloading
  split at last
  · refine (between.check_item last).after_same same fun spares download member own => ?_
    exact (same.sparesAt download).mpr (spares download (downloads ▸ member) own)
  · cases last
    exact (between.stays True).after_same same fun _ => trivial

theorem Steady.removed (removed : manager.removedCanceling world item = some next) :
    Leads manager next (∀ download ∈ manager.downloads, download.2.item = item →
      SparesCanceled world (manager.others item) (watchKey download)) := by
  obtain ⟨middle, first, last⟩ := bind_eq_some_iff.mp removed
  have same := removedLoaded_loads first
  have between := steady.sameLoads same
  have downloads : middle.downloads = manager.downloads :=
    downloads_eq_of_downloading same.downloading
  split at last
  · obtain ⟨data, found, taken⟩ := bind_eq_some_iff.mp last
    obtain ⟨i, search, canceled⟩ := bind_eq_some_iff.mp taken
    obtain ⟨entry, present, rfl⟩ := findIdx?_hasItem search
    have member : (entry.item.session, entry) ∈ manager.downloads :=
      downloads ▸ mem_downloads.mpr ⟨data, found, List.mem_of_getElem? present⟩
    refine (between.cancelAt found present canceled).after_same same fun spares => ?_
    rw [same.others_eq]
    exact spares _ member rfl
  · cases last
    exact (between.stays True).after_same same fun _ => trivial

theorem Steady.drops (facts : DropFacts download manager next) (accounted : next.Accounted)
    (member : download ∈ manager.downloads) :
    Leads manager next (¬Shared (manager.others download.2.item) (watchKey download)) :=
  ⟨⟨accounted, facts.allFound steady.accounted member steady.found⟩,
    fun watched alone => facts.allWatched watched alone⟩

theorem Steady.remove {i : Nat} {data : SessionData}
    (found : manager.sessionData session = some data) (present : data.downloading[i]? = some entry)
    (removed : manager.remove session i = some next) :
    Leads manager next (¬Shared (manager.others entry.item) (session, entry.document)) :=
  steady.drops ((remove_drops found present removed).facts steady.accounted)
    (steady.accounted.remove removed)
    (mem_downloads.mpr ⟨data, found, List.mem_of_getElem? present⟩)

theorem Steady.addLoaded {object : DownloadObject} {path : QString} {started : Int64}
    (added : manager.addLoaded world.toWorld object path started = some next) :
    Leads manager next ((world.acceptedSize path).isSome →
      ∀ download ∈ manager.downloads, download.1 = object.item.session →
        download.2.item = object.item →
          ¬Shared (manager.others object.item) (watchKey download)) := by
  rcases addLoaded_cases added with ⟨same, -⟩ | ⟨accepted, download, member, session, own, drops⟩
  · exact ⟨steady.sameLoads same, fun watched _ => same.keeps.facts.allWatched watched⟩
  · have leads := steady.drops (drops.facts steady.accounted) (steady.accounted.drops drops) member
    exact ⟨leads.steady, fun watched spares =>
      leads.watched watched (own ▸ spares accepted download member session own)⟩

/-- A new download is watched, and so are those that shared the document of the one it took
the place of. -/
theorem Steady.enlists (fresh : ∀ other ∈ manager.downloads, other.2.item ≠ item)
    (enlists : Enlists item document photo entry manager middle) : middle.Steady ∧
      ((∀ other ∈ manager.Unfinished, watchKey other = (item.session, document) ∨
        watchKey other ∈ manager.loadingDocuments) → middle.AllWatched) := by
  have key : watchKey (item.session, entry) = (item.session, document) :=
    congrArg (Prod.mk item.session) enlists.ofDocument
  refine ⟨⟨steady.accounted.enlists fresh enlists, fun other inside => ?_⟩,
    fun watched other member unfinished => ?_⟩
  · rw [enlists.loadingDocuments, Finset.mem_insert] at inside
    rw [enlists.now]
    rcases inside with rfl | inside
    · exact ⟨_, mem_cons_self _ _, key⟩
    · obtain ⟨download, there, same⟩ := steady.found other inside
      exact ⟨download, mem_cons_of_mem there, same⟩
  · rw [enlists.now] at member
    rw [enlists.loadingDocuments, Finset.mem_insert]
    rcases mem_cons.mp member with rfl | there
    · exact .inl key
    · exact watched other ⟨there, unfinished⟩

/-- `addLoading` after a download of the message, if there was one, has been removed. -/
theorem Steady.startLoading {date : Int64} {checked : Bool}
    (fresh : ∀ other ∈ manager.downloads, other.2.item ≠ item)
    (started : manager.startLoading world.toWorld item document photo date =
      some (middle, checked))
    (last : (if checked then middle.checkCanceling world item else some middle) = some next) :
    next.Steady ∧ (manager.AllWatched ∨
      (world.loadingFilePath item.session document).isEmpty = false ∧
        (∀ other ∈ manager.Unfinished, watchKey other = (item.session, document) ∨
          watchKey other ∈ manager.loadingDocuments) →
      ((world.loadingFilePath item.session document).isEmpty = false →
        SparesChecked world manager.Unfinished true item.session item document photo) →
          next.AllWatched) := by
  have cases := startLoading_cases started
  split at cases
  next empty =>
    obtain ⟨rfl, rfl⟩ := cases
    cases last
    refine ⟨steady, fun watched _ => watched.resolve_right fun path => ?_⟩
    rw [empty] at path
    cases path.1
  next path =>
    obtain ⟨rfl, entry, enlists⟩ := cases
    rw [if_pos rfl] at last
    obtain ⟨between, watched⟩ := steady.enlists fresh enlists
    obtain ⟨download, member, own, leads⟩ := between.check last
    have there : (item.session, entry) ∈ middle.downloads := by
      rw [enlists.now]
      exact mem_cons_self _ _
    obtain rfl := between.accounted.eq_of_item member there (own.trans enlists.ofItem.symm)
    have others : middle.others item = manager.Unfinished := by
      ext other
      constructor
      · rintro ⟨⟨inside, unfinished⟩, different⟩
        rw [enlists.now] at inside
        rcases mem_cons.mp inside with rfl | inside
        · exact absurd enlists.ofItem different
        · exact ⟨inside, unfinished⟩
      · rintro ⟨inside, unfinished⟩
        refine ⟨⟨?_, unfinished⟩, fresh other inside⟩
        rw [enlists.now]
        exact mem_cons_of_mem inside
    have spares : SparesAt world middle (item.session, entry) ↔
        SparesChecked world manager.Unfinished true item.session item document photo := by
      unfold SparesAt
      dsimp only
      rw [enlists.ofItem, enlists.ofDocument, enlists.ofPhoto, others, enlists.loading,
        decide_eq_true (Finset.mem_insert_self _ _)]
    refine ⟨leads.steady, fun before spared => leads.watched (watched ?_) (spares.mpr (spared ?_))⟩
    · rcases before with all | ⟨-, shared⟩
      · exact fun other inside => .inr (all other inside.1 inside.2)
      · exact shared
    · exact Bool.eq_false_of_not_eq_true path

theorem Steady.addLoading {date : Int64}
    (added : manager.addLoadingCanceling world item document photo date = some next) :
    Leads manager next (SparesAdded world manager item document photo) := by
  obtain ⟨⟨middle, checked⟩, enlisted, last⟩ := bind_eq_some_iff.mp added
  obtain ⟨data, found, taken⟩ := bind_eq_some_iff.mp enlisted
  split at taken
  next search =>
    have fresh := steady.accounted.placed.absent found search
    obtain ⟨stays, watched⟩ := steady.startLoading fresh taken last
    refine ⟨stays, fun all spares => watched (.inl all) fun path => ?_⟩
    have others : manager.others item = manager.Unfinished :=
      Set.ext fun other => and_iff_left_of_imp fun inside => fresh other inside.1
    rw [← others]
    exact spares.added (fun download member own => absurd own (fresh download member)) path
  next i search =>
    obtain ⟨already, present, rest⟩ := bind_eq_some_iff.mp taken
    obtain ⟨entry, here, own⟩ := findIdx?_hasItem search
    obtain rfl : entry = already := some.inj (here.symm.trans present)
    have member : (item.session, entry) ∈ manager.downloads :=
      mem_downloads.mpr ⟨data, found, List.mem_of_getElem? present⟩
    have sole : ∀ other ∈ manager.downloads, other.2.item = item →
        other = (item.session, entry) := fun other there same =>
      steady.accounted.eq_of_item there member (same.trans own.symm)
    split at rest
    next same =>
      cases rest
      have leads := steady.check_item last
      refine ⟨leads.steady, fun all spares => leads.watched all fun other there equal => ?_⟩
      obtain rfl := sole other there equal
      exact spares.same _ there equal same
    next different =>
      obtain ⟨between, removed, started⟩ := bind_eq_some_iff.mp rest
      have facts := (remove_drops found present removed).facts steady.accounted
      have leads := steady.remove found present removed
      have others : between.Unfinished = manager.others item := own ▸ facts.unfinished_eq
      obtain ⟨stays, watched⟩ := leads.steady.startLoading
        (steady.accounted.absent_of_remove found search removed) started last
      refine ⟨stays, fun all spares => watched ?_ fun path => ?_⟩
      · have alone (changed : (world.loadingFilePath item.session document).isEmpty = true ∨
            entry.document ≠ document) : between.AllWatched :=
          leads.watched all (own ▸ spares.replaced _ member own different changed)
        by_cases path : (world.loadingFilePath item.session document).isEmpty = true
        · exact .inl (alone (.inl path))
        by_cases document' : entry.document = document
        · refine .inr ⟨Bool.eq_false_of_not_eq_true path, ?_⟩
          rw [← document']
          exact facts.watched_or all
        · exact .inl (alone (.inr document'))
      · rw [others]
        refine spares.added (fun other there same => ?_) path
        rw [sole other there same]
        exact different

end

theorem trackSession_leads {bytes : Bytes} (steady : manager.Steady)
    (fresh : manager.isTracked session = false) :
    Leads manager (manager.trackSession session bytes) True := by
  have none : manager.sessionData session = none := by
    rwa [isTracked, isSome_eq_false_iff, isNone_iff_eq_none] at fresh
  have missing : manager.sessions.contains session = false := fresh
  have same : (manager.trackSession session bytes).downloads = manager.downloads := by
    unfold trackSession
    rw [downloads_setData, none]
    unfold otherDownloads
    rw [FlatMap.erase_of_not_contains missing]
    rfl
  have facts := (Keeps.same same ⟨rfl, rfl, rfl, rfl, rfl⟩).facts
  exact ⟨⟨steady.accounted.trackSession fresh, facts.allFound steady.found⟩,
    fun watched _ => facts.allWatched watched⟩

/-- A step that goes through leaves nothing unwatched if it spares the others. -/
theorem watchStep_leads {event : WatchEvent} (steady : manager.Steady)
    (taken : manager.watchStep event = some next) :
    Leads manager next (manager.Spares event) := by
  obtain ⟨world, action⟩ := event
  cases action with
  | trackSession session bytes =>
    obtain ⟨fresh, performed⟩ := ite_none_right_eq_some.mp taken
    cases performed
    exact trackSession_leads steady ((Bool.not_eq_true' _).mp fresh)
  | addLoading item document photo started =>
    exact steady.addLoading (ite_none_right_eq_some.mp taken).2
  | checkItem item => exact steady.check_item (ite_none_right_eq_some.mp taken).2
  | checkDocument session document =>
    obtain ⟨entry, first, leads⟩ := steady.checkDocument (ite_none_right_eq_some.mp taken).2
    exact ⟨leads.steady, fun watched spares => leads.watched watched (spares entry first)⟩
  | addLoaded object path started => exact steady.addLoaded (ite_none_right_eq_some.mp taken).2
  | remove session i =>
    obtain ⟨data, found, rest⟩ := bind_eq_some_iff.mp taken
    obtain ⟨entry, present, -⟩ := map_eq_some_iff.mp rest
    have leads := steady.remove found present taken
    exact ⟨leads.steady, fun watched spares =>
      leads.watched watched (spares data entry found present)⟩
  | cancel session i =>
    obtain ⟨data, found, rest⟩ := bind_eq_some_iff.mp taken
    obtain ⟨entry, present, -⟩ := bind_eq_some_iff.mp rest
    have leads := steady.cancelAt found present taken
    exact ⟨leads.steady, fun watched spares =>
      leads.watched watched (spares data entry found present)⟩
  | changed item => exact steady.changed (ite_none_right_eq_some.mp taken).2
  | removed item => exact steady.removed (ite_none_right_eq_some.mp taken).2

theorem steady_initial : Steady {} where
  accounted := accounted_initial
  found _ inside := absurd inside (Finset.notMem_empty _)

/-- The load has ended, without a file or with one that the list takes note of. -/
structure Ended (world : World) (session : Session) (document : DocumentId) : Prop where
  stopped : world.isLoading session document = false
  accepted : (world.filepath session document).isEmpty = false →
    (world.acceptedSize (world.filepath session document)).isSome = true

/-- The messages of all unfinished downloads of the document are told, or it has one only. -/
def Told (world : NotifyingWorld) (manager : DownloadManager) (key : Session × DocumentId) : Prop :=
  (∀ download ∈ manager.Unfinished, watchKey download = key →
    download.2.item ∈ world.documentItems key.1 key.2) ∨
  ∀ first ∈ manager.downloads, ∀ second ∈ manager.downloads, watchKey first = key →
    watchKey second = key → first = second

theorem Ended.leaves (ended : Ended world.toWorld session document)
    (key : watchKey download = (session, document)) : Leaves world.toWorld download := by
  obtain ⟨rfl, rfl⟩ := Prod.mk.inj key
  intro _
  cases path : (world.filepath download.1 download.2.document).isEmpty with
  | true => exact .inl rfl
  | false => exact .inr (ended.accepted path)

theorem Ended.dropped {world : World} (ended : Ended world session document)
    (accounted : manager.Accounted) (unfinished : download ∈ manager.Unfinished)
    (key : watchKey download = (session, document)) : dropped world manager download = true := by
  obtain ⟨rfl, rfl⟩ := Prod.mk.inj key
  unfold DownloadManager.dropped settles
  rw [ended.stopped, decide_eq_true (accounted.mem_loading unfinished), Bool.true_and,
    Bool.or_eq_true]
  right
  cases path : (world.filepath download.1 download.2.document).isEmpty with
  | true => rfl
  | false => exact ended.accepted path

theorem watchKey_of_firstOf (first : manager.firstOf session document = some entry) :
    watchKey (session, entry) = (session, document) := by
  obtain ⟨data, -, search⟩ := bind_eq_some_iff.mp first
  have same := List.find?_some search
  rw [watchKey, of_decide_eq_true same]

/-- `documentLoadProgress` of a document that is not loading is one check. -/
theorem documentLoadProgress_eq {state : Canceling} (fuel : Nat)
    (accounted : state.manager.Accounted) (found : state.manager.AllFound)
    (silent : Silent world state.stopped (session, document)) :
    ∃ next, state.documentLoadProgress world (Canceling.cancel world (fuel + 1)) session document =
        some { state with manager := next } ∧
      if (session, document) ∈ state.manager.loadingDocuments then
        ∃ entry, watchKey (session, entry) = (session, document) ∧
          Checked (world.without state.stopped) (session, entry) state.manager next
      else next = state.manager := by
  unfold Canceling.documentLoadProgress
  split
  next watched =>
    obtain ⟨next, isChecked⟩ :=
      found.checkDocument_succeeds accounted (world.without state.stopped) watched
    obtain ⟨entry, first, checked⟩ := checkDocument_checked accounted isChecked
    have key := watchKey_of_firstOf first
    refine ⟨next, ?_, entry, key, checked⟩
    have session' : entry.item.session = session := accounted.placed.session _ checked.member
    have document' : entry.document = document := congrArg Prod.snd key
    unfold Canceling.checkDocument
    rw [first, bind_some, isChecked, bind_some]
    unfold Canceling.cancelMismatched
    split
    · rfl
    · rw [session', document']
      exact if_neg (ne_true_of_eq_false silent)
  next => exact ⟨state.manager, rfl, rfl⟩

/-- Where the unfinished downloads of a document are told of its end, none is left. -/
theorem documentLoadDone_finishes (ended : Ended world.toWorld session document)
    (steady : manager.Steady) (watched : manager.AllWatched)
    (told : manager.Told world (session, document)) :
    ∃ next, manager.documentLoadDone world session document = some next ∧
      ∀ download ∈ next.downloads, watchKey download = (session, document) →
        download.2.done = true := by
  have quiet : Silent world ∅ (session, document) := silent_iff.mpr fun loading => by
    rw [ended.stopped] at loading
    cases loading
  obtain ⟨state, all, cascades, checked⟩ := itemsChanged_spec { manager }
    (cancel_spec world Set.univ Set.univ (fun _ _ _ _ _ _ _ => trivial) (manager.loading.card + 1))
    steady.accounted steady.found (Set.subset_univ _) trivial (fun _ _ _ _ => trivial) quiet
    (Nat.le_succ _) (List.Subset.refl _)
  have silent := quiet.mono cascades.stopped
  obtain ⟨next, done, progress⟩ := documentLoadProgress_eq manager.loading.card
    cascades.accounted cascades.found silent
  refine ⟨next, ?_, fun download member key => Bool.eq_true_of_not_eq_false fun unfinished => ?_⟩
  · unfold documentLoadDone Canceling.documentLoadDone
    rw [cancelDocument, all, bind_some, done]
    rfl
  have sole (member : ∃ download ∈ state.manager.Unfinished,
      watchKey download = (session, document)) :
      ∀ first ∈ manager.downloads, ∀ second ∈ manager.downloads,
        watchKey first = (session, document) → watchKey second = (session, document) →
          first = second := by
    obtain ⟨left, stays, isKey⟩ := member
    refine told.resolve_left fun listed => ?_
    exact checked left stays (listed left (cascades.fewer stays) isKey) (ended.leaves isKey)
  split at progress
  next =>
    obtain ⟨entry, entryKey, facts⟩ := progress
    obtain ⟨old, there, item, oldKey, wasUnfinished⟩ := facts.fewer download member
    have left : old ∈ state.manager.Unfinished := ⟨there, wasUnfinished unfinished⟩
    have alone := sole ⟨old, left, oldKey.trans key⟩
    obtain ⟨first, firstMem, firstItem, firstKey, -⟩ := cascades.old old there
    obtain ⟨second, secondMem, secondItem, secondKey, -⟩ := cascades.old _ facts.member
    have same := alone first firstMem second secondMem (firstKey.trans (oldKey.trans key))
      (secondKey.trans entryKey)
    rw [same] at firstItem
    obtain rfl := cascades.accounted.eq_of_item there facts.member
      (firstItem.symm.trans secondItem)
    have endedFor : Ended (world.without state.stopped) session document := ⟨silent, ended.accepted⟩
    have drop := facts.drops (endedFor.dropped cascades.accounted left entryKey)
    exact (drop.mem_unfinished.mp ⟨member, unfinished⟩).2 item.symm
  next unwatched =>
    rw [progress] at member
    have left : download ∈ state.manager.Unfinished := ⟨member, unfinished⟩
    have before := cascades.fewer left
    obtain ⟨-, other, otherMem, otherKey, gone⟩ :=
      cascades.erased _ (key ▸ watched download before.1 before.2) unwatched
    have same := sole ⟨download, left, key⟩ other otherMem.1 download before.1 otherKey key
    exact gone (same ▸ left)

/-- Where the steps spare the others, every unfinished download is watched in every state of
the run.  A watched document has a download in any run, so that a check of it finds one, and
the end of a load leaves nothing unfinished where it is told. -/
theorem watched_of_spares (events : List WatchEvent) :
    (RunMeets watchStep
        (fun manager event => (manager.watchStep event).isSome → manager.Spares event) {} events →
      RunKeeps watchStep Watched {} events) ∧
    RunKeeps watchStep (fun manager => manager.AllFound ∧ ∀ world, ∀ key ∈ manager.loadingDocuments,
      ∃ next, manager.checkDocument world key.1 key.2 = some next) {} events ∧
    ∀ last, run watchStep {} events = some last → last.AllWatched →
      ∀ world session document, Ended world.toWorld session document →
        last.Told world (session, document) →
          ∃ next, last.documentLoadDone world session document = some next ∧
            ∀ download ∈ next.downloads, watchKey download = (session, document) →
              download.2.done = true := by
  have kept : ∀ (manager : DownloadManager) event next, manager.Steady →
      manager.watchStep event = some next → next.Steady :=
    fun manager event next steady taken => (watchStep_leads steady taken).steady
  refine ⟨fun meets => ?_, ?_, fun last ends watched world session document ended told => ?_⟩
  · have keptWatched : ∀ (manager : DownloadManager) event next,
        manager.Steady ∧ manager.AllWatched →
        ((manager.watchStep event).isSome → manager.Spares event) →
        manager.watchStep event = some next → next.Steady ∧ next.AllWatched := by
      rintro manager event next ⟨steady, watched⟩ spares taken
      have leads := watchStep_leads steady taken
      exact ⟨leads.steady, leads.watched watched (spares (isSome_iff_exists.mpr ⟨next, taken⟩))⟩
    have none : AllWatched {} := fun _ member => absurd member (notMem_zero _)
    exact (meets.keeps keptWatched ⟨steady_initial, none⟩).mono fun manager holds =>
      ⟨holds.2, holds.1.found⟩
  · refine (runKeeps_invariant kept events steady_initial).mono fun manager steady => ?_
    exact ⟨steady.found, fun world key inside =>
      steady.found.checkDocument_succeeds steady.accounted world inside⟩
  · have steady := run_invariant kept steady_initial ends
    exact documentLoadDone_finishes ended steady watched told

/-- A world in which every message shows a web page with the same document. -/
def pageWorld (isLoading : Bool) : NotifyingWorld where
  toWorld := { lonelyWorld with
    media := fun _ => some { webpage := some ⟨some 5, none⟩ }
    filepath := fun _ _ => if isLoading then .null else letterPath 98
    loadingFilePath := fun _ _ => letterPath 97
    isLoading := fun _ _ => isLoading
    documentSize := fun _ _ => 10 }
  documentItems _ _ := []
  documentItems_document _ _ _ inside := absurd inside List.not_mem_nil

/-- A world in which all messages have the same file, and two of them are told of it. -/
def fileWorld : NotifyingWorld where
  toWorld := { (pageWorld true).toWorld with media := fun _ => some { document := some 5 } }
  documentItems session document :=
    if session = 0 ∧ document = 5 then [⟨0, 1, false⟩, ⟨0, 2, false⟩] else []
  documentItems_document session document item inside := by
    split at inside
    next isKey =>
      obtain ⟨rfl, rfl⟩ := isKey
      rcases List.mem_pair.mp inside with rfl | rfl <;> exact ⟨rfl, rfl⟩
    · exact absurd inside List.not_mem_nil

theorem sparesChecked_fileWorld (others : Set (Session × DownloadingId)) (item : Item) :
    SparesChecked fileWorld others true 0 item 5 none := by
  rw [SparesChecked, if_pos ⟨rfl, rfl⟩]
  exact fun settled => absurd settled Bool.false_ne_true

/-- Both downloads of a file are gone when the message of one is removed. -/
theorem watched_of_spares_told :
    RunKeeps watchStep Watched {} [⟨fileWorld, .trackSession 0 []⟩,
        ⟨fileWorld, .addLoading ⟨0, 1, false⟩ 5 none 100⟩,
        ⟨fileWorld, .addLoading ⟨0, 2, false⟩ 5 none 100⟩,
        ⟨fileWorld, .removed ⟨0, 1, false⟩⟩] := by
  refine (watched_of_spares _).1 ⟨fun _ => trivial, fun first taken => ?_⟩
  cases taken
  refine ⟨fun _ => ⟨?_, ?_, fun _ _ => sparesChecked_fileWorld _ _⟩, fun second taken => ?_⟩
  · exact fun download member => absurd member List.not_mem_nil
  · exact fun download member => absurd member List.not_mem_nil
  cases taken
  refine ⟨fun _ => ⟨?_, ?_, fun _ _ => sparesChecked_fileWorld _ _⟩, fun third taken => ?_⟩
  · rintro download member own
    obtain rfl := List.mem_singleton.mp member
    cases own
  · rintro download member own
    obtain rfl := List.mem_singleton.mp member
    cases own
  cases taken
  refine ⟨?_, fun _ _ => trivial⟩
  rintro - download member own other ⟨⟨inside, -⟩, different⟩ -
  rcases List.mem_pair.mp member with rfl | rfl
  · rcases List.mem_pair.mp inside with rfl | rfl
    · exact absurd rfl different
    · exact ⟨fun _ => .inl rfl, (0, 5), .first, rfl, by decide⟩
  · cases own

/-- Two messages share a document.  One of them is removed, and the other's download is not
finished when the load ends. -/
theorem not_watched_shared_removed :
    (¬∀ events : List WatchEvent, RunKeeps watchStep Watched {} events) ∧
    ((run watchStep {} [⟨pageWorld true, .trackSession 0 []⟩,
        ⟨pageWorld true, .addLoading ⟨0, 1, false⟩ 5 none 100⟩,
        ⟨pageWorld true, .addLoading ⟨0, 2, false⟩ 5 none 100⟩,
        ⟨pageWorld true, .removed ⟨0, 1, false⟩⟩]).bind fun manager =>
      (manager.documentLoadDone (pageWorld false) 0 5).map fun next =>
        (next.loadingDocuments, (next.sessionData 0).map fun data =>
          data.downloading.map fun entry => (entry.item, entry.document, entry.done))) =
      some (∅, some [(⟨0, 2, false⟩, 5, false)]) := by
  constructor
  · intro claim
    have keeps := claim [⟨pageWorld true, .trackSession 0 []⟩,
      ⟨pageWorld true, .addLoading ⟨0, 1, false⟩ 5 none 100⟩,
      ⟨pageWorld true, .addLoading ⟨0, 2, false⟩ 5 none 100⟩,
      ⟨pageWorld true, .removed ⟨0, 1, false⟩⟩]
    have watched := keeps.at_end rfl
    have inside := watched.watched (0, ⟨⟨0, 2, false⟩, 5, none, 100, letterPath 97, 0, 10, false⟩)
      (mem_downloads.mpr ⟨_, rfl, List.mem_cons_self⟩) rfl
    exact absurd inside (by decide)
  · decide

end DownloadManager

end TelegramDesktop.Downloads
