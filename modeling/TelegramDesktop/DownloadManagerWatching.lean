import TelegramDesktop.DownloadManagerConsistency
import TelegramDesktop.DownloadManagerProgressRuns

/-!
# Documents that are watched

A document is watched as long as it is being downloaded, and what it tells is passed on
to one of its downloads.  Downloads are those of messages, and two messages may share a
document: the one that leaves first takes it from what is watched for both.
-/

namespace TelegramDesktop.Downloads

open Multiset Option

namespace DownloadManager

variable {world : World} {manager next : DownloadManager} {session : Session} {item : Item}
  {download : Session × DownloadingId} {before after : DownloadManager}

/-- What is watched of a download. -/
def watchKey (download : Session × DownloadingId) : Session × DocumentId :=
  (download.1, download.2.document)

/-- The document of every unfinished download is watched. -/
def AllWatched (manager : DownloadManager) : Prop :=
  ∀ download ∈ manager.downloads, download.2.done = false →
    watchKey download ∈ manager.loadingDocuments

/-- Every document that is watched has a download in its session. -/
def AllFound (manager : DownloadManager) : Prop :=
  ∀ key ∈ manager.loadingDocuments, ∃ download ∈ manager.downloads, watchKey download = key

/-- The watched documents are exactly those of the unfinished downloads. -/
structure Watched (manager : DownloadManager) : Prop where
  watched : manager.AllWatched
  found : manager.AllFound

/-- The downloads that are not done. -/
def Unfinished (manager : DownloadManager) : Set (Session × DownloadingId) :=
  fun download => download ∈ manager.downloads ∧ download.2.done = false

/-- The unfinished downloads of other messages. -/
def others (manager : DownloadManager) (item : Item) : Set (Session × DownloadingId) :=
  fun download => download ∈ manager.Unfinished ∧ download.2.item ≠ item

/-- One of the downloads has the document. -/
def Shared (others : Set (Session × DownloadingId)) (key : Session × DocumentId) : Prop :=
  ∃ other ∈ others, watchKey other = key

/-- One download is taken out, and its document is no longer watched. -/
structure DropFacts (download : Session × DownloadingId) (before after : DownloadManager) : Prop
    where
  documents : after.loadingDocuments = before.loadingDocuments.erase (watchKey download)
  unfinished : ∀ other, other ∈ after.downloads ∧ other.2.done = false ↔
    other ∈ before.downloads ∧ other.2.done = false ∧ other.2.item ≠ download.2.item
  others : ∀ other ∈ before.downloads, other.2.item ≠ download.2.item → other ∈ after.downloads
  old : ∀ other ∈ after.downloads, ∃ old ∈ before.downloads,
    old.2.item = other.2.item ∧ watchKey old = watchKey other

theorem unfinished_of_cons {rest : Multiset (Session × DownloadingId)}
    (placed : Placed (download ::ₘ rest)) (other : Session × DownloadingId) :
    other ∈ rest ∧ other.2.done = false ↔
      other ∈ download ::ₘ rest ∧ other.2.done = false ∧ other.2.item ≠ download.2.item := by
  rw [mem_cons]
  constructor
  · rintro ⟨member, unfinished⟩
    exact ⟨.inr member, unfinished, placed.apart member⟩
  · rintro ⟨rfl | member, unfinished, different⟩
    · exact absurd rfl different
    · exact ⟨member, unfinished⟩

theorem Drops.facts (accounted : before.Accounted) (drops : Drops download before after) :
    DropFacts download before after := by
  have placed := accounted.placed
  cases drops with
  | @forget rest was now known =>
    rw [was] at placed
    have own := placed.session download (mem_cons_self _ _)
    refine ⟨?_, fun other => ?_, fun other member different => ?_, fun other member => ?_⟩
    · rw [known.loadingDocuments, ← show (download.2.item.session, download.2.document) =
        watchKey download by rw [own, watchKey]]
      rfl
    · rw [now, was]
      exact unfinished_of_cons placed other
    · rw [was] at member
      rw [now]
      exact (mem_cons.mp member).resolve_left fun same => different (by rw [same])
    · rw [now] at member
      rw [was]
      exact ⟨other, mem_cons_of_mem member, rfl, rfl⟩
  | @finish rest ready total was loading now known =>
    rw [was] at placed
    refine ⟨known.loadingDocuments, fun other => ?_, fun other member different => ?_,
      fun other member => ?_⟩
    · rw [now, was, ← unfinished_of_cons placed]
      rw [mem_cons]
      constructor
      · rintro ⟨rfl | member, unfinished⟩
        · cases unfinished
        · exact ⟨member, unfinished⟩
      · rintro ⟨member, unfinished⟩
        exact ⟨.inr member, unfinished⟩
    · rw [was] at member
      rw [now]
      exact mem_cons_of_mem ((mem_cons.mp member).resolve_left fun same => different (by rw [same]))
    · rw [now] at member
      rw [was]
      rcases mem_cons.mp member with rfl | inside
      · exact ⟨download, mem_cons_self _ _, rfl, rfl⟩
      · exact ⟨other, mem_cons_of_mem inside, rfl, rfl⟩
  | unwatch was loading now known =>
    refine ⟨known.loadingDocuments, fun other => ?_, fun other member _ => ?_,
      fun other member => ?_⟩
    · rw [now]
      refine and_congr_right fun member => ⟨fun unfinished => ⟨unfinished, fun same => ?_⟩,
        And.left⟩
      -- its message would be in `loading`
      exact loading ((accounted.loading _).mpr ⟨other, member, same, unfinished⟩)
    · rw [now]
      exact member
    · rw [now] at member
      exact ⟨other, member, rfl, rfl⟩

/-- Downloads change in their progress only. -/
structure KeepFacts (before after : DownloadManager) : Prop where
  documents : after.loadingDocuments = before.loadingDocuments
  old : ∀ other ∈ after.downloads, ∃ old ∈ before.downloads, old.2.item = other.2.item ∧
    watchKey old = watchKey other ∧ old.2.done = other.2.done
  new : ∀ old ∈ before.downloads, ∃ other ∈ after.downloads, old.2.item = other.2.item ∧
    watchKey old = watchKey other ∧ old.2.done = other.2.done

theorem Keeps.facts (keeps : Keeps before after) : KeepFacts before after := by
  cases keeps with
  | same now known =>
    refine ⟨known.loadingDocuments, fun other member => ?_, fun old member => ?_⟩
    · rw [now] at member
      exact ⟨other, member, rfl, rfl, rfl⟩
    · rw [now]
      exact ⟨old, member, rfl, rfl, rfl⟩
  | @advance download rest ready total was now known =>
    refine ⟨known.loadingDocuments, fun other member => ?_, fun old member => ?_⟩
    · rw [now] at member
      rw [was]
      rcases mem_cons.mp member with rfl | inside
      · exact ⟨download, mem_cons_self _ _, rfl, rfl, rfl⟩
      · exact ⟨other, mem_cons_of_mem inside, rfl, rfl, rfl⟩
    · rw [was] at member
      rw [now]
      rcases mem_cons.mp member with rfl | inside
      · exact ⟨_, mem_cons_self _ _, rfl, rfl, rfl⟩
      · exact ⟨old, mem_cons_of_mem inside, rfl, rfl, rfl⟩

section

variable (facts : DropFacts download before after)
include facts

theorem DropFacts.allFound (accounted : before.Accounted) (member : download ∈ before.downloads)
    (found : before.AllFound) : after.AllFound := by
  intro key inside
  rw [facts.documents, Finset.mem_erase] at inside
  obtain ⟨other, there, rfl⟩ := found key inside.2
  refine ⟨other, facts.others other there fun same => ?_, rfl⟩
  exact inside.1 (by rw [accounted.placed.eq_of_item there member same])

theorem DropFacts.mem_unfinished {other : Session × DownloadingId} :
    other ∈ after.Unfinished ↔ other ∈ before.Unfinished ∧ other.2.item ≠ download.2.item :=
  (facts.unfinished other).trans and_assoc.symm

/-- All the others stay watched but those that share the document. -/
theorem DropFacts.watched_or (watched : before.AllWatched) :
    ∀ other ∈ after.Unfinished,
      watchKey other = watchKey download ∨ watchKey other ∈ after.loadingDocuments := by
  intro other member
  have inside := (facts.mem_unfinished.mp member).1
  rw [facts.documents, Finset.mem_erase]
  by_cases same : watchKey other = watchKey download
  · exact .inl same
  · exact .inr ⟨same, watched other inside.1 inside.2⟩

theorem DropFacts.allWatched (watched : before.AllWatched)
    (alone : ¬Shared (before.others download.2.item) (watchKey download)) : after.AllWatched := by
  intro other member unfinished
  have stays : other ∈ after.Unfinished := ⟨member, unfinished⟩
  refine (facts.watched_or watched other stays).resolve_left fun same => alone ?_
  exact ⟨other, facts.mem_unfinished.mp stays, same⟩

end

theorem KeepFacts.allFound (facts : KeepFacts before after) (found : before.AllFound) :
    after.AllFound := by
  intro key inside
  rw [facts.documents] at inside
  obtain ⟨old, there, rfl⟩ := found key inside
  obtain ⟨other, now, -, same, -⟩ := facts.new old there
  exact ⟨other, now, same.symm⟩

theorem KeepFacts.allWatched (facts : KeepFacts before after) (all : before.AllWatched) :
    after.AllWatched := by
  intro other member unfinished
  obtain ⟨old, there, -, same, done⟩ := facts.old other member
  rw [facts.documents]
  exact same ▸ all old there (done ▸ unfinished)

/-- What `check` of a download does to what is watched -/
structure Checked (world : World) (download : Session × DownloadingId)
    (before after : DownloadManager) : Prop where
  member : download ∈ before.downloads
  drops : dropped world before download = true → DropFacts download before after
  keeps : dropped world before download = false → KeepFacts before after

theorem checkAt_checked (accounted : manager.Accounted) {data : SessionData} {i : Nat}
    {entry : DownloadingId} (found : manager.sessionData session = some data)
    (present : data.downloading[i]? = some entry)
    (checked : manager.checkAt world session i = some next) :
    Checked world (session, entry) manager next := by
  have cases := checkAt_cases accounted.placed found present checked
  refine ⟨mem_downloads.mpr ⟨data, found, List.mem_of_getElem? present⟩, fun drop => ?_,
    fun keep => ?_⟩
  · rw [if_pos drop] at cases
    exact cases.facts accounted
  · rw [if_neg (by rw [keep]; exact Bool.false_ne_true)] at cases
    exact cases.facts

theorem check_checked (accounted : manager.Accounted)
    (checked : manager.check world item = some next) :
    ∃ download, download.2.item = item ∧ Checked world download manager next := by
  obtain ⟨data, found, taken⟩ := bind_eq_some_iff.mp checked
  obtain ⟨i, search, last⟩ := bind_eq_some_iff.mp taken
  obtain ⟨entry, present, own⟩ := findIdx?_hasItem search
  exact ⟨(item.session, entry), own, checkAt_checked accounted found present last⟩

theorem Accounted.check_succeeds (accounted : manager.Accounted) (world : World)
    (loading : item ∈ manager.loading) : ∃ next, manager.check world item = some next := by
  obtain ⟨download, member, rfl, -⟩ := (accounted.loading item).mp loading
  obtain ⟨data, found, inside⟩ := mem_downloads.mp member
  have own := accounted.placed.session download member
  obtain ⟨i, entry, search, present, here⟩ :=
    findIdx?_of_mem (DownloadingId.hasItem download.2.item) inside (decide_eq_true rfl)
  unfold DownloadManager.check
  rw [own, found, bind_some, search, bind_some]
  exact checkAt_succeeds world found present ((of_decide_eq_true here : entry.item = _) ▸ own)

/-- `check` of a document that is watched finds a download of it. -/
theorem AllFound.checkDocument_succeeds (found : manager.AllFound) (accounted : manager.Accounted)
    (world : World) {key : Session × DocumentId}
    (watched : key ∈ manager.loadingDocuments) :
    ∃ next, manager.checkDocument world key.1 key.2 = some next := by
  obtain ⟨download, member, rfl⟩ := found key watched
  obtain ⟨data, listed, inside⟩ := mem_downloads.mp member
  obtain ⟨i, entry, search, present, -⟩ := findIdx?_of_mem
    (fun entry : DownloadingId => decide (entry.document = download.2.document)) inside
    (decide_eq_true rfl)
  have own := accounted.placed.session (download.1, entry)
    (mem_downloads.mpr ⟨data, listed, List.mem_of_getElem? present⟩)
  unfold checkDocument watchKey
  rw [listed, bind_some, search, bind_some]
  exact checkAt_succeeds world listed present own

/-- The first download of a document in the list of its session -/
def firstOf (manager : DownloadManager) (session : Session) (document : DocumentId) :
    Option DownloadingId :=
  (manager.sessionData session).bind fun data =>
    data.downloading.find? fun entry => entry.document = document

theorem checkDocument_checked {document : DocumentId} (accounted : manager.Accounted)
    (checked : manager.checkDocument world session document = some next) :
    ∃ entry, manager.firstOf session document = some entry ∧
      Checked world (session, entry) manager next := by
  obtain ⟨data, found, taken⟩ := bind_eq_some_iff.mp checked
  obtain ⟨i, search, last⟩ := bind_eq_some_iff.mp taken
  obtain ⟨inside, -⟩ := List.findIdx?_eq_some_iff_getElem.mp search
  have present := List.getElem?_eq_getElem inside
  refine ⟨_, ?_, checkAt_checked accounted found present last⟩
  unfold firstOf
  rw [found, bind_some, List.find?_eq_bind_findIdx?_getElem?, search]
  exact present

/-- No download is new, and none that was finished goes on. -/
def Fewer (before after : DownloadManager) : Prop :=
  ∀ download ∈ after.downloads, ∃ old ∈ before.downloads, old.2.item = download.2.item ∧
    watchKey old = watchKey download ∧ (download.2.done = false → old.2.done = false)

theorem Fewer.refl (manager : DownloadManager) : Fewer manager manager :=
  fun download member => ⟨download, member, rfl, rfl, id⟩

theorem Fewer.trans (first : Fewer before middle)
    (second : Fewer middle after) : Fewer before after := by
  intro download member
  obtain ⟨between, there, item, key, done⟩ := second download member
  obtain ⟨old, inside, item', key', done'⟩ := first between there
  exact ⟨old, inside, item'.trans item, key'.trans key, fun unfinished => done' (done unfinished)⟩

theorem DropFacts.fewer (facts : DropFacts download before after) : Fewer before after := by
  intro other member
  cases done : other.2.done with
  | false =>
    obtain ⟨there, still, -⟩ := (facts.unfinished other).mp ⟨member, done⟩
    exact ⟨other, there, rfl, rfl, fun _ => still⟩
  | true =>
    obtain ⟨old, there, item, key⟩ := facts.old other member
    exact ⟨old, there, item, key, fun unfinished => absurd unfinished Bool.true_eq_false.mp⟩

theorem KeepFacts.fewer (facts : KeepFacts before after) : Fewer before after := by
  intro other member
  obtain ⟨old, there, item, key, done⟩ := facts.old other member
  exact ⟨old, there, item, key, fun unfinished => done.trans unfinished⟩

theorem Checked.fewer (checked : Checked world download before after) : Fewer before after := by
  cases drop : dropped world before download with
  | true => exact (checked.drops drop).fewer
  | false => exact (checked.keeps drop).fewer

end DownloadManager

end TelegramDesktop.Downloads
