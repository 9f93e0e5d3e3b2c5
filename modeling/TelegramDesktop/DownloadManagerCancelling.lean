import TelegramDesktop.DownloadManagerWatching

/-!
# Documents that are cancelled

`cancel` of a document destroys its loader and tells the messages that show the document,
as in `data/data_document.cpp` and `data/data_session.cpp`.  They are checked before it
returns, and a check may cancel another document.
-/

namespace TelegramDesktop.Downloads

open Option

/-- What a step finds, with the messages that show a document as their file. -/
structure NotifyingWorld extends World where
  documentItems : Session → DocumentId → List Item
  documentItems_document : ∀ session document, ∀ item ∈ documentItems session document,
    item.session = session ∧ toWorld.itemDocument item = some document

/-- The world when the loaders of some documents are destroyed. -/
def NotifyingWorld.without (world : NotifyingWorld) (stopped : Finset (Session × DocumentId)) :
    World :=
  { world.toWorld with
    isLoading := fun session document =>
      world.isLoading session document && (session, document) ∉ stopped }

/-- The manager while downloads are cancelled. -/
structure Canceling where
  manager : DownloadManager
  /-- The documents whose loaders are destroyed. -/
  stopped : Finset (Session × DocumentId) := ∅

namespace DownloadManager

/-- The running download of an item. -/
def entryOf (manager : DownloadManager) (item : Item) : Option DownloadingId :=
  (manager.sessionData item.session).bind fun data =>
    data.downloading.find? (DownloadingId.hasItem item)

end DownloadManager

namespace Canceling

open DownloadManager

section

variable (world : NotifyingWorld) (cancel : Canceling → Session → DocumentId → Option Canceling)

/-- What a check does after it has removed an entry that is not that of its message. -/
def cancelMismatched (entry : DownloadingId) (state : Canceling) : Option Canceling :=
  if matchesMedia world.toWorld entry then some state
  else cancel state entry.item.session entry.document

def check (state : Canceling) (item : Item) : Option Canceling :=
  (state.manager.entryOf item).bind fun entry =>
    (state.manager.check (world.without state.stopped) item).bind fun manager =>
      cancelMismatched world cancel entry { state with manager }

def checkDocument (state : Canceling) (session : Session) (document : DocumentId) :
    Option Canceling :=
  (state.manager.firstOf session document).bind fun entry =>
    (state.manager.checkDocument (world.without state.stopped) session document).bind
      fun manager => cancelMismatched world cancel entry { state with manager }

/-- The item is checked if it is downloaded. -/
def itemLayoutChanged (state : Canceling) (item : Item) : Option Canceling :=
  if item ∈ state.manager.loading then state.check world cancel item else some state

/-- The first download of the document is checked. -/
def documentLoadProgress (state : Canceling) (session : Session) (document : DocumentId) :
    Option Canceling :=
  if (session, document) ∈ state.manager.loadingDocuments then
    state.checkDocument world cancel session document
  else some state

/-- The downloads of all its messages are checked, and then the first one once more. -/
def documentLoadDone (state : Canceling) (session : Session) (document : DocumentId) :
    Option Canceling :=
  ((world.documentItems session document).foldlM (itemLayoutChanged world cancel) state).bind
    fun state => state.documentLoadProgress world cancel session document

end

/-- `DocumentData::cancel`; the loader tells that it is done as well.  For every document that
is cancelled after the first one an unfinished download was removed. -/
def cancel (world : NotifyingWorld) :
    Nat → Canceling → Session → DocumentId → Option Canceling
  | 0, _, _, _ => none
  | fuel + 1, state, session, document =>
    if (world.without state.stopped).isLoading session document then
      (({ state with stopped := insert (session, document) state.stopped } : Canceling
        ).documentLoadDone world (cancel world fuel) session document).bind fun state =>
          state.documentLoadDone world (cancel world fuel) session document
    else some state

end Canceling

namespace DownloadManager

variable {world : World} {manager next : DownloadManager} {item : Item}
  {download other : Session × DownloadingId} {before after : DownloadManager}

/-- A download that is checked when its load has ended is not left as it is. -/
def Leaves (world : World) (download : Session × DownloadingId) : Prop :=
  matchesMedia world download.2 = true →
    (world.filepath download.1 download.2.document).isEmpty = true ∨
      (world.acceptedSize (world.filepath download.1 download.2.document)).isSome = true

theorem Accounted.mem_loading (accounted : manager.Accounted)
    (unfinished : download ∈ manager.Unfinished) : download.2.item ∈ manager.loading :=
  (accounted.loading _).mpr ⟨download, unfinished.1, rfl, unfinished.2⟩

theorem Accounted.eq_of_item (accounted : manager.Accounted) (first : download ∈ manager.downloads)
    (second : other ∈ manager.downloads) (same : download.2.item = other.2.item) :
    download = other :=
  accounted.placed.eq_of_item first second same

theorem Accounted.loading_subset (accounted : before.Accounted) (accountedAfter : after.Accounted)
    (fewer : after.Unfinished ⊆ before.Unfinished) : after.loading ⊆ before.loading := by
  intro item loading
  obtain ⟨download, member, rfl, unfinished⟩ := (accountedAfter.loading item).mp loading
  exact accounted.mem_loading (fewer ⟨member, unfinished⟩)

theorem Accounted.entryOf_eq (accounted : manager.Accounted)
    (member : download ∈ manager.downloads) :
    manager.entryOf download.2.item = some download.2 := by
  obtain ⟨data, found, inside⟩ := mem_downloads.mp member
  have own := accounted.placed.session download member
  have present : (data.downloading.find? (DownloadingId.hasItem download.2.item)).isSome = true :=
    List.find?_isSome.mpr ⟨download.2, inside, decide_eq_true rfl⟩
  obtain ⟨entry, search⟩ := isSome_iff_exists.mp present
  have listed : (download.1, entry) ∈ manager.downloads :=
    mem_downloads.mpr ⟨data, found, List.mem_of_find?_eq_some search⟩
  have holds : DownloadingId.hasItem download.2.item entry = true := List.find?_some search
  have same := accounted.eq_of_item listed member (of_decide_eq_true holds)
  unfold entryOf
  rw [own, found, bind_some, search]
  exact congrArg (fun download => some download.2) same

/-- A message that is told of a document and is up to date downloads this document. -/
theorem Accounted.watchKey_of_shown {world : NotifyingWorld} {key : Session × DocumentId}
    (accounted : manager.Accounted) (member : download ∈ manager.downloads)
    (shown : download.2.item ∈ world.documentItems key.1 key.2)
    (media : matchesMedia world.toWorld download.2 = true) : watchKey download = key := by
  obtain ⟨session, document⟩ := world.documentItems_document key.1 key.2 _ shown
  rw [accounted.placed.session download member] at session
  rw [← (of_decide_eq_true media).2] at document
  exact Prod.ext session (some.inj document)

theorem DropFacts.loading_ssubset (facts : DropFacts download before after)
    (accounted : before.Accounted)
    (accountedAfter : after.Accounted) (unfinished : download ∈ before.Unfinished) :
    after.loading ⊂ before.loading := by
  have fewer : after.Unfinished ⊆ before.Unfinished := fun _ member =>
    (facts.mem_unfinished.mp member).1
  refine (Finset.ssubset_iff_of_subset (accounted.loading_subset accountedAfter fewer)).mpr
    ⟨download.2.item, accounted.mem_loading unfinished, fun loading => ?_⟩
  obtain ⟨other, member, same, stays⟩ := (accountedAfter.loading _).mp loading
  exact (facts.mem_unfinished.mp ⟨member, stays⟩).2 same

theorem dropped_of_mismatch (media : matchesMedia world download.2 = false) :
    dropped world manager download = true := by
  unfold dropped settles
  rw [Bool.or_eq_true, Bool.not_eq_true']
  exact .inl media

/-- A check leaves everything as it is where the list takes no note of the file. -/
theorem check_stuck (accounted : manager.Accounted) (unfinished : download ∈ manager.Unfinished)
    (stays : dropped world manager download = false)
    (silent : world.isLoading download.1 download.2.document = false) :
    manager.check world download.2.item = some manager ∧ ¬Leaves world download := by
  obtain ⟨session, entry⟩ := download
  obtain ⟨data, found, inside⟩ := mem_downloads.mp unfinished.1
  have own : entry.item.session = session := accounted.placed.session _ unfinished.1
  have loading : entry.item ∈ manager.loading := accounted.mem_loading unfinished
  obtain ⟨i, first, search, present, here⟩ :=
    findIdx?_of_mem (DownloadingId.hasItem entry.item) inside (decide_eq_true rfl)
  have listed : (session, first) ∈ manager.downloads :=
    mem_downloads.mpr ⟨data, found, List.mem_of_getElem? present⟩
  obtain rfl : first = entry :=
    congrArg Prod.snd (accounted.eq_of_item listed unfinished.1 (of_decide_eq_true here))
  unfold dropped settles at stays
  dsimp only at found stays silent ⊢
  rw [silent, decide_eq_true loading, Bool.true_and, Bool.or_eq_false_iff] at stays
  obtain ⟨media, settled⟩ := stays
  have matching : matchesMedia world first = true := by
    rw [Bool.not_eq_false'] at media
    exact media
  cases path : (world.filepath session first.document).isEmpty with
  | true =>
    rw [path] at settled
    cases settled
  | false =>
    rw [path, if_neg Bool.false_ne_true, isSome_eq_false_iff, isNone_iff_eq_none] at settled
    constructor
    · unfold DownloadManager.check checkAt
      rw [own, found, bind_some, search, bind_some, bind_some, present, bind_some]
      dsimp only
      rw [matching, path, Bool.not_true, if_neg Bool.false_ne_true, Bool.not_false, if_pos rfl,
        if_pos loading]
      unfold addLoaded
      rw [settled]
      rfl
    · intro leaves
      rcases leaves matching with empty | accepted
      · rw [path] at empty
        cases empty
      · rw [settled] at accepted
        cases accepted

end DownloadManager

section

open DownloadManager

variable {world : NotifyingWorld} {keys : Set (Session × DocumentId)}
  {others : Set (Session × DownloadingId)} {before middle after state : Canceling}
  {key : Session × DocumentId} {download : Session × DownloadingId}

/-- The loader of the document is destroyed, or there is none. -/
def Silent (world : NotifyingWorld) (stopped : Finset (Session × DocumentId))
    (key : Session × DocumentId) : Prop :=
  (world.without stopped).isLoading key.1 key.2 = false

theorem silent_iff {stopped : Finset (Session × DocumentId)} :
    Silent world stopped key ↔ (world.isLoading key.1 key.2 = true → key ∈ stopped) := by
  unfold Silent NotifyingWorld.without
  cases loading : world.isLoading key.1 key.2 <;> simp [loading]

theorem Silent.mono {stopped more : Finset (Session × DocumentId)}
    (silent : Silent world stopped key)
    (subset : stopped ⊆ more) : Silent world more key :=
  silent_iff.mpr fun loading => subset (silent_iff.mp silent loading)

/-- What cancelling does: downloads are dropped and their documents are not watched any more.
Those that were not up to date have their documents cancelled, and the messages that show a
document whose loader was destroyed have been checked. -/
structure Cascades (world : NotifyingWorld) (keys : Set (Session × DocumentId))
    (before after : Canceling) : Prop where
  accounted : after.manager.Accounted
  found : after.manager.AllFound
  stopped : before.stopped ⊆ after.stopped
  old : Fewer before.manager after.manager
  fewer : after.manager.Unfinished ⊆ before.manager.Unfinished
  documents : after.manager.loadingDocuments ⊆ before.manager.loadingDocuments
  erased : ∀ key ∈ before.manager.loadingDocuments, key ∉ after.manager.loadingDocuments →
    key ∈ keys ∧ ∃ download ∈ before.manager.Unfinished, watchKey download = key ∧
      download ∉ after.manager.Unfinished
  canceled : ∀ download ∈ before.manager.Unfinished, download ∉ after.manager.Unfinished →
    matchesMedia world.toWorld download.2 = false → Silent world after.stopped (watchKey download)
  told : ∀ key ∈ after.stopped, key ∉ before.stopped →
    ∀ download ∈ after.manager.Unfinished, download.2.item ∈ world.documentItems key.1 key.2 →
      ¬Leaves world.toWorld download

namespace Cascades

theorem refl (accounted : state.manager.Accounted) (found : state.manager.AllFound) :
    Cascades world keys state state where
  accounted := accounted
  found := found
  stopped := Finset.Subset.refl _
  old := .refl _
  fewer := Set.Subset.refl _
  documents := Finset.Subset.refl _
  erased _ inside gone := absurd inside gone
  canceled _ inside gone := absurd inside gone
  told _ inside new := absurd inside new

theorem trans (first : Cascades world keys before middle)
    (second : Cascades world keys middle after) :
    Cascades world keys before after where
  accounted := second.accounted
  found := second.found
  stopped := first.stopped.trans second.stopped
  old := first.old.trans second.old
  fewer := second.fewer.trans first.fewer
  documents := second.documents.trans first.documents
  erased key inside gone := by
    by_cases between : key ∈ middle.manager.loadingDocuments
    · obtain ⟨reached, download, member, same, dropped⟩ := second.erased key between gone
      exact ⟨reached, download, first.fewer member, same, dropped⟩
    · obtain ⟨reached, download, member, same, dropped⟩ := first.erased key inside between
      exact ⟨reached, download, member, same, fun stays => dropped (second.fewer stays)⟩
  canceled download inside gone other := by
    by_cases between : download ∈ middle.manager.Unfinished
    · exact second.canceled download between gone other
    · exact (first.canceled download inside between other).mono second.stopped
  told key inside new download member shown := by
    by_cases between : key ∈ middle.stopped
    · exact first.told key between new download (second.fewer member) shown
    · exact second.told key inside between download member shown

/-- A download is dropped first, and its document is cancelled if it was not up to date. -/
theorem of_drop {manager : DownloadManager} (accounted : before.manager.Accounted)
    (facts : DropFacts download before.manager manager)
    (unfinished : download ∈ before.manager.Unfinished) (reached : watchKey download ∈ keys)
    (rest : Cascades world keys { before with manager } after)
    (silent : matchesMedia world.toWorld download.2 = false →
      Silent world after.stopped (watchKey download)) : Cascades world keys before after := by
  have gone : download ∉ after.manager.Unfinished := fun stays =>
    (facts.mem_unfinished.mp (rest.fewer stays)).2 rfl
  have sole {other : Session × DownloadingId} (member : other ∈ before.manager.Unfinished)
      (dropped : other ∉ manager.Unfinished) : other = download := by
    refine accounted.eq_of_item member.1 unfinished.1 ?_
    by_contra different
    exact dropped (facts.mem_unfinished.mpr ⟨member, different⟩)
  refine ⟨rest.accounted, rest.found, rest.stopped, facts.fewer.trans rest.old,
    fun other stays => (facts.mem_unfinished.mp (rest.fewer stays)).1, ?_, ?_, ?_, rest.told⟩
  · refine rest.documents.trans ?_
    change manager.loadingDocuments ⊆ _
    rw [facts.documents]
    exact Finset.erase_subset _ _
  · intro key inside lost
    by_cases same : watchKey download = key
    · exact ⟨same ▸ reached, download, unfinished, same, gone⟩
    · have still : key ∈ manager.loadingDocuments := by
        rw [facts.documents]
        exact Finset.mem_erase.mpr ⟨fun equal => same equal.symm, inside⟩
      obtain ⟨cause, other, member, isKey, dropped⟩ := rest.erased key still lost
      exact ⟨cause, other, (facts.mem_unfinished.mp member).1, isKey, dropped⟩
  · intro other member lost different
    by_cases between : other ∈ manager.Unfinished
    · exact rest.canceled other between lost different
    · obtain rfl := sole member between
      exact silent different

end Cascades

/-- What `cancel` of one of the documents does, where there are fewer unfinished downloads
than `bound`. -/
def Cancels (world : NotifyingWorld) (keys : Set (Session × DocumentId))
    (others : Set (Session × DownloadingId)) (bound : Nat)
    (cancel : Canceling → Session → DocumentId → Option Canceling) : Prop :=
  ∀ state session document, state.manager.Accounted → state.manager.AllFound →
    state.manager.Unfinished ⊆ others → (session, document) ∈ keys →
    (session, document) ∉ state.manager.loadingDocuments →
    state.manager.loading.card < bound →
      ∃ next, cancel state session document = some next ∧ Cascades world keys state next ∧
        Silent world next.stopped (session, document)

variable {bound : Nat} {cancel : Canceling → Session → DocumentId → Option Canceling} {item : Item}

/-- A message with the document is told. -/
theorem itemLayoutChanged_spec (state : Canceling)
    (cancels : Cancels world keys others bound cancel)
    (accounted : state.manager.Accounted) (found : state.manager.AllFound)
    (among : state.manager.Unfinished ⊆ others) (reached : key ∈ keys)
    (goesOn : ∀ download ∈ others, download.2.item ∈ world.documentItems key.1 key.2 →
      matchesMedia world.toWorld download.2 = false → watchKey download ∈ keys)
    (silent : Silent world state.stopped key) (small : state.manager.loading.card ≤ bound)
    (shown : item ∈ world.documentItems key.1 key.2) :
    ∃ next, Canceling.itemLayoutChanged world cancel state item = some next ∧
      Cascades world keys state next ∧
      ∀ download ∈ next.manager.Unfinished, download.2.item = item →
        ¬Leaves world.toWorld download := by
  unfold Canceling.itemLayoutChanged
  split
  next loading =>
    obtain ⟨download, member, rfl, unfinished⟩ := (accounted.loading item).mp loading
    have there : download ∈ state.manager.Unfinished := ⟨member, unfinished⟩
    obtain ⟨manager, isChecked⟩ :=
      accounted.check_succeeds (world.without state.stopped) loading
    obtain ⟨same, own, checked⟩ := check_checked accounted isChecked
    obtain rfl := accounted.eq_of_item checked.member member own
    have between := accounted.check isChecked
    unfold Canceling.check
    rw [accounted.entryOf_eq member, bind_some, isChecked, bind_some]
    unfold Canceling.cancelMismatched
    cases media : matchesMedia world.toWorld same.2 with
    | false =>
      have facts := checked.drops (dropped_of_mismatch media)
      have apart : watchKey same ∉ manager.loadingDocuments := by
        rw [facts.documents]
        exact Finset.notMem_erase _ _
      have session : same.2.item.session = same.1 := accounted.placed.session same member
      have cause := goesOn same (among there) shown media
      obtain ⟨next, canceled, cascades, quiet⟩ := cancels { state with manager }
        same.1 same.2.document between (facts.allFound accounted member found)
        (fun other stays => among (facts.mem_unfinished.mp stays).1) cause apart
        ((Finset.card_lt_card (facts.loading_ssubset accounted between there)).trans_le small)
      refine ⟨next, ?_, .of_drop accounted facts there cause cascades fun _ => quiet,
        fun other stays equal => ?_⟩
      · rw [if_neg Bool.false_ne_true, session]
        exact canceled
      · exact absurd equal (facts.mem_unfinished.mp (cascades.fewer stays)).2
    | true =>
      rw [if_pos rfl]
      have isKey := accounted.watchKey_of_shown member shown media
      cases drop : dropped (world.without state.stopped) state.manager same with
      | true =>
        have facts := checked.drops drop
        refine ⟨_, rfl, .of_drop accounted facts there (isKey ▸ reached)
          (.refl between (facts.allFound accounted member found)) fun other => ?_,
          fun other stays equal => absurd equal (facts.mem_unfinished.mp stays).2⟩
        rw [media] at other
        cases other
      | false =>
        rw [← isKey] at silent
        obtain ⟨stuck, stays⟩ := check_stuck accounted there drop silent
        cases isChecked.symm.trans stuck
        refine ⟨_, rfl, .refl accounted found, fun other inside equal => ?_⟩
        rw [accounted.eq_of_item inside.1 member equal]
        exact stays
  next absent =>
    refine ⟨state, rfl, .refl accounted found, fun download member same => ?_⟩
    exact absurd (same ▸ accounted.mem_loading member) absent

theorem itemsChanged_spec (state : Canceling)
    (cancels : Cancels world keys others bound cancel)
    (accounted : state.manager.Accounted) (found : state.manager.AllFound)
    (among : state.manager.Unfinished ⊆ others) (reached : key ∈ keys)
    (goesOn : ∀ download ∈ others, download.2.item ∈ world.documentItems key.1 key.2 →
      matchesMedia world.toWorld download.2 = false → watchKey download ∈ keys)
    (silent : Silent world state.stopped key) (small : state.manager.loading.card ≤ bound)
    {items : List Item} (shown : items ⊆ world.documentItems key.1 key.2) :
    ∃ next, items.foldlM (Canceling.itemLayoutChanged world cancel) state = some next ∧
      Cascades world keys state next ∧
      ∀ download ∈ next.manager.Unfinished, download.2.item ∈ items →
        ¬Leaves world.toWorld download := by
  induction items generalizing state with
  | nil =>
    exact ⟨state, rfl, .refl accounted found, fun _ _ inside => absurd inside List.not_mem_nil⟩
  | cons item items ih =>
    obtain ⟨here, rest⟩ := List.cons_subset.mp shown
    obtain ⟨middle, first, cascades, own⟩ :=
      itemLayoutChanged_spec state cancels accounted found among reached goesOn silent small here
    have fewer := accounted.loading_subset cascades.accounted cascades.fewer
    obtain ⟨next, last, more, told⟩ := ih middle cascades.accounted cascades.found
      (cascades.fewer.trans among) (silent.mono cascades.stopped)
      ((Finset.card_le_card fewer).trans small) rest
    refine ⟨next, ?_, cascades.trans more, fun download stays inside => ?_⟩
    · rw [List.foldlM_cons, first]
      exact last
    · rcases List.mem_cons.mp inside with same | inside
      · exact own download (more.fewer stays) same
      · exact told download stays inside

/-- A document that is not watched: only its messages are told. -/
theorem documentLoadDone_spec (state : Canceling)
    (cancels : Cancels world keys others bound cancel)
    (accounted : state.manager.Accounted) (found : state.manager.AllFound)
    (among : state.manager.Unfinished ⊆ others) (reached : key ∈ keys)
    (goesOn : ∀ download ∈ others, download.2.item ∈ world.documentItems key.1 key.2 →
      matchesMedia world.toWorld download.2 = false → watchKey download ∈ keys)
    (silent : Silent world state.stopped key) (small : state.manager.loading.card ≤ bound)
    (apart : key ∉ state.manager.loadingDocuments) :
    ∃ next, state.documentLoadDone world cancel key.1 key.2 = some next ∧
      Cascades world keys state next ∧
      ∀ download ∈ next.manager.Unfinished, download.2.item ∈ world.documentItems key.1 key.2 →
        ¬Leaves world.toWorld download := by
  obtain ⟨next, all, cascades, told⟩ :=
    itemsChanged_spec state cancels accounted found among reached
    goesOn silent small (List.Subset.refl _)
  refine ⟨next, ?_, cascades, told⟩
  unfold Canceling.documentLoadDone
  rw [all, bind_some]
  exact if_neg fun watched => apart (cascades.documents watched)

/-- `cancel` of a document cancels all that has to be cancelled with it. -/
theorem cancel_spec (world : NotifyingWorld) (keys : Set (Session × DocumentId))
    (others : Set (Session × DownloadingId))
    (goesOn : ∀ key ∈ keys, world.isLoading key.1 key.2 = true → ∀ download ∈ others,
      download.2.item ∈ world.documentItems key.1 key.2 →
        matchesMedia world.toWorld download.2 = false → watchKey download ∈ keys) (fuel : Nat) :
    Cancels world keys others fuel (Canceling.cancel world fuel) := by
  induction fuel with
  | zero => exact fun _ _ _ _ _ _ _ _ small => absurd small (Nat.not_lt_zero _)
  | succ fuel ih =>
    intro state session document accounted found among reached apart small
    have bounded := Nat.le_of_lt_succ small
    unfold Canceling.cancel
    split
    next loading =>
      have isLoading : world.isLoading session document = true :=
        (Bool.and_eq_true_iff.mp loading).1
      have here := goesOn _ reached isLoading
      let started : Canceling := { state with stopped := insert (session, document) state.stopped }
      have silent : Silent world started.stopped (session, document) :=
        silent_iff.mpr fun _ => Finset.mem_insert_self _ _
      obtain ⟨middle, first, cascades, told⟩ := documentLoadDone_spec started ih
        accounted found among reached here silent bounded apart
      have fewer := accounted.loading_subset cascades.accounted cascades.fewer
      obtain ⟨next, second, more, -⟩ := documentLoadDone_spec middle ih
        cascades.accounted cascades.found (cascades.fewer.trans among) reached here
        (silent.mono cascades.stopped) ((Finset.card_le_card fewer).trans bounded)
        fun watched => apart (cascades.documents watched)
      have all := cascades.trans more
      have grown : state.stopped ⊆ started.stopped := Finset.subset_insert _ _
      refine ⟨next, ?_, ⟨all.accounted, all.found, grown.trans all.stopped, all.old, all.fewer,
        all.documents, all.erased, all.canceled, fun key inside new download stays shown => ?_⟩,
        silent.mono all.stopped⟩
      · change (started.documentLoadDone world _ session document).bind _ = _
        rw [first]
        exact second
      · by_cases same : key = (session, document)
        · rw [same] at shown
          exact told download (more.fewer stays) shown
        · refine all.told key inside (fun before => ?_) download stays shown
          exact (Finset.mem_insert.mp before).elim same new
    next silent =>
      exact ⟨state, rfl, .refl accounted found, Bool.eq_false_of_not_eq_true silent⟩

/-- The documents that are cancelled together with a first one: where a message is told of
one of them and its download is not up to date, the document of the download is another. -/
inductive Cancelled (world : NotifyingWorld) (others : Set (Session × DownloadingId))
    (first : Session × DocumentId) : Session × DocumentId → Prop
  | first : Cancelled world others first first
  | mismatched {key : Session × DocumentId} {download : Session × DownloadingId}
      (earlier : Cancelled world others first key) (loading : world.isLoading key.1 key.2 = true)
      (member : download ∈ others) (shown : download.2.item ∈ world.documentItems key.1 key.2)
      (media : matchesMedia world.toWorld download.2 = false) :
      Cancelled world others first (watchKey download)

/-- The messages of all unfinished downloads of the documents that are cancelled are told of
it, and a check of them has an effect. -/
def SparesCanceled (world : NotifyingWorld) (others : Set (Session × DownloadingId))
    (first : Session × DocumentId) : Prop :=
  ∀ other ∈ others, Cancelled world others first (watchKey other) →
    Leaves world.toWorld other ∧ ∃ key, Cancelled world others first key ∧
      world.isLoading key.1 key.2 = true ∧ other.2.item ∈ world.documentItems key.1 key.2

variable {manager : DownloadManager} {fuel : Nat}

/-- All of those documents have been cancelled in the end. -/
theorem silent_of_cancelled {next : Canceling}
    (cascades : Cascades world keys { manager } next)
    (silent : Silent world next.stopped key) {reached : Session × DocumentId}
    (cancelled : Cancelled world manager.Unfinished key reached) :
    Silent world next.stopped reached := by
  induction cancelled with
  | first => exact silent
  | @mismatched earlier download _ loading member shown media ih =>
    refine cascades.canceled download member (fun stays => ?_) media
    refine cascades.told earlier (silent_iff.mp ih loading) (Finset.notMem_empty _) download stays
      shown fun matching => ?_
    rw [media] at matching
    cases matching

theorem cancel_found (world : NotifyingWorld) (accounted : manager.Accounted)
    (found : manager.AllFound)
    (apart : key ∉ manager.loadingDocuments) (small : manager.loading.card < fuel) :
    ∃ next, Canceling.cancel world fuel { manager } key.1 key.2 = some next ∧
      next.manager.Accounted ∧ next.manager.AllFound := by
  obtain ⟨next, done, cascades, -⟩ := cancel_spec world Set.univ Set.univ
    (fun _ _ _ _ _ _ _ => trivial) fuel { manager } key.1 key.2 accounted found
    (Set.subset_univ _) trivial apart small
  exact ⟨next, done, cascades.accounted, cascades.found⟩

/-- Cancelling a document that is not watched leaves all downloads watched if it spares those
of the documents that are cancelled. -/
theorem cancel_watched (accounted : manager.Accounted) (found : manager.AllFound)
    (watched : ∀ download ∈ manager.Unfinished,
      watchKey download = key ∨ watchKey download ∈ manager.loadingDocuments)
    (apart : key ∉ manager.loadingDocuments) (small : manager.loading.card < fuel)
    (spares : SparesCanceled world manager.Unfinished key) {next : Canceling}
    (done : Canceling.cancel world fuel { manager } key.1 key.2 = some next) :
    next.manager.AllWatched := by
  obtain ⟨same, isSame, cascades, silent⟩ := cancel_spec world
    {reached | Cancelled world manager.Unfinished key reached} manager.Unfinished
    (fun _ earlier loading _ member shown media =>
      .mismatched earlier loading member shown media)
    fuel { manager } key.1 key.2 accounted found (Set.Subset.refl _) .first apart small
  cases isSame.symm.trans done
  intro download member unfinished
  have stays : download ∈ next.manager.Unfinished := ⟨member, unfinished⟩
  have before := cascades.fewer stays
  by_contra unwatched
  have cancelled : Cancelled world manager.Unfinished key (watchKey download) := by
    rcases watched download before with isKey | inside
    · rw [isKey]
      exact .first
    · exact (cascades.erased _ inside unwatched).1
  obtain ⟨leaves, told, reached, loading, shown⟩ := spares download before cancelled
  have stopped := silent_iff.mp (silent_of_cancelled cascades silent reached) loading
  exact cascades.told told stopped (Finset.notMem_empty _) download stays shown leaves

end

end TelegramDesktop.Downloads
