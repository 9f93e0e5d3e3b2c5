import TelegramDesktop.DataStreamValues
import TelegramDesktop.FlatMapGroups
import TelegramDesktop.SparseIdsList
import TelegramDesktop.Runs

/-!
# Download manager

The lists of files that are downloaded and being downloaded in each session, as in
`data/data_download_manager.cpp`. What messages, documents and files there are is given
to every step. An iterator is an index, and a step is left out where an assertion of the
source fails or an iterator points outside of its list.
-/

namespace TelegramDesktop.Downloads

abbrev Session := Nat

abbrev DocumentId := UInt64

abbrev PhotoId := UInt64

abbrev PeerId := UInt64

/-- Whether a document or a photo is downloaded. -/
inductive DownloadType
  | document
  | photo
  deriving DecidableEq, Repr

/-- What is downloaded. -/
structure DownloadId where
  objectId : UInt64
  type : DownloadType
  deriving DecidableEq, Repr

/-- The id of a message, with its peer. -/
structure FullMsgId where
  peer : PeerId
  msg : Int64
  deriving DecidableEq

/-- A message of a session, or an item that the manager has made. -/
structure Item where
  session : Session
  number : Nat
  isGenerated : Bool := false
  deriving DecidableEq, Repr

/-- Documents and photos are those of the session of the item. -/
structure DownloadObject where
  item : Item
  document : Option DocumentId := none
  photo : Option PhotoId := none
  deriving DecidableEq, Repr

/-- A finished download, with the object that it was resolved to. -/
structure DownloadedId where
  download : DownloadId
  started : Int64
  path : QString
  size : Nat
  itemId : FullMsgId
  peerAccessHash : UInt64
  object : Option DownloadObject := none

/-- A download that is not taken off the list yet. -/
structure DownloadingId where
  item : Item
  document : DocumentId
  photo : Option PhotoId
  started : Int64
  path : QString
  ready : Int := 0
  total : Int
  done : Bool := false

/-- How many bytes are ready, and of how many. -/
structure DownloadProgress where
  ready : Int := 0
  total : Int := 0
  deriving DecidableEq, Repr

/-- The finished downloads of a session, with how far they are resolved. -/
structure Listing where
  downloaded : List DownloadedId := []
  resolveNeeded : Nat := 0
  resolveSentRequests : Nat := 0
  resolveSentTotal : Nat := 0

/-- The downloads of a session. -/
structure SessionData extends Listing where
  downloading : List DownloadingId := []

/-- The downloads of all sessions, with the items that are indexed over them. -/
structure DownloadManager where
  sessions : FlatMap Session SessionData := ∅
  loading : Finset Item := ∅
  loadingDocuments : Finset (Session × DocumentId) := ∅
  loadingDone : Finset Item := ∅
  loaded : Finset Item := ∅
  generated : Finset Item := ∅
  loadingProgress : DownloadProgress := {}
  loadedResolveDone : Bool := false
  clearLoadingTimer : Bool := false
  /-- How many items were made. -/
  made : Nat := 0

/-- What of a web page can be downloaded. -/
structure WebPage where
  document : Option DocumentId
  photo : Option PhotoId

/-- What of a message can be downloaded. -/
structure Media where
  document : Option DocumentId := none
  photo : Option PhotoId := none
  webpage : Option WebPage := none

/-- What a step finds: the messages, their media, the documents and the files. -/
structure World where
  message : Session → FullMsgId → Option Item
  message_session : ∀ session id item, message session id = some item → item.session = session
  fullId : Item → FullMsgId
  peerAccessHash : Item → UInt64
  media : Item → Option Media
  userPeerId : Session → PeerId
  fileSize : QString → Option Nat
  fileSize_empty : ∀ path, path.isEmpty = true → fileSize path = none
  filepath : Session → DocumentId → QString
  loadingFilePath : Session → DocumentId → QString
  isLoading : Session → DocumentId → Bool
  documentSize : Session → DocumentId → Int
  loadOffset : Session → DocumentId → Int
  randomDocument : Nat → DocumentId

def maxFileSize : Nat := 4000 * (1024 * 1024)

def maxResolvePerAttempt : Nat := 100

namespace DownloadedId

/-- `ByItem` -/
def item (entry : DownloadedId) : Option Item := entry.object.map DownloadObject.item

def hasItem (item : Item) (entry : DownloadedId) : Bool := entry.item = some item

end DownloadedId

namespace DownloadingId

def hasItem (item : Item) (entry : DownloadingId) : Bool := entry.item = item

def object (entry : DownloadingId) : DownloadObject :=
  ⟨entry.item, some entry.document, entry.photo⟩

end DownloadingId

namespace World

variable (world : World)

/-- The photo of a message or of its web page. -/
def itemPhoto (item : Item) : Option PhotoId :=
  (world.media item).bind fun media =>
    match media.webpage with
    | some page => if page.document.isSome then none else page.photo
    | none => media.photo

/-- The document of a message or of its web page. -/
def itemDocument (item : Item) : Option DocumentId :=
  (world.media item).bind fun media =>
    match media.webpage with
    | some page => page.document
    | none => media.document

/-- The size of a file that is there and not too large. -/
def acceptedSize (path : QString) : Option Nat :=
  (world.fileSize path).filter fun size => 0 < size ∧ size ≤ maxFileSize

end World

def peerIsChannel (peer : PeerId) : Bool := (peer >>> 48) &&& 0xFF = 2

/-- The messages of one peer that a request will ask for. -/
structure Prepared where
  peerAccessHash : UInt64 := 0
  ids : List Int64 := []

/-- Adds a message to the request for its channel, or to that for all others. -/
def prepare (world : World) (session : Session) (entry : DownloadedId)
    (prepared : FlatMap Nat Prepared) : FlatMap Nat Prepared :=
  let peer := entry.itemId.peer
  let groupByPeer := if peerIsChannel peer then peer else world.userPeerId session
  let perPeer := (prepared.find? groupByPeer.toNat).getD {}
  let peerAccessHash :=
    if peerIsChannel peer ∧ perPeer.peerAccessHash = 0 then entry.peerAccessHash
    else perPeer.peerAccessHash
  prepared.set groupByPeer.toNat ⟨peerAccessHash, perPeer.ids ++ [entry.itemId.msg]⟩

/-- The file is missing or has changed. -/
def isDeleted (world : World) (entry : DownloadedId) : Bool :=
  world.fileSize entry.path ≠ some entry.size

/-- The message is not known, and the server may have it. -/
def isAskedFor (world : World) (session : Session) (entry : DownloadedId) : Bool :=
  (world.message session entry.itemId).isNone && IsServerMsgId entry.itemId.msg.toInt

/-- The loop of `resolve` downwards from an index. -/
def resolveLoop (world : World) (session : Session) :
    Nat → List DownloadedId → Nat → FlatMap Nat Prepared →
      Option (List DownloadedId × Nat × FlatMap Nat Prepared)
  | 0, downloaded, sentTotal, prepared => some (downloaded, sentTotal, prepared)
  | i + 1, downloaded, sentTotal, prepared =>
    match downloaded[i]? with
    | none => none
    | some entry =>
      let downloaded :=
        if isDeleted world entry then downloaded.set i { entry with path := .null }
        else downloaded
      let prepared :=
        if !isDeleted world entry && isAskedFor world session entry then
          prepare world session entry prepared
        else prepared
      if maxResolvePerAttempt ≤ sentTotal + 1 then some (downloaded, sentTotal + 1, prepared)
      else resolveLoop world session i downloaded (sentTotal + 1) prepared

namespace DownloadManager

variable (world : World) (manager : DownloadManager)

def sessionData (session : Session) : Option SessionData := manager.sessions.find? session

def setData (session : Session) (data : SessionData) : DownloadManager :=
  { manager with sessions := manager.sessions.set session data }

/-- What `remove` does apart from the list. -/
def forgetLoading (entry : DownloadingId) : DownloadManager :=
  let loading := manager.loading.erase entry.item
  let loadingDone := manager.loadingDone.erase entry.item
  { manager with
    loading := loading
    loadingDone := loadingDone
    loadingDocuments := manager.loadingDocuments.erase (entry.item.session, entry.document)
    loadingProgress :=
      ⟨manager.loadingProgress.ready - entry.ready, manager.loadingProgress.total - entry.total⟩
    clearLoadingTimer := manager.clearLoadingTimer || (loading = ∅ && loadingDone ≠ ∅) }

/-- `remove`, and `cancel` as far as the manager goes. -/
def remove (session : Session) (i : Nat) : Option DownloadManager :=
  (manager.sessionData session).bind fun data =>
    (data.downloading[i]?).map fun entry =>
      (manager.forgetLoading entry).setData session
        { data with downloading := data.downloading.eraseIdx i }

/-- Removes the last entry as long as there is one, apart from the list. -/
def forgetAllLoading (data : SessionData) : DownloadManager :=
  data.downloading.reverse.foldl forgetLoading manager


/-- The end of `addLoaded`: the file is not being downloaded any more. -/
def finishLoading (item : Item) (session : Session) (data : SessionData) : DownloadManager :=
  match data.downloading.findIdx? (DownloadingId.hasItem item) with
  | none => manager
  | some i =>
    match data.downloading[i]? with
    | none => manager
    | some entry =>
      let manager :=
        { manager with
          loadingDocuments :=
            manager.loadingDocuments.erase (session, entry.document) }
      if item ∉ manager.loading then manager
      else
        let size := world.documentSize session entry.document
        let totalChange := size - entry.total
        let readyChange := size - entry.ready
        let loading := manager.loading.erase item
        { manager with
          loading := loading
          loadingDone := insert item manager.loadingDone
          loadingProgress :=
            ⟨manager.loadingProgress.ready + readyChange,
              manager.loadingProgress.total + totalChange⟩
          clearLoadingTimer := manager.clearLoadingTimer || loading = ∅ }.setData session
          { data with
            downloading := data.downloading.set i
              { entry with
                ready := entry.ready + readyChange
                total := entry.total + totalChange
                done := true } }

/-- What an object would be downloaded as. -/
def downloadId (object : DownloadObject) : Option DownloadId :=
  match object.document, object.photo with
  | some document, _ => some ⟨document, .document⟩
  | none, some photo => some ⟨photo, .photo⟩
  | none, none => none

def addLoaded (object : DownloadObject) (path : QString) (started : Int64) :
    Option DownloadManager :=
  (downloadId object).bind fun id =>
    match world.acceptedSize path with
    | none => some manager
    | some size =>
      let item := object.item
      (manager.sessionData item.session).map fun data =>
        let data :=
          { data with
            downloaded := data.downloaded ++
              [{ download := id
                 started := started
                 path := path
                 size := size
                 itemId := world.fullId item
                 peerAccessHash := world.peerAccessHash item
                 object := some object }] }
        ({ manager with loaded := insert item manager.loaded }.setData item.session data
          ).finishLoading world item item.session data

/-- The message still has what is downloaded. -/
def matchesMedia (entry : DownloadingId) : Bool :=
  entry.photo = world.itemPhoto entry.item ∧ some entry.document = world.itemDocument entry.item

/-- `check` of an entry being downloaded -/
def checkAt (session : Session) (i : Nat) : Option DownloadManager :=
  (manager.sessionData session).bind fun data =>
    (data.downloading[i]?).bind fun entry =>
      if !matchesMedia world entry then manager.remove session i
      else
        let path := world.filepath session entry.document
        if !path.isEmpty then
          if entry.item ∈ manager.loading then
            manager.addLoaded world entry.object path entry.started
          else some manager
        else if !world.isLoading session entry.document then manager.remove session i
        else
          let totalChange := world.documentSize session entry.document - entry.total
          let readyChange := world.loadOffset session entry.document - entry.ready
          some ({ manager with
            loadingProgress :=
              ⟨manager.loadingProgress.ready + readyChange,
                manager.loadingProgress.total + totalChange⟩ }.setData session
            { data with
              downloading := data.downloading.set i
                { entry with
                  ready := entry.ready + readyChange
                  total := entry.total + totalChange } })

/-- `check` of a message -/
def check (item : Item) : Option DownloadManager :=
  (manager.sessionData item.session).bind fun data =>
    (data.downloading.findIdx? (DownloadingId.hasItem item)).bind fun i =>
      manager.checkAt world item.session i

/-- `check` of a document -/
def checkDocument (session : Session) (document : DocumentId) : Option DownloadManager :=
  (manager.sessionData session).bind fun data =>
    (data.downloading.findIdx? fun entry => entry.document = document).bind fun i =>
      manager.checkAt world session i

/-- The middle of `addLoading`: an entry for the download, if there is a file to load to. -/
def startLoading (item : Item) (document : DocumentId) (photo : Option PhotoId)
    (date : Int64) : Option (DownloadManager × Bool) :=
  (manager.sessionData item.session).map fun data =>
    let size := world.documentSize item.session document
    let path := world.loadingFilePath item.session document
    if path.isEmpty then (manager, false)
    else
      let started : DownloadManager :=
        { manager with
          loading := insert item manager.loading
          loadingDocuments := insert (item.session, document) manager.loadingDocuments
          loadingProgress :=
            ⟨manager.loadingProgress.ready, manager.loadingProgress.total + size⟩
          clearLoadingTimer := false }
      let entry : DownloadingId :=
        { item := item
          document := document
          photo := photo
          started := date
          path := path
          total := size }
      (started.setData item.session { data with downloading := data.downloading ++ [entry] },
        true)

/-- `addLoading` before its last check of the message, and whether it comes to that. -/
def enlist (item : Item) (document : DocumentId) (photo : Option PhotoId) (started : Int64) :
    Option (DownloadManager × Bool) :=
  (manager.sessionData item.session).bind fun data =>
    match data.downloading.findIdx? (DownloadingId.hasItem item) with
    | none => manager.startLoading world item document photo started
    | some i =>
      (data.downloading[i]?).bind fun already =>
        if already.document = document ∧ already.photo = photo then some (manager, true)
        else
          (manager.remove item.session i).bind fun manager =>
            manager.startLoading world item document photo started

def addLoading (item : Item) (document : DocumentId) (photo : Option PhotoId)
    (started : Int64) : Option DownloadManager :=
  (manager.enlist world item document photo started).bind fun (manager, checked) =>
    if checked then manager.check world item else some manager

def clearLoading : Option DownloadManager :=
  if manager.loading = ∅ then
    let cleared := manager.sessions.entries.foldl
      (fun manager entry => manager.forgetAllLoading entry.2)
      { manager with clearLoadingTimer := false }
    some { cleared with
      sessions := manager.sessions.mapValues fun data => { data with downloading := [] } }
  else none

/-- `generateItem` for a document or photo of the session -/
def generateItem (session : Session) : Item × DownloadManager :=
  let item : Item := ⟨session, manager.made, true⟩
  (item, { manager with generated := insert item manager.generated, made := manager.made + 1 })

/-- `regenerateItem`: the session is that of the document or the photo. -/
def regenerateItem (previous : DownloadObject) : Option (Item × DownloadManager) :=
  if previous.document.isSome ∨ previous.photo.isSome then
    some (manager.generateItem previous.item.session)
  else none

/-- `detach` with its assertions -/
def detach (session : Session) (i : Nat) : Option DownloadManager :=
  (manager.sessionData session).bind fun data =>
    (data.downloaded[i]?).bind fun entry =>
      entry.object.bind fun object =>
        if object.item ∈ manager.loaded ∧ object.item ∉ manager.generated then
          (manager.regenerateItem object).map fun (now, manager) =>
            { manager with loaded := insert now (manager.loaded.erase object.item) }.setData session
              { data with
                downloaded := data.downloaded.set i
                  { entry with object := some { object with item := now } } }
        else none

/-- The message has other media than the entry that was found for it. -/
def hasOtherMedia (item : Item) (entry : DownloadedId) : Bool :=
  match entry.object with
  | none => false
  | some object =>
    object.photo ≠ (world.media item).bind Media.photo ∨
      object.document ≠ (world.media item).bind Media.document

/-- The part of `changed` about finished downloads. -/
def changedLoaded (item : Item) : Option DownloadManager :=
  if item ∈ manager.loaded then
    (manager.sessionData item.session).bind fun data =>
      (data.downloaded.findIdx? (DownloadedId.hasItem item)).bind fun i =>
        (data.downloaded[i]?).bind fun entry =>
          if hasOtherMedia world item entry then manager.detach item.session i else some manager
  else some manager

def changed (item : Item) : Option DownloadManager :=
  (manager.changedLoaded world item).bind fun manager =>
    if item ∈ manager.loading ∨ item ∈ manager.loadingDone then manager.check world item
    else some manager

/-- The part of `removed` about finished downloads. -/
def removedLoaded (item : Item) : Option DownloadManager :=
  if item ∈ manager.loaded then
    (manager.sessionData item.session).bind fun data =>
      (data.downloaded.findIdx? (DownloadedId.hasItem item)).bind fun i =>
        manager.detach item.session i
  else some manager

def removed (item : Item) : Option DownloadManager :=
  (manager.removedLoaded item).bind fun manager =>
    if item ∈ manager.loading ∨ item ∈ manager.loadingDone then
      (manager.sessionData item.session).bind fun data =>
        (data.downloading.findIdx? (DownloadingId.hasItem item)).bind fun i =>
          manager.remove item.session i
    else some manager

def checkFullResolveDone : DownloadManager :=
  if manager.loadedResolveDone ∨ manager.sessions.entries.any fun entry =>
      decide (entry.2.resolveSentTotal < entry.2.resolveNeeded) ||
        decide (0 < entry.2.resolveSentRequests)
  then manager
  else { manager with loadedResolveDone := true }

/-- `generateEntry`: a document for the file with an item for it. -/
def generateEntry (session : Session) (entry : DownloadedId) :
    Option (DownloadedId × DownloadManager) :=
  if entry.object.isNone then
    let document := world.randomDocument manager.made
    let (item, manager) := manager.generateItem session
    some ({ entry with object := some { item := item, document := some document } },
      { manager with loaded := insert item manager.loaded })
  else none

/-- The message still has what was downloaded. -/
def isKept (entry : DownloadedId) (media : Option Media) : Bool :=
  match entry.download.type with
  | .document => media.bind Media.document = some entry.download.objectId
  | .photo => media.bind Media.photo = some entry.download.objectId

/-- A finished download gets its message, or an item that is made for it. -/
def resolveEntry (session : Session) (entry : DownloadedId) :
    Option (DownloadedId × DownloadManager) :=
  let item := world.message session entry.itemId
  let media := item.bind world.media
  if isKept entry media then
    item.map fun item =>
      ({ entry with
          object := some ⟨item, media.bind Media.document, media.bind Media.photo⟩ },
        { manager with loaded := insert item manager.loaded })
  else manager.generateEntry world session entry

/-- One round of the loop of `resolveRequestsFinished` -/
def finishOne (session : Session) : Option DownloadManager :=
  (manager.sessionData session).bind fun data =>
    if data.resolveNeeded = 0 then none
    else
      let needed := data.resolveNeeded - 1
      let left : SessionData :=
        { data with
          resolveNeeded := needed
          resolveSentTotal := data.resolveSentTotal - 1 }
      (data.downloaded[needed]?).bind fun entry =>
        if entry.path.isEmpty then
          some (manager.setData session { left with downloaded := data.downloaded.eraseIdx needed })
        else
          (manager.resolveEntry world session entry).map fun (entry, manager) =>
            manager.setData session { left with downloaded := data.downloaded.set needed entry }

/-- The loop over the downloads that are still to be resolved. -/
def finishLoop (session : Session) : Nat → DownloadManager → Option DownloadManager
  | 0, manager => some manager
  | sentTotal + 1, manager =>
    (manager.finishOne world session).bind (finishLoop session sentTotal)

def resolveRequestsFinished (session : Session) : Option DownloadManager :=
  (manager.sessionData session).bind fun data =>
    finishLoop world session data.resolveSentTotal manager

/-- The end of `resolve` and of every answer -/
def checkRequests (session : Session) : Option DownloadManager :=
  (manager.sessionData session).bind fun data =>
    if data.resolveSentRequests = 0 then manager.resolveRequestsFinished world session
    else some manager

/-- `resolve`; the iterator it starts from may be the end of the list. -/
def resolve (session : Session) : Option DownloadManager :=
  (manager.sessionData session).bind fun data =>
    if data.resolveNeeded ≤ data.resolveSentTotal ∨
        maxResolvePerAttempt ≤ data.resolveSentTotal then
      some manager.checkFullResolveDone
    else
      let start := data.resolveNeeded - data.resolveSentTotal
      if data.downloaded.length < start then none
      else
        (resolveLoop world session start data.downloaded data.resolveSentTotal ∅).bind
          fun (downloaded, sentTotal, prepared) =>
            ((manager.setData session
              { data with
                downloaded := downloaded
                resolveSentTotal := sentTotal
                resolveSentRequests := data.resolveSentRequests + prepared.size }
              ).checkRequests world session).map checkFullResolveDone

def requestFinished (session : Session) : Option DownloadManager :=
  (manager.sessionData session).bind fun data =>
    if data.resolveSentRequests = 0 then none
    else
      (manager.setData session
        { data with resolveSentRequests := data.resolveSentRequests - 1 }
        ).checkRequests world session

/-- A finished download is taken off its listing. -/
def deleteEntry (item : Item) (data : SessionData) : DownloadManager :=
  match data.downloaded.findIdx? (DownloadedId.hasItem item) with
  | none => manager
  | some k =>
    { manager with
      loaded := manager.loaded.erase item
      generated := manager.generated.erase item }.setData item.session
      { data with downloaded := data.downloaded.eraseIdx k }

/-- A running download is cancelled. -/
def cancelLoading (item : Item) (data : SessionData) : Option DownloadManager :=
  match data.downloading.findIdx? (DownloadingId.hasItem item) with
  | none => some manager
  | some j => manager.remove item.session j

/-- The finished or running download of a message is deleted. -/
def deleteFile (id : Session × FullMsgId) : Option DownloadManager :=
  match world.message id.1 id.2 with
  | none => some manager
  | some item =>
    match manager.sessionData item.session with
    | none => some manager
    | some data =>
      (manager.cancelLoading item data).bind fun manager =>
        (manager.sessionData item.session).map (manager.deleteEntry item)

def deleteFiles (manager : DownloadManager) : List (Session × FullMsgId) → Option DownloadManager
  | [] => some manager
  | id :: ids => (manager.deleteFile world id).bind fun manager => deleteFiles manager ids

/-- What the manager knows of an entry that was taken from a list. -/
def forgetEntry (entry : DownloadedId) : DownloadManager :=
  match entry.item with
  | none => manager
  | some item =>
    { manager with
      loaded := manager.loaded.erase item
      generated := manager.generated.erase item }

/-- The items of a session are forgotten. -/
def forgetSession (data : SessionData) : DownloadManager :=
  data.downloaded.foldl forgetEntry (manager.forgetAllLoading data)

/-- Of the counters nothing is said. -/
def deleteAll : DownloadManager :=
  let deleted :=
    manager.sessions.entries.foldl (fun manager entry => manager.forgetSession entry.2) manager
  { deleted with
    sessions := manager.sessions.mapValues fun data =>
      { data with downloaded := [], downloading := [] } }

def untrack (session : Session) : Option DownloadManager :=
  (manager.sessionData session).map fun data =>
    { manager.forgetSession data with sessions := manager.sessions.erase session }

end DownloadManager

/-- A finished download as it is written. -/
structure DownloadedRecord where
  objectId : UInt64
  uncheckedDownloadType : Int32
  started : Int64
  size : UInt32
  itemIdPeer : UInt64
  itemIdMsg : Int64
  peerAccessHash : UInt64
  path : QString

def DownloadType.toInt32 : DownloadType → Int32
  | .document => 0
  | .photo => 1

def DownloadType.ofInt32 (type : Int32) : Option DownloadType :=
  if type = 0 then some .document else if type = 1 then some .photo else none

section Disk

open DataStream

/-- What is written of a finished download. -/
def DownloadedId.record (entry : DownloadedId) : DownloadedRecord where
  objectId := entry.download.objectId
  uncheckedDownloadType := entry.download.type.toInt32
  started := entry.started
  size := UInt32.ofNat entry.size
  itemIdPeer := entry.itemId.peer
  itemIdMsg := entry.itemId.msg
  peerAccessHash := entry.peerAccessHash
  path := entry.path

def writeRecord (record : DownloadedRecord) : Bytes :=
  writeUInt64 record.objectId ++ writeInt32 record.uncheckedDownloadType ++
    writeInt64 record.started ++ writeUInt32 record.size ++ writeUInt64 record.itemIdPeer ++
    writeInt64 record.itemIdMsg ++ writeUInt64 record.peerAccessHash ++
    writeQString record.path

def readRecord (stream : DataStream) : DownloadedRecord × DataStream :=
  let (objectId, stream) := stream.readUInt64
  let (uncheckedDownloadType, stream) := stream.readInt32
  let (started, stream) := stream.readInt64
  let (size, stream) := stream.readUInt32
  let (itemIdPeer, stream) := stream.readUInt64
  let (itemIdMsg, stream) := stream.readInt64
  let (peerAccessHash, stream) := stream.readUInt64
  let (path, stream) := stream.readQString
  (⟨objectId, uncheckedDownloadType, started, size, itemIdPeer, itemIdMsg, peerAccessHash, path⟩,
    stream)

/-- `serializator` of a session that is tracked -/
def serializator (listing : Listing) : Bytes :=
  writeSize listing.downloaded.length ++
    listing.downloaded.flatMap fun entry => writeRecord entry.record

/-- The download of a record that can be one. -/
def DownloadedRecord.accepted? (record : DownloadedRecord) : Option DownloadedId :=
  if record.path.isEmpty ∨ record.size = 0 ∨ maxFileSize < record.size.toNat then none
  else
    (DownloadType.ofInt32 record.uncheckedDownloadType).map fun type =>
      { download := ⟨record.objectId, type⟩
        started := record.started
        path := record.path
        size := record.size.toNat
        itemId := ⟨record.itemIdPeer, record.itemIdMsg⟩
        peerAccessHash := record.peerAccessHash }

/-- The loop of `deserialize`, which gives up at the first bad entry. -/
def readEntries : Nat → DataStream → Option (List DownloadedId)
  | 0, _ => some []
  | count + 1, stream =>
    if (readRecord stream).2.ok then
      (readRecord stream).1.accepted?.bind fun entry =>
        (readEntries count (readRecord stream).2).map (entry :: ·)
    else none

def maxCount : Nat := 99999

def deserialize (serialized : Bytes) : List DownloadedId :=
  if serialized.isEmpty then []
  else
    let (count, stream) := readInt32 ⟨serialized, true⟩
    if !stream.ok ∨ count ≤ 0 ∨ (maxCount : Int) < count.toInt then []
    else (readEntries count.toInt.toNat stream).getD []

end Disk

/-- What is asked of the manager. -/
inductive Action
  | trackSession (session : Session) (serialized : Bytes)
  | addLoading (item : Item) (document : DocumentId) (photo : Option PhotoId) (started : Int64)
  | checkItem (item : Item)
  | checkDocument (session : Session) (document : DocumentId)
  | addLoaded (object : DownloadObject) (path : QString) (started : Int64)
  | clearLoading
  | resolve (session : Session)
  | requestFinished (session : Session)
  | changed (item : Item)
  | removed (item : Item)
  | deleteFiles (ids : List (Session × FullMsgId))
  | deleteAll
  | untrack (session : Session)

/-- An action, with what the manager finds around it. -/
structure Event where
  world : World
  action : Action

namespace DownloadManager

variable (manager : DownloadManager)

def trackSession (session : Session) (serialized : Bytes) : DownloadManager :=
  let downloaded := deserialize serialized
  manager.setData session
    { (manager.sessionData session).getD {} with
      downloaded := downloaded
      resolveNeeded := downloaded.length }

/-- The session is tracked. -/
def isTracked (session : Session) : Bool := (manager.sessionData session).isSome

def hasItem (item : Item) : Bool := !item.isGenerated || item.number < manager.made

/-- The messages that are found for the entries of a session are there. -/
def hasMessages (world : World) (session : Session) : Bool :=
  ((manager.sessionData session).getD {}).downloaded.all fun entry =>
    (world.message session entry.itemId).all manager.hasItem

/-- The action can happen: its items and sessions are there. -/
def isPossible (event : Event) : Bool :=
  match event.action with
  | .trackSession session _ => !manager.isTracked session
  | .addLoading item _ _ _ => manager.isTracked item.session && manager.hasItem item
  | .checkItem item => item ∈ manager.loading
  | .checkDocument session document => (session, document) ∈ manager.loadingDocuments
  | .addLoaded object _ _ =>
    manager.isTracked object.item.session && manager.hasItem object.item &&
      (object.document.isSome || object.photo.isSome)
  | .clearLoading => manager.clearLoadingTimer
  | .resolve session => manager.isTracked session && manager.hasMessages event.world session
  | .requestFinished session =>
    ((manager.sessionData session).any fun data => 0 < data.resolveSentRequests) &&
      manager.hasMessages event.world session
  | .changed item | .removed item => manager.isTracked item.session
  | .deleteFiles _ | .deleteAll => true
  | .untrack session => manager.isTracked session

/-- What the action does. -/
def perform (event : Event) : Option DownloadManager :=
  match event.action with
  | .trackSession session serialized => some (manager.trackSession session serialized)
  | .addLoading item document photo started =>
    manager.addLoading event.world item document photo started
  | .checkItem item => manager.check event.world item
  | .checkDocument session document => manager.checkDocument event.world session document
  | .addLoaded object path started => manager.addLoaded event.world object path started
  | .clearLoading => manager.clearLoading
  | .resolve session => manager.resolve event.world session
  | .requestFinished session => manager.requestFinished event.world session
  | .changed item => manager.changed event.world item
  | .removed item => manager.removed item
  | .deleteFiles ids => manager.deleteFiles event.world ids
  | .deleteAll => some manager.deleteAll
  | .untrack session => manager.untrack session

def step (event : Event) : Option DownloadManager :=
  if manager.isPossible event then manager.perform event else none

end DownloadManager

end TelegramDesktop.Downloads
