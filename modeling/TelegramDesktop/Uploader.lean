import Mathlib.Data.Prod.Lex
import TelegramDesktop.DownloadManager

/-!
# Uploads

The files that are queued for uploading are sent part by part, one file at a time, over
several sessions.
-/

namespace TelegramDesktop.Uploads

open Downloads (FullMsgId)

def order (id : FullMsgId) : Nat ×ₗ Int := toLex (id.peer.toNat, id.msg.toInt)

theorem order_injective : Function.Injective order := by
  intro first second same
  obtain ⟨peer, msg⟩ := Prod.mk.inj (toLex.injective same)
  cases first
  cases second
  rw [UInt64.toNat_inj] at peer
  rw [Int64.toInt_inj] at msg
  cases peer
  cases msg
  rfl

instance : LinearOrder FullMsgId := LinearOrder.lift' order order_injective

/-- `operator bool` of a message id -/
def isSet (id : FullMsgId) : Bool := id.msg != 0

def noMsgId : FullMsgId := ⟨0, 0⟩

abbrev FileId := UInt64

/-- The ids that the requests get from the API. -/
abbrev RequestId := Nat

/-- A path or a name, in UTF-16 units -/
abbrev Path := List UInt16

/-- What a file is sent as. -/
inductive SendMediaType
  | photo
  | audio
  | file
  | themeFile
  | secure
  deriving DecidableEq, Repr

def SendMediaType.isDocument : SendMediaType → Bool
  | .file | .themeFile | .audio => true
  | .photo | .secure => false

abbrev uploadSessionsCount : Nat := 2

abbrev Dc := Fin uploadSessionsCount

def maxUploadFileParallelSize : Nat := uploadSessionsCount * 512 * 1024

def documentMaxPartsCountDefault : Int := 4000

def documentUploadPartSize0 : Nat := 32 * 1024
def documentUploadPartSize1 : Nat := 64 * 1024
def documentUploadPartSize2 : Nat := 128 * 1024
def documentUploadPartSize3 : Nat := 256 * 1024
def documentUploadPartSize4 : Nat := 512 * 1024

def useBigFilesFrom : Int := 10 * 1024 * 1024

def photoUploadPartSize : Nat := 32 * 1024

/-- `QByteArray::mid` -/
def mid (bytes : Bytes) (position size : Nat) : Bytes := (bytes.drop position).take size

/-- The parts of a file, none longer than a part may be. -/
structure UploadFileParts where
  parts : FlatMap Nat Bytes := ∅
  small : ∀ part ∈ parts.entries, part.2.length ≤ photoUploadPartSize := by decide

/-- What `setFileData` and `setThumbData` make of the data -/
def UploadFileParts.ofData (data : Bytes) : UploadFileParts where
  parts :=
    { entries := (List.range ((data.length + (photoUploadPartSize - 1)) / photoUploadPartSize)).map
        fun part => (part, mid data (part * photoUploadPartSize) photoUploadPartSize)
      increasing := by
        rw [List.pairwise_map]
        exact List.pairwise_lt_range }
  small := by
    simp only [List.mem_map, forall_exists_index, and_imp]
    rintro _ part - rfl
    exact List.length_take_le _ _

/-- A file that was prepared to be sent. -/
structure FileLoadResult where
  id : FileId
  type : SendMediaType
  filepath : Path := []
  content : Bytes := []
  filename : Path := []
  filesize : Int
  fileparts : UploadFileParts := {}
  filemd5 : Bytes := []
  partssize : Nat := 0
  thumbId : FileId := 0
  thumbname : Path := []
  thumbparts : UploadFileParts := {}
  thumbmd5 : Bytes := []

/-- Only files for Passport are secure, and those are loaded. -/
structure SendMediaReady where
  type : SendMediaType
  notSecure : type ≠ .secure := by decide
  file : Path := []
  filename : Path := []
  filesize : Int
  data : Bytes := []
  thumbExt : Path := []
  id : FileId
  thumbId : FileId
  parts : UploadFileParts := {}
  jpegMd5 : Bytes := []

/-- Where a queued file comes from. -/
inductive Source
  | media (media : SendMediaReady)
  | file (file : FileLoadResult)

namespace Source

def id : Source → FileId
  | .media ready => ready.id
  | .file loaded => loaded.id

def type : Source → SendMediaType
  | .media ready => ready.type
  | .file loaded => loaded.type

def thumbId : Source → FileId
  | .media ready => ready.thumbId
  | .file loaded => loaded.thumbId

def filename : Source → Path
  | .media ready => ready.filename
  | .file loaded => loaded.filename

def content : Source → Bytes
  | .media ready => ready.data
  | .file loaded => loaded.content

def filepath : Source → Path
  | .media ready => ready.file
  | .file loaded => loaded.filepath

/-- The parts are those of the file itself, or of its thumbnail. -/
def parts : Source → UploadFileParts
  | .media ready => ready.parts
  | .file loaded =>
    if loaded.type = .photo ∨ loaded.type = .secure then loaded.fileparts
    else loaded.thumbparts

def partsOfId : Source → FileId
  | .media ready => ready.thumbId
  | .file loaded =>
    if loaded.type = .photo ∨ loaded.type = .secure then loaded.id else loaded.thumbId

def docSize : Source → Int
  | .media ready => if ready.file.isEmpty then ready.data.length else ready.filesize
  | .file loaded => loaded.filesize

end Source

/-- `parts` are those that are left to be sent, `docFile` is how much of the file was read and
`md5Hash` what was hashed. -/
structure File where
  source : Source
  parts : UploadFileParts
  partsCount : Nat
  fileSentSize : Nat := 0
  md5Hash : Bytes := []
  docFile : Option Nat := none
  docSize : Int := 0
  docPartSize : Nat := 0
  docSentParts : Nat := 0
  docPartsCount : Int := 0

namespace File

def type (file : File) : SendMediaType := file.source.type

/-- The count is kept in 32 bits. -/
def setPartSize (file : File) (partSize : Nat) : File :=
  { file with
    docPartSize := partSize
    docPartsCount := Int.bmod (file.docSize.tdiv partSize +
      if file.docSize.tmod partSize = 0 then 0 else 1) (2 ^ 32) }

/-- What `setPartSize` returns -/
def countFits (file : File) : Bool := file.docPartsCount ≤ documentMaxPartsCountDefault

def setDocSize (file : File) (size : Int) : File :=
  if size < 1024 * 1024 ∧
      ({ file with docSize := size }.setPartSize documentUploadPartSize0).countFits then
    { file with docSize := size }.setPartSize documentUploadPartSize0
  else if size ≤ 32 * 1024 * 1024 ∧
      ({ file with docSize := size }.setPartSize documentUploadPartSize1).countFits then
    { file with docSize := size }.setPartSize documentUploadPartSize1
  else if ({ file with docSize := size }.setPartSize documentUploadPartSize2).countFits then
    { file with docSize := size }.setPartSize documentUploadPartSize2
  else if ({ file with docSize := size }.setPartSize documentUploadPartSize3).countFits then
    { file with docSize := size }.setPartSize documentUploadPartSize3
  else { file with docSize := size }.setPartSize documentUploadPartSize4

/-- The two constructors -/
def ofSource (source : Source) : File :=
  if source.type.isDocument then
    setDocSize { source, parts := source.parts, partsCount := source.parts.parts.size }
      source.docSize
  else { source, parts := source.parts, partsCount := source.parts.parts.size }

end File

/-- What the uploader finds around it: files, hashes and the ids of its requests. -/
structure World where
  opens : Path → Bool
  read : Path → Nat → Nat → Bytes
  md5Hex : Bytes → Bytes
  requestId : Finset RequestId → RequestId
  fresh : ∀ used, requestId used ∉ used

/-- A file that was uploaded, in the form of a request. -/
inductive InputFile
  | inputFile (id : FileId) (parts : Int) (name : Path) (md5 : Bytes)
  | inputFileBig (id : FileId) (parts : Int) (name : Path)

/-- What the uploader tells when a file is ready. -/
inductive Ready
  | photo (file : InputFile)
  | document (file : InputFile) (thumb : Option InputFile)
  | secure (fileId : FileId) (partsCount : Nat)

/-- The requests of the uploader. -/
inductive Request
  | saveFilePart (fileId : FileId) (part : Nat) (bytes : Bytes)
  | saveBigFilePart (fileId : FileId) (part : Nat) (parts : Int) (bytes : Bytes)

/-- A part of a file: of those that are loaded, or of the document, with its bytes where they
are known beforehand. -/
inductive Place
  | piece (number : Nat) (bytes : Bytes)
  | document (number : Nat) (content : Option Bytes)
  deriving DecidableEq

/-- What was queued, asked of the API, answered and reported, in this order. -/
inductive Happening
  | queued (msgId : FullMsgId) (file : File)
  | sent (msgId : FullMsgId) (place : Place) (bytes : Bytes) (request : Request)
      (requestId : RequestId) (dc : Dc)
  | cancelled (requestId : RequestId)
  | confirmed (requestId : RequestId)
  | photoProgress (msgId : FullMsgId)
  | documentProgress (msgId : FullMsgId)
  | secureProgress (msgId : FullMsgId) (offset size : Nat)
  | failed (msgId : FullMsgId) (type : SendMediaType)
  | ready (msgId : FullMsgId) (ready : Ready)

/-- The requests that wait for an answer, and how much they send. -/
structure Traffic where
  requestsSent : FlatMap RequestId Bytes := ∅
  docRequestsSent : FlatMap RequestId Nat := ∅
  dcMap : FlatMap RequestId Dc := ∅
  sentSize : UInt32 := 0
  sentSizes : Dc → UInt32 := fun _ => 0

/-- The queue of files, with the upload that is going on. -/
structure Uploader extends Traffic where
  queue : FlatMap FullMsgId File := ∅
  uploadingId : FullMsgId := noMsgId
  pausedId : FullMsgId := noMsgId
  nextTimer : Bool := false
  stopSessionsTimer : Bool := false
  log : List Happening := []

namespace File

/-- The content of a part of the document, where it is in the memory -/
def documentContent (file : File) (number : Nat) : Option Bytes :=
  if file.source.content.isEmpty then none
  else some (mid file.source.content (number * file.docPartSize) file.docPartSize)

/-- The next part of the document is read, unless the file cannot be opened or the part has a
wrong size. -/
def readPart (world : World) (file : File) : Option (Bytes × File) :=
  (match file.documentContent file.docSentParts with
    | some toSend => some (toSend,
        { file with
          md5Hash :=
            if file.type.isDocument ∧ file.docSentParts ≤ useBigFilesFrom then
              file.md5Hash ++ toSend
            else file.md5Hash })
    | none =>
      (if file.docFile.isSome ∨ world.opens file.source.filepath then
          some (file.docFile.getD 0) else none).map fun position =>
        (world.read file.source.filepath position file.docPartSize,
          { file with
            docFile := some
              (position + (world.read file.source.filepath position file.docPartSize).length)
            md5Hash :=
              if file.docSize ≤ useBigFilesFrom then
                file.md5Hash ++ world.read file.source.filepath position file.docPartSize
              else file.md5Hash })).filter fun part =>
    !(part.1.length > file.docPartSize ∨
      (part.1.length < file.docPartSize ∧
        (file.docSentParts : Int) + 1 ≠ file.docPartsCount) : Bool)

/-- Big files have a request of their own. -/
def partRequest (file : File) (number : Nat) (toSend : Bytes) : Request :=
  if file.docSize > useBigFilesFrom then
    .saveBigFilePart file.source.id number file.docPartsCount toSend
  else .saveFilePart file.source.id number toSend

/-- `.jpg`, whatever the case -/
def endsWithJpg (name : Path) : Bool :=
  ((name.drop (name.length - 4)).map fun unit =>
    if 65 ≤ unit ∧ unit ≤ 90 then unit + 32 else unit) = [46, 106, 112, 103]

/-- What is reported of the file when all of it has been sent -/
def ready (world : World) (file : File) : Ready :=
  match file.type with
  | .photo =>
    .photo (.inputFile file.source.id file.partsCount
      (if endsWithJpg file.source.filename then file.source.filename
        else file.source.filename ++ [46, 106, 112, 103])
      (match file.source with
        | .media media => media.jpegMd5
        | .file file => file.filemd5))
  | .secure => .secure file.source.id file.partsCount
  | .file | .themeFile | .audio =>
    .document
      (if file.docSize > useBigFilesFrom then
        .inputFileBig file.source.id file.docPartsCount file.source.filename
      else
        .inputFile file.source.id file.docPartsCount file.source.filename
          (world.md5Hex file.md5Hash))
      (if file.partsCount = 0 then none
      else some (match file.source with
        | .media media => .inputFile media.thumbId file.partsCount
            ([116, 104, 117, 109, 98, 46] ++ media.thumbExt) media.jpegMd5
        | .file result => .inputFile result.thumbId file.partsCount result.thumbname
            result.thumbmd5))

end File

namespace Traffic

/-- All requests that wait for an answer. -/
def inFlight (traffic : Traffic) : Finset RequestId :=
  (traffic.requestsSent.entries.map Prod.fst ++
    traffic.docRequestsSent.entries.map Prod.fst).toFinset

/-- The session over which the least is being sent, the first of them -/
def todc (traffic : Traffic) : Dc :=
  (List.finRange uploadSessionsCount).foldl
    (fun todc dc => if traffic.sentSizes dc < traffic.sentSizes todc then dc else todc)
    ⟨0, Nat.two_pos⟩

def addSize (traffic : Traffic) (dc : Dc) (size : Nat) : Traffic :=
  { traffic with
    sentSize := traffic.sentSize + UInt32.ofNat size
    sentSizes := Function.update traffic.sentSizes dc
      (traffic.sentSizes dc + UInt32.ofNat size) }

def subSize (traffic : Traffic) (dc : Dc) (size : Nat) : Traffic :=
  { traffic with
    sentSize := traffic.sentSize - UInt32.ofNat size
    sentSizes := Function.update traffic.sentSizes dc
      (traffic.sentSizes dc - UInt32.ofNat size) }

def sendPiece (traffic : Traffic) (requestId : RequestId) (dc : Dc) (bytes : Bytes) : Traffic :=
  { traffic with
    requestsSent := traffic.requestsSent.emplace requestId bytes
    dcMap := traffic.dcMap.emplace requestId dc }.addSize dc bytes.length

/-- A part of a document is sent. -/
def sendDocument (traffic : Traffic) (requestId : RequestId) (dc : Dc) (number partSize : Nat) :
    Traffic :=
  { traffic with
    docRequestsSent := traffic.docRequestsSent.emplace requestId number
    dcMap := traffic.dcMap.emplace requestId dc }.addSize dc partSize

/-- A request has been answered.  The size of its part is returned, too. -/
def confirm (traffic : Traffic) (requestId : RequestId) (dc : Dc) (partSize : Nat) :
    Traffic × Nat :=
  match traffic.requestsSent.find? requestId with
  | some bytes =>
    ({ traffic with
        dcMap := traffic.dcMap.erase requestId
        requestsSent := traffic.requestsSent.erase requestId }.subSize dc bytes.length,
      bytes.length)
  | none =>
    ({ traffic with
        dcMap := traffic.dcMap.erase requestId
        docRequestsSent := traffic.docRequestsSent.erase requestId }.subSize dc partSize,
      partSize)

/-- What `cancelRequests` tells the API -/
def cancellations (traffic : Traffic) : List Happening :=
  traffic.requestsSent.entries.map (fun request => .cancelled request.1) ++
    traffic.docRequestsSent.entries.map (fun request => .cancelled request.1)

end Traffic

namespace Uploader

variable (world : World) (uploader : Uploader)

/-- The file that is uploaded next: the current one, or the first of the queue -/
def current : Option (FullMsgId × File) :=
  match (if isSet uploader.uploadingId then uploader.queue.find? uploader.uploadingId
    else none) with
  | some file => some (uploader.uploadingId, file)
  | none => uploader.queue.entries.head?

def sendPart (traffic : Traffic) (file : File) (happening : Happening) : Uploader :=
  { uploader with
    toTraffic := traffic
    queue := uploader.queue.set uploader.uploadingId file
    log := uploader.log ++ [happening]
    nextTimer := true }

/-- `sendNext` when all parts of the current file have been confirmed -/
def reportReady (file : File) : Uploader :=
  { uploader with
    queue := uploader.queue.erase uploader.uploadingId
    uploadingId := noMsgId
    log := uploader.log ++ [.ready uploader.uploadingId (file.ready world)] }

/-- `currentFailed` before it goes on with the queue -/
def dropCurrent : Uploader :=
  { uploader with
    toTraffic := {}
    queue := uploader.queue.erase uploader.uploadingId
    uploadingId := noMsgId
    log := uploader.log ++
      (match uploader.queue.find? uploader.uploadingId with
        | some file => [.failed uploader.uploadingId file.type]
        | none => []) ++ uploader.cancellations }

/-- Whether `sendNext` is done or begins anew with a shorter queue -/
inductive Sending
  | stop (next : Uploader)
  | again (next : Uploader)

/-- `sendNext` with the current file -/
def sendFile (file : File) : Sending :=
  match file.parts.parts.entries with
  | part :: _ =>
    .stop (uploader.sendPart
      (uploader.sendPiece (world.requestId uploader.inFlight) uploader.todc part.2)
      { file with
        parts :=
          { parts := file.parts.parts.eraseFirst
            small := fun part member => file.parts.small part (List.mem_of_mem_tail member) } }
      (.sent uploader.uploadingId (.piece part.1 part.2) part.2
        (.saveFilePart file.source.partsOfId part.1 part.2)
        (world.requestId uploader.inFlight) uploader.todc))
  | [] =>
    if file.docSentParts ≥ file.docPartsCount then
      if uploader.requestsSent.isEmpty ∧ uploader.docRequestsSent.isEmpty then
        .again (uploader.reportReady world file)
      else .stop uploader
    else
      match file.readPart world with
      | none => .again uploader.dropCurrent
      | some (toSend, read) =>
        .stop (uploader.sendPart
          (uploader.sendDocument (world.requestId uploader.inFlight) uploader.todc
            file.docSentParts file.docPartSize)
          { read with docSentParts := file.docSentParts + 1 }
          (.sent uploader.uploadingId
            (.document file.docSentParts (file.documentContent file.docSentParts)) toSend
            (file.partRequest file.docSentParts toSend)
            (world.requestId uploader.inFlight) uploader.todc))

/-- The next part, if a session has room for it. -/
def trySend : Sending :=
  if maxUploadFileParallelSize ≤ uploader.sentSize.toNat ∨ isSet uploader.pausedId then
    .stop uploader
  else
    match uploader.current with
    | none => .stop { uploader with stopSessionsTimer := true }
    | some (msgId, file) =>
      { uploader with uploadingId := msgId, stopSessionsTimer := false }.sendFile world file

/-- `sendNext` while the queue has no more than so many files -/
def sendNextOf : Nat → Uploader → Uploader
  | 0, uploader => uploader
  | size + 1, uploader =>
    match uploader.trySend world with
    | .stop next => next
    | .again next => sendNextOf size next

def sendNext : Uploader := sendNextOf world (uploader.queue.size + 1) uploader

/-- The current upload is dropped and the next begun. -/
def currentFailed : Uploader := uploader.dropCurrent.sendNext world

/-- `upload` and `uploadMedia` -/
def enqueue (msgId : FullMsgId) (source : Source) : Uploader :=
  { uploader with
    queue := uploader.queue.emplace msgId (.ofSource source)
    log := if uploader.queue.contains msgId then uploader.log
      else uploader.log ++ [Happening.queued msgId (.ofSource source)] }.sendNext world

/-- A file is queued. -/
def upload (msgId : FullMsgId) (file : FileLoadResult) : Uploader :=
  uploader.enqueue world msgId (.file file)

def uploadMedia (msgId : FullMsgId) (media : SendMediaReady) : Uploader :=
  uploader.enqueue world msgId (.media media)

/-- One upload is dropped. -/
def cancel (msgId : FullMsgId) : Uploader :=
  if uploader.uploadingId = msgId then uploader.currentFailed world
  else { uploader with queue := uploader.queue.erase msgId }

def pause (msgId : FullMsgId) : Uploader := { uploader with pausedId := msgId }

def unpause : Uploader := { uploader with pausedId := noMsgId }.sendNext world

/-- `clear` with the loop before it, which reports each file of the queue as failed -/
def failQueue : Uploader :=
  { uploader with
    toTraffic := {}
    queue := ∅
    stopSessionsTimer := false
    log := uploader.log ++
      uploader.queue.entries.map (fun entry => .failed entry.1 entry.2.type) ++
        uploader.cancellations }

/-- All uploads are dropped. -/
def cancelAll : Uploader :=
  match uploader.queue.entries with
  | [] =>
    if isSet uploader.uploadingId then
      (({ uploader with pausedId := uploader.uploadingId }.currentFailed world).failQueue).unpause
        world
    else uploader
  | single :: _ =>
    if isSet single.1 then
      ((if isSet uploader.uploadingId then
          { uploader with pausedId := single.1 }.currentFailed world
        else { uploader with pausedId := single.1 }).failQueue).unpause world
    else uploader

/-- What `partLoaded` tells of a confirmed part, and the file then.  Only loaded files are
secure. -/
def progress (msgId : FullMsgId) (file : File) (sentPartSize : Nat) : Option (File × Happening) :=
  match file.type with
  | .photo =>
    some ({ file with fileSentSize := file.fileSentSize + sentPartSize }, .photoProgress msgId)
  | .file | .themeFile | .audio => some (file, .documentProgress msgId)
  | .secure =>
    match file.source with
    | .media _ => none
    | .file result =>
      some ({ file with fileSentSize := file.fileSentSize + sentPartSize },
        .secureProgress msgId (file.fileSentSize + sentPartSize) result.partssize)

/-- `partLoaded` of a request that waits for an answer, before it goes on with the queue.  The
file that it belongs to has to be in the queue. -/
def confirmPart (requestId : RequestId) (dc : Dc) : Option Uploader :=
  (uploader.queue.find? uploader.uploadingId).bind fun file =>
    (progress uploader.uploadingId file
        (uploader.confirm requestId dc file.docPartSize).2).map fun progressed =>
      { uploader with
        toTraffic := (uploader.confirm requestId dc file.docPartSize).1
        queue := uploader.queue.set uploader.uploadingId progressed.1
        log := uploader.log ++ [.confirmed requestId, progressed.2] }

def waits (requestId : RequestId) : Bool :=
  uploader.requestsSent.contains requestId || uploader.docRequestsSent.contains requestId

/-- The server has the part. -/
def partLoaded (result : Bool) (requestId : RequestId) : Option Uploader :=
  if uploader.waits requestId then
    if result then
      match uploader.dcMap.find? requestId with
      | none => some (uploader.currentFailed world)
      | some dc => (uploader.confirmPart requestId dc).map (sendNext world)
    else some (uploader.currentFailed world)
  else some (uploader.sendNext world)

/-- The part has failed, and the upload with it. -/
def partFailed (requestId : RequestId) : Uploader :=
  (if uploader.waits requestId then uploader.currentFailed world else uploader).sendNext world

end Uploader

/-- What happens to the uploader.  Files are uploaded for messages that have an id. -/
inductive Action
  | upload (msgId : FullMsgId) (set : isSet msgId = true) (file : FileLoadResult)
  | uploadMedia (msgId : FullMsgId) (set : isSet msgId = true) (media : SendMediaReady)
  | cancel (msgId : FullMsgId)
  | cancelAll
  | pause (msgId : FullMsgId)
  | unpause
  | nextTimer
  | stopSessionsTimer
  | partLoaded (result : Bool) (requestId : RequestId)
  | partFailed (requestId : RequestId)

/-- An action, with what the uploader finds around it. -/
structure Event where
  world : World
  action : Action

def Uploader.step (uploader : Uploader) (event : Event) : Option Uploader :=
  match event.action with
  | .upload msgId _ file => some (uploader.upload event.world msgId file)
  | .uploadMedia msgId _ media => some (uploader.uploadMedia event.world msgId media)
  | .cancel msgId => some (uploader.cancel event.world msgId)
  | .cancelAll => some (uploader.cancelAll event.world)
  | .pause msgId => some (uploader.pause msgId)
  | .unpause => some (uploader.unpause event.world)
  | .nextTimer =>
    if uploader.nextTimer then some ({ uploader with nextTimer := false }.sendNext event.world)
    else none
  | .stopSessionsTimer =>
    if uploader.stopSessionsTimer then some { uploader with stopSessionsTimer := false } else none
  | .partLoaded result requestId => uploader.partLoaded event.world result requestId
  | .partFailed requestId => some (uploader.partFailed event.world requestId)

end TelegramDesktop.Uploads
