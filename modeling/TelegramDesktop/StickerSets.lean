import TelegramDesktop.ImageLocation

/-!
# Files of sticker sets

The sticker sets of an account are kept in files, as in `storage/storage_account.cpp`.
Of the sets that are read all that the file has is kept, and what becomes of it later is
left out. The size that is computed before a file is written only reserves memory.
-/

namespace TelegramDesktop

open DataStream

/-- How a sticker names its set. -/
structure StickerSetInfo where
  setId : UInt64
  accessHash : UInt64
  shortName : QString

/-- The documents of stickers, with their writer and reader. -/
structure StickerDocuments (δ : Type*) where
  id : δ → UInt64
  writeToStream : δ → Bytes
  readStickerFromStream : StickerSetInfo → DataStream → Option δ × DataStream

/-- The reader of a document stops where the writer did. -/
def StickerDocuments.ReadBack {δ : Type*} (documents : StickerDocuments δ) : Prop :=
  ∀ document info rest,
    (documents.readStickerFromStream info ⟨documents.writeToStream document ++ rest, true⟩).2 =
      ⟨rest, true⟩

/-- A thumbnail is only replaced by a valid one.  Sizes are those of Qt containers. -/
structure StickersSet (codec : TextCodec) (δ : Type*) where
  id : UInt64
  accessHash : UInt64 := 0
  hash : UInt64 := 0
  thumbnailDocumentId : UInt64 := 0
  title : QString := .null
  shortName : QString := .null
  count : Int32 := 0
  flags : Int32 := 0
  installDate : Int32 := 0
  stickers : List δ := []
  dates : List Int32 := []
  emoji : List (QString × List δ) := []
  thumbnailLocation : ImageLocation := {}
  thumbnail_known : thumbnailLocation.file.valid = true ∨ thumbnailLocation = {} := by
    exact .inr rfl
  thumbnail_small : ((thumbnailLocation.serialize codec).getD []).length < 2 ^ 31 := by decide
  stickers_small : stickers.length < 2 ^ 31 := by decide
  emoji_small : emoji.length < 2 ^ 31 := by decide
  packs_small : ∀ pack ∈ emoji, pack.2.length < 2 ^ 31 := by simp

namespace StickersSet

/-- The flags of a set. -/
inductive Flag
  | installed
  | archived
  | masks
  | official
  | notLoaded
  | featured
  | unread
  | special
  | webm
  | emoji

def Flag.value : Flag → Int32
  | installed => 1
  | archived => 2
  | masks => 4
  | official => 8
  | notLoaded => 16
  | featured => 32
  | unread => 64
  | special => 128
  | webm => 256
  | emoji => 512

/-- The kinds of sets. -/
inductive StickersType
  | stickers
  | masks
  | emoji
  deriving DecidableEq

def cloudRecentSetId : UInt64 := 0xFFFFFFFFFFFFFFFC

def cloudRecentAttachedSetId : UInt64 := 0xFFFFFFFFFFFFFFF9

def favedSetId : UInt64 := 0xFFFFFFFFFFFFFFFA

def kStickersVersionTag : UInt32 := 0xFFFFFFFF

def kStickersSerializeVersion : Int32 := 3

def kMaxSavedStickerSetsCount : Int32 := 1000

section Writing

variable {codec : TextCodec} {δ : Type*}

/-- Does the set have the flag? -/
def has (set : StickersSet codec δ) (flag : Flag) : Bool := set.flags &&& flag.value ≠ 0

def type (set : StickersSet codec δ) : StickersType :=
  if set.has .emoji then .emoji else if set.has .masks then .masks else .stickers

/-- Whether a set is written. -/
inductive StickerSetCheckResult
  | write
  | skip
  | abort
  deriving DecidableEq

open StickerSetCheckResult

def isSeparate (set : StickersSet codec δ) : Bool :=
  set.id = cloudRecentSetId || set.id = favedSetId || set.id = cloudRecentAttachedSetId

/-- A set that is not loaded stops the writing. -/
def checkLoaded (set : StickersSet codec δ) : StickerSetCheckResult :=
  if set.has .notLoaded then abort else if set.stickers.isEmpty then skip else write

def checkInstalledStickers (set : StickersSet codec δ) : StickerSetCheckResult :=
  if set.isSeparate then skip
  else if set.has .special then if set.stickers.isEmpty then skip else write
  else if !set.has .installed || set.has .archived || set.type ≠ .stickers then skip
  else set.checkLoaded

def checkFeaturedStickers (set : StickersSet codec δ) : StickerSetCheckResult :=
  if set.isSeparate then skip
  else if set.has .special || !set.has .featured || set.type ≠ .stickers then skip
  else set.checkLoaded

def checkFeaturedCustomEmoji (set : StickersSet codec δ) : StickerSetCheckResult :=
  if !set.has .featured || set.type ≠ .emoji then skip else set.checkLoaded

def checkInstalledCustomEmoji (set : StickersSet codec δ) : StickerSetCheckResult :=
  if !set.has .installed || set.has .archived || set.type ≠ .emoji then skip
  else set.checkLoaded

/-- Only the set of this id is written. -/
def checkOnly (setId : UInt64) (set : StickersSet codec δ) : StickerSetCheckResult :=
  if set.id ≠ setId || set.stickers.isEmpty then skip else write

def checkRecentStickers : StickersSet codec δ → StickerSetCheckResult := checkOnly cloudRecentSetId

def checkFavedStickers : StickersSet codec δ → StickerSetCheckResult := checkOnly favedSetId

def checkRecentMasks : StickersSet codec δ → StickerSetCheckResult :=
  checkOnly cloudRecentAttachedSetId

def checkArchivedStickers (set : StickersSet codec δ) : StickerSetCheckResult :=
  if !set.has .archived || set.type ≠ .stickers || set.stickers.isEmpty then skip else write

def checkArchivedMasks (set : StickersSet codec δ) : StickerSetCheckResult :=
  if !set.has .archived || set.type ≠ .masks || set.stickers.isEmpty then skip else write

def checkInstalledMasks (set : StickersSet codec δ) : StickerSetCheckResult :=
  if !set.has .installed || set.has .archived || set.type ≠ .masks || set.stickers.isEmpty then
    skip
  else write

variable (documents : StickerDocuments δ)

/-- The fields of a set. -/
def writeInfo (set : StickersSet codec δ) (count : Int32) : Option Bytes :=
  (set.thumbnailLocation.writeImageLocation codec).map fun thumbnail =>
    writeUInt64 set.id ++ (writeUInt64 set.accessHash ++ (writeUInt64 set.hash ++
      (writeQString set.title ++ (writeQString set.shortName ++ (writeInt32 count ++
        (writeInt32 set.flags ++ (writeInt32 set.installDate ++
          (writeUInt64 set.thumbnailDocumentId ++ thumbnail))))))))

/-- The sizes of the dates and of the stickers are the same, if there are dates. -/
def datesAsserted (set : StickersSet codec δ) : Bool :=
  set.dates.isEmpty || set.dates.length = set.stickers.length

def writeDates (set : StickersSet codec δ) : Bytes :=
  writeSize set.dates.length ++ set.dates.flatMap writeInt32

/-- An emoji with the stickers it stands for. -/
def writePack (pack : QString × List δ) : Bytes :=
  writeQString pack.1 ++ (writeSize pack.2.length ++
    pack.2.flatMap fun sticker => writeUInt64 (documents.id sticker))

def writeEmoji (set : StickersSet codec δ) : Bytes :=
  writeSize set.emoji.length ++ set.emoji.flatMap (writePack documents)

/-- `none` if an assertion fails. -/
def writeStickerSet (set : StickersSet codec δ) : Option Bytes :=
  if set.has .notLoaded then set.writeInfo (-set.count)
  else if set.stickers.isEmpty then some []
  else if !set.datesAsserted then none
  else
    (set.writeInfo (Int32.ofNat set.stickers.length)).map fun info =>
      info ++ (set.stickers.flatMap documents.writeToStream ++
        (set.writeDates ++ set.writeEmoji documents))

/-- The count of the sets that is written, `none` if the write is aborted. -/
def countSets (checkSet : StickersSet codec δ → StickerSetCheckResult) :
    List (StickersSet codec δ) → Option Nat
  | [] => some 0
  | set :: sets =>
    match checkSet set with
    | abort => none
    | skip => countSets checkSet sets
    | write =>
      if set.has .notLoaded then countSets checkSet sets
      else if !set.datesAsserted then none
      else (countSets checkSet sets).map (· + 1)

/-- The sets that pass the check, none once one stops it. -/
def writeSets (checkSet : StickersSet codec δ → StickerSetCheckResult) :
    List (StickersSet codec δ) → Option (List Bytes)
  | [] => some []
  | set :: sets =>
    match checkSet set with
    | abort => none
    | skip => writeSets checkSet sets
    | write =>
      (set.writeStickerSet documents).bind fun record =>
        (writeSets checkSet sets).map (record :: ·)

def writeHeader (setsCount : Nat) : Bytes :=
  writeUInt32 kStickersVersionTag ++ (writeInt32 kStickersSerializeVersion ++ writeSize setsCount)

def writeOrder (order : List UInt64) : Bytes := writeSize order.length ++ order.flatMap writeUInt64

/-- A whole file of sticker sets. -/
def writeStickerSets (sets : List (StickersSet codec δ))
    (checkSet : StickersSet codec δ → StickerSetCheckResult) (order : List UInt64) :
    Option Bytes :=
  if sets.isEmpty then none
  else
    (countSets checkSet sets).bind fun setsCount =>
      if setsCount = 0 && order.isEmpty then none
      else
        (writeSets documents checkSet sets).map fun records =>
          writeHeader setsCount ++ (records.flatten ++ writeOrder order)

end Writing

section Reading

variable (codec : TextCodec) {δ : Type*} (documents : StickerDocuments δ) (streamAppVersion : Nat)

/-- A set as it is read from a file. -/
structure ReadSet (δ : Type*) where
  id : UInt64
  accessHash : UInt64
  hash : UInt64
  title : QString
  shortName : QString
  scnt : Int32
  flags : Int32
  installDate : Int32
  thumbnailDocumentId : UInt64
  thumbnail : ImageLocation
  stickers : List (Option δ) := []
  dates : List Int32 := []
  emoji : List (QString × List UInt64) := []

/-- A thumbnail that has no version. -/
def isLegacy (thumbnail : ImageLocation) : Bool :=
  match thumbnail.file with
  | .storage location => location.type = .legacy
  | _ => false

/-- `none` if the reading fails. -/
def readInfo (version : Int32) (stream : DataStream) : Option (ReadSet δ × DataStream) :=
  let (setId, stream) := stream.readUInt64
  let (setAccessHash, stream) := stream.readUInt64
  let (setHash, stream) := stream.readUInt64
  let (setTitle, stream) := stream.readQString
  let (setShortName, stream) := stream.readQString
  let (scnt, stream) := stream.readInt32
  let (setFlagsValue, stream) := stream.readInt32
  let (setInstallDate, stream) := stream.readInt32
  let (setThumbnailDocumentId, stream) :=
    if version > 2 then stream.readUInt64 else (0, stream)
  match ImageLocation.readImageLocation codec streamAppVersion stream with
  | (none, _) => none
  | (some thumbnail, stream) =>
    if !stream.ok || (thumbnail.file.valid && isLegacy thumbnail) then none
    else
      some ({ id := setId
              accessHash := setAccessHash
              hash := setHash
              title := setTitle
              shortName := setShortName
              scnt := scnt
              flags := setFlagsValue
              installDate := setInstallDate
              thumbnailDocumentId := setThumbnailDocumentId
              thumbnail := thumbnail }, stream)

/-- So many stickers. -/
def readStickers (info : StickerSetInfo) : Nat → DataStream → Option (List (Option δ) × DataStream)
  | 0, stream => some ([], stream)
  | scnt + 1, stream =>
    let (document, stream) := documents.readStickerFromStream info stream
    if stream.ok then
      (readStickers info scnt stream).map fun (others, stream) => (document :: others, stream)
    else none

def readDates (scnt : Int32) (stream : DataStream) : Option (List Int32 × DataStream) :=
  let (datesCount, stream) := stream.readInt32
  if datesCount > 0 then
    if datesCount ≠ scnt then none
    else some (readTimes readInt32 datesCount.toNatClampNeg stream)
  else some ([], stream)

def readPack (stream : DataStream) : (QString × List UInt64) × DataStream :=
  let (emojiString, stream) := stream.readQString
  let (stickersCount, stream) := stream.readInt32
  let (ids, stream) := readTimes readUInt64 stickersCount.toNatClampNeg stream
  ((emojiString, ids), stream)

def readEmoji (stream : DataStream) : Option (List (QString × List UInt64) × DataStream) :=
  let (emojiCount, stream) := stream.readInt32
  if !stream.ok || emojiCount < 0 then none
  else some (readTimes readPack emojiCount.toNatClampNeg stream)

/-- A set that is not loaded has nothing behind its thumbnail. -/
def readStickerSet (version : Int32) (stream : DataStream) : Option (ReadSet δ × DataStream) :=
  (readInfo codec streamAppVersion version stream).bind fun (set, stream) =>
    if set.scnt < 0 then some (set, stream)
    else
      (readStickers documents ⟨set.id, set.accessHash, set.shortName⟩ set.scnt.toNatClampNeg
        stream).bind fun (stickers, stream) =>
          (readDates set.scnt stream).bind fun (dates, stream) =>
            (readEmoji stream).map fun (emoji, stream) =>
              ({ set with stickers := stickers, dates := dates, emoji := emoji }, stream)

/-- So many sets. -/
def readSets (version : Int32) : Nat → DataStream → Option (List (ReadSet δ) × DataStream)
  | 0, stream => some ([], stream)
  | count + 1, stream =>
    (readStickerSet codec documents streamAppVersion version stream).bind fun (set, stream) =>
      (readSets version count stream).map fun (sets, stream) => (set :: sets, stream)

def readIds : Nat → DataStream → Option (List UInt64 × DataStream)
  | 0, stream => some ([], stream)
  | count + 1, stream =>
    let (value, stream) := stream.readUInt64
    if stream.ok then
      (readIds count stream).map fun (values, stream) => (value :: values, stream)
    else none

/-- The order of the sets. -/
def readOrder (stream : DataStream) : Option (List UInt64 × DataStream) :=
  let (outOrderCount, stream) := stream.readUInt32
  if !stream.ok || outOrderCount > 1000 then none else readIds outOrderCount.toNat stream

/-- `none` if the reading fails.  Not every reader wants the order. -/
def readStickerSets (readsOrder : Bool) (file : Bytes) :
    Option (List (ReadSet δ) × List UInt64) :=
  let stream : DataStream := { rest := file }
  let (versionTag, stream) := stream.readUInt32
  let (version, stream) := stream.readInt32
  if versionTag ≠ kStickersVersionTag || (version ≠ 2 && version ≠ kStickersSerializeVersion) then
    none
  else
    let (count, stream) := stream.readInt32
    if !stream.ok || count < 0 || count > kMaxSavedStickerSetsCount then none
    else
      (readSets codec documents streamAppVersion version count.toNatClampNeg stream).bind
        fun (sets, stream) =>
          (if readsOrder then readOrder stream else some ([], stream)).bind fun (order, stream) =>
            if stream.ok then some (sets, order) else none

end Reading

end StickersSet

/-- The sets of an account and the orders in which they are shown. -/
structure Stickers (codec : TextCodec) (δ : Type*) where
  sets : FlatMap UInt64 (StickersSet codec δ) := ∅
  setsOrder : List UInt64 := []
  featuredSetsOrder : List UInt64 := []
  featuredEmojiSetsOrder : List UInt64 := []
  archivedSetsOrder : List UInt64 := []
  archivedMaskSetsOrder : List UInt64 := []
  maskSetsOrder : List UInt64 := []
  emojiSetsOrder : List UInt64 := []

namespace Stickers

open StickersSet

/-- The files of stickers. -/
inductive StickersFile
  | installedStickers
  | featuredStickers
  | featuredCustomEmoji
  | recentStickers
  | favedStickers
  | archivedStickers
  | archivedMasks
  | installedMasks
  | recentMasks
  | installedCustomEmoji

variable {codec : TextCodec} {δ : Type*}

/-- The check of a file. -/
def checkSet : StickersFile → StickersSet codec δ → StickerSetCheckResult
  | .installedStickers => checkInstalledStickers
  | .featuredStickers => checkFeaturedStickers
  | .featuredCustomEmoji => checkFeaturedCustomEmoji
  | .recentStickers => checkRecentStickers
  | .favedStickers => checkFavedStickers
  | .archivedStickers => checkArchivedStickers
  | .archivedMasks => checkArchivedMasks
  | .installedMasks => checkInstalledMasks
  | .recentMasks => checkRecentMasks
  | .installedCustomEmoji => checkInstalledCustomEmoji

def order (stickers : Stickers codec δ) : StickersFile → List UInt64
  | .installedStickers => stickers.setsOrder
  | .featuredStickers => stickers.featuredSetsOrder
  | .featuredCustomEmoji => stickers.featuredEmojiSetsOrder
  | .archivedStickers => stickers.archivedSetsOrder
  | .archivedMasks => stickers.archivedMaskSetsOrder
  | .installedMasks => stickers.maskSetsOrder
  | .installedCustomEmoji => stickers.emojiSetsOrder
  | .recentStickers | .favedStickers | .recentMasks => []

def readsOrder : StickersFile → Bool
  | .recentStickers | .favedStickers | .recentMasks => false
  | _ => true

def values (stickers : Stickers codec δ) : List (StickersSet codec δ) :=
  stickers.sets.entries.map Prod.snd

/-- A file is written. -/
def write (documents : StickerDocuments δ) (stickers : Stickers codec δ) (file : StickersFile) :
    Option Bytes :=
  writeStickerSets documents stickers.values (checkSet file) (stickers.order file)

/-- The count is that of the records that follow, which are read up to the order, and the order
is read where it stands. -/
def SelfConsistent (documents : StickerDocuments δ) (streamAppVersion : Nat)
    (stickers : Stickers codec δ) (file : StickersFile) (bytes : Bytes) : Prop :=
  ∃ setsCount records read,
    bytes = writeHeader setsCount ++ (records.flatten ++ writeOrder (stickers.order file)) ∧
    countSets (checkSet file) stickers.values = some setsCount ∧
    writeSets documents (checkSet file) stickers.values = some records ∧
    setsCount = (records.filter (· ≠ [])).length ∧
    readSets codec documents streamAppVersion kStickersSerializeVersion setsCount
        ⟨records.flatten ++ writeOrder (stickers.order file), true⟩ =
      some (read, ⟨writeOrder (stickers.order file), true⟩) ∧
    readStickerSets codec documents streamAppVersion (readsOrder file) bytes =
      some (read, stickers.order file)

end Stickers

end TelegramDesktop
