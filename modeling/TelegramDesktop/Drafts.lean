import TelegramDesktop.DataStreamValues
import TelegramDesktop.FlatMapGroups

/-!
# Local drafts

Message drafts are written to two files for each history, one with the drafts and
one with the cursors, as in `storage/storage_account.cpp`.  Files are modelled by
what their encryption contains.
-/

namespace TelegramDesktop.Drafts

/-- `UserId::kReservedBit << 48` -/
def reservedBit : UInt64 := (0x80 : UInt64) <<< 48

/-- The id of a peer; the reserved bit marks only ids that are written. -/
structure PeerId where
  value : UInt64
  unreserved : value &&& reservedBit = 0 := by decide

theorem PeerId.ext {first second : PeerId} (value : first.value = second.value) :
    first = second := by
  cases first
  cases second
  cases value
  rfl

instance : LinearOrder PeerId :=
  LinearOrder.lift' (fun peer => peer.value.toNat) fun _ _ same =>
    PeerId.ext (UInt64.toNat_inj.mp same)

def serializePeerId (id : PeerId) : UInt64 := id.value ||| reservedBit

def peerFromUser (bare : UInt64) : UInt64 := bare ||| ((0 : UInt64) <<< 48)

def peerFromChat (bare : UInt64) : UInt64 := bare ||| ((1 : UInt64) <<< 48)

def peerFromChannel (bare : UInt64) : UInt64 := bare ||| ((2 : UInt64) <<< 48)

def peerFromFakeChat (bare : UInt64) : UInt64 := bare ||| ((0x7F : UInt64) <<< 48)

def deserializePeerId (serialized : UInt64) : UInt64 :=
  let legacy := serialized &&& reservedBit = 0
  let peerIdMask : UInt64 := 0xFFFFFFFF
  let peerIdTypeMask : UInt64 := 0xF00000000
  if !legacy then serialized &&& ~~~reservedBit
  else if serialized &&& peerIdTypeMask = 0x000000000 then peerFromUser (serialized &&& peerIdMask)
  else if serialized &&& peerIdTypeMask = 0x100000000 then peerFromChat (serialized &&& peerIdMask)
  else if serialized &&& peerIdTypeMask = 0x200000000 then
    peerFromChannel (serialized &&& peerIdMask)
  else if serialized &&& peerIdTypeMask = 0xF00000000 then
    peerFromFakeChat (serialized &&& peerIdMask)
  else 0

/-- Which draft of a history: the local one, the cloud one or that of a section. -/
structure DraftKey where
  value : Int64
  deriving DecidableEq

namespace DraftKey

instance : LinearOrder DraftKey :=
  LinearOrder.lift' (fun key => key.value.toInt) fun first second same => by
    cases first
    cases second
    cases Int64.toInt_inj.mp same
    rfl

/-- `ServerMaxMsgId` -/
def editDraftShift : Int64 := (1 : Int64) <<< 56

def editDraftShiftOld : Int32 := 0x3FFFFFFF

def None : DraftKey := ⟨0⟩

def Local : DraftKey := ⟨-1⟩

def LocalEdit : DraftKey := ⟨-1 + editDraftShift⟩

def Cloud : DraftKey := ⟨-2⟩

def ScheduledEdit : DraftKey := ⟨-3 + editDraftShift⟩

def Replies (rootId : Int64) : DraftKey := ⟨rootId⟩

def RepliesEdit (rootId : Int64) : DraftKey := ⟨rootId + editDraftShift⟩

def fromSerialized (value : Int64) : DraftKey := ⟨value⟩

def serialize (key : DraftKey) : Int64 := key.value

def fromSerializedOld (value : Int32) : DraftKey :=
  if value = 0 then None
  else if value = -1 + editDraftShiftOld then LocalEdit
  else if value = -3 + editDraftShiftOld then ScheduledEdit
  else if 0 < value ∧ value < 0x40000000 then Replies value.toInt64
  else if editDraftShiftOld < value ∧ value < editDraftShiftOld + 0x4000000 then
    RepliesEdit (value - editDraftShiftOld).toInt64
  else None

/-- The keys that the reader takes from a file. -/
def IsRead (key : DraftKey) : Prop := key ≠ None ∧ key ≠ Cloud

instance (key : DraftKey) : Decidable key.IsRead := inferInstanceAs (Decidable (_ ∧ _))

end DraftKey

/-- Whether the preview of a link is shown. -/
inductive PreviewState
  | Allowed
  | Cancelled
  | EmptyOnEdit
  deriving DecidableEq

namespace PreviewState

def toInt32 : PreviewState → Int32
  | Allowed => 0
  | Cancelled => 1
  | EmptyOnEdit => 2

/-- An enumeration of `char` takes the lowest byte of the value. -/
def ofUnchecked (unchecked : Int32) : PreviewState :=
  if unchecked.toUInt32.toUInt8 = 1 then Cancelled
  else if unchecked.toUInt32.toUInt8 = 2 then EmptyOnEdit
  else Allowed

end PreviewState

/-- `QFIXED_MAX` -/
def fixedMax : Int32 := 8388607

/-- The cursor of an input field. -/
structure MessageCursor where
  position : Int32 := 0
  anchor : Int32 := 0
  scroll : Int32 := fixedMax
  deriving DecidableEq

/-- A text, with the tags of its formatting. -/
structure TextWithTags (Tags : Type*) where
  text : QString
  tags : Tags

/-- The serialization of tags is not a part of the repository. -/
structure TagsCodec (Tags : Type*) where
  serializeTags : Tags → QByteArray
  deserializeTags : QByteArray → Nat → Tags

/-- A message that is not sent yet. -/
structure Draft (Tags : Type*) where
  textWithTags : TextWithTags Tags
  msgId : Int64
  cursor : MessageCursor
  previewState : PreviewState

abbrev HistoryDrafts (Tags : Type*) := FlatMap DraftKey (Draft Tags)

/-- What a field that is being edited would be saved as. -/
structure MessageDraftSource (Tags : Type*) where
  msgId : Int64
  textWithTags : TextWithTags Tags
  previewState : PreviewState
  cursor : MessageCursor

variable {Tags : Type*}

/-- `QChar::isSpace` -/
def isSpace (unit : UInt16) : Bool :=
  unit = 0x20 || 0x09 ≤ unit && unit ≤ 0x0D || unit = 0x85 || unit = 0xA0 || unit = 0x1680 ||
    0x2000 ≤ unit && unit ≤ 0x200A || unit = 0x2028 || unit = 0x2029 || unit = 0x202F ||
    unit = 0x205F || unit = 0x3000

def draftStringIsEmpty (text : QString) : Bool := text.units.all isSpace

/-- A draft that is absent is null. -/
def draftIsNull : Option (Draft Tags) → Bool
  | none => true
  | some draft => draftStringIsEmpty draft.textWithTags.text && draft.msgId = 0

def draftsAreEqual [DecidableEq Tags] (a b : Option (Draft Tags)) : Bool :=
  if draftIsNull a then draftIsNull b
  else if draftIsNull b then false
  else
    match a, b with
    | some a, some b =>
      a.textWithTags.text.units = b.textWithTags.text.units &&
        a.textWithTags.tags = b.textWithTags.tags && a.msgId = b.msgId &&
        a.previewState = b.previewState
    | _, _ => false

def enumerateDrafts [DecidableEq Tags] (map : HistoryDrafts Tags)
    (cloudDraft : Option (Draft Tags)) (supportMode : Bool)
    (sources : FlatMap DraftKey (MessageDraftSource Tags)) : List (DraftKey × Draft Tags) :=
  (map.entries.filter fun entry =>
      !(entry.1 = .Cloud || sources.contains entry.1) &&
        !(entry.1 = .Local && !supportMode && draftsAreEqual (some entry.2) cloudDraft)) ++
    sources.entries.filterMap fun entry =>
      let source := entry.2
      if source.msgId ≠ 0 ∨ ¬source.textWithTags.text.isEmpty ∨ source.cursor ≠ {} then
        some (entry.1, {
          textWithTags := source.textWithTags
          msgId := source.msgId
          cursor := source.cursor
          previewState := source.previewState })
      else none

abbrev FileKey := UInt64

/-- A file of the account: the version of its writer and its data. -/
structure StoredFile where
  version : Int32
  data : Bytes

/-- The drafts of an account on the disk, with the fields that are being edited. -/
structure Account (Tags : Type*) where
  draftSources : FlatMap PeerId (FlatMap DraftKey (MessageDraftSource Tags)) := ∅
  draftsMap : FlatMap PeerId FileKey := ∅
  draftCursorsMap : FlatMap PeerId FileKey := ∅
  draftsNotReadMap : FlatMap PeerId Bool := ∅
  files : FileKey → Option StoredFile := fun _ => none

/-- A history with its drafts. -/
structure History (Tags : Type*) where
  peer : PeerId
  drafts : HistoryDrafts Tags := ∅

namespace Account

variable (account : Account Tags)

/-- The file is removed. -/
def clearKey (key : FileKey) : Account Tags :=
  { account with files := fun other => if other = key then none else account.files other }

def appVersion : Int32 := 4002004

/-- The file is written. -/
def writeEncrypted (key : FileKey) (data : Bytes) : Account Tags :=
  { account with
    files := fun other => if other = key then some ⟨appVersion, data⟩ else account.files other }

/-- An account that was closed and is read again. -/
def start : Account Tags where
  draftsMap := account.draftsMap
  draftCursorsMap := account.draftCursorsMap
  draftsNotReadMap := (∅ : FlatMap PeerId Bool).emplaceAll
    (account.draftsMap.entries.map fun entry => (entry.1, true))
  files := account.files

def clearDraftCursors (peerId : PeerId) : Account Tags :=
  match account.draftCursorsMap.find? peerId with
  | none => account
  | some key =>
    { account.clearKey key with draftCursorsMap := account.draftCursorsMap.erase peerId }

def clearDrafts (peerId : PeerId) : Account Tags :=
  match account.draftsMap.find? peerId with
  | none => account
  | some key => { account.clearKey key with draftsMap := account.draftsMap.erase peerId }

def multiDraftTagOld : UInt64 := 0xFFFFFFFFFFFFFF01

def multiDraftCursorsTagOld : UInt64 := 0xFFFFFFFFFFFFFF02

def multiDraftTag : UInt64 := 0xFFFFFFFFFFFFFF03

def multiDraftCursorsTag : UInt64 := 0xFFFFFFFFFFFFFF04

open DataStream

/-- What all files of drafts start with. -/
def writeHeader (tag : UInt64) (peerId : PeerId) (count : Nat) : Bytes :=
  writeUInt64 tag ++ writeUInt64 (serializePeerId peerId) ++ writeUInt32 (UInt32.ofNat count)

def writeDraft (codec : TagsCodec Tags) (entry : DraftKey × Draft Tags) : Bytes :=
  writeInt64 entry.1.serialize ++ writeQString entry.2.textWithTags.text ++
    writeQByteArray (codec.serializeTags entry.2.textWithTags.tags) ++
    writeInt64 entry.2.msgId ++ writeInt32 entry.2.previewState.toInt32

def writeCursor (entry : DraftKey × Draft Tags) : Bytes :=
  writeInt64 entry.1.serialize ++ writeInt32 entry.2.cursor.position ++
    writeInt32 entry.2.cursor.anchor ++ writeInt32 entry.2.cursor.scroll

variable [DecidableEq Tags]

/-- The drafts of a history that are written. -/
def enumerated (supportMode : Bool) (history : History Tags) : List (DraftKey × Draft Tags) :=
  enumerateDrafts history.drafts (history.drafts.find? .Cloud) supportMode
    ((account.draftSources.find? history.peer).getD ∅)

def writeDrafts (codec : TagsCodec Tags) (supportMode : Bool) (generated : FileKey)
    (history : History Tags) : Account Tags :=
  let peerId := history.peer
  let drafts := account.enumerated supportMode history
  let written :=
    if drafts = [] then account.clearDrafts peerId
    else
      let key := (account.draftsMap.find? peerId).getD generated
      let data := writeHeader multiDraftTag peerId drafts.length ++
        drafts.flatMap (writeDraft codec)
      { account.writeEncrypted key data with draftsMap := account.draftsMap.emplace peerId key }
  { written with draftsNotReadMap := written.draftsNotReadMap.erase peerId }

def writeDraftCursors (supportMode : Bool) (generated : FileKey) (history : History Tags) :
    Account Tags :=
  let peerId := history.peer
  let drafts := account.enumerated supportMode history
  if drafts = [] then account.clearDraftCursors peerId
  else
    let key := (account.draftCursorsMap.find? peerId).getD generated
    let data := writeHeader multiDraftCursorsTag peerId drafts.length ++
      drafts.flatMap writeCursor
    { account.writeEncrypted key data with
      draftCursorsMap := account.draftCursorsMap.emplace peerId key }

omit [DecidableEq Tags]

/-- A draft as it stands in the file of several drafts. -/
structure DraftRecord where
  key : Int64
  text : QString
  tagsSerialized : QByteArray
  messageId : Int32
  uncheckedPreviewState : Int32

def DraftRecord.draftKey (record : DraftRecord) : DraftKey := .fromSerialized record.key

def DraftRecord.draft (codec : TagsCodec Tags) (record : DraftRecord) : Draft Tags where
  textWithTags := {
    text := record.text
    tags := codec.deserializeTags record.tagsSerialized record.text.units.length }
  msgId := record.messageId.toInt64
  cursor := {}
  previewState := .ofUnchecked record.uncheckedPreviewState

/-- The key of a draft; the old form has half the size. -/
def readKey (keysOld : Bool) (stream : DataStream) : Int64 × DataStream :=
  if keysOld then
    ((DraftKey.fromSerializedOld stream.readInt32.1).serialize, stream.readInt32.2)
  else stream.readInt64

def readDraftRecord (keysOld : Bool) (stream : DataStream) : DraftRecord × DataStream :=
  let (key, stream) := readKey keysOld stream
  let (text, stream) := stream.readQString
  let (tagsSerialized, stream) := stream.readQByteArray
  let (messageId, stream) := stream.readInt32
  let (uncheckedPreviewState, stream) := stream.readInt32
  (⟨key, text, tagsSerialized, messageId, uncheckedPreviewState⟩, stream)

/-- A record is added under its key, unless the key is not taken. -/
def addRecord (codec : TagsCodec Tags) (map : HistoryDrafts Tags) (record : DraftRecord) :
    HistoryDrafts Tags :=
  if record.draftKey.IsRead then map.emplace record.draftKey (record.draft codec) else map

def readDraftRecords (codec : TagsCodec Tags) (keysOld : Bool) :
    Nat → HistoryDrafts Tags → DataStream → HistoryDrafts Tags × DataStream
  | 0, map, stream => (map, stream)
  | count + 1, map, stream =>
    let (record, stream) := readDraftRecord keysOld stream
    readDraftRecords codec keysOld count (addRecord codec map record) stream

/-- The draft of the key gets its cursor. -/
def setCursor (key : DraftKey) (cursor : MessageCursor) (map : HistoryDrafts Tags) :
    HistoryDrafts Tags :=
  match map.find? key with
  | none => map
  | some draft => map.set key { draft with cursor := cursor }

def readCursor (stream : DataStream) : MessageCursor × DataStream :=
  let (position, stream) := stream.readInt32
  let (anchor, stream) := stream.readInt32
  let (scroll, stream) := stream.readInt32
  (⟨position, anchor, scroll⟩, stream)

def readCursorKey (tag : UInt64) (stream : DataStream) : DraftKey × DataStream :=
  if tag = multiDraftCursorsTag then (.fromSerialized stream.readInt64.1, stream.readInt64.2)
  else if tag = multiDraftCursorsTagOld then
    (.fromSerializedOld stream.readInt32.1, stream.readInt32.2)
  else (.Local, stream)

/-- Cursors are given to the drafts as long as there are some. -/
def readCursors (tag : UInt64) : Nat → HistoryDrafts Tags → DataStream → HistoryDrafts Tags
  | 0, map, _ => map
  | count + 1, map, stream =>
    let (key, stream) := readCursorKey tag stream
    let (cursor, stream) := readCursor stream
    readCursors tag count (setCursor key cursor map) stream

def readDraftCursorsLegacy (peerId : PeerId) (stream : DataStream)
    (draftPeerSerialized : UInt64) (map : HistoryDrafts Tags) :
    Account Tags × HistoryDrafts Tags :=
  let (localCursor, stream) := readCursor stream
  let edit : MessageCursor := if stream.atEnd then {} else (readCursor stream).1
  if deserializePeerId draftPeerSerialized ≠ peerId.value then
    (account.clearDraftCursors peerId, map)
  else (account, setCursor .LocalEdit edit (setCursor .Local localCursor map))

def readDraftCursors (peerId : PeerId) (map : HistoryDrafts Tags) :
    Account Tags × HistoryDrafts Tags :=
  match account.draftCursorsMap.find? peerId with
  | none => (account, map)
  | some key =>
    match account.files key with
    | none => (account.clearDraftCursors peerId, map)
    | some file =>
      let (tag, stream) := DataStream.readUInt64 { rest := file.data }
      if tag ≠ multiDraftCursorsTag ∧ tag ≠ multiDraftCursorsTagOld ∧
          tag ≠ multiDraftTagOld then
        account.readDraftCursorsLegacy peerId stream tag map
      else
        let (draftPeerSerialized, stream) := stream.readUInt64
        let (count, stream) := stream.readUInt32
        if count = 0 ∨ count > 1000 ∨
            deserializePeerId draftPeerSerialized ≠ peerId.value then
          (account.clearDraftCursors peerId, map)
        else (account, readCursors tag count.toNat map stream)

/-- A draft as the old file of a peer holds it. -/
structure LegacyDraft where
  text : QString := .null
  tagsSerialized : QByteArray := .null
  msgId : Int32 := 0
  previewCancelled : Int32 := 0

/-- The draft of an old file. -/
def LegacyDraft.draft (codec : TagsCodec Tags) (legacy : LegacyDraft) : Draft Tags where
  textWithTags := {
    text := legacy.text
    tags := codec.deserializeTags legacy.tagsSerialized legacy.text.units.length }
  msgId := legacy.msgId.toInt64
  cursor := {}
  previewState := if legacy.previewCancelled ≠ 0 then .Cancelled else .Allowed

def readLegacyDrafts (version : Int32) (stream : DataStream) : LegacyDraft × LegacyDraft :=
  let (text, stream) := stream.readQString
  let (tags, stream) :=
    if version ≥ 9048 then stream.readQByteArray else (.null, stream)
  if version < 7021 then ({ text := text, tagsSerialized := tags }, {})
  else
    let (replyTo, stream) := stream.readInt32
    if version < 8001 then ({ text := text, tagsSerialized := tags, msgId := replyTo }, {})
    else
      let (previewCancelled, stream) := stream.readInt32
      let message : LegacyDraft := ⟨text, tags, replyTo, previewCancelled⟩
      if stream.atEnd then (message, {})
      else
        let (editText, stream) := stream.readQString
        let (editTags, stream) :=
          if version ≥ 9048 then stream.readQByteArray else (.null, stream)
        let (editMsgId, stream) := stream.readInt32
        (message, ⟨editText, editTags, editMsgId, stream.readInt32.1⟩)

def readDraftsWithCursorsLegacy (codec : TagsCodec Tags) (peerId : PeerId) (version : Int32)
    (stream : DataStream) (draftPeerSerialized : UInt64) :
    Account Tags × Option (HistoryDrafts Tags) :=
  let (message, edit) := readLegacyDrafts version stream
  if deserializePeerId draftPeerSerialized ≠ peerId.value then
    ((account.clearDrafts peerId).clearDraftCursors peerId, none)
  else
    let map : HistoryDrafts Tags :=
      if ¬message.text.isEmpty ∨ message.msgId ≠ 0 then
        (∅ : HistoryDrafts Tags).emplace .Local (message.draft codec)
      else ∅
    let map := if edit.msgId ≠ 0 then map.emplace .LocalEdit (edit.draft codec) else map
    let (account, map) := account.readDraftCursors peerId map
    (account, some map)

/-- `readDraftsWithCursors` but for the history that the drafts are given to and the
history it migrated from. -/
def readDrafts (codec : TagsCodec Tags) (peerId : PeerId) :
    Account Tags × Option (HistoryDrafts Tags) :=
  let notRead := account.draftsNotReadMap.contains peerId
  let account := { account with draftsNotReadMap := account.draftsNotReadMap.erase peerId }
  let failed := ((account.clearDrafts peerId).clearDraftCursors peerId, none)
  if !notRead then (account.clearDraftCursors peerId, none)
  else
    match account.draftsMap.find? peerId with
    | none => (account.clearDraftCursors peerId, none)
    | some key =>
      match account.files key with
      | none => failed
      | some file =>
        let (tag, stream) := DataStream.readUInt64 { rest := file.data }
        if tag ≠ multiDraftTag ∧ tag ≠ multiDraftTagOld then
          account.readDraftsWithCursorsLegacy codec peerId file.version stream tag
        else
          let (draftPeerSerialized, stream) := stream.readUInt64
          let (count, stream) := stream.readUInt32
          if count = 0 ∨ count > 1000 ∨
              deserializePeerId draftPeerSerialized ≠ peerId.value then failed
          else
            let (map, stream) :=
              readDraftRecords codec (tag = multiDraftTagOld) count.toNat ∅ stream
            if !stream.ok then failed
            else
              let (account, map) := account.readDraftCursors peerId map
              (account, some map)

end Account

namespace History

variable (history : History Tags)

def setDraftsMap (map : HistoryDrafts Tags) : History Tags :=
  { history with
    drafts := history.drafts.entries.foldl (fun map entry => map.set entry.1 entry.2) map }

/-- The draft that is taken from the history this one migrated from. -/
def takenDraft (source : History Tags) : Option (Draft Tags) :=
  match source.drafts.find? .Local with
  | none => none
  | some draft => if draft.textWithTags.text.isEmpty then none else some { draft with msgId := 0 }

def takeLocalDraft (source : History Tags) : History Tags × History Tags :=
  match source.drafts.find? .Local with
  | none => (history, source)
  | some _ =>
    (match source.takenDraft with
      | none => history
      | some draft =>
        if history.drafts.contains .Local then history
        else { history with drafts := history.drafts.set .Local draft },
      { source with drafts := source.drafts.erase .Local })

def clearLocalEditDraft : History Tags :=
  { history with drafts := history.drafts.erase .LocalEdit }

/-- What `readDraftsWithCursors` does with a history that did not migrate. -/
def readOwnDrafts (codec : TagsCodec Tags) (account : Account Tags) :
    Account Tags × History Tags :=
  let (account, map) := account.readDrafts codec history.peer
  match map with
  | none => (account, history)
  | some map => (account, history.setDraftsMap map)

end History

/-- The history a history migrated from did not migrate itself. -/
def Account.readDraftsWithCursors (codec : TagsCodec Tags) (account : Account Tags)
    (history : History Tags) (migrateFrom : Option (History Tags)) :
    Account Tags × History Tags × Option (History Tags) :=
  let (account, history) := history.readOwnDrafts codec account
  match migrateFrom with
  | none => (account, history, none)
  | some migrated =>
    let (account, migrated) := migrated.readOwnDrafts codec account
    let (history, migrated) := history.takeLocalDraft migrated.clearLocalEditDraft
    (account, history, some migrated)

end TelegramDesktop.Drafts
