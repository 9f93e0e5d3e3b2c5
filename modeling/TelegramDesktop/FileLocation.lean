import TelegramDesktop.Drafts
import TelegramDesktop.StorageFileLocation

/-!
# Stored file locations

A `StorageFileLocation` with all of its fields is kept in local storage, as in
`ui/image/image_location.cpp`.  Bits of the type byte tell how the fields behind
it are read, and two of these fields hold a peer where there is no local id.
-/

namespace TelegramDesktop

open StorageFileLocation (LocationType)
open Drafts (peerFromUser peerFromChat peerFromChannel deserializePeerId)

/-- All fields of a `StorageFileLocation`.  The place of the local id is also that of
the peer of a message, and only old thumbnails of sticker sets have a volume. -/
structure FileLocation extends StorageFileLocation where
  inMessagePeerId : UInt64 := 0
  inMessageId : UInt32 := 0
  fileReference : QByteArray := .null
  no_localId : inMessagePeerId ≠ 0 → localId = 0 := by decide
  no_volumeId : type = .stickerSetThumb → volumeId = 0 := by decide

namespace FileLocation

/-- A peer in the form of a request, possibly known from a message only. -/
inductive InputPeer
  | empty
  | self
  | chat (chatId : UInt64)
  | user (userId accessHash : UInt64)
  | channel (channelId accessHash : UInt64)
  | userFromMessage (peer : InputPeer) (msgId : Int32) (userId : UInt64)
  | channelFromMessage (peer : InputPeer) (msgId : Int32) (channelId : UInt64)

/-- A set of stickers in the form of a request. -/
inductive InputStickerSet
  | empty
  | id (id accessHash : UInt64)
  /-- All the other ones, which are not expected. -/
  | other

/-- A location in the form of a request. -/
inductive InputFileLocation
  | file (volumeId : UInt64) (localId : Int32) (secret : UInt64) (fileReference : QByteArray)
  | encrypted (id accessHash : UInt64)
  | document (id accessHash : UInt64) (fileReference thumbSize : QByteArray)
  | secure (id accessHash : UInt64)
  | takeout
  | photo (id accessHash : UInt64) (fileReference thumbSize : QByteArray)
  | photoLegacy (id accessHash : UInt64) (fileReference : QByteArray) (volumeId : UInt64)
      (localId : Int32) (secret : UInt64)
  | peerPhoto (big : Bool) (peer : InputPeer) (photoId : UInt64)
  | stickerSetThumb (stickerset : InputStickerSet) (thumbVersion : Int32)
  | groupCallStream (id accessHash timeMs : UInt64) (scale : Int32)
      (videoChannel videoQuality : Option Int32)

/-- The id and the access hash of a peer.  A message in a message is bad data. -/
def fillPeer (self : UInt64) : InputPeer → UInt64 × UInt64
  | .empty => (0, 0)
  | .self => (peerFromUser self, 0)
  | .chat chatId => (peerFromChat chatId, 0)
  | .user userId accessHash => (peerFromUser userId, accessHash)
  | .channel channelId accessHash => (peerFromChannel channelId, accessHash)
  | .userFromMessage .. | .channelFromMessage .. => (0, 0)

/-- The peer of the photo, the peer of the message and the message. -/
def photoPeer (self : UInt64) : InputPeer → (UInt64 × UInt64) × UInt64 × Int32
  | .userFromMessage peer msgId userId => (fillPeer self peer, peerFromUser userId, msgId)
  | .channelFromMessage peer msgId channelId =>
    (fillPeer self peer, peerFromChannel channelId, msgId)
  | peer => (fillPeer self peer, 0, 0)

/-- The first letter of a size, zero where there is none. -/
def letterOf (thumbSize : QByteArray) : UInt8 := ((thumbSize.data.getD []).head?).getD 0

/-- `StorageFileLocation(dcId, self, tl)`, if the set of stickers is an expected one. -/
def ofTl (dcId : Int32) (self : UInt64) : InputFileLocation → Option FileLocation
  | .file volumeId localId secret fileReference
  | .photoLegacy _ _ fileReference volumeId localId secret =>
    some {
      dcId := dcId.toUInt32.toUInt16
      type := .legacy
      volumeId := volumeId
      localId := localId
      accessHash := secret
      fileReference := fileReference
      no_localId := fun peer => absurd rfl peer
      no_volumeId := fun thumb => nomatch thumb }
  | .encrypted id accessHash =>
    some {
      dcId := dcId.toUInt32.toUInt16
      type := .encrypted
      id := id
      accessHash := accessHash }
  | .document id accessHash fileReference thumbSize =>
    some {
      dcId := dcId.toUInt32.toUInt16
      type := .document
      id := id
      accessHash := accessHash
      fileReference := fileReference
      sizeLetter := letterOf thumbSize }
  | .secure id accessHash =>
    some {
      dcId := dcId.toUInt32.toUInt16
      type := .secure
      id := id
      accessHash := accessHash }
  | .takeout => some { dcId := dcId.toUInt32.toUInt16, type := .takeout }
  | .photo id accessHash fileReference thumbSize =>
    some {
      dcId := dcId.toUInt32.toUInt16
      type := .photo
      id := id
      accessHash := accessHash
      fileReference := fileReference
      sizeLetter := letterOf thumbSize }
  | .peerPhoto big peer photoId =>
    let ((id, accessHash), inMessagePeerId, inMessageId) := photoPeer self peer
    some {
      dcId := dcId.toUInt32.toUInt16
      type := .peerPhoto
      id := id
      accessHash := accessHash
      inMessagePeerId := inMessagePeerId
      inMessageId := inMessageId.toUInt32
      volumeId := photoId
      sizeLetter := if big then 99 else 97
      no_localId := fun _ => rfl
      no_volumeId := fun thumb => nomatch thumb }
  | .stickerSetThumb .empty thumbVersion =>
    some {
      dcId := dcId.toUInt32.toUInt16
      type := .stickerSetThumb
      localId := thumbVersion
      no_localId := fun peer => absurd rfl peer }
  | .stickerSetThumb (.id id accessHash) thumbVersion =>
    some {
      dcId := dcId.toUInt32.toUInt16
      type := .stickerSetThumb
      id := id
      accessHash := accessHash
      localId := thumbVersion
      no_localId := fun peer => absurd rfl peer }
  | .stickerSetThumb .other _ => none
  | .groupCallStream id accessHash timeMs scale videoChannel videoQuality =>
    some {
      dcId := dcId.toUInt32.toUInt16
      type := .groupCallStream
      id := id
      accessHash := accessHash
      volumeId := timeMs
      localId := scale
      sizeLetter := ((videoChannel.getD 0) &&& 0x3F).toUInt32.toUInt8 |||
        (((videoQuality.getD 0) &&& 0x03) <<< 6).toUInt32.toUInt8
      no_localId := fun peer => absurd rfl peer
      no_volumeId := fun thumb => nomatch thumb }

def convertToModernPeerPhoto (location : FileLocation) (id accessHash photoId : UInt64) :
    FileLocation :=
  if location.type ≠ .legacy ∧ location.type ≠ .peerPhoto then location
  else if photoId = 0 then {}
  else
    { location with
      type := .peerPhoto
      id := id
      accessHash := accessHash
      sizeLetter := 97
      volumeId := photoId
      localId := 0
      inMessagePeerId := 0
      inMessageId := 0
      no_localId := fun _ => rfl
      no_volumeId := fun thumb => nomatch thumb }

instance : Inhabited FileLocation := ⟨{}⟩

def nonStorageLocationToken : UInt8 := 0x10

def legacyInMessagePeerIdFlag : UInt8 := 0x08

def modernLocationFlag : UInt8 := 0x20

def inMessageFieldsFlag : UInt8 := 0x40

/-- `quint8(_type)` -/
def byteOf (type : LocationType) : UInt8 := type.value.toUInt8

def typeOf (byte : UInt8) : Option LocationType :=
  match byte with
  | 0 => some .legacy
  | 1 => some .encrypted
  | 2 => some .document
  | 3 => some .secure
  | 4 => some .takeout
  | 5 => some .photo
  | 6 => some .peerPhoto
  | 7 => some .stickerSetThumb
  | 8 => some .groupCallStream
  | _ => none

variable (location : FileLocation)

/-- The type with its flags, in one byte. -/
def typeWithFlags : UInt8 :=
  let typeWithFlags := byteOf location.type ||| modernLocationFlag
  if location.inMessagePeerId ≠ 0 then typeWithFlags ||| inMessageFieldsFlag else typeWithFlags

/-- The first field, for a message the upper half of its peer. -/
def field1 : Int32 :=
  if location.inMessagePeerId ≠ 0 then (location.inMessagePeerId >>> 32).toUInt32.toInt32
  else location.localId

/-- The second field, for a message the lower half of its peer. -/
def field2 : Int32 :=
  if location.inMessagePeerId ≠ 0 then
    (location.inMessagePeerId &&& 0xFFFFFFFF).toUInt32.toInt32
  else 0

/-- The assertions that are checked while a location is written. -/
def Asserted : Prop :=
  byteOf location.type &&& modernLocationFlag = 0 ∧
    byteOf location.type &&& inMessageFieldsFlag = 0 ∧
    (location.inMessagePeerId ≠ 0 → location.localId = 0) ∧
    location.typeWithFlags ≠ nonStorageLocationToken

/-- The bytes of a location. -/
def written : Bytes :=
  DataStream.writeUInt16 location.dcId ++ DataStream.writeUInt8 location.typeWithFlags ++
    DataStream.writeUInt8 location.sizeLetter ++ DataStream.writeInt32 location.field1 ++
    DataStream.writeUInt64 location.id ++ DataStream.writeUInt64 location.accessHash ++
    DataStream.writeUInt64 location.volumeId ++ DataStream.writeInt32 location.field2 ++
    DataStream.writeInt32 location.inMessageId.toInt32 ++
    DataStream.writeQByteArray location.fileReference

def serialize : Bytes := if location.valid then location.written else []

/-- `Serialize::bytearraySize` -/
def bytearraySize (array : QByteArray) : Nat := 4 + (array.data.getD []).length

def serializeSize : Nat :=
  if location.valid then 8 * 5 + bytearraySize location.fileReference else 0

/-- The local id and the peer of the message, which have one place. -/
def fieldsOf (modern inMessageFields : Bool) (type : LocationType) (field1 field2 : Int32) :
    Int32 × UInt64 :=
  if modern then
    if inMessageFields then
      (0, (field1.toUInt32.toUInt64 <<< 32) ||| field2.toUInt32.toUInt64)
    else (field1, 0)
  else if type = .peerPhoto then
    (0, if field2 = 0 then 0
      else if field2 > 0 then peerFromUser field2.toUInt32.toUInt64
      else peerFromChannel (-field2).toInt64.toUInt64)
  else (field1, 0)

theorem fieldsOf_apart (modern inMessageFields : Bool) (type : LocationType)
    (field1 field2 : Int32) :
    (fieldsOf modern inMessageFields type field1 field2).2 ≠ 0 →
      (fieldsOf modern inMessageFields type field1 field2).1 = 0 := by
  intro peer
  unfold fieldsOf at peer ⊢
  split
  · split
    · rfl
    next modern fields =>
      rw [if_pos modern, if_neg fields] at peer
      exact absurd rfl peer
  · split
    · rfl
    next legacy other =>
      rw [if_neg legacy, if_neg other] at peer
      exact absurd rfl peer

/-- The type in the byte. -/
def withoutFlags (typeWithFlags : UInt8) : UInt8 :=
  if typeWithFlags &&& modernLocationFlag ≠ 0 then
    if typeWithFlags &&& inMessageFieldsFlag ≠ 0 then
      typeWithFlags &&& ~~~modernLocationFlag &&& ~~~inMessageFieldsFlag
    else typeWithFlags &&& ~~~modernLocationFlag
  else if typeWithFlags &&& legacyInMessagePeerIdFlag ≠ 0 then
    typeWithFlags &&& ~~~legacyInMessagePeerIdFlag
  else typeWithFlags

/-- The second field and the message, which old locations may lack. -/
def readInMessage (typeWithFlags : UInt8) (stream : DataStream) : (Int32 × Int32) × DataStream :=
  if typeWithFlags &&& modernLocationFlag ≠ 0 ∨
      typeWithFlags &&& legacyInMessagePeerIdFlag ≠ 0 then
    let (field2, stream) := stream.readInt32
    let (inMessageId, stream) := stream.readInt32
    ((field2, inMessageId), stream)
  else ((0, 0), stream)

def fromSerialized (serialized : Bytes) : Option FileLocation :=
  if serialized.isEmpty then some {}
  else
    let (dcId, stream) := DataStream.readUInt16 { rest := serialized }
    let (typeWithFlags, stream) := stream.readUInt8
    if typeWithFlags = nonStorageLocationToken then none
    else
      let (sizeLetter, stream) := stream.readUInt8
      let (field1, stream) := stream.readInt32
      let (id, stream) := stream.readUInt64
      let (accessHash, stream) := stream.readUInt64
      let (volumeId, stream) := stream.readUInt64
      let modern : Bool := typeWithFlags &&& modernLocationFlag ≠ 0
      let inMessageFields : Bool := typeWithFlags &&& inMessageFieldsFlag ≠ 0
      let ((field2, inMessageId), stream) := readInMessage typeWithFlags stream
      let (fileReference, stream) := stream.readQByteArray
      -- A location of any other type is not valid.
      match typeOf (withoutFlags typeWithFlags) with
      | none => none
      | some type =>
        if legacyThumb : type = .stickerSetThumb ∧ volumeId ≠ 0 then none
        else
          let result : FileLocation := {
            dcId := dcId
            type := type
            sizeLetter := sizeLetter
            localId := (fieldsOf modern inMessageFields type field1 field2).1
            id := if !modern && type = .peerPhoto then deserializePeerId id else id
            accessHash := accessHash
            volumeId := volumeId
            inMessagePeerId := (fieldsOf modern inMessageFields type field1 field2).2
            inMessageId := inMessageId.toUInt32
            fileReference := fileReference
            no_localId := fieldsOf_apart modern inMessageFields type field1 field2
            no_volumeId := fun thumb => not_not.mp fun volume => legacyThumb ⟨thumb, volume⟩ }
          if stream.ok && result.valid then some result else none

@[simp] theorem typeOf_byteOf (type : LocationType) : typeOf (byteOf type) = some type := by
  cases type <;> rfl

theorem byte_flags (type : LocationType) :
    byteOf type &&& modernLocationFlag = 0 ∧ byteOf type &&& inMessageFieldsFlag = 0 ∧
      (byteOf type ||| modernLocationFlag) &&& modernLocationFlag ≠ 0 ∧
      (byteOf type ||| modernLocationFlag) &&& inMessageFieldsFlag = 0 ∧
      (byteOf type ||| modernLocationFlag) &&& ~~~modernLocationFlag = byteOf type ∧
      byteOf type ||| modernLocationFlag ≠ nonStorageLocationToken := by
  cases type <;> decide

theorem byte_inMessage_flags (type : LocationType) :
    (byteOf type ||| modernLocationFlag ||| inMessageFieldsFlag) &&& modernLocationFlag ≠ 0 ∧
      (byteOf type ||| modernLocationFlag ||| inMessageFieldsFlag) &&& inMessageFieldsFlag ≠ 0 ∧
      (byteOf type ||| modernLocationFlag ||| inMessageFieldsFlag) &&& ~~~modernLocationFlag &&&
        ~~~inMessageFieldsFlag = byteOf type ∧
      byteOf type ||| modernLocationFlag ||| inMessageFieldsFlag ≠ nonStorageLocationToken := by
  cases type <;> decide

theorem typeWithFlags_ne_token : location.typeWithFlags ≠ nonStorageLocationToken := by
  unfold typeWithFlags
  split
  · exact (byte_inMessage_flags location.type).2.2.2
  · exact (byte_flags location.type).2.2.2.2.2

theorem asserted : location.Asserted :=
  ⟨(byte_flags location.type).1, (byte_flags location.type).2.1, location.no_localId,
    location.typeWithFlags_ne_token⟩

theorem typeWithFlags_modern : location.typeWithFlags &&& modernLocationFlag ≠ 0 := by
  unfold typeWithFlags
  split
  · exact (byte_inMessage_flags location.type).1
  · exact (byte_flags location.type).2.2.1

theorem typeWithFlags_inMessage :
    location.typeWithFlags &&& inMessageFieldsFlag ≠ 0 ↔ location.inMessagePeerId ≠ 0 := by
  unfold typeWithFlags
  split
  next peer =>
    exact iff_of_true (byte_inMessage_flags location.type).2.1 peer
  next none =>
    exact iff_of_false (not_not.mpr (byte_flags location.type).2.2.2.1) none

theorem withoutFlags_typeWithFlags :
    withoutFlags location.typeWithFlags = byteOf location.type := by
  rw [withoutFlags, if_pos location.typeWithFlags_modern]
  split
  next fields =>
    rw [typeWithFlags, if_pos (location.typeWithFlags_inMessage.mp fields)]
    exact (byte_inMessage_flags location.type).2.2.1
  next noFields =>
    rw [typeWithFlags, if_neg (mt location.typeWithFlags_inMessage.mpr noFields)]
    exact (byte_flags location.type).2.2.2.2.1

theorem readInMessage_write (field2 inMessageId : Int32) (rest : Bytes) (ok : Bool) :
    readInMessage location.typeWithFlags
        ⟨DataStream.writeInt32 field2 ++ (DataStream.writeInt32 inMessageId ++ rest), ok⟩ =
      ((field2, inMessageId), ⟨rest, ok⟩) := by
  rw [readInMessage, if_pos (.inl location.typeWithFlags_modern)]
  simp

theorem halves (word : UInt64) :
    (word >>> 32).toUInt32.toUInt64 <<< 32 ||| (word &&& 0xFFFFFFFF).toUInt32.toUInt64 = word := by
  have size := word.toNat_lt
  have shift : (32 : UInt64).toNat % 64 = 32 := rfl
  have mask : (0xFFFFFFFF : UInt64).toNat = 2 ^ 32 - 1 := rfl
  have upper : ((word >>> 32).toUInt32.toUInt64 <<< 32).toNat = word.toNat / 2 ^ 32 * 2 ^ 32 := by
    rw [UInt64.toNat_shiftLeft, shift, Nat.shiftLeft_eq, UInt32.toNat_toUInt64,
      UInt64.toNat_toUInt32, UInt64.toNat_shiftRight, shift, Nat.shiftRight_eq_div_pow]
    omega
  have lower : (word &&& 0xFFFFFFFF).toUInt32.toUInt64.toNat = word.toNat % 2 ^ 32 := by
    rw [UInt32.toNat_toUInt64, UInt64.toNat_toUInt32, UInt64.toNat_and, mask,
      Nat.and_two_pow_sub_one_eq_mod, Nat.mod_mod]
  apply UInt64.toNat_inj.mp
  rw [UInt64.toNat_or, upper, lower, ← Nat.shiftLeft_eq,
    ← Nat.shiftLeft_add_eq_or_of_lt (Nat.mod_lt _ (by decide)), Nat.shiftLeft_eq]
  omega

theorem fieldsOf_fields :
    fieldsOf true (location.inMessagePeerId ≠ 0) location.type location.field1 location.field2 =
      (location.localId, location.inMessagePeerId) := by
  by_cases peer : location.inMessagePeerId ≠ 0
  · rw [fieldsOf, if_pos rfl, if_pos (by simpa using peer), field1, field2, if_pos peer,
      if_pos peer, UInt32.toUInt32_toInt32, UInt32.toUInt32_toInt32, halves,
      location.no_localId peer]
  · rw [fieldsOf, if_pos rfl, if_neg (by simpa using peer), field1, if_neg peer, not_not.mp peer]

open DataStream in
theorem length_writeQByteArray (array : QByteArray) :
    (writeQByteArray array).length = bytearraySize array := by
  unfold writeQByteArray bytearraySize
  cases array.data with
  | none => exact length_writeUInt32 _
  | some data => rw [writeByteArray, List.length_append, length_writeSize, Option.getD_some]

open DataStream in
theorem length_written :
    location.written.length = 8 * 5 + bytearraySize location.fileReference := by
  unfold written writeUInt8
  simp only [List.length_append, length_writeUInt16, length_writeUInt64, length_writeInt32,
    length_writeQByteArray, List.length_singleton]

/-- `serializeSize` is the number of bytes that are written. -/
theorem serializeSize_eq : location.serializeSize = location.serialize.length := by
  unfold serializeSize serialize
  split
  · exact location.length_written.symm
  · rfl

theorem written_ne_nil : location.written ≠ [] := by
  intro empty
  have length := location.length_written
  rw [empty, List.length_nil] at length
  omega

open DataStream in
theorem fromSerialized_written (isValid : location.valid = true) (rest : Bytes) :
    fromSerialized (location.written ++ rest) = some location := by
  have some : (location.written ++ rest).isEmpty = false := by
    simp [location.written_ne_nil]
  unfold fromSerialized
  rw [some, if_neg Bool.false_ne_true]
  have modern : decide (location.typeWithFlags &&& modernLocationFlag ≠ 0) = true :=
    decide_eq_true location.typeWithFlags_modern
  have inMessage : decide (location.typeWithFlags &&& inMessageFieldsFlag ≠ 0) =
      decide (location.inMessagePeerId ≠ 0) := decide_eq_decide.mpr location.typeWithFlags_inMessage
  have fields := location.fieldsOf_fields
  unfold written
  simp only [List.append_assoc, readUInt16_write, readUInt8_write, readInt32_write,
    exact_uint64.read_write, if_neg location.typeWithFlags_ne_token, modern, inMessage,
    readInMessage_write, exact_qByteArray.read_write, withoutFlags_typeWithFlags, typeOf_byteOf]
  have noThumb : ¬(location.type = .stickerSetThumb ∧ location.volumeId ≠ 0) :=
    fun thumb => thumb.2 (location.no_volumeId thumb.1)
  rw [dif_neg noThumb]
  simp only [fields, Bool.not_true, Bool.false_and, Bool.false_eq_true, if_false, Bool.true_and,
    UInt32.toUInt32_toInt32]
  exact if_pos isValid

end FileLocation

end TelegramDesktop
