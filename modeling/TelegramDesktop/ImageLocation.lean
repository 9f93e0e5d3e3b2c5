import TelegramDesktop.FileLocation

/-!
# Image locations

A `DownloadLocation` tells where a file is downloaded from, and an `ImageLocation` adds
the size of the image, as in `ui/image/image_location.cpp`.
-/

namespace TelegramDesktop

/-- The text codec, which turns text to bytes and back. -/
structure TextCodec where
  toUtf8 : QString → QByteArray
  /-- `base::FromUtf8Safe` -/
  fromUtf8Safe : QByteArray → QString

/-- The text is read as it was written. -/
def TextCodec.ReadsBack (codec : TextCodec) (text : QString) : Prop :=
  codec.fromUtf8Safe (codec.toUtf8 text) = text

def QByteArray.isEmpty (array : QByteArray) : Bool := (array.data.getD []).isEmpty

/-- The doubles are known by their bits. -/
structure GeoPointLocation where
  lat : UInt64 := 0
  lon : UInt64 := 0
  access : UInt64 := 0
  width : Int32 := 0
  height : Int32 := 0
  zoom : Int32 := 0
  scale : Int32 := 0
  deriving DecidableEq

/-- Where a file is downloaded from. -/
inductive DownloadLocation
  | storage (location : FileLocation)
  | web (url : QByteArray) (accessHash : UInt64)
  | geoPoint (location : GeoPointLocation)
  | plainUrl (url : QString)
  | audioAlbumThumb (documentId : UInt64)
  | inMemory (bytes : QByteArray)

open FileLocation (nonStorageLocationToken bytearraySize)

namespace DownloadLocation

/-- Is there anything to download from? -/
def valid : DownloadLocation → Bool
  | .geoPoint _ => true
  | .storage location => location.valid
  | .web url _ => !url.isEmpty
  | .plainUrl url => !url.isEmpty
  | .audioAlbumThumb documentId => documentId ≠ 0
  | .inMemory bytes => !bytes.isEmpty

/-- The locations that are not files of the storage, by their codes. -/
inductive NonStorageLocationType
  | web
  | geo
  | url
  | memory
  | audioAlbumThumb
  deriving DecidableEq

def NonStorageLocationType.byte : NonStorageLocationType → UInt8
  | web => 0
  | geo => 1
  | url => 2
  | memory => 3
  | audioAlbumThumb => 4

def NonStorageLocationType.ofByte (byte : UInt8) : Option NonStorageLocationType :=
  match byte with
  | 0 => some web
  | 1 => some geo
  | 2 => some url
  | 3 => some memory
  | 4 => some audioAlbumThumb
  | _ => none

section Text

variable (codec : TextCodec)

open DataStream

/-- The location in the storage, `none` where `v::get` has nothing to return. -/
def getStorage : DownloadLocation → Option FileLocation
  | .storage location => some location
  | _ => none

/-- What is written behind the token.  A location in the storage is not expected. -/
def writeNonStorage : DownloadLocation → Option Bytes
  | .storage _ => none
  | .web url accessHash =>
    some (writeUInt8 NonStorageLocationType.web.byte ++ writeQByteArray url ++
      writeUInt64 accessHash)
  | .geoPoint location =>
    some (writeUInt8 NonStorageLocationType.geo.byte ++ writeUInt64 location.lat ++
      writeUInt64 location.lon ++ writeUInt64 location.access ++ writeInt32 location.width ++
      writeInt32 location.height ++ writeInt32 location.zoom ++ writeInt32 location.scale)
  | .audioAlbumThumb documentId =>
    some (writeUInt8 NonStorageLocationType.audioAlbumThumb.byte ++ writeUInt64 documentId)
  | .plainUrl url =>
    some (writeUInt8 NonStorageLocationType.url.byte ++ writeQByteArray (codec.toUtf8 url))
  | .inMemory bytes =>
    some (writeUInt8 NonStorageLocationType.memory.byte ++ writeQByteArray bytes)

/-- The bytes of a location, none for what is not kept. -/
def serialize (location : DownloadLocation) : Option Bytes :=
  if !location.valid || location.getStorage.isSome then
    location.getStorage.map FileLocation.serialize
  else
    (location.writeNonStorage codec).map fun bytes =>
      writeUInt16 0 ++ (writeUInt8 nonStorageLocationToken ++ bytes)

/-- The size of a location outside the storage. -/
def nonStorageSize : DownloadLocation → Option Nat
  | .storage _ => none
  | .web url _ => some (bytearraySize url + 8)
  | .geoPoint _ => some (2 * 8 + 8 + 4 * 4)
  | .plainUrl url => some (bytearraySize (codec.toUtf8 url))
  | .audioAlbumThumb _ => some 8
  | .inMemory bytes => some (bytearraySize bytes)

/-- The number of bytes that `serialize` writes. -/
def serializeSize (location : DownloadLocation) : Option Nat :=
  if !location.valid || location.getStorage.isSome then
    location.getStorage.map FileLocation.serializeSize
  else (location.nonStorageSize codec).map (2 + 1 + 1 + ·)

/-- The rest of a location outside the storage. -/
def readNonStorage (type : NonStorageLocationType) (stream : DataStream) :
    DownloadLocation × DataStream :=
  match type with
  | .web =>
    let (url, stream) := stream.readQByteArray
    let (accessHash, stream) := stream.readUInt64
    (.web url accessHash, stream)
  | .geo =>
    let (lat, stream) := stream.readUInt64
    let (lon, stream) := stream.readUInt64
    let (access, stream) := stream.readUInt64
    let (width, stream) := stream.readInt32
    let (height, stream) := stream.readInt32
    let (zoom, stream) := stream.readInt32
    let (scale, stream) := stream.readInt32
    (.geoPoint ⟨lat, lon, access, width, height, zoom, scale⟩, stream)
  | .audioAlbumThumb =>
    let (id, stream) := stream.readUInt64
    (.audioAlbumThumb id, stream)
  | .url =>
    let (utf, stream) := stream.readQByteArray
    (.plainUrl (codec.fromUtf8Safe utf), stream)
  | .memory =>
    let (bytes, stream) := stream.readQByteArray
    (.inMemory bytes, stream)

/-- A location is read from its bytes. -/
def fromSerialized (serialized : Bytes) : Option DownloadLocation :=
  let (dcId, stream) := DataStream.readUInt16 { rest := serialized }
  let (token, stream) := stream.readUInt8
  if dcId ≠ 0 ∨ token ≠ nonStorageLocationToken then
    (FileLocation.fromSerialized serialized).map .storage
  else
    let (type, stream) := stream.readUInt8
    match NonStorageLocationType.ofByte type with
    | none => none
    | some type =>
      let (location, stream) := readNonStorage codec type stream
      if stream.ok then some location else none

end Text

end DownloadLocation

/-- A location, with the size of its image. -/
structure ImageLocation where
  file : DownloadLocation := .storage {}
  width : Int32 := 0
  height : Int32 := 0

namespace ImageLocation

variable (codec : TextCodec)

open DataStream

def serialize (location : ImageLocation) : Option Bytes :=
  match location.file.serialize codec with
  | none => none
  | some result =>
    if result ≠ [] ∨ location.width > 0 ∨ location.height > 0 then
      some (result ++ (writeInt32 location.width ++ writeInt32 location.height))
    else some result

def serializeSize (location : ImageLocation) : Option Nat :=
  match location.file.serializeSize codec with
  | none => none
  | some part =>
    if part > 0 ∨ location.width > 0 ∨ location.height > 0 then some (part + 2 * 4) else some 0

def fromSerialized (serialized : Bytes) : Option ImageLocation :=
  match DownloadLocation.fromSerialized codec serialized with
  | none => none
  | some file =>
    if serialized.length = 0 then some ⟨file, 0, 0⟩
    else if serialized.length ≥ 8 then
      let (width, stream) :=
        DataStream.readInt32 { rest := serialized.drop (serialized.length - 8) }
      let (height, stream) := stream.readInt32
      if stream.ok then some ⟨file, width, height⟩ else none
    else none

def kModernImageLocationTag : Int32 := Int32.minValue

/-- Either an old location or the tag of a new one. -/
def readLegacyStorageImageLocationOrTag (streamAppVersion : Nat) (stream : DataStream) :
    Option ImageLocation × DataStream :=
  let (width, stream) := stream.readInt32
  if width = kModernImageLocationTag then (none, stream)
  else
    let (height, stream) := stream.readInt32
    let (dc, stream) := stream.readInt32
    let (volume, stream) := stream.readUInt64
    let (localId, stream) := stream.readInt32
    let (secret, stream) := stream.readUInt64
    let (fileReference, stream) :=
      if streamAppVersion ≥ 1003013 then stream.readQByteArray else (.null, stream)
    if stream.ok then
      ((FileLocation.ofTl dc 0 (.file volume localId secret fileReference)).map fun file =>
        ⟨.storage file, width, height⟩, stream)
    else (none, stream)

/-- No bytes at all are a null array. -/
def writeImageLocation (location : ImageLocation) : Option Bytes :=
  (location.serialize codec).map fun result =>
    writeInt32 kModernImageLocationTag ++ writeByteArray (if result = [] then none else some result)

/-- A location of any version is read from a stream. -/
def readImageLocation (streamAppVersion : Nat) (stream : DataStream) :
    Option ImageLocation × DataStream :=
  match readLegacyStorageImageLocationOrTag streamAppVersion stream with
  | (some legacy, stream) => (some legacy, stream)
  | (none, stream) =>
    let (serialized, stream) := stream.readQByteArray
    (if stream.ok then fromSerialized codec (serialized.data.getD []) else none, stream)

end ImageLocation

end TelegramDesktop
