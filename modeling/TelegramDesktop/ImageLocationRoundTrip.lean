import TelegramDesktop.ImageLocation

/-!
# Image locations come back

A location that is written in local storage is read back, if it is a valid one.
-/

namespace TelegramDesktop

open DataStream List Option
open FileLocation (nonStorageLocationToken bytearraySize length_writeQByteArray)

theorem length_readUInt16_le (stream : DataStream) :
    stream.readUInt16.2.rest.length ≤ stream.rest.length := by
  unfold readUInt16
  split
  · exact Nat.zero_le _
  · dsimp only
    rw [length_drop]
    omega

theorem length_readUInt8_le (stream : DataStream) :
    stream.readUInt8.2.rest.length ≤ stream.rest.length := by
  unfold readUInt8
  split
  · exact Nat.zero_le _
  next byte rest bytes =>
    rw [bytes]
    exact Nat.le_succ _

theorem ok_of_readInt32 {stream : DataStream} (readOk : stream.readInt32.2.ok = true) :
    stream.ok = true :=
  (exact_int32.write_read stream readOk).1

theorem length_of_readVolume {stream : DataStream}
    (readOk : stream.readInt32.2.readUInt64.2.readUInt64.2.readUInt64.2.ok = true) :
    28 ≤ stream.rest.length := by
  obtain ⟨accessOk, volume⟩ := exact_uint64.write_read _ readOk
  obtain ⟨idOk, access⟩ := exact_uint64.write_read _ accessOk
  obtain ⟨localOk, id⟩ := exact_uint64.write_read _ idOk
  obtain ⟨_, localId⟩ := exact_int32.write_read _ localOk
  rw [localId, id, access, volume]
  simp only [length_append, length_writeInt32, length_writeUInt64]
  omega

namespace FileLocation

theorem ok_of_readInMessage {typeWithFlags : UInt8} {stream : DataStream}
    (readOk : (readInMessage typeWithFlags stream).2.ok = true) : stream.ok = true := by
  unfold readInMessage at readOk
  split at readOk
  · exact ok_of_readInt32 (ok_of_readInt32 readOk)
  · exact readOk

theorem length_fromSerialized {serialized : Bytes} {location : FileLocation}
    (read : fromSerialized serialized = some location) :
    serialized = [] ∨ 28 ≤ serialized.length := by
  unfold fromSerialized at read
  split at read
  next empty =>
    exact .inl (isEmpty_iff.mp empty)
  · right
    dsimp only at read
    split at read
    · cases read
    · split at read
      · cases read
      · split at read
        · cases read
        · have done := (ite_none_right_eq_some.mp read).1
          have arrayOk := (exact_qByteArray.write_read _ (Bool.and_eq_true_iff.mp done).1).1
          have fields := length_of_readVolume (ok_of_readInMessage arrayOk)
          have letter := length_readUInt8_le (readUInt8 (readUInt16 ⟨serialized, true⟩).2).2
          have type := length_readUInt8_le (readUInt16 ⟨serialized, true⟩).2
          have dcId := length_readUInt16_le ⟨serialized, true⟩
          exact fields.trans (letter.trans (type.trans dcId))

end FileLocation

namespace DownloadLocation

variable {codec : TextCodec} {location : DownloadLocation}

/-- The location with its text as the bytes of it are read. -/
def received (codec : TextCodec) : DownloadLocation → DownloadLocation
  | .plainUrl url => .plainUrl (codec.fromUtf8Safe (codec.toUtf8 url))
  | location => location

theorem received_eq_iff :
    location.received codec = location ↔ ∀ url, location = .plainUrl url → codec.ReadsBack url := by
  cases location with
  | plainUrl url =>
    constructor
    · rintro same _ ⟨⟩
      injection same
    · intro back
      rw [received, back url rfl]
  | storage | web | geoPoint | audioAlbumThumb | inMemory =>
    exact iff_of_true rfl fun _ different => nomatch different

@[simp] theorem ofByte_byte (type : NonStorageLocationType) :
    NonStorageLocationType.ofByte type.byte = some type := by
  cases type <;> rfl

theorem fromSerialized_nonStorage {bytes : Bytes}
    (written : location.writeNonStorage codec = some bytes) (rest : Bytes) :
    fromSerialized codec
        (writeUInt16 0 ++ (writeUInt8 nonStorageLocationToken ++ bytes) ++ rest) =
      some (location.received codec) := by
  unfold fromSerialized
  have known : ¬((0 : UInt16) ≠ 0 ∨ nonStorageLocationToken ≠ nonStorageLocationToken) := by
    simp
  cases location with
  | storage location => cases written
  | web | geoPoint | audioAlbumThumb | plainUrl | inMemory =>
    cases written
    simp only [append_assoc, readUInt16_write, readUInt8_write, if_neg known, ofByte_byte,
      readNonStorage, readInt32_write, exact_uint64.read_write, exact_qByteArray.read_write,
      if_true]
    rfl

theorem fromSerialized_storage {storage : FileLocation} (isValid : storage.valid = true)
    (rest : Bytes) :
    fromSerialized codec (storage.serialize ++ rest) = some (.storage storage) := by
  have token : storage.dcId ≠ 0 ∨ storage.typeWithFlags ≠ nonStorageLocationToken :=
    .inr storage.typeWithFlags_ne_token
  have back := storage.fromSerialized_written isValid rest
  rw [FileLocation.serialize, if_pos isValid]
  unfold fromSerialized
  rw [back]
  unfold FileLocation.written
  simp only [append_assoc, readUInt16_write, readUInt8_write, if_pos token]
  rfl

theorem nonStorageSize_eq {bytes : Bytes} (written : location.writeNonStorage codec = some bytes) :
    (location.nonStorageSize codec).map (2 + 1 + 1 + ·) =
      some (writeUInt16 0 ++ (writeUInt8 nonStorageLocationToken ++ bytes)).length := by
  cases location with
  | storage => cases written
  | web | geoPoint | audioAlbumThumb | plainUrl | inMemory =>
    cases written
    simp only [nonStorageSize, map_some, writeUInt8, length_append, length_writeUInt16,
      length_writeUInt64, length_writeInt32, length_writeQByteArray, length_singleton]
    first | done | rfl | congr 1; omega

theorem serialize_of_valid (codec : TextCodec) (isValid : location.valid = true) :
    ∃ bytes, location.serialize codec = some bytes ∧ bytes ≠ [] ∧
      location.serializeSize codec = some bytes.length ∧
      ∀ rest, fromSerialized codec (bytes ++ rest) = some (location.received codec) := by
  cases lies : location.getStorage with
  | some storage =>
    obtain rfl : location = .storage storage := by
      cases location with
      | storage => cases lies; rfl
      | web | geoPoint | audioAlbumThumb | plainUrl | inMemory => cases lies
    refine ⟨storage.serialize, ?_, ?_, ?_, fromSerialized_storage isValid⟩
    · simp [serialize, getStorage]
    · rw [FileLocation.serialize, if_pos (show storage.valid = true from isValid)]
      exact storage.written_ne_nil
    · simp [serializeSize, getStorage, storage.serializeSize_eq]
  | none =>
    obtain ⟨bytes, written⟩ : ∃ bytes, location.writeNonStorage codec = some bytes := by
      cases location with
      | storage => cases lies
      | web | geoPoint | audioAlbumThumb | plainUrl | inMemory => exact ⟨_, rfl⟩
    refine ⟨writeUInt16 0 ++ (writeUInt8 nonStorageLocationToken ++ bytes), ?_, ?_, ?_,
      fromSerialized_nonStorage written⟩
    · simp [serialize, isValid, lies, written]
    · simp [writeUInt8]
    · simp only [serializeSize, isValid, lies, Bool.not_true, isSome_none, Bool.or_self,
        Bool.false_eq_true, if_false]
      exact nonStorageSize_eq written

theorem readNonStorage_getStorage (type : NonStorageLocationType) (stream : DataStream) :
    (readNonStorage codec type stream).1.getStorage = none := by
  cases type <;> rfl

theorem getStorage_of_short {serialized : Bytes} (nonempty : serialized ≠ [])
    (short : serialized.length < 28) (read : fromSerialized codec serialized = some location) :
    location.getStorage = none := by
  unfold fromSerialized at read
  dsimp only at read
  split at read
  · obtain ⟨storage, stored, rfl⟩ := map_eq_some_iff.mp read
    rcases FileLocation.length_fromSerialized stored with empty | long
    · exact absurd empty nonempty
    · omega
  · split at read
    · cases read
    · obtain ⟨_, same⟩ := ite_none_right_eq_some.mp read
      injection same with same
      rw [← same]
      exact readNonStorage_getStorage _ _

/-- What is read is what was written, and the size is known before. -/
def RoundTrips (codec : TextCodec) (location : DownloadLocation) : Prop :=
  ∃ bytes, location.serialize codec = some bytes ∧
    fromSerialized codec bytes = some location ∧
    location.serializeSize codec = some bytes.length

/-- Every valid location comes back, if its text does. -/
theorem valid_roundTrips (codec : TextCodec) (location : DownloadLocation)
    (isValid : location.valid = true)
    (text : ∀ url, location = .plainUrl url → codec.ReadsBack url) :
    location.RoundTrips codec := by
  obtain ⟨bytes, written, _, size, read⟩ := serialize_of_valid codec isValid
  refine ⟨bytes, written, ?_, size⟩
  have back := read []
  rw [append_nil] at back
  rw [back, received_eq_iff.mpr text]

/-- Text of one byte a letter, which is read back up to the size of a string. -/
def asciiCodec : TextCodec where
  toUtf8 text := ⟨some (text.units.map UInt16.toUInt8), by
    have small := text.small
    simp only [Option.getD_some, List.length_map]
    omega⟩
  fromUtf8Safe bytes :=
    if fits : (bytes.data.getD []).length < 2 ^ 31 then
      { units := (bytes.data.getD []).map UInt8.toUInt16
        isNull := false
        null_empty := fun null => absurd null Bool.false_ne_true
        small := by simpa using fits }
    else .null

/-- `tg` -/
theorem valid_roundTrips_url :
    (DownloadLocation.plainUrl ⟨[116, 103], false, by decide, by decide⟩).RoundTrips asciiCodec :=
  valid_roundTrips asciiCodec _ (by decide) (by rintro _ ⟨⟩; exact QString.ext rfl rfl)

end DownloadLocation

namespace ImageLocation

variable {codec : TextCodec} {location : ImageLocation}

def RoundTrips (codec : TextCodec) (location : ImageLocation) : Prop :=
  ∃ bytes, location.serialize codec = some bytes ∧
    fromSerialized codec bytes = some location ∧
    location.serializeSize codec = some bytes.length

theorem fromSerialized_append (bytes : Bytes) (width height : Int32) :
    fromSerialized codec (bytes ++ (writeInt32 width ++ writeInt32 height)) =
      (DownloadLocation.fromSerialized codec
        (bytes ++ (writeInt32 width ++ writeInt32 height))).map
          fun file => ⟨file, width, height⟩ := by
  have size : (writeInt32 width ++ writeInt32 height).length = 8 := by simp
  have length : (bytes ++ (writeInt32 width ++ writeInt32 height)).length = bytes.length + 8 := by
    rw [length_append, size]
  have behind : (bytes ++ (writeInt32 width ++ writeInt32 height)).drop (bytes.length + 8 - 8) =
      writeInt32 width ++ (writeInt32 height ++ []) := by
    rw [Nat.add_sub_cancel, drop_left, append_nil]
  unfold fromSerialized
  rw [length]
  cases DownloadLocation.fromSerialized codec
    (bytes ++ (writeInt32 width ++ writeInt32 height)) with
  | none => rfl
  | some file =>
    dsimp only
    rw [if_neg (by omega), if_pos (by omega), behind]
    simp only [readInt32_write, if_true, map_some]

theorem serialize_of_valid (codec : TextCodec) (isValid : location.file.valid = true) :
    ∃ bytes, location.serialize codec = some bytes ∧
      location.serializeSize codec = some bytes.length ∧
      fromSerialized codec bytes =
        some { location with file := location.file.received codec } := by
  obtain ⟨bytes, written, nonempty, size, read⟩ :=
    DownloadLocation.serialize_of_valid codec isValid
  refine ⟨bytes ++ (writeInt32 location.width ++ writeInt32 location.height), ?_, ?_, ?_⟩
  · rw [serialize, written]
    exact if_pos (.inl nonempty)
  · have positive : 0 < bytes.length := length_pos_iff.mpr nonempty
    rw [serializeSize, size]
    dsimp only
    rw [if_pos (.inl positive)]
    simp
  · rw [fromSerialized_append, read]
    rfl

theorem roundTrips_of_valid (isValid : location.file.valid = true) :
    location.RoundTrips codec ↔ ∀ url, location.file = .plainUrl url → codec.ReadsBack url := by
  obtain ⟨bytes, written, size, read⟩ := serialize_of_valid codec isValid
  rw [← DownloadLocation.received_eq_iff]
  constructor
  · rintro ⟨others, othersWritten, back, _⟩
    rw [written] at othersWritten
    injection othersWritten with same
    rw [← same, read] at back
    injection back with back
    exact congrArg ImageLocation.file back
  · intro same
    refine ⟨bytes, written, ?_, size⟩
    rw [read, same]

theorem roundTrips_empty (codec : TextCodec) : RoundTrips codec {} :=
  ⟨[], rfl, rfl, rfl⟩

theorem not_roundTrips_of_size {width height : Int32} (size : width > 0 ∨ height > 0) :
    ¬RoundTrips codec { width := width, height := height } := by
  rintro ⟨bytes, written, read, _⟩
  have dimensions : bytes = writeInt32 width ++ writeInt32 height := by
    have all : serialize codec { width := width, height := height } =
        some ([] ++ (writeInt32 width ++ writeInt32 height)) := if_pos (.inr size)
    rw [all] at written
    injection written with same
    exact same.symm
  have length : bytes.length = 8 := by rw [dimensions]; simp
  have behind := @fromSerialized_append codec [] width height
  rw [nil_append, ← dimensions, read] at behind
  obtain ⟨file, fileRead, same⟩ := map_eq_some_iff.mp behind.symm
  have noStorage := DownloadLocation.getStorage_of_short
    (ne_nil_of_length_pos (by omega)) (by omega) fileRead
  injection same with storage
  rw [storage] at noStorage
  cases noStorage

/-- A location comes back if its file is a valid one with text that comes back, or if
there is neither a file nor a size. -/
theorem roundTrips_iff (codec : TextCodec) (location : ImageLocation)
    (noFile : location.file.valid = false → location.file = .storage {})
    (width : 0 ≤ location.width) (height : 0 ≤ location.height) :
    location.RoundTrips codec ↔
      (location.file.valid = true ∨ location.width = 0 ∧ location.height = 0) ∧
        ∀ url, location.file = .plainUrl url → codec.ReadsBack url := by
  cases isValid : location.file.valid with
  | true =>
    rw [roundTrips_of_valid isValid]
    simp
  | false =>
    have file := noFile isValid
    obtain ⟨_, _, _⟩ := location
    subst file
    simp only [Bool.false_eq_true, false_or, reduceCtorEq, false_imp_iff, implies_true, and_true]
    constructor
    · intro back
      by_contra size
      apply not_roundTrips_of_size _ back
      rcases not_and_or.mp size with wide | high
      · exact Or.inl (Int32.lt_of_le_of_ne width (Ne.symm wide))
      · exact Or.inr (Int32.lt_of_le_of_ne height (Ne.symm high))
    · rintro ⟨rfl, rfl⟩
      exact roundTrips_empty codec

theorem roundTrips_iff_audio :
    RoundTrips DownloadLocation.asciiCodec
        { file := .audioAlbumThumb 7, width := 160, height := 160 } ↔
      ((DownloadLocation.audioAlbumThumb 7).valid = true ∨
        (160 : Int32) = 0 ∧ (160 : Int32) = 0) ∧
        ∀ url, DownloadLocation.audioAlbumThumb 7 = .plainUrl url →
          DownloadLocation.asciiCodec.ReadsBack url :=
  roundTrips_iff _ _ (fun invalid => absurd invalid (by decide)) (by decide) (by decide)

/-- The size of a photo whose file is gone. -/
theorem size_without_file_is_lost :
    ¬RoundTrips DownloadLocation.asciiCodec { width := 160, height := 160 } := by
  rintro ⟨bytes, written, read, _⟩
  cases written
  cases read

def received (codec : TextCodec) (location : ImageLocation) : ImageLocation :=
  { location with file := location.file.received codec }

theorem serialize_of_known (codec : TextCodec)
    (known : location.file.valid = true ∨ location = {}) :
    ∃ bytes, location.serialize codec = some bytes ∧
      fromSerialized codec bytes = some (location.received codec) := by
  rcases known with isValid | rfl
  · obtain ⟨bytes, written, -, read⟩ := serialize_of_valid codec isValid
    exact ⟨bytes, written, read⟩
  · exact ⟨[], rfl, rfl⟩

theorem getD_null (bytes : Bytes) : (if bytes = [] then none else some bytes).getD [] = bytes := by
  split
  next none =>
    exact none.symm
  · rfl

theorem readImageLocation_write (known : location.file.valid = true ∨ location = {})
    (small : ((location.serialize codec).getD []).length < 2 ^ 31) :
    ∃ bytes, location.writeImageLocation codec = some bytes ∧
      ∀ streamAppVersion rest, readImageLocation codec streamAppVersion ⟨bytes ++ rest, true⟩ =
        (some (location.received codec), ⟨rest, true⟩) := by
  obtain ⟨result, written, read⟩ := serialize_of_known codec known
  rw [written, getD_some] at small
  let array : QByteArray := ⟨if result = [] then none else some result, by rw [getD_null]; omega⟩
  refine ⟨writeInt32 kModernImageLocationTag ++ writeQByteArray array, ?_, ?_⟩
  · rw [writeImageLocation, written]
    rfl
  · intro streamAppVersion rest
    have data : array.data.getD [] = result := getD_null result
    rw [append_assoc]
    simp only [readImageLocation, readLegacyStorageImageLocationOrTag, readInt32_write, if_true,
      exact_qByteArray.read_write, data, read]

end ImageLocation

end TelegramDesktop
