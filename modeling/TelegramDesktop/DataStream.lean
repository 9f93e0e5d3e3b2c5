import TelegramDesktop.ByteStrings

/-!
# Data streams

Integers are written to a data stream with their most significant byte first.
-/

namespace TelegramDesktop

open List

/-- A reading stream: the bytes ahead, and whether nothing has failed so far. -/
structure DataStream where
  rest : Bytes
  ok : Bool := true
  deriving DecidableEq

namespace DataStream

def writeUInt32 (value : UInt32) : Bytes := (littleEndian 4 value.toNat).reverse

def writeInt32 (value : Int32) : Bytes := writeUInt32 value.toUInt32

/-- `qint32(size)` for a size that may not fit. -/
def writeSize (size : Nat) : Bytes := writeUInt32 (UInt32.ofNat size)

/-- `Serialize::bytes` written: no bytes at all have a mark in place of a size. -/
def writeBytes (bytes : Bytes) : Bytes :=
  if bytes = [] then writeUInt32 0xFFFFFFFF else writeSize bytes.length ++ bytes

/-- A byte array that is null has a mark in place of its size. -/
def writeByteArray : Option Bytes → Bytes
  | none => writeUInt32 0xFFFFFFFF
  | some data => writeSize data.length ++ data

@[simp] theorem length_writeUInt32 (value : UInt32) : (writeUInt32 value).length = 4 := by
  rw [writeUInt32, length_reverse, length_littleEndian]

@[simp] theorem length_writeInt32 (value : Int32) : (writeInt32 value).length = 4 :=
  length_writeUInt32 _

@[simp] theorem length_writeSize (size : Nat) : (writeSize size).length = 4 :=
  length_writeUInt32 _

theorem length_le_writeBytes (bytes : Bytes) : bytes.length ≤ (writeBytes bytes).length := by
  unfold writeBytes
  split
  · simp [*]
  · rw [length_append]
    omega

variable (stream : DataStream)

/-- `QDataStream::atEnd` -/
def atEnd : Bool := stream.rest.isEmpty

/-- `readRawData` -/
def readRawData (size : Nat) : Bytes × DataStream :=
  if stream.rest.length < size then (stream.rest, ⟨[], false⟩)
  else (stream.rest.take size, ⟨stream.rest.drop size, stream.ok⟩)

def readUInt32 : UInt32 × DataStream :=
  if stream.rest.length < 4 then (0, ⟨[], false⟩)
  else (UInt32.ofNat (ofBigEndian (stream.rest.take 4)), ⟨stream.rest.drop 4, stream.ok⟩)

def readInt32 : Int32 × DataStream :=
  (stream.readUInt32.1.toInt32, stream.readUInt32.2)

/-- `Serialize::bytes` read.  The blocks in which the source reads them make no
difference to what is read. -/
def readBytes : Bytes × DataStream :=
  let len := stream.readUInt32.1
  let stream := stream.readUInt32.2
  if !stream.ok || len = 0xFFFFFFFF then ([], stream)
  else if stream.rest.length < len.toNat then ([], ⟨[], false⟩)
  else stream.readRawData len.toNat

variable {stream}

theorem readRawData_append {bytes rest : Bytes} {ok : Bool} {size : Nat}
    (length : bytes.length = size) :
    readRawData ⟨bytes ++ rest, ok⟩ size = (bytes, ⟨rest, ok⟩) := by
  have inside : ¬(bytes ++ rest).length < size := by
    rw [length_append, length]
    omega
  unfold readRawData
  rw [if_neg inside, take_left' length, drop_left' length]

@[simp] theorem readUInt32_write (value : UInt32) (rest : Bytes) (ok : Bool) :
    readUInt32 ⟨writeUInt32 value ++ rest, ok⟩ = (value, ⟨rest, ok⟩) := by
  have length := length_writeUInt32 value
  have inside : ¬(writeUInt32 value ++ rest).length < 4 := by
    rw [length_append, length]
    omega
  have fits : value.toNat < 256 ^ 4 := value.toNat_lt
  unfold readUInt32
  rw [if_neg inside, take_left' length, drop_left' length, writeUInt32, ofBigEndian,
    reverse_reverse, ofLittleEndian_littleEndian fits, UInt32.ofNat_toNat]

@[simp] theorem readInt32_write (value : Int32) (rest : Bytes) (ok : Bool) :
    readInt32 ⟨writeInt32 value ++ rest, ok⟩ = (value, ⟨rest, ok⟩) := by
  rw [readInt32, writeInt32, readUInt32_write, Int32.toInt32_toUInt32]

/-- A size is read as an `int32`. -/
@[simp] theorem readInt32_writeSize (size : Nat) (rest : Bytes) (ok : Bool) :
    readInt32 ⟨writeSize size ++ rest, ok⟩ = ((UInt32.ofNat size).toInt32, ⟨rest, ok⟩) := by
  rw [readInt32, writeSize, readUInt32_write]

theorem toInt_size {size : Nat} (small : size < 2 ^ 31) :
    (UInt32.ofNat size).toInt32.toInt = size := by
  have value : (UInt32.ofNat size).toInt32 = Int32.ofNat size := rfl
  rw [value, Int32.toInt_ofNat_of_lt small]

theorem toNat_size {size : Nat} (small : size < 2 ^ 31) :
    (UInt32.ofNat size).toInt32.toUInt32.toNat = size := by
  rw [UInt32.toUInt32_toInt32, UInt32.toNat_ofNat']
  exact Nat.mod_eq_of_lt (by omega)

theorem readBytes_write {bytes : Bytes} (small : bytes.length < 2 ^ 31) (rest : Bytes) :
    readBytes ⟨writeBytes bytes ++ rest, true⟩ = (bytes, ⟨rest, true⟩) := by
  unfold readBytes writeBytes
  split
  next none =>
    simp [none]
  · have size : (UInt32.ofNat bytes.length).toNat = bytes.length := by
      rw [UInt32.toNat_ofNat']
      exact Nat.mod_eq_of_lt (by omega)
    have notMark : UInt32.ofNat bytes.length ≠ 0xFFFFFFFF := by
      intro mark
      have value := congrArg UInt32.toNat mark
      rw [size] at value
      have all : (0xFFFFFFFF : UInt32).toNat = 2 ^ 32 - 1 := rfl
      omega
    have inside : ¬(bytes ++ rest).length < bytes.length := by
      rw [length_append]
      omega
    rw [append_assoc, writeSize, readUInt32_write]
    simp only [size, notMark, decide_false, Bool.or_false, Bool.not_true, Bool.false_eq_true,
      if_false, if_neg inside]
    exact readRawData_append rfl

end DataStream

end TelegramDesktop
