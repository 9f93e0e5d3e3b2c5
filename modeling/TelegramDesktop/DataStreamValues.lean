import TelegramDesktop.DataStream
import Mathlib.Data.List.Infix

/-!
# Values in data streams

64-bit integers, strings and byte arrays in a data stream.  The reads here accept
exactly what the writes leave, and so does what is read one after another.
-/

namespace TelegramDesktop

open List

/-- A string of UTF-16 units.  A null string is empty but is written in its own way. -/
structure QString where
  units : List UInt16
  isNull : Bool := false
  null_empty : isNull = true → units = [] := by decide
  small : units.length < 2 ^ 31

/-- An array of bytes, null or short enough for its size to be written. -/
structure QByteArray where
  data : Option Bytes
  small : (data.getD []).length < 2 ^ 32 - 1

namespace QString

def null : QString where
  units := []
  isNull := true
  null_empty := fun _ => rfl
  small := by decide

def isEmpty (string : QString) : Bool := string.units.isEmpty

theorem ext {first second : QString} (units : first.units = second.units)
    (isNull : first.isNull = second.isNull) : first = second := by
  cases first
  cases second
  cases units
  cases isNull
  rfl

end QString

def QByteArray.null : QByteArray := ⟨none, by decide⟩

namespace DataStream

def writeUInt64 (value : UInt64) : Bytes := (littleEndian 8 value.toNat).reverse

def writeInt64 (value : Int64) : Bytes := writeUInt64 value.toUInt64

def writeUInt16 (value : UInt16) : Bytes := (littleEndian 2 value.toNat).reverse

def writeUInt8 (value : UInt8) : Bytes := [value]

def writeQString (string : QString) : Bytes :=
  if string.isNull then writeUInt32 0xFFFFFFFF
  else writeSize (2 * string.units.length) ++ string.units.flatMap writeUInt16

def writeQByteArray (array : QByteArray) : Bytes := writeByteArray array.data

variable (stream : DataStream)

def readUInt64 : UInt64 × DataStream :=
  if stream.rest.length < 8 then (0, ⟨[], false⟩)
  else (UInt64.ofNat (ofBigEndian (stream.rest.take 8)), ⟨stream.rest.drop 8, stream.ok⟩)

def readInt64 : Int64 × DataStream :=
  (stream.readUInt64.1.toInt64, stream.readUInt64.2)

def readUInt16 : UInt16 × DataStream :=
  if stream.rest.length < 2 then (0, ⟨[], false⟩)
  else (UInt16.ofNat (ofBigEndian (stream.rest.take 2)), ⟨stream.rest.drop 2, stream.ok⟩)

def readUInt8 : UInt8 × DataStream :=
  match stream.rest with
  | [] => (0, ⟨[], false⟩)
  | byte :: rest => (byte, ⟨rest, stream.ok⟩)

/-- The code units of big-endian bytes. -/
def unitsOf : Bytes → List UInt16
  | high :: low :: bytes => UInt16.ofNat (ofBigEndian [high, low]) :: unitsOf bytes
  | _ => []

theorem length_unitsOf (bytes : Bytes) : (unitsOf bytes).length = bytes.length / 2 := by
  induction bytes using unitsOf.induct with
  | case1 high low bytes ih =>
    rw [unitsOf, length_cons, ih, length_cons, length_cons]
    omega
  | case2 bytes short =>
    match bytes, short with
    | [], _ => rfl
    | [_], _ => simp [unitsOf]
    | high :: low :: rest, short => exact absurd rfl (short high low rest)

/-- The size of a string in bytes is even. -/
def readStringOf (bytes : UInt32) : QString × DataStream :=
  if bytes = 0xFFFFFFFF then (.null, stream)
  else if bytes.toNat % 2 ≠ 0 then (.null, ⟨stream.rest, false⟩)
  else if stream.rest.length < bytes.toNat then (.null, ⟨[], false⟩)
  else
    ({ units := unitsOf (stream.rest.take bytes.toNat)
       null_empty := fun null => absurd null (by decide)
       small := by
        have size := bytes.toNat_lt
        rw [length_unitsOf, List.length_take]
        omega },
      ⟨stream.rest.drop bytes.toNat, stream.ok⟩)

def readQString : QString × DataStream := stream.readUInt32.2.readStringOf stream.readUInt32.1

/-- An array whose length was read. -/
def readArrayOf (len : UInt32) : QByteArray × DataStream :=
  if mark : len = 0xFFFFFFFF then (.null, stream)
  else if stream.rest.length < len.toNat then (.null, ⟨[], false⟩)
  else
    (⟨some (stream.rest.take len.toNat), by
        have size := len.toNat_lt
        have other : len.toNat ≠ 2 ^ 32 - 1 := fun all => mark (UInt32.toNat_inj.mp all)
        rw [Option.getD_some, List.length_take]
        omega⟩,
      ⟨stream.rest.drop len.toNat, stream.ok⟩)

def readQByteArray : QByteArray × DataStream :=
  stream.readUInt32.2.readArrayOf stream.readUInt32.1

variable {α β : Type*}

/-- A read gives back what was written, and reads well only what a write leaves. -/
structure Exact (read : DataStream → α × DataStream) (write : α → Bytes) : Prop where
  read_write : ∀ value rest ok, read ⟨write value ++ rest, ok⟩ = (value, ⟨rest, ok⟩)
  write_read : ∀ stream, (read stream).2.ok = true →
    stream.ok = true ∧ stream.rest = write (read stream).1 ++ (read stream).2.rest

namespace Exact

variable {read : DataStream → α × DataStream} {write : α → Bytes}
  {readNext : DataStream → β × DataStream} {writeNext : β → Bytes}

theorem map (exact : Exact read write) {rename : α → β} {back : β → α}
    (left : ∀ value, back (rename value) = value) (right : ∀ value, rename (back value) = value) :
    Exact (fun stream => (rename (read stream).1, (read stream).2))
      (fun value => write (back value)) where
  read_write := by
    intro value rest ok
    simp only [exact.read_write, right]
  write_read := by
    intro stream readOk
    simp only [left]
    exact exact.write_read stream readOk

end Exact

theorem reverse_littleEndian_ofBigEndian (bytes : Bytes) :
    (littleEndian bytes.length (ofBigEndian bytes)).reverse = bytes := by
  have back := littleEndian_ofLittleEndian bytes.reverse
  rw [length_reverse] at back
  rw [ofBigEndian, back, reverse_reverse]

theorem exact_uint32 : Exact readUInt32 writeUInt32 where
  read_write := readUInt32_write
  write_read := by
    intro stream readOk
    unfold readUInt32 at readOk ⊢
    split at readOk
    · exact absurd readOk (by decide)
    next inside =>
      rw [if_neg inside]
      refine ⟨readOk, ?_⟩
      have four : (stream.rest.take 4).length = 4 := by
        rw [length_take]
        omega
      have below := ofLittleEndian_lt (stream.rest.take 4).reverse
      rw [length_reverse, four] at below
      have back := reverse_littleEndian_ofBigEndian (stream.rest.take 4)
      have value : (UInt32.ofNat (ofBigEndian (stream.rest.take 4))).toNat =
          ofBigEndian (stream.rest.take 4) := by
        rw [UInt32.toNat_ofNat']
        exact Nat.mod_eq_of_lt below
      rw [writeUInt32, value]
      rw [four] at back
      rw [back, take_append_drop]

theorem exact_int32 : Exact readInt32 writeInt32 :=
  exact_uint32.map UInt32.toUInt32_toInt32 Int32.toInt32_toUInt32

@[simp] theorem length_writeUInt64 (value : UInt64) : (writeUInt64 value).length = 8 := by
  rw [writeUInt64, length_reverse, length_littleEndian]

theorem exact_uint64 : Exact readUInt64 writeUInt64 where
  read_write := by
    intro value rest ok
    have length := length_writeUInt64 value
    have inside : ¬(writeUInt64 value ++ rest).length < 8 := by
      rw [length_append, length]
      omega
    have fits : value.toNat < 256 ^ 8 := value.toNat_lt
    unfold readUInt64
    rw [if_neg inside, take_left' length, drop_left' length, writeUInt64, ofBigEndian,
      reverse_reverse, ofLittleEndian_littleEndian fits, UInt64.ofNat_toNat]
  write_read := by
    intro stream readOk
    unfold readUInt64 at readOk ⊢
    split at readOk
    · exact absurd readOk (by decide)
    next inside =>
      rw [if_neg inside]
      refine ⟨readOk, ?_⟩
      have eight : (stream.rest.take 8).length = 8 := by
        rw [length_take]
        omega
      have below := ofLittleEndian_lt (stream.rest.take 8).reverse
      rw [length_reverse, eight] at below
      have back := reverse_littleEndian_ofBigEndian (stream.rest.take 8)
      have value : (UInt64.ofNat (ofBigEndian (stream.rest.take 8))).toNat =
          ofBigEndian (stream.rest.take 8) := by
        rw [UInt64.toNat_ofNat']
        exact Nat.mod_eq_of_lt below
      rw [writeUInt64, value]
      rw [eight] at back
      rw [back, take_append_drop]

theorem exact_int64 : Exact readInt64 writeInt64 :=
  exact_uint64.map UInt64.toUInt64_toInt64 Int64.toInt64_toUInt64

@[simp] theorem length_writeUInt16 (value : UInt16) : (writeUInt16 value).length = 2 := by
  rw [writeUInt16, length_reverse, length_littleEndian]

theorem readUInt16_write (value : UInt16) (rest : Bytes) (ok : Bool) :
    readUInt16 ⟨writeUInt16 value ++ rest, ok⟩ = (value, ⟨rest, ok⟩) := by
  have length := length_writeUInt16 value
  have inside : ¬(writeUInt16 value ++ rest).length < 2 := by
    rw [length_append, length]
    omega
  have fits : value.toNat < 256 ^ 2 := value.toNat_lt
  unfold readUInt16
  rw [if_neg inside, take_left' length, drop_left' length, writeUInt16, ofBigEndian,
    reverse_reverse, ofLittleEndian_littleEndian fits, UInt16.ofNat_toNat]

theorem readUInt8_write (value : UInt8) (rest : Bytes) (ok : Bool) :
    readUInt8 ⟨writeUInt8 value ++ rest, ok⟩ = (value, ⟨rest, ok⟩) := rfl

theorem unitsOf_write (units : List UInt16) : unitsOf (units.flatMap writeUInt16) = units := by
  induction units with
  | nil => rfl
  | cons unit units ih =>
    obtain ⟨high, low, bytes⟩ : ∃ high low, writeUInt16 unit = [high, low] :=
      ⟨_, _, rfl⟩
    have value : UInt16.ofNat (ofBigEndian (writeUInt16 unit)) = unit := by
      have fits : unit.toNat < 256 ^ 2 := unit.toNat_lt
      rw [writeUInt16, ofBigEndian, reverse_reverse, ofLittleEndian_littleEndian fits,
        UInt16.ofNat_toNat]
    rw [flatMap_cons, bytes]
    rw [bytes] at value
    rw [cons_append, cons_append, nil_append, unitsOf, ih, value]

theorem write_unitsOf {bytes : Bytes} (even : bytes.length % 2 = 0) :
    (unitsOf bytes).flatMap writeUInt16 = bytes := by
  induction bytes using unitsOf.induct with
  | case1 high low bytes ih =>
    have rest : bytes.length % 2 = 0 := by
      rw [length_cons, length_cons] at even
      omega
    have below : ofBigEndian [high, low] < 2 ^ 16 := by
      have first := high.toNat_lt
      have second := low.toNat_lt
      simp only [ofBigEndian, reverse_cons, reverse_nil, nil_append, cons_append, ofLittleEndian]
      omega
    have value : (UInt16.ofNat (ofBigEndian [high, low])).toNat = ofBigEndian [high, low] := by
      rw [UInt16.toNat_ofNat', Nat.mod_eq_of_lt below]
    have first : writeUInt16 (UInt16.ofNat (ofBigEndian [high, low])) = [high, low] := by
      rw [writeUInt16, value]
      exact reverse_littleEndian_ofBigEndian [high, low]
    rw [unitsOf, flatMap_cons, ih rest, first]
    rfl
  | case2 bytes short =>
    rcases bytes with - | ⟨high, - | ⟨low, rest⟩⟩
    · rfl
    · cases even
    · exact absurd rfl (short high low rest)

theorem length_flatMap_writeUInt16 (units : List UInt16) :
    (units.flatMap writeUInt16).length = 2 * units.length := by
  induction units with
  | nil => rfl
  | cons unit units ih =>
    rw [flatMap_cons, length_append, ih, length_cons, writeUInt16,
      length_reverse, length_littleEndian]
    omega

theorem size_small {size : Nat} (small : size < 2 ^ 32 - 1) :
    (UInt32.ofNat size).toNat = size ∧ UInt32.ofNat size ≠ 0xFFFFFFFF := by
  have value : (UInt32.ofNat size).toNat = size := by
    rw [UInt32.toNat_ofNat']
    exact Nat.mod_eq_of_lt (by omega)
  refine ⟨value, ?_⟩
  intro mark
  have all : (0xFFFFFFFF : UInt32).toNat = 2 ^ 32 - 1 := rfl
  rw [mark] at value
  omega

theorem exact_qString : Exact readQString writeQString where
  read_write := by
    intro string rest ok
    have small := string.small
    unfold readQString writeQString
    cases null : string.isNull with
    | true =>
      rw [if_pos rfl, readUInt32_write, readStringOf, if_pos rfl]
      exact Prod.ext (QString.ext (string.null_empty null).symm null.symm) rfl
    | false =>
      obtain ⟨size, notMark⟩ := @size_small (2 * string.units.length) (by omega)
      have even : ¬(2 * string.units.length) % 2 ≠ 0 := by omega
      have length := length_flatMap_writeUInt16 string.units
      have inside : ¬(string.units.flatMap writeUInt16 ++ rest).length <
          2 * string.units.length := by
        rw [length_append, length]
        omega
      rw [if_neg Bool.false_ne_true, append_assoc, writeSize, readUInt32_write,
        readStringOf, if_neg notMark]
      simp only [size, if_neg even, if_neg inside]
      refine Prod.ext (QString.ext ?_ null.symm) ?_
      · dsimp only
        rw [take_left' length, unitsOf_write]
      · rw [drop_left' length]
  write_read := by
    intro stream readOk
    unfold readQString at readOk ⊢
    obtain ⟨bytes, rest, read⟩ : ∃ bytes rest, stream.readUInt32 = (bytes, rest) := ⟨_, _, rfl⟩
    have start := exact_uint32.write_read stream
    rw [read] at readOk start ⊢
    dsimp only at readOk start ⊢
    unfold readStringOf at readOk ⊢
    split at readOk
    next mark =>
      rw [if_pos mark]
      rw [mark] at start
      exact start readOk
    next notMark =>
      rw [if_neg notMark]
      split at readOk
      · exact absurd readOk Bool.false_ne_true
      next odd =>
        rw [if_neg odd]
        split at readOk
        · exact absurd readOk Bool.false_ne_true
        next inside =>
          rw [if_neg inside]
          obtain ⟨startOk, all⟩ := start readOk
          refine ⟨startOk, ?_⟩
          have taken : (rest.rest.take bytes.toNat).length = bytes.toNat := by
            rw [length_take]
            omega
          have even : (rest.rest.take bytes.toNat).length % 2 = 0 := by omega
          have size : 2 * (bytes.toNat / 2) = bytes.toNat := by omega
          unfold writeQString
          rw [if_neg Bool.false_ne_true, length_unitsOf, taken, size, writeSize,
            UInt32.ofNat_toNat, write_unitsOf even, append_assoc, take_append_drop]
          exact all

theorem exact_qByteArray : Exact readQByteArray writeQByteArray where
  read_write := by
    intro array rest ok
    obtain ⟨data, small⟩ := array
    unfold readQByteArray writeQByteArray
    cases data with
    | none =>
      rw [writeByteArray, readUInt32_write, readArrayOf, dif_pos rfl]
      rfl
    | some data =>
      obtain ⟨size, notMark⟩ := size_small small
      rw [Option.getD_some] at size notMark
      have inside : ¬(data ++ rest).length < data.length := by
        rw [length_append]
        omega
      rw [writeByteArray, append_assoc, writeSize, readUInt32_write, readArrayOf, dif_neg notMark]
      simp only [size, if_neg inside, take_left, drop_left]
  write_read := by
    intro stream readOk
    unfold readQByteArray at readOk ⊢
    obtain ⟨len, rest, read⟩ : ∃ len rest, stream.readUInt32 = (len, rest) := ⟨_, _, rfl⟩
    have start := exact_uint32.write_read stream
    rw [read] at readOk start ⊢
    dsimp only at readOk start ⊢
    unfold readArrayOf at readOk ⊢
    split at readOk
    next mark =>
      rw [dif_pos mark]
      rw [mark] at start
      exact start readOk
    next notMark =>
      rw [dif_neg notMark]
      split at readOk
      · exact absurd readOk Bool.false_ne_true
      next inside =>
        rw [if_neg inside]
        obtain ⟨startOk, all⟩ := start readOk
        refine ⟨startOk, ?_⟩
        have taken : (rest.rest.take len.toNat).length = len.toNat := by
          rw [length_take]
          omega
        unfold writeQByteArray writeByteArray
        dsimp only
        rw [taken, writeSize, UInt32.ofNat_toNat, append_assoc, take_append_drop]
        exact all

/-- A value is read as many times, also after a failure. -/
def readTimes (read : DataStream → α × DataStream) : Nat → DataStream → List α × DataStream
  | 0, stream => ([], stream)
  | count + 1, stream =>
    let next := readTimes read count (read stream).2
    ((read stream).1 :: next.1, next.2)

section Times

variable {read : DataStream → α × DataStream} {write : α → Bytes}

theorem length_readTimes (count : Nat) (stream : DataStream) :
    (readTimes read count stream).1.length = count := by
  induction count generalizing stream with
  | zero => rfl
  | succ count ih => rw [readTimes, length_cons, ih]

section

variable (exact : Exact read write)
include exact

theorem readTimes_write (values : List α) (rest : Bytes) (ok : Bool) :
    readTimes read values.length ⟨values.flatMap write ++ rest, ok⟩ = (values, ⟨rest, ok⟩) := by
  induction values with
  | nil => rfl
  | cons value values ih =>
    rw [length_cons, readTimes, flatMap_cons, append_assoc, exact.read_write]
    rw [ih]

end

end Times

/-- The upper half of a value. -/
def upper (value : Int64) : Int32 := (value.toUInt64 >>> 32).toUInt32.toInt32

/-- The lower half of a value. -/
def lower (value : Int64) : Int32 := value.toUInt64.toUInt32.toInt32

theorem toNat_upper (value : Int64) :
    (value.toUInt64 >>> 32).toUInt32.toNat = value.toUInt64.toNat / 4294967296 := by
  have small := value.toUInt64.toNat_lt
  have shifted : (value.toUInt64 >>> 32).toNat = value.toUInt64.toNat / 4294967296 := by
    rw [UInt64.toNat_shiftRight]
    exact Nat.shiftRight_eq_div_pow _ 32
  rw [UInt64.toNat_toUInt32, shifted]
  omega

theorem writeInt64_halves (value : Int64) :
    writeInt64 value = writeInt32 (upper value) ++ writeInt32 (lower value) := by
  unfold writeInt64 writeUInt64 writeInt32 writeUInt32 upper lower
  rw [UInt32.toUInt32_toInt32, UInt32.toUInt32_toInt32, toNat_upper, UInt64.toNat_toUInt32,
    littleEndian_add 4 4, reverse_append]
  congr 2
  exact (littleEndian_mod 4 _).symm

theorem toInt64_upper {value : Int64} :
    (upper value).toInt64 = value ↔ value = 0 ∨ value = -1 := by
  constructor
  · intro same
    have half : (upper value).toInt =
        Int.bmod (value.toUInt64.toNat / 4294967296 : Nat) (2 ^ 32) := by
      rw [← toNat_upper]
      exact BitVec.toInt_eq_toNat_bmod _
    have all : value.toInt = Int.bmod value.toUInt64.toNat (2 ^ 64) :=
      BitVec.toInt_eq_toNat_bmod _
    have small := value.toUInt64.toNat_lt
    have equal := congrArg Int64.toInt same
    rw [Int32.toInt_toInt64, half, all] at equal
    have signs : value.toUInt64.toNat = 0 ∨ value.toUInt64.toNat = 2 ^ 64 - 1 := by
      have quotient := Nat.div_add_mod value.toUInt64.toNat 4294967296
      have remainder := Nat.mod_lt value.toUInt64.toNat (by decide : 0 < 4294967296)
      generalize value.toUInt64.toNat / 4294967296 = q at equal quotient
      generalize value.toUInt64.toNat % 4294967296 = r at quotient remainder
      have first : (q : Int) % ((2 ^ 32 : Nat) : Int) = q := Int.emod_eq_of_lt (by omega) (by omega)
      have second : (value.toUInt64.toNat : Int) % ((2 ^ 64 : Nat) : Int) =
          value.toUInt64.toNat := Int.emod_eq_of_lt (by omega) (by omega)
      rw [Int.bmod_def, Int.bmod_def, first, second] at equal
      split at equal <;> split at equal <;> omega
    rcases signs with zero | minusOne
    · left
      have bits : value.toUInt64 = 0 := UInt64.toNat_inj.mp zero
      rw [← Int64.toInt64_toUInt64 value, bits]
      rfl
    · right
      have bits : value.toUInt64 = 0xFFFFFFFFFFFFFFFF := UInt64.toNat_inj.mp minusOne
      rw [← Int64.toInt64_toUInt64 value, bits]
      rfl
  · rintro (rfl | rfl) <;> rfl

end DataStream

end TelegramDesktop
