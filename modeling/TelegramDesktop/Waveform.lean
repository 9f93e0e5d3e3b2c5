import Mathlib.Data.Nat.Bitwise
import Mathlib.Data.Nat.Digits.Defs
import TelegramDesktop.ByteStrings

/-!
# Voice waveforms

Samples of a voice message take five bits each, and they are read and written through
words of sixteen bits at any byte, as in `data/data_document.cpp`. An access outside of
the buffer, like an `int` that overflows, is `none` here.
-/

namespace TelegramDesktop

open List Option

/-- The values of `signed char`. -/
abbrev VoiceWaveform := List Int

namespace VoiceWaveform

/-- A size computed as an `int`. -/
def intSize (size : Nat) : Option Nat := if size < 2 ^ 31 then some size else none

def readUChar (data : Bytes) (index : Nat) : Option Nat :=
  if index < data.length then some (ofLittleEndian ((data.drop index).take 1)) else none

def readUInt16 (data : Bytes) (index : Nat) : Option Nat :=
  if index + 2 ≤ data.length then some (ofLittleEndian ((data.drop index).take 2)) else none

def writeUInt16 (data : Bytes) (index value : Nat) : Option Bytes :=
  if index + 2 ≤ data.length then
    some (data.take index ++ (littleEndian 2 value ++ data.drop (index + 2)))
  else none

def fiveBits (value bitShift : Nat) : Int := ((value >>> bitShift) &&& 0x1F : Nat)

/-- The samples of the bytes. -/
def documentWaveformDecode (encoded5bit : Bytes) : Option VoiceWaveform := do
  let bitsCount ← intSize (encoded5bit.length * 8)
  let valuesCount := bitsCount / 5
  if valuesCount = 0 then return []
  let result ← (List.range (valuesCount - 1)).mapM fun i =>
    (readUInt16 encoded5bit (i * 5 / 8)).map (fiveBits · (i * 5 % 8))
  let lastByteIndex := (valuesCount - 1) * 5 / 8
  let lastBitShift := (valuesCount - 1) * 5 % 8
  let lastValue ←
    if lastByteIndex = encoded5bit.length - 1 then readUChar encoded5bit lastByteIndex
    else readUInt16 encoded5bit lastByteIndex
  return result ++ [fiveBits lastValue lastBitShift]

/-- What a sample is or-ed with; `uint16` of a negative sample has its lower bits. -/
def valueAt (sample : Int) (bitShift : Nat) : Nat := (sample % 0x20).toNat <<< bitShift

def encodeFrom (i : Nat) : VoiceWaveform → Bytes → Option Bytes
  | [], data => some data
  | sample :: samples, data => do
    let word ← readUInt16 data (i * 5 / 8)
    encodeFrom (i + 1) samples
      (← writeUInt16 data (i * 5 / 8) (word ||| valueAt sample (i * 5 % 8)))

/-- The bytes of the samples, five bits each. -/
def documentWaveformEncode5bit (waveform : VoiceWaveform) : Option Bytes := do
  let bitsCount ← intSize (waveform.length * 5)
  let rounded ← intSize (bitsCount + 7)
  let bytesCount := rounded / 8
  return (← encodeFrom 0 waveform (List.replicate (bytesCount + 1) 0)).take bytesCount

variable {data : Bytes} {index : Nat}

theorem ofLittleEndian_append (first second : Bytes) :
    ofLittleEndian (first ++ second) =
      ofLittleEndian first + 256 ^ first.length * ofLittleEndian second := by
  induction first with
  | nil => simp [ofLittleEndian]
  | cons byte first ih =>
    rw [cons_append, ofLittleEndian, ofLittleEndian, ih, length_cons, pow_succ']
    ring

theorem ofLittleEndian_take (data : Bytes) (count : Nat) :
    ofLittleEndian (data.take count) = ofLittleEndian data % 256 ^ count := by
  have small := ofLittleEndian_lt (data.take count)
  have split := ofLittleEndian_append (data.take count) (data.drop count)
  rw [take_append_drop] at split
  rcases le_total count data.length with inside | outside
  · rw [length_take_of_le inside] at small split
    rw [split, Nat.add_mul_mod_self_left, Nat.mod_eq_of_lt small]
  · rw [take_of_length_le outside]
    refine (Nat.mod_eq_of_lt ?_).symm
    exact (ofLittleEndian_lt data).trans_le (Nat.pow_le_pow_right (by decide) outside)

theorem ofLittleEndian_drop (inside : index ≤ data.length) :
    ofLittleEndian (data.drop index) = ofLittleEndian data / 256 ^ index := by
  have small := ofLittleEndian_lt (data.take index)
  have split := ofLittleEndian_append (data.take index) (data.drop index)
  rw [length_take_of_le inside] at small split
  rw [take_append_drop] at split
  rw [split, Nat.add_mul_div_left _ _ (by positivity), Nat.div_eq_of_lt small, Nat.zero_add]

theorem readUInt16_eq (inside : index + 2 ≤ data.length) :
    readUInt16 data index = some (ofLittleEndian data / 256 ^ index % 2 ^ 16) := by
  rw [readUInt16, if_pos inside, ofLittleEndian_take, ofLittleEndian_drop (by omega),
    show 256 ^ 2 = 2 ^ 16 from rfl]

theorem readUChar_eq (last : index + 1 = data.length) :
    readUChar data index = some (ofLittleEndian data / 256 ^ index % 2 ^ 16) := by
  have byte : (data.drop index).length = 1 := by
    rw [length_drop]
    omega
  have small := ofLittleEndian_lt (data.drop index)
  rw [byte] at small
  rw [readUChar, if_pos (by omega), take_of_length_le byte.le,
    ← ofLittleEndian_drop (by omega), Nat.mod_eq_of_lt (by omega)]

theorem writeUInt16_spec {value : Nat} (inside : index + 2 ≤ data.length) (small : value < 2 ^ 16) :
    ∃ written, writeUInt16 data index value = some written ∧ written.length = data.length ∧
      ofLittleEndian written + 256 ^ index * (ofLittleEndian data / 256 ^ index % 2 ^ 16) =
        ofLittleEndian data + 256 ^ index * value := by
  have word := ofLittleEndian_take (data.drop index) 2
  have parts := ofLittleEndian_append (data.take index) (data.drop index)
  have rest := ofLittleEndian_append ((data.drop index).take 2) ((data.drop index).drop 2)
  rw [ofLittleEndian_drop (by omega)] at word
  rw [take_append_drop, length_take_of_le (by omega)] at parts
  rw [take_append_drop, drop_drop, length_take_of_le (by rw [length_drop]; omega), word] at rest
  refine ⟨_, if_pos inside, ?_, ?_⟩
  · rw [length_append, length_append, length_littleEndian, length_drop,
      length_take_of_le (by omega)]
    omega
  · rw [ofLittleEndian_append, ofLittleEndian_append, ofLittleEndian_littleEndian small,
      length_littleEndian, length_take_of_le (by omega), show 2 ^ 16 = 256 ^ 2 from rfl]
    generalize ofLittleEndian data / 256 ^ index % 256 ^ 2 = word at rest ⊢
    rw [parts, rest]
    ring

theorem fiveBits_word (value : Nat) (i : Nat) :
    fiveBits (value / 256 ^ (i * 5 / 8) % 2 ^ 16) (i * 5 % 8) = (value / 32 ^ i % 32 : Nat) := by
  have position : 32 ^ i = 256 ^ (i * 5 / 8) * 2 ^ (i * 5 % 8) := by
    rw [show 256 = 2 ^ 8 from rfl, show 32 = 2 ^ 5 from rfl, ← Nat.pow_mul, ← Nat.pow_mul,
      ← Nat.pow_add]
    congr 1
    omega
  have width : 2 ^ 16 = 2 ^ (i * 5 % 8) * (32 * 2 ^ (11 - i * 5 % 8)) := by
    rw [show 32 = 2 ^ 5 from rfl, ← Nat.pow_add, ← Nat.pow_add]
    congr 1
    omega
  have mask (value : Nat) : value &&& 0x1F = value % 32 := Nat.and_two_pow_sub_one_eq_mod value 5
  rw [fiveBits, Nat.shiftRight_eq_div_pow, mask, width, Nat.mod_mul_right_div_self,
    Nat.mod_mod_of_dvd _ ⟨_, rfl⟩, Nat.div_div_eq_div_mul, position]

/-- So many samples of a number. -/
def samples (value count : Nat) : VoiceWaveform :=
  (List.range count).map fun i => ((value / 32 ^ i % 32 : Nat) : Int)

theorem documentWaveformDecode_eq (fits : data.length * 8 < 2 ^ 31) :
    documentWaveformDecode data = some (samples (ofLittleEndian data) (data.length * 8 / 5)) := by
  unfold documentWaveformDecode intSize
  rw [if_pos fits]
  dsimp only [bind_eq_bind, bind_some]
  split
  next none =>
    rw [none]
    rfl
  next some =>
    obtain ⟨count, valuesCount⟩ := Nat.exists_eq_succ_of_ne_zero some
    have first : (range count).mapM (fun i =>
        (readUInt16 data (i * 5 / 8)).map (fiveBits · (i * 5 % 8))) =
          Option.some (samples (ofLittleEndian data) count) := by
      refine mapM_eq_some_map _ fun i member => ?_
      have below := mem_range.mp member
      rw [readUInt16_eq (by omega), map_some, fiveBits_word]
    have all : samples (ofLittleEndian data) count.succ = samples (ofLittleEndian data) count ++
        [fiveBits (ofLittleEndian data / 256 ^ (count * 5 / 8) % 2 ^ 16) (count * 5 % 8)] := by
      rw [fiveBits_word, samples, range_succ, map_append]
      rfl
    rw [valuesCount, Nat.succ_sub_one, first, all, bind_some]
    -- The last sample may start in the last byte, and no other one does.
    split
    · rw [readUChar_eq (by omega)]
      rfl
    · rw [readUInt16_eq (by omega)]
      rfl

theorem documentWaveformDecode_eq_none (large : ¬data.length * 8 < 2 ^ 31) :
    documentWaveformDecode data = none := by
  unfold documentWaveformDecode intSize
  rw [if_neg large]
  rfl

theorem testBit_ofLittleEndian (data : Bytes) (bit : Nat) :
    (ofLittleEndian data).testBit bit = (data.getD (bit / 8) 0).toNat.testBit (bit % 8) := by
  induction data generalizing bit with
  | nil => simp [ofLittleEndian]
  | cons byte data ih =>
    have small : byte.toNat < 2 ^ 8 := byte.toNat_lt
    rw [ofLittleEndian, add_comm, show 256 = 2 ^ 8 from rfl, Nat.testBit_two_pow_mul_add _ small]
    split
    next inside =>
      rw [Nat.div_eq_of_lt inside, Nat.mod_eq_of_lt inside]
      rfl
    next outside =>
      obtain ⟨bit, rfl⟩ := Nat.exists_eq_add_of_le (Nat.le_of_not_lt outside)
      rw [Nat.add_sub_cancel_left, ih, Nat.add_mod_left, Nat.add_div_left _ (by decide)]
      rfl

/-- So many samples are decoded, each of them from its five bits. -/
def DecodesBits (encoded5bit : Bytes) : Prop :=
  ∃ values, documentWaveformDecode encoded5bit = some values ∧
    values.length = encoded5bit.length * 8 / 5 ∧
    ∀ i (inside : i < values.length), 0 ≤ values[i] ∧ values[i] ≤ 31 ∧
      ∀ bit < 5, values[i].toNat.testBit bit =
        (encoded5bit.getD ((i * 5 + bit) / 8) 0).toNat.testBit ((i * 5 + bit) % 8)

theorem decodesBits_iff : DecodesBits data ↔ data.length * 8 < 2 ^ 31 := by
  constructor
  · rintro ⟨values, decoded, -⟩
    by_contra large
    rw [documentWaveformDecode_eq_none large] at decoded
    cases decoded
  · intro fits
    refine ⟨_, documentWaveformDecode_eq fits, by simp [samples], fun i inside => ?_⟩
    have value : (samples (ofLittleEndian data) (data.length * 8 / 5))[i] =
        (ofLittleEndian data / 32 ^ i % 32 : Nat) := by
      simp [samples]
    rw [value]
    refine ⟨Int.natCast_nonneg _, by omega, fun bit small => ?_⟩
    rw [Int.toNat_natCast, show 32 = 2 ^ 5 from rfl, ← Nat.pow_mul, Nat.testBit_mod_two_pow,
      Nat.testBit_div_two_pow, decide_eq_true small, Bool.true_and, testBit_ofLittleEndian,
      mul_comm 5, add_comm]

theorem encodeFrom_spec (waveform : VoiceWaveform) (i : Nat)
    (values : ∀ sample ∈ waveform, 0 ≤ sample ∧ sample ≤ 31)
    (within : (i + waveform.length) * 5 ≤ 8 * (data.length - 1)) (nonempty : 0 < data.length)
    (small : ofLittleEndian data < 32 ^ i) :
    ∃ written, encodeFrom i waveform data = some written ∧ written.length = data.length ∧
      ofLittleEndian written =
        ofLittleEndian data + 32 ^ i * Nat.ofDigits 32 (waveform.map Int.toNat) := by
  induction waveform generalizing i data with
  | nil => exact ⟨data, rfl, rfl, by simp⟩
  | cons sample waveform ih =>
    have range := values sample mem_cons_self
    rw [length_cons] at within
    have position : 32 ^ i = 256 ^ (i * 5 / 8) * 2 ^ (i * 5 % 8) := by
      rw [show 256 = 2 ^ 8 from rfl, show 32 = 2 ^ 5 from rfl, ← pow_mul, ← pow_mul, ← pow_add]
      congr 1
      omega
    have word : ofLittleEndian data / 256 ^ (i * 5 / 8) < 2 ^ (i * 5 % 8) := by
      rw [position] at small
      exact Nat.div_lt_of_lt_mul small
    have shifted : 2 ^ (i * 5 % 8) ≤ 2 ^ 7 := Nat.pow_le_pow_right (by decide) (by omega)
    have inside : i * 5 / 8 + 2 ≤ data.length := by omega
    have value : valueAt sample (i * 5 % 8) = sample.toNat * 2 ^ (i * 5 % 8) := by
      rw [valueAt, Nat.shiftLeft_eq, Int.emod_eq_of_lt range.1 (by omega)]
    have joined : ofLittleEndian data / 256 ^ (i * 5 / 8) % 2 ^ 16 |||
        valueAt sample (i * 5 % 8) =
          ofLittleEndian data / 256 ^ (i * 5 / 8) + sample.toNat * 2 ^ (i * 5 % 8) := by
      rw [Nat.mod_eq_of_lt (by omega), Nat.lor_comm, valueAt,
        ← Nat.shiftLeft_add_eq_or_of_lt word, ← valueAt, value, Nat.add_comm]
    have room : sample.toNat * 2 ^ (i * 5 % 8) ≤ 31 * 2 ^ 7 := Nat.mul_le_mul (by omega) shifted
    obtain ⟨next, wrote, length, number⟩ := writeUInt16_spec inside
      (show ofLittleEndian data / 256 ^ (i * 5 / 8) % 2 ^ 16 ||| valueAt sample (i * 5 % 8) <
        2 ^ 16 by rw [joined]; omega)
    rw [joined, Nat.mod_eq_of_lt (by omega)] at number
    have grown : ofLittleEndian next = ofLittleEndian data + 32 ^ i * sample.toNat := by
      rw [position]
      linarith
    have bound : ofLittleEndian next < 32 ^ (i + 1) := by
      rw [grown, pow_succ]
      have limit : 32 ^ i * sample.toNat ≤ 32 ^ i * 31 := Nat.mul_le_mul_left _ (by omega)
      omega
    obtain ⟨written, rest, same, all⟩ := ih (i + 1)
      (fun other member => values other (mem_cons_of_mem _ member)) (by omega) (by omega) bound
    refine ⟨written, ?_, same.trans length, ?_⟩
    · rw [encodeFrom, readUInt16_eq inside, bind_eq_bind, bind_some, wrote]
      exact rest
    · rw [all, grown, map_cons, Nat.ofDigits_cons, Nat.pow_succ]
      ring

theorem ofDigits_div_pow_mod {digits : List Nat} (small : ∀ digit ∈ digits, digit < 32) (i : Nat) :
    Nat.ofDigits 32 digits / 32 ^ i % 32 = digits.getD i 0 := by
  induction digits generalizing i with
  | nil => simp
  | cons digit digits ih =>
    have first := small digit mem_cons_self
    rw [Nat.ofDigits_cons]
    cases i with
    | zero =>
      rw [Nat.pow_zero, Nat.div_one, Nat.add_mul_mod_self_left, Nat.mod_eq_of_lt first]
      rfl
    | succ i =>
      rw [Nat.pow_succ', ← Nat.div_div_eq_div_mul, Nat.add_mul_div_left _ _ (by decide),
        Nat.div_eq_of_lt first, Nat.zero_add, ih fun other member =>
          small other (mem_cons_of_mem _ member)]
      rfl

/-- What is encoded is decoded, and at most one sample is added to it. -/
def RoundTrips (waveform : VoiceWaveform) : Prop :=
  ∃ encoded, documentWaveformEncode5bit waveform = some encoded ∧
    encoded.length = (waveform.length * 5 + 7) / 8 ∧
    ∃ extra ≤ 1, documentWaveformDecode encoded = some (waveform ++ List.replicate extra 0)

theorem returnsWaveform_iff {waveform : VoiceWaveform}
    (values : ∀ sample ∈ waveform, 0 ≤ sample ∧ sample ≤ 31) :
    RoundTrips waveform ↔ waveform.length * 5 + 7 < 2 ^ 31 := by
  constructor
  · rintro ⟨encoded, written, -⟩
    by_contra large
    unfold documentWaveformEncode5bit intSize at written
    split at written
    · rw [bind_eq_bind, bind_some, if_neg large] at written
      cases written
    · cases written
  · intro fits
    have bytes : (waveform.length * 5 + 7) / 8 * 8 < 2 ^ 31 := by omega
    have zero (count : Nat) : ofLittleEndian (replicate count 0) = 0 := by
      induction count with
      | zero => rfl
      | succ count ih => rw [replicate_succ, ofLittleEndian, ih]; rfl
    obtain ⟨written, encoded, length, number⟩ := @encodeFrom_spec
      (replicate ((waveform.length * 5 + 7) / 8 + 1) 0) waveform 0 values
      (by rw [length_replicate]; omega) (by rw [length_replicate]; omega)
      (by rw [zero]; decide)
    rw [length_replicate] at length
    rw [zero, zero_add, pow_zero, one_mul] at number
    have digits : ∀ digit ∈ waveform.map Int.toNat, digit < 32 := by
      intro digit member
      obtain ⟨sample, inside, rfl⟩ := mem_map.mp member
      have range := values sample inside
      omega
    have taken : (written.take ((waveform.length * 5 + 7) / 8)).length =
        (waveform.length * 5 + 7) / 8 := length_take_of_le (by omega)
    have small : Nat.ofDigits 32 (waveform.map Int.toNat) <
        256 ^ ((waveform.length * 5 + 7) / 8) := by
      refine (Nat.ofDigits_lt_base_pow_length (by decide) digits).trans_le ?_
      rw [length_map, show 256 = 2 ^ 8 from rfl, show 32 = 2 ^ 5 from rfl, ← Nat.pow_mul, ← pow_mul]
      exact Nat.pow_le_pow_right (by decide) (by omega)
    refine ⟨_, ?_, taken, (waveform.length * 5 + 7) / 8 * 8 / 5 - waveform.length, by omega, ?_⟩
    · unfold documentWaveformEncode5bit intSize
      rw [if_pos (by omega), bind_eq_bind, bind_some, if_pos fits, bind_eq_bind, bind_some]
      dsimp only
      rw [encoded]
      rfl
    · rw [documentWaveformDecode_eq (by rw [taken]; exact bytes), taken, ofLittleEndian_take,
        number,
        Nat.mod_eq_of_lt small]
      congr 1
      apply ext_getElem
      · simp only [samples, length_map, length_range, length_append, length_replicate]
        omega
      · intro i _ inside
        simp only [samples, getElem_map, getElem_range, ofDigits_div_pow_mod digits]
        rcases lt_or_ge i waveform.length with before | after
        · rw [getElem_append_left before, getD_eq_getElem _ _ (by simpa using before), getElem_map]
          exact Int.toNat_of_nonneg (values _ (getElem_mem before)).1
        · rw [getElem_append_right after, getD_eq_default _ _ (by simpa using after),
            getElem_replicate]
          rfl

/-- Waveforms come back from their bits, and arrays of any bytes are decoded inside of their
bounds, exactly as long as the number of bits is an `int`. -/
theorem waveforms_roundTrip_iff (waveform : VoiceWaveform) (encoded5bit : Bytes) :
    ((∀ sample ∈ waveform, 0 ≤ sample ∧ sample ≤ 31) →
      (RoundTrips waveform ↔ waveform.length * 5 + 7 < 2 ^ 31)) ∧
    (DecodesBits encoded5bit ↔ encoded5bit.length * 8 < 2 ^ 31) :=
  ⟨returnsWaveform_iff, decodesBits_iff⟩

/-- The number of bits of 256 MiB is not an `int`. -/
theorem not_decodesBits_large : ¬DecodesBits (List.replicate (2 ^ 28) 0) := by
  rintro ⟨values, decoded, -⟩
  rw [documentWaveformDecode_eq_none (by rw [length_replicate]; decide)] at decoded
  cases decoded

end VoiceWaveform

end TelegramDesktop
