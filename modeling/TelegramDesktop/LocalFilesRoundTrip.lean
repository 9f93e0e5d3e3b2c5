import TelegramDesktop.LocalFiles
import Mathlib.Data.List.Induction

/-!
# Local files are read back

What a file write descriptor is given is read from the file that it produces, and
what is encrypted is decrypted to what it was.
-/

namespace TelegramDesktop

open List UInt32 Int32

@[simp] theorem length_memory32 (value : UInt32) : (memory32 value).length = 4 :=
  length_littleEndian ..

@[simp] theorem ofMemory32_memory32 (value : UInt32) : ofMemory32 (memory32 value) = value := by
  have fits : value.toNat < 256 ^ 4 := value.toNat_lt
  rw [ofMemory32, memory32, ofLittleEndian_littleEndian fits, UInt32.ofNat_toNat]

theorem toNat_ofMemory32 {bytes : Bytes} (length : bytes.length = 4) :
    (ofMemory32 bytes).toNat = ofLittleEndian bytes := by
  have fits := ofLittleEndian_lt bytes
  rw [length] at fits
  rw [ofMemory32, toNat_ofNat']
  exact Nat.mod_eq_of_lt fits

theorem memory32_ofMemory32 {bytes : Bytes} (length : bytes.length = 4) :
    memory32 (ofMemory32 bytes) = bytes := by
  rw [memory32, toNat_ofMemory32 length]
  nth_rewrite 1 [← length]
  exact littleEndian_ofLittleEndian bytes

theorem memory32_qbswap (value : UInt32) :
    memory32 (qbswap value) = DataStream.writeUInt32 value := by
  rw [qbswap, memory32_ofMemory32 (by simp)]
  rfl

namespace FileWriteDescriptor

variable {Key : Type*} {crypto : LocalCrypto Key} {file : FileWriteDescriptor}

/-- The hash was fed what the stream was, and its size is counted. -/
structure Fed (file : FileWriteDescriptor) : Prop where
  md5 : file.md5 = file.safeData
  fullSize : file.fullSize = Int32.ofNat file.safeData.length

theorem fed_empty : Fed {} := ⟨rfl, rfl⟩

theorem Fed.writeData (fed : file.Fed) (data : Option Bytes) : (file.writeData data).Fed := by
  have written : memory32 (qbswap (if data.isNone then 0xFFFFFFFF
      else ofNat (data.getD []).length)) ++ data.getD [] =
        DataStream.writeByteArray data := by
    rw [memory32_qbswap]
    cases data with
    | none => exact append_nil _
    | some bytes => rfl
  have length : (DataStream.writeByteArray data).length = 4 + (data.getD []).length := by
    rw [← written, length_append, length_memory32]
  constructor
  · rw [FileWriteDescriptor.writeData, append_assoc, written, fed.md5]
  · rw [FileWriteDescriptor.writeData, length_append, length, fed.fullSize, ← Int32.ofNat_add]

end FileWriteDescriptor

/-- A call that writes to a file. -/
inductive WriteCall (Key : Type*)
  | writeData (data : Option Bytes)
  | writeEncrypted (key : Key) (random : Nat → UInt8) (data : Bytes)

namespace WriteCall

variable {Key : Type*} (crypto : LocalCrypto Key)

/-- The byte array that a call puts in the file. -/
def byteArray : WriteCall Key → Option Bytes
  | writeData data => data
  | writeEncrypted key random data => some (crypto.prepareEncrypted key random data)

def apply (file : FileWriteDescriptor) : WriteCall Key → FileWriteDescriptor
  | writeData data => file.writeData data
  | writeEncrypted key random data => file.writeEncrypted crypto key random data

/-- The data of the file before the checksum. -/
def stream (calls : List (WriteCall Key)) : Bytes :=
  calls.flatMap fun call => DataStream.writeByteArray (call.byteArray crypto)

def applyAll (calls : List (WriteCall Key)) : FileWriteDescriptor :=
  calls.foldl (apply crypto) {}

theorem apply_eq (file : FileWriteDescriptor) (call : WriteCall Key) :
    call.apply crypto file = file.writeData (call.byteArray crypto) := by
  cases call <;> rfl

theorem applyAll_spec (calls : List (WriteCall Key)) :
    (applyAll crypto calls).Fed ∧ (applyAll crypto calls).safeData = stream crypto calls := by
  induction calls using reverseRecOn with
  | nil => exact ⟨FileWriteDescriptor.fed_empty, rfl⟩
  | append_singleton calls call ih =>
    rw [applyAll, foldl_append, foldl_cons, foldl_nil, apply_eq, ← applyAll]
    constructor
    · exact ih.1.writeData _
    · rw [FileWriteDescriptor.writeData, ih.2, stream, stream, flatMap_append, flatMap_singleton]

end WriteCall

section Content

variable {Key : Type*} {crypto : LocalCrypto Key}

theorem readContent_content {entry : WriteEntry} (small : entry.data.length < 2 ^ 31)
    (signed : entry.md5 = crypto.md5 (entry.data ++
      memory32 (Int32.ofNat entry.data.length).toUInt32 ++ memory32 appVersion.toUInt32 ++
        tdfMagic)) :
    readContent crypto entry.content = some { version := appVersion, data := entry.data } := by
  have signature : entry.md5.length = 16 := by rw [signed, crypto.length_md5]
  have start : entry.content.take 4 = tdfMagic := by
    rw [WriteEntry.content, append_assoc, append_assoc]
    exact take_left' rfl
  have version : (entry.content.drop 4).take 4 = memory32 appVersion.toUInt32 := by
    have magic : tdfMagic.length = 4 := rfl
    rw [WriteEntry.content, append_assoc, append_assoc, drop_left' magic]
    exact take_left' (length_memory32 _)
  have bytes : entry.content.drop 8 = entry.data ++ entry.md5 := by
    rw [WriteEntry.content, append_assoc]
    exact drop_left' rfl
  have long : ¬ entry.content.length < 8 := by
    simp [WriteEntry.content, tdfMagic]
  have size : Int32.ofInt (((entry.data ++ entry.md5).length : Int) - 16) =
      Int32.ofNat entry.data.length := by
    have count : ((entry.data ++ entry.md5).length : Int) - 16 = entry.data.length := by
      rw [length_append, signature]
      omega
    rw [count]
    rfl
  have toInt : (Int32.ofNat entry.data.length).toInt = entry.data.length :=
    Int32.toInt_ofNat_of_lt small
  have clamp : (Int32.ofNat entry.data.length).toNatClampNeg = entry.data.length := by
    rw [Int32.toNatClampNeg, toInt, Int.toNat_natCast]
  have nonneg : ¬ Int32.ofNat entry.data.length < 0 := by
    rw [Int32.lt_iff_toInt_lt, toInt]
    exact Int.not_lt.mpr (Int.natCast_nonneg _)
  have all : (entry.md5).take 16 = entry.md5 := take_of_length_le (le_of_eq signature)
  simp only [readContent, start, version, bytes, size, clamp, long, nonneg, take_left,
    drop_left, all, ofMemory32_memory32, Int32.toInt32_toUInt32, if_false]
  rw [if_neg (by simp), if_neg (by decide), if_neg (not_not.mpr signed.symm)]

theorem readContent_finish (calls : List (WriteCall Key))
    (small : (WriteCall.stream crypto calls).length < 2 ^ 31) :
    readContent crypto ((WriteCall.applyAll crypto calls).finish crypto).content =
      some { version := appVersion, data := WriteCall.stream crypto calls } := by
  obtain ⟨fed, written⟩ := WriteCall.applyAll_spec crypto calls
  have data : ((WriteCall.applyAll crypto calls).finish crypto).data =
      WriteCall.stream crypto calls := written
  rw [readContent_content, data]
  · rw [data]
    exact small
  · rw [FileWriteDescriptor.finish, fed.md5, fed.fullSize]

end Content

namespace LocalCrypto

variable {Key : Type*} {crypto : LocalCrypto Key}

theorem toNat_padding {length : Nat} (small : length + 16 < 2 ^ 32) :
    ((if UInt32.ofNat length &&& 0x0F ≠ 0 then
        UInt32.ofNat length + (0x10 - (UInt32.ofNat length &&& 0x0F))
      else UInt32.ofNat length) - UInt32.ofNat length).toNat = (16 - length % 16) % 16 := by
  have size : (UInt32.ofNat length).toNat = length := by
    rw [toNat_ofNat']
    exact Nat.mod_eq_of_lt (by omega)
  have low : (UInt32.ofNat length &&& 0x0F).toNat = length % 16 := by
    rw [UInt32.toNat_and, size]
    exact Nat.and_two_pow_sub_one_eq_mod length 4
  split
  case isTrue some =>
    have pos : length % 16 ≠ 0 := by
      intro zero
      apply some
      rw [← UInt32.toNat_inj, low, zero]
      rfl
    have rest : (0x10 - (UInt32.ofNat length &&& 0x0F)).toNat = 16 - length % 16 := by
      have bound : (UInt32.ofNat length &&& 0x0F) ≤ 0x10 := by
        rw [le_iff_toNat_le, low]
        change length % 16 ≤ 16
        omega
      rw [UInt32.toNat_sub_of_le _ _ bound, low]
      rfl
    rw [UInt32.add_comm, UInt32.add_sub_cancel, rest]
    omega
  case isFalse none =>
    have zero : length % 16 = 0 := by
      rw [← low, not_not.mp none]
      rfl
    rw [UInt32.sub_self, zero]
    rfl

theorem prepareEncrypted_eq (crypto : LocalCrypto Key) (key : Key) (random : Nat → UInt8)
    {payload : Bytes} (small : payload.length < 2 ^ 31) :
    ∃ filling : Bytes, filling.length = (16 - (4 + payload.length) % 16) % 16 ∧
      crypto.prepareEncrypted key random (encryptedDescriptor payload) =
        let toEncrypt := memory32 (ofNat (4 + payload.length)) ++ payload ++ filling
        (crypto.sha1 toEncrypt).take 16 ++
          crypto.encrypt key ((crypto.sha1 toEncrypt).take 16) toEncrypt := by
  have length : (encryptedDescriptor payload).length = 4 + payload.length :=
    length_append
  refine ⟨(range ((16 - (4 + payload.length) % 16) % 16)).map random, by simp, ?_⟩
  have resized : ∀ filling : Bytes, memory32 (ofNat (4 + payload.length)) ++
          (encryptedDescriptor payload ++ filling).drop 4 =
        memory32 (ofNat (4 + payload.length)) ++ payload ++ filling := by
    intro filling
    have rest : (encryptedDescriptor payload ++ filling).drop 4 = payload ++ filling := rfl
    rw [rest, append_assoc]
  simp only [prepareEncrypted, length]
  rw [toNat_padding (by omega), resized]

theorem decryptLocal_prepareEncrypted (key : Key) (random : Nat → UInt8) {payload : Bytes}
    (small : payload.length < 2 ^ 31) :
    crypto.decryptLocal key
        (crypto.prepareEncrypted key random (encryptedDescriptor payload)) =
      some { data := memory32 (UInt32.ofNat (4 + payload.length)) ++ payload, pos := 4 } := by
  obtain ⟨filling, fills, prepared⟩ := prepareEncrypted_eq crypto key random small
  rw [prepared]
  extract_lets toEncrypt
  have length : toEncrypt.length = 4 + payload.length + filling.length := by
    simp [toEncrypt, add_assoc]
  have aligned : 16 ∣ toEncrypt.length := by
    rw [length, fills]
    omega
  set key128 := (crypto.sha1 toEncrypt).take 16 with key128Eq
  have keyLength : key128.length = 16 := by
    rw [key128Eq, length_take, crypto.length_sha1]
    rfl
  set cipher := crypto.encrypt key key128 toEncrypt with cipherEq
  have cipherLength : cipher.length = toEncrypt.length :=
    crypto.length_encrypt key key128 toEncrypt aligned
  have encryptedLength : (key128 ++ cipher).length = 16 + toEncrypt.length := by
    rw [length_append, keyLength, cipherLength]
  have valid : ¬((key128 ++ cipher).length ≤ 16 ∨ (key128 ++ cipher).length % 16 ≠ 0) := by
    rw [encryptedLength]
    omega
  have fullLen : (UInt32.ofNat ((key128 ++ cipher).length - 16)).toNat = toEncrypt.length := by
    rw [encryptedLength, toNat_ofNat', Nat.add_sub_cancel_left]
    exact Nat.mod_eq_of_lt (by omega)
  have block : ((key128 ++ cipher).drop 16).take toEncrypt.length = cipher := by
    rw [drop_left' keyLength]
    exact take_of_length_le (le_of_eq cipherLength)
  have decrypted : crypto.decrypt key key128 cipher = toEncrypt :=
    crypto.decrypt_encrypt key key128 toEncrypt aligned
  have dataLen : ofMemory32 (toEncrypt.take 4) = UInt32.ofNat (4 + payload.length) := by
    have first : toEncrypt.take 4 = memory32 (ofNat (4 + payload.length)) := by
      exact take_left' (length_memory32 _)
    rw [first, ofMemory32_memory32]
  have size : (UInt32.ofNat (4 + payload.length)).toNat = 4 + payload.length := by
    rw [toNat_ofNat']
    exact Nat.mod_eq_of_lt (by omega)
  have fits : ¬(UInt32.ofNat (4 + payload.length) > UInt32.ofNat toEncrypt.length ∨
      UInt32.ofNat (4 + payload.length) ≤ UInt32.ofNat ((key128 ++ cipher).length - 16) - 16 ∨
      UInt32.ofNat (4 + payload.length) < 4) := by
    have whole : (UInt32.ofNat toEncrypt.length).toNat = toEncrypt.length := by
      rw [toNat_ofNat']
      exact Nat.mod_eq_of_lt (by omega)
    have block : (UInt32.ofNat ((key128 ++ cipher).length - 16) - 16).toNat =
        toEncrypt.length - 16 := by
      have enough : (16 : UInt32) ≤ UInt32.ofNat ((key128 ++ cipher).length - 16) := by
        rw [le_iff_toNat_le, fullLen]
        change 16 ≤ toEncrypt.length
        omega
      rw [UInt32.toNat_sub_of_le _ _ enough, fullLen]
      rfl
    have four : (4 : UInt32).toNat = 4 := rfl
    simp only [gt_iff_lt, lt_iff_toNat_lt, le_iff_toNat_le, size, whole, block, four]
    omega
  have result : toEncrypt.take (4 + payload.length) =
      memory32 (ofNat (4 + payload.length)) ++ payload := by
    apply take_left'
    rw [length_append, length_memory32]
  unfold decryptLocal
  rw [if_neg valid]
  simp only [take_left' keyLength, fullLen, block, decrypted, dataLen]
  rw [if_neg (not_not.mpr key128Eq.symm), if_neg fits, size, result]

/-- The block as it is decrypted, its size still in front. -/
def decryptedBlock (crypto : LocalCrypto Key) (key : Key) (encrypted : Bytes) : Bytes :=
  crypto.decrypt key (encrypted.take 16)
    ((encrypted.drop 16).take (UInt32.ofNat (encrypted.length - 16)).toNat)

theorem length_of_decryptLocal {key : Key} {encrypted : Bytes} {result : Decrypted}
    (accepted : crypto.decryptLocal key encrypted = some result) :
    ∃ dataLen, dataLen = ofLittleEndian ((crypto.decryptedBlock key encrypted).take 4) ∧
      (crypto.decryptedBlock key encrypted).length - 16 < dataLen ∧
      dataLen ≤ (crypto.decryptedBlock key encrypted).length ∧ 4 ≤ dataLen ∧
      result = { data := (crypto.decryptedBlock key encrypted).take dataLen, pos := 4 } := by
  unfold decryptLocal at accepted
  split at accepted
  · cases accepted
  rename_i valid
  push Not at valid
  extract_lets fullLen encryptedKey decrypted dataLen at accepted
  split at accepted
  · cases accepted
  split at accepted
  · cases accepted
  rename_i fits
  rw [not_or, not_or] at fits
  cases accepted
  have fullSize : fullLen.toNat = (encrypted.length - 16) % 2 ^ 32 := toNat_ofNat'
  have sourceLength : ((encrypted.drop 16).take fullLen.toNat).length = fullLen.toNat := by
    rw [length_take, length_drop, fullSize]
    exact Nat.min_eq_left (Nat.mod_le ..)
  have aligned : 16 ∣ fullLen.toNat := by
    rw [fullSize]
    omega
  have blockLength : decrypted.length = fullLen.toNat := by
    rw [← sourceLength]
    apply crypto.length_decrypt
    rw [sourceLength]
    exact aligned
  have whole : UInt32.ofNat decrypted.length = fullLen := by
    rw [blockLength, UInt32.ofNat_toNat]
  rw [whole] at fits
  obtain ⟨atMost, moreThan, atLeast⟩ := fits
  rw [gt_iff_lt, lt_iff_toNat_lt, not_lt] at atMost
  rw [le_iff_toNat_le, not_le] at moreThan
  rw [lt_iff_toNat_lt, not_lt] at atLeast
  have four : (4 : UInt32).toNat = 4 := rfl
  rw [four] at atLeast
  have enough : (16 : UInt32) ≤ fullLen := by
    rw [le_iff_toNat_le]
    change 16 ≤ fullLen.toNat
    omega
  have less : (fullLen - 16).toNat = fullLen.toNat - 16 := UInt32.toNat_sub_of_le _ _ enough
  have value : dataLen.toNat = ofLittleEndian (decrypted.take 4) := by
    apply toNat_ofMemory32
    rw [length_take, blockLength]
    omega
  refine ⟨dataLen.toNat, value, ?_, ?_, atLeast, rfl⟩
  · change decrypted.length - 16 < dataLen.toNat
    rw [blockLength, ← less]
    exact moreThan
  · change dataLen.toNat ≤ decrypted.length
    rw [blockLength]
    exact atMost

end LocalCrypto

end TelegramDesktop
