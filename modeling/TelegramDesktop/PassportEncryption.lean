import TelegramDesktop.ByteStrings
import Mathlib.Data.List.OfFn
import Mathlib.Algebra.BigOperators.Group.List.Basic
import Mathlib.Algebra.GroupWithZero.Nat

/-!
# Passport encryption

Data and secrets of the passport are encrypted with a key from a hash, as in
`passport/passport_encryption.cpp`.  Where a precondition is violated there is no result.
-/

namespace TelegramDesktop.Passport

open Option List

/-- The hashes and the cipher, of which only this is known. -/
structure Crypto where
  sha256 : Bytes → Bytes
  sha512 : Bytes → Bytes
  aesCbcEncrypt : Bytes → Bytes → Bytes → Bytes
  aesCbcDecrypt : Bytes → Bytes → Bytes → Bytes
  length_sha256 : ∀ bytes, (sha256 bytes).length = 32
  length_sha512 : ∀ bytes, (sha512 bytes).length = 64
  length_encrypt : ∀ key iv data, 16 ∣ data.length →
    (aesCbcEncrypt key iv data).length = data.length
  length_decrypt : ∀ key iv data, 16 ∣ data.length →
    (aesCbcDecrypt key iv data).length = data.length
  decrypt_encrypt : ∀ key iv data, 16 ∣ data.length →
    aesCbcDecrypt key iv (aesCbcEncrypt key iv data) = data

/-- A cipher that leaves its data alone. -/
instance : Inhabited Crypto where
  default := {
    sha256 := fun _ => List.replicate 32 0
    sha512 := fun _ => List.replicate 64 0
    aesCbcEncrypt := fun _ _ data => data
    aesCbcDecrypt := fun _ _ data => data
    length_sha256 := fun _ => List.length_replicate
    length_sha512 := fun _ => List.length_replicate
    length_encrypt := fun _ _ _ _ => rfl
    length_decrypt := fun _ _ _ _ => rfl
    decrypt_encrypt := fun _ _ _ _ => rfl }

def kAesKeyLength : Nat := 32
def kAesIvLength : Nat := 16
def kSecretSize : Nat := 32
def kAesParamsHashSize : Nat := 64
def kMinPadding : Nat := 32
def kMaxPadding : Nat := 255
def kAlignTo : Nat := 16
def kDataHashSize : Nat := 32

/-- The key and the initial vector. -/
structure AesParams where
  key : Bytes
  iv : Bytes

def prepareAesParamsWithHash (hashForEncryptionKey : Bytes) : Option AesParams :=
  if hashForEncryptionKey.length = kAesParamsHashSize then
    some ⟨hashForEncryptionKey.take kAesKeyLength,
      (hashForEncryptionKey.drop kAesKeyLength).take kAesIvLength⟩
  else none

def encryptOrDecrypt (aesCbc : Bytes → Bytes → Bytes → Bytes) (initial : Bytes)
    (params : AesParams) : Option Bytes :=
  if initial.length &&& 0x0F = 0 ∧ params.key.length = kAesKeyLength ∧
      params.iv.length = kAesIvLength then
    some (aesCbc params.key params.iv initial)
  else none

/-- The sum of all bytes. -/
def byteSum (bytes : Bytes) : Nat := (bytes.map UInt8.toNat).sum

/-- A secret is valid when its bytes add up to 239 modulo 255. -/
def checkSecretBytes (secret : Bytes) : Bool := byteSum secret % 255 == 239

/-- The first byte is changed so that the sum is right. -/
def fixFirst : Bytes → Bytes
  | [] => []
  | first :: rest =>
    UInt8.ofNat ((first.toNat + (255 + 239 - byteSum (first :: rest) % 255)) % 255) :: rest

/-- A random secret made valid. -/
def generateSecretBytes (random : Fin kSecretSize → UInt8) : Bytes := fixFirst (List.ofFn random)

namespace Crypto

variable (crypto : Crypto)

def prepareAesParams (bytesForEncryptionKey : Bytes) : Option AesParams :=
  prepareAesParamsWithHash (crypto.sha512 bytesForEncryptionKey)

def encrypt (decrypted : Bytes) (params : AesParams) : Option Bytes :=
  encryptOrDecrypt crypto.aesCbcEncrypt decrypted params

def decrypt (encrypted : Bytes) (params : AesParams) : Option Bytes :=
  encryptOrDecrypt crypto.aesCbcDecrypt encrypted params

def decryptSecretBytesWithHash (encryptedSecret hashForEncryptionKey : Bytes) : Option Bytes :=
  if encryptedSecret = [] then some []
  else if encryptedSecret.length ≠ kSecretSize then some []
  else
    (prepareAesParamsWithHash hashForEncryptionKey).bind fun params =>
      (crypto.decrypt encryptedSecret params).map fun result =>
        if checkSecretBytes result then result else []

def decryptSecretBytes (encryptedSecret bytesForEncryptionKey : Bytes) : Option Bytes :=
  crypto.decryptSecretBytesWithHash encryptedSecret (crypto.sha512 bytesForEncryptionKey)

/-- Only a valid secret is encrypted. -/
def encryptSecretBytes (secret bytesForEncryptionKey : Bytes) : Option Bytes :=
  if secret.length = kSecretSize ∧ checkSecretBytes secret = true then
    (crypto.prepareAesParams bytesForEncryptionKey).bind fun params => crypto.encrypt secret params
  else none

def decryptSecureSecret (encryptedSecret passwordHashForSecret : Bytes) : Option Bytes :=
  if encryptedSecret = [] then none
  else crypto.decryptSecretBytesWithHash encryptedSecret passwordHashForSecret

def encryptValueSecret (valueSecret secret valueHash : Bytes) : Option Bytes :=
  crypto.encryptSecretBytes valueSecret (secret ++ valueHash)

def decryptValueSecret (encrypted secret valueHash : Bytes) : Option Bytes :=
  crypto.decryptSecretBytes encrypted (secret ++ valueHash)

end Crypto

/-- Encrypted data, its secret and its hash. -/
structure EncryptedData where
  secret : Bytes
  hash : Bytes
  bytes : Bytes

/-- The random bytes that data is filled up with. -/
structure DataRandom where
  padding : UInt32
  fill : Nat → UInt8

def kFromPadding : Nat := kMinPadding + kAlignTo - 1
def kPaddingDelta : Nat := kMaxPadding - kFromPadding

def randomPadding (random : DataRandom) : Nat :=
  kFromPadding + random.padding.toNat % kPaddingDelta

/-- The padding that aligns the data. -/
def paddingOf (random : DataRandom) (size : Nat) : Nat :=
  randomPadding random - (size + randomPadding random) % kAlignTo

/-- The padding with its size as the first byte, and the data. -/
def unencryptedOf (random : DataRandom) (bytes : Bytes) : Bytes :=
  UInt8.ofNat (paddingOf random bytes.length) ::
    (List.range (paddingOf random bytes.length - 1)).map random.fill ++ bytes

namespace Crypto

variable (crypto : Crypto)

/-- `EncryptData` with a given secret. -/
def encryptDataWith (random : DataRandom) (bytes dataSecret : Bytes) : Option EncryptedData :=
  if kMinPadding ≤ paddingOf random bytes.length ∧ paddingOf random bytes.length ≤ kMaxPadding ∧
      (unencryptedOf random bytes).length % kAlignTo = 0 then
    (crypto.prepareAesParams (dataSecret ++ crypto.sha256 (unencryptedOf random bytes))).bind
      fun params => (crypto.encrypt (unencryptedOf random bytes) params).map fun encrypted =>
        ⟨dataSecret, crypto.sha256 (unencryptedOf random bytes), encrypted⟩
  else none

def encryptData (random : DataRandom) (secretRandom : Fin kSecretSize → UInt8) (bytes : Bytes) :
    Option EncryptedData :=
  crypto.encryptDataWith random bytes (generateSecretBytes secretRandom)

/-- Decrypted data is taken when its hash agrees. -/
def checkedData (dataHash decrypted : Bytes) : Option Bytes :=
  if crypto.sha256 decrypted ≠ dataHash then some []
  else
    decrypted.head?.map fun padding =>
      if padding.toNat < kMinPadding || kMaxPadding < padding.toNat ||
        decrypted.length < padding.toNat then []
      else decrypted.drop padding.toNat

def decryptData (encrypted dataHash dataSecret : Bytes) : Option Bytes :=
  if encrypted = [] then some []
  else if dataHash.length ≠ kDataHashSize then some []
  else if dataSecret.length ≠ kSecretSize then some []
  else
    (crypto.prepareAesParams (dataSecret ++ dataHash)).bind fun params =>
      (crypto.decrypt encrypted params).bind (crypto.checkedData dataHash)

end Crypto

theorem prepareAesParamsWithHash_isSome {hash : Bytes} :
    (prepareAesParamsWithHash hash).isSome = true ↔ hash.length = kAesParamsHashSize := by
  unfold prepareAesParamsWithHash
  split_ifs with size <;> simp [size]

theorem prepared_sizes {hash : Bytes} {params : AesParams}
    (prepared : prepareAesParamsWithHash hash = some params) :
    params.key.length = kAesKeyLength ∧ params.iv.length = kAesIvLength := by
  unfold prepareAesParamsWithHash at prepared
  split_ifs at prepared with size
  cases prepared
  simp [size, kAesParamsHashSize, kAesKeyLength, kAesIvLength]

theorem and_15_eq_zero {size : Nat} : size &&& 0x0F = 0 ↔ 16 ∣ size := by
  have mod : size &&& 0x0F = size % 16 := Nat.and_two_pow_sub_one_eq_mod size 4
  rw [mod]
  exact Nat.dvd_iff_mod_eq_zero.symm

theorem encryptOrDecrypt_prepared {aesCbc : Bytes → Bytes → Bytes → Bytes} {initial hash : Bytes}
    {params : AesParams} (prepared : prepareAesParamsWithHash hash = some params) :
    encryptOrDecrypt aesCbc initial params =
      if 16 ∣ initial.length then some (aesCbc params.key params.iv initial) else none := by
  obtain ⟨key, iv⟩ := prepared_sizes prepared
  unfold encryptOrDecrypt
  rw [if_congr (and_iff_left ⟨key, iv⟩) rfl rfl, if_congr and_15_eq_zero rfl rfl]

@[simp] theorem length_fixFirst (bytes : Bytes) : (fixFirst bytes).length = bytes.length := by
  cases bytes <;> rfl

@[simp] theorem length_generateSecretBytes (random : Fin kSecretSize → UInt8) :
    (generateSecretBytes random).length = kSecretSize := by
  rw [generateSecretBytes, length_fixFirst, length_ofFn]

/-- The remainder of the sum is fixed up in the first byte, which has room for it. -/
theorem checkSecretBytes_fixFirst {bytes : Bytes} (some : bytes ≠ []) :
    checkSecretBytes (fixFirst bytes) = true := by
  cases bytes with
  | nil => exact absurd rfl some
  | cons first rest =>
    have sum : byteSum (first :: rest) = first.toNat + byteSum rest := by
      rw [byteSum, map_cons, sum_cons, byteSum]
    rw [checkSecretBytes, fixFirst, beq_iff_eq, sum]
    rw [byteSum, map_cons, sum_cons, ← byteSum]
    have below : (first.toNat + (255 + 239 - (first.toNat + byteSum rest) % 255)) % 255 < 256 := by
      omega
    rw [UInt8.toNat_ofNat_of_lt' below]
    omega

theorem checkSecretBytes_generateSecretBytes (random : Fin kSecretSize → UInt8) :
    checkSecretBytes (generateSecretBytes random) = true := by
  apply checkSecretBytes_fixFirst
  intro none
  have size := length_ofFn (f := random)
  rw [none] at size
  cases size

theorem paddingOf_bounds (random : DataRandom) (size : Nat) :
    kMinPadding ≤ paddingOf random size ∧ paddingOf random size ≤ kMaxPadding := by
  simp only [paddingOf, randomPadding, kFromPadding, kPaddingDelta, kMinPadding, kMaxPadding,
    kAlignTo]
  omega

theorem length_unencryptedOf (random : DataRandom) (bytes : Bytes) :
    (unencryptedOf random bytes).length = paddingOf random bytes.length + bytes.length := by
  have enough := (paddingOf_bounds random bytes.length).1
  simp only [unencryptedOf, cons_append, length_cons, length_append, length_map, length_range]
  simp only [kMinPadding] at enough
  omega

theorem dvd_length_unencryptedOf (random : DataRandom) (bytes : Bytes) :
    16 ∣ (unencryptedOf random bytes).length := by
  rw [length_unencryptedOf]
  simp only [paddingOf, randomPadding, kFromPadding, kPaddingDelta, kMinPadding, kMaxPadding,
    kAlignTo]
  omega

theorem drop_unencryptedOf (random : DataRandom) (bytes : Bytes) :
    (unencryptedOf random bytes).drop (paddingOf random bytes.length) = bytes := by
  have enough := (paddingOf_bounds random bytes.length).1
  simp only [kMinPadding] at enough
  apply drop_left'
  rw [length_cons, length_map, length_range]
  omega

namespace Crypto

variable {crypto : Crypto}

theorem exists_prepareAesParams (crypto : Crypto) (bytes : Bytes) :
    ∃ params, crypto.prepareAesParams bytes = some params :=
  isSome_iff_exists.mp (prepareAesParamsWithHash_isSome.mpr (crypto.length_sha512 bytes))

theorem exists_encrypt (crypto : Crypto) {hash data : Bytes} {params : AesParams}
    (aligned : 16 ∣ data.length)
    (prepared : prepareAesParamsWithHash hash = some params) :
    ∃ encrypted, crypto.encrypt data params = some encrypted ∧
      encrypted.length = data.length ∧ crypto.decrypt encrypted params = some data := by
  have size := crypto.length_encrypt params.key params.iv data aligned
  refine ⟨crypto.aesCbcEncrypt params.key params.iv data, ?_, size, ?_⟩
  · rw [encrypt, encryptOrDecrypt_prepared prepared, if_pos aligned]
  · rw [decrypt, encryptOrDecrypt_prepared prepared, if_pos (size ▸ aligned),
      crypto.decrypt_encrypt _ _ _ aligned]

theorem checkedData_unencryptedOf (crypto : Crypto) (random : DataRandom) (bytes : Bytes) :
    crypto.checkedData (crypto.sha256 (unencryptedOf random bytes)) (unencryptedOf random bytes) =
      some bytes := by
  obtain ⟨enough, few⟩ := paddingOf_bounds random bytes.length
  have size := length_unencryptedOf random bytes
  have first : (unencryptedOf random bytes).head? =
      some (UInt8.ofNat (paddingOf random bytes.length)) := rfl
  have padding : (UInt8.ofNat (paddingOf random bytes.length)).toNat =
      paddingOf random bytes.length := by
    apply UInt8.toNat_ofNat_of_lt'
    exact Nat.lt_succ_of_le few
  rw [checkedData, if_neg (not_not.mpr rfl), first, map_some, padding, drop_unencryptedOf, if_neg]
  simp only [Bool.or_eq_true, decide_eq_true_eq, not_or, not_lt]
  exact ⟨⟨enough, few⟩, size ▸ Nat.le_add_right _ _⟩

theorem exists_encryptDataWith (crypto : Crypto) (random : DataRandom) (bytes : Bytes)
    {dataSecret : Bytes} (size : dataSecret.length = kSecretSize) :
    ∃ data, crypto.encryptDataWith random bytes dataSecret = some data ∧
      crypto.decryptData data.bytes data.hash data.secret = some bytes := by
  have aligned := dvd_length_unencryptedOf random bytes
  obtain ⟨enough, few⟩ := paddingOf_bounds random bytes.length
  obtain ⟨params, prepared⟩ := crypto.exists_prepareAesParams
    (dataSecret ++ crypto.sha256 (unencryptedOf random bytes))
  obtain ⟨encrypted, isEncrypted, sameSize, decrypted⟩ :=
    crypto.exists_encrypt aligned prepared
  refine ⟨⟨dataSecret, crypto.sha256 (unencryptedOf random bytes), encrypted⟩, ?_, ?_⟩
  · rw [encryptDataWith, if_pos ⟨enough, few, Nat.mod_eq_zero_of_dvd aligned⟩, prepared,
      bind_some, isEncrypted, map_some]
  · have filled : encrypted ≠ [] := by
      rintro rfl
      rw [length_nil, length_unencryptedOf] at sameSize
      simp only [kMinPadding] at enough
      omega
    have hashSize : (crypto.sha256 (unencryptedOf random bytes)).length = kDataHashSize :=
      crypto.length_sha256 _
    rw [decryptData]
    rw [if_neg filled, if_neg (not_not.mpr hashSize), if_neg (not_not.mpr size), prepared,
      bind_some, decrypted, bind_some,
      checkedData_unencryptedOf]

theorem decryptValueSecret_encrypt {valueSecret secret valueHash encrypted : Bytes}
    (isEncrypted : crypto.encryptValueSecret valueSecret secret valueHash = some encrypted) :
    crypto.decryptValueSecret encrypted secret valueHash = some valueSecret := by
  unfold encryptValueSecret encryptSecretBytes at isEncrypted
  split_ifs at isEncrypted with fits
  obtain ⟨size, checked⟩ := fits
  obtain ⟨params, prepared, isEncrypted⟩ := bind_eq_some_iff.mp isEncrypted
  have aligned : 16 ∣ valueSecret.length := by
    rw [size]
    exact ⟨2, rfl⟩
  obtain ⟨found, encryptedTo, sameSize, decrypted⟩ := crypto.exists_encrypt aligned prepared
  obtain rfl := some.inj (encryptedTo.symm.trans isEncrypted)
  have filled : found ≠ [] := by
    rintro rfl
    rw [size] at sameSize
    cases sameSize
  have prepared : prepareAesParamsWithHash (crypto.sha512 (secret ++ valueHash)) = some params :=
    prepared
  rw [decryptValueSecret, decryptSecretBytes, decryptSecretBytesWithHash, if_neg filled,
    if_neg (not_not.mpr (sameSize.trans size)), prepared, bind_some, decrypted,
    map_some, checked, if_pos rfl]

theorem encryptValueSecret_isSome {valueSecret : Bytes} (size : valueSecret.length = kSecretSize)
    (checked : checkSecretBytes valueSecret = true) (secret valueHash : Bytes) :
    ∃ encrypted, crypto.encryptValueSecret valueSecret secret valueHash = some encrypted := by
  obtain ⟨params, prepared⟩ := crypto.exists_prepareAesParams (secret ++ valueHash)
  have aligned : 16 ∣ valueSecret.length := by
    rw [size]
    exact ⟨2, rfl⟩
  obtain ⟨encrypted, isEncrypted, -⟩ := crypto.exists_encrypt aligned prepared
  exact ⟨encrypted, by rw [encryptValueSecret, encryptSecretBytes, if_pos ⟨size, checked⟩,
    prepared, bind_some, isEncrypted]⟩

theorem decrypt_isSome (crypto : Crypto) {hash encrypted : Bytes} {params : AesParams}
    (prepared : prepareAesParamsWithHash hash = some params) :
    (crypto.decrypt encrypted params).isSome = true ↔ 16 ∣ encrypted.length := by
  rw [decrypt, encryptOrDecrypt_prepared prepared]
  split_ifs with aligned <;> simp [aligned]

theorem decryptSecretBytesWithHash_isSome {encryptedSecret hash : Bytes} :
    (crypto.decryptSecretBytesWithHash encryptedSecret hash).isSome = true ↔
      (encryptedSecret.length = kSecretSize → hash.length = kAesParamsHashSize) := by
  unfold decryptSecretBytesWithHash
  split_ifs with none size
  · simp [none, kSecretSize]
  · simp [size]
  · rw [not_not] at size
    simp only [size, forall_const]
    cases prepared : prepareAesParamsWithHash hash with
    | none =>
      rw [← prepareAesParamsWithHash_isSome, prepared]
      rfl
    | some params =>
      have hashSize : hash.length = kAesParamsHashSize := by
        rw [← prepareAesParamsWithHash_isSome, prepared]
        rfl
      have aligned : 16 ∣ encryptedSecret.length := by
        rw [size]
        exact ⟨2, rfl⟩
      rw [bind_some, isSome_map]
      exact iff_of_true ((crypto.decrypt_isSome prepared).mpr aligned) hashSize

theorem decryptValueSecret_isSome (encrypted secret valueHash : Bytes) :
    (crypto.decryptValueSecret encrypted secret valueHash).isSome = true :=
  decryptSecretBytesWithHash_isSome.mpr fun _ => crypto.length_sha512 _

theorem decryptData_isSome {encrypted dataHash dataSecret : Bytes} :
    (crypto.decryptData encrypted dataHash dataSecret).isSome = true ↔
      (dataHash.length = kDataHashSize → dataSecret.length = kSecretSize →
        16 ∣ encrypted.length) := by
  unfold decryptData
  split_ifs with none hashSize secretSize
  · simp [none]
  · simp [hashSize]
  · simp [secretSize]
  · rw [not_not] at hashSize secretSize
    obtain ⟨params, prepared⟩ := crypto.exists_prepareAesParams (dataSecret ++ dataHash)
    rw [prepared, bind_some, ← crypto.decrypt_isSome prepared]
    simp only [hashSize, secretSize, forall_const]
    cases decrypted : crypto.decrypt encrypted params with
    | none => rfl
    | some data =>
      have aligned : 16 ∣ encrypted.length := by
        rw [← crypto.decrypt_isSome prepared, decrypted]
        rfl
      have filled : data ≠ [] := by
        rintro rfl
        rw [decrypt, encryptOrDecrypt_prepared prepared, if_pos aligned, some.injEq] at decrypted
        have size := crypto.length_decrypt params.key params.iv encrypted aligned
        rw [decrypted, length_nil] at size
        exact none (length_eq_zero_iff.mp size.symm)
      refine iff_of_true ?_ rfl
      obtain ⟨first, rest, rfl⟩ := exists_cons_of_ne_nil filled
      rw [bind_some, checkedData]
      split_ifs <;> rfl

/-- What is encrypted is checked and decrypted to what it was. -/
structure RoundTrips (crypto : Crypto) : Prop where
  secret : ∀ random, checkSecretBytes (generateSecretBytes random) = true
  data : ∀ random secretRandom plaintext, ∃ data,
    crypto.encryptData random secretRandom plaintext = some data ∧
      crypto.decryptData data.bytes data.hash data.secret = some plaintext
  generated : ∀ random secret valueHash, ∃ encrypted,
    crypto.encryptValueSecret (generateSecretBytes random) secret valueHash = some encrypted
  valueSecret : ∀ valueSecret secret valueHash encrypted,
    crypto.encryptValueSecret valueSecret secret valueHash = some encrypted →
      crypto.decryptValueSecret encrypted secret valueHash = some valueSecret

end Crypto

/-- What is encrypted is decrypted again.  Arbitrary encrypted secrets are decrypted without
a violated precondition, with a password hash of its size where they have their size, and
arbitrary data is, where its size is right if those of its hash and its secret are. -/
theorem roundTrips_and_isSome_iff (crypto : Crypto) :
    crypto.RoundTrips ∧
    (∀ encrypted secret valueHash,
      (crypto.decryptValueSecret encrypted secret valueHash).isSome = true) ∧
    (∀ encrypted dataHash dataSecret,
      (crypto.decryptData encrypted dataHash dataSecret).isSome = true ↔
        (dataHash.length = 32 → dataSecret.length = 32 → 16 ∣ encrypted.length)) ∧
    ∀ encrypted passwordHash, encrypted ≠ [] →
      ((crypto.decryptSecureSecret encrypted passwordHash).isSome = true ↔
        (encrypted.length = 32 → passwordHash.length = 64)) := by
  refine ⟨?_, ?_, ?_, ?_⟩
  · constructor
    · exact checkSecretBytes_generateSecretBytes
    · exact fun random secretRandom plaintext =>
        crypto.exists_encryptDataWith random plaintext (length_generateSecretBytes secretRandom)
    · exact fun random => Crypto.encryptValueSecret_isSome (length_generateSecretBytes random)
        (checkSecretBytes_generateSecretBytes random)
    · exact fun _ _ _ _ => Crypto.decryptValueSecret_encrypt
  · exact Crypto.decryptValueSecret_isSome
  · exact fun _ _ _ => Crypto.decryptData_isSome
  · intro encrypted passwordHash filled
    rw [Crypto.decryptSecureSecret, if_neg filled]
    exact Crypto.decryptSecretBytesWithHash_isSome

/-- One encrypted byte with a hash and a secret of their sizes is not checked. -/
theorem not_decryptData_one_byte :
    ¬∀ (crypto : Crypto) (encrypted dataHash dataSecret : Bytes),
      (crypto.decryptData encrypted dataHash dataSecret).isSome = true := by
  intro tolerates
  have result := tolerates default [1] (replicate 32 0) (replicate 32 0)
  rw [Crypto.decryptData_isSome] at result
  have aligned := result rfl rfl
  revert aligned
  decide

end TelegramDesktop.Passport
