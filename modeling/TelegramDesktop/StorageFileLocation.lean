import Mathlib.Data.Nat.Bitwise

/-!
# Cache keys of file locations

A `StorageFileLocation` is packed into a cache key of two words, as in
`ui/image/image_location.cpp`, and locations are compared field by field.
-/

namespace TelegramDesktop

namespace Storage.Cache

/-- The key of an entry of the cache. -/
structure Key where
  high : UInt64
  low : UInt64
  deriving DecidableEq, Repr

end Storage.Cache

open Storage.Cache (Key)

namespace StorageFileLocation

/-- The kinds of locations, in the order of their codes. -/
inductive LocationType
  | legacy
  | encrypted
  | document
  | secure
  | takeout
  | photo
  | peerPhoto
  | stickerSetThumb
  | groupCallStream
  deriving DecidableEq, Repr

def LocationType.value : LocationType → UInt64
  | legacy => 0
  | encrypted => 1
  | document => 2
  | secure => 3
  | takeout => 4
  | photo => 5
  | peerPhoto => 6
  | stickerSetThumb => 7
  | groupCallStream => 8

end StorageFileLocation

open StorageFileLocation (LocationType)

/-- A location of the storage, without the bytes of its reference. -/
structure StorageFileLocation where
  dcId : UInt16 := 0
  type : LocationType := .legacy
  sizeLetter : UInt8 := 0
  localId : Int32 := 0
  id : UInt64 := 0
  accessHash : UInt64 := 0
  volumeId : UInt64 := 0
  deriving DecidableEq, Repr

/-- `Data::DocumentCacheKey` -/
def documentCacheKey (dcId : UInt16) (id : UInt64) : Key :=
  ⟨0x100 ||| (dcId.toUInt64 &&& 0xFF), id⟩

namespace StorageFileLocation

variable (location : StorageFileLocation)

def valid : Bool :=
  match location.type with
  | .legacy => location.dcId ≠ 0 && location.volumeId ≠ 0 && location.localId ≠ 0
  | .encrypted | .secure | .document => location.dcId ≠ 0 && location.id ≠ 0
  | .photo => location.dcId ≠ 0 && location.id ≠ 0 && location.sizeLetter ≠ 0
  | .takeout => true
  | .peerPhoto | .stickerSetThumb => location.dcId ≠ 0 && location.id ≠ 0
  | .groupCallStream =>
    location.dcId ≠ 0 && location.id ≠ 0 && location.volumeId ≠ 0

def shifted : UInt64 := (location.type.value + 3) <<< 8

def sliced : UInt64 := location.dcId.toUInt64 &&& 0xFF

/-- The key of the file in the cache. -/
def cacheKey : Key :=
  match location.type with
  | .legacy | .peerPhoto | .stickerSetThumb =>
    ⟨location.shifted ||| location.sliced |||
      (location.localId.toUInt32.toUInt64 <<< 16), location.volumeId⟩
  | .encrypted | .secure => ⟨location.shifted ||| location.sliced, location.id⟩
  | .document =>
    if location.sizeLetter = 0 then documentCacheKey location.dcId location.id
    else ⟨location.shifted ||| location.sliced |||
      (location.sizeLetter.toUInt64 <<< 16), location.id⟩
  | .photo =>
    ⟨location.shifted ||| location.sliced ||| (location.sizeLetter.toUInt64 <<< 16),
      location.id⟩
  | .takeout => ⟨location.shifted, 0⟩
  | .groupCallStream =>
    ⟨location.shifted ||| location.sliced ||| (location.localId.toUInt32 <<< 16).toUInt64 |||
      (location.volumeId <<< 20) ||| (location.sizeLetter.toUInt64 <<< 56), location.id⟩

/-- `operator==` -/
def equals (a b : StorageFileLocation) : Bool :=
  if a.valid ≠ b.valid then false
  else if !a.valid then true
  else if a.type ≠ b.type then false
  else
    match a.type with
    | .legacy => a.dcId = b.dcId && a.volumeId = b.volumeId && a.localId = b.localId
    | .encrypted | .secure => a.dcId = b.dcId && a.id = b.id
    | .photo | .document =>
      a.dcId = b.dcId && a.id = b.id && a.sizeLetter = b.sizeLetter
    | .takeout => true
    | .peerPhoto =>
      a.dcId = b.dcId && a.volumeId = b.volumeId && a.localId = b.localId &&
        a.id = b.id && a.sizeLetter = b.sizeLetter
    | .stickerSetThumb =>
      a.dcId = b.dcId && a.volumeId = b.volumeId && a.localId = b.localId && a.id = b.id
    | .groupCallStream =>
      a.dcId = b.dcId && a.id = b.id && a.localId = b.localId &&
        a.sizeLetter = b.sizeLetter

/-- A word whose low half of 32 bits holds a head and whose other bits are given
separately. -/
theorem toNat_or_rest {head rest : UInt64} (small : head.toNat < 2 ^ 16)
    (above : 2 ^ 16 ∣ rest.toNat) : (head ||| rest).toNat = head.toNat + rest.toNat := by
  obtain ⟨field, restEq⟩ := above
  have shift : field <<< 16 = rest.toNat := by
    rw [restEq, Nat.shiftLeft_eq, Nat.mul_comm]
  rw [UInt64.toNat_or, ← shift, Nat.lor_comm, ← Nat.shiftLeft_add_eq_or_of_lt small, Nat.add_comm]

theorem or_rest_eq_iff {first second firstRest secondRest : UInt64}
    (firstSmall : first.toNat < 2 ^ 16) (secondSmall : second.toNat < 2 ^ 16)
    (firstAbove : 2 ^ 16 ∣ firstRest.toNat) (secondAbove : 2 ^ 16 ∣ secondRest.toNat) :
    first ||| firstRest = second ||| secondRest ↔ first = second ∧ firstRest = secondRest := by
  rw [← UInt64.toNat_inj, ← UInt64.toNat_inj, ← UInt64.toNat_inj,
    toNat_or_rest firstSmall firstAbove, toNat_or_rest secondSmall secondAbove]
  omega

def tag : Nat :=
  match location.type with
  | .legacy => 3
  | .encrypted => 4
  | .document => if location.sizeLetter = 0 then 1 else 5
  | .secure => 6
  | .takeout => 7
  | .photo => 8
  | .peerPhoto => 9
  | .stickerSetThumb => 10
  | .groupCallStream => 11

/-- The first byte of a key. -/
def taggedDcId : Nat := if location.type = .takeout then 0 else location.dcId.toNat

/-- The high half of the key. -/
def keyHead : UInt64 :=
  match location.type with
  | .document =>
    if location.sizeLetter = 0 then 0x100 ||| (location.dcId.toUInt64 &&& 0xFF)
    else location.shifted ||| location.sliced
  | .takeout => location.shifted
  | _ => location.shifted ||| location.sliced

def streamRest : UInt64 :=
  (location.localId.toUInt32 <<< 16).toUInt64 ||| (location.volumeId <<< 20) |||
    (location.sizeLetter.toUInt64 <<< 56)

def keyRest : UInt64 :=
  match location.type with
  | .legacy | .peerPhoto | .stickerSetThumb => location.localId.toUInt32.toUInt64 <<< 16
  | .document =>
    if location.sizeLetter = 0 then 0 else location.sizeLetter.toUInt64 <<< 16
  | .photo => location.sizeLetter.toUInt64 <<< 16
  | .groupCallStream => location.streamRest
  | .encrypted | .secure | .takeout => 0

/-- The low half of the key. -/
def keyLow : UInt64 :=
  match location.type with
  | .legacy | .peerPhoto | .stickerSetThumb => location.volumeId
  | .takeout => 0
  | _ => location.id

theorem cacheKey_eq :
    location.cacheKey = ⟨location.keyHead ||| location.keyRest, location.keyLow⟩ := by
  unfold cacheKey keyHead keyRest keyLow
  cases type : location.type with
  | document =>
    dsimp only
    split
    · rw [UInt64.or_zero]
      rfl
    · rfl
  | groupCallStream =>
    rw [streamRest, UInt64.or_assoc, UInt64.or_assoc, UInt64.or_assoc, UInt64.or_assoc]
    simp only [UInt64.or_assoc]
  | encrypted | secure | takeout => simp
  | legacy | photo | peerPhoto | stickerSetThumb => rfl

theorem toNat_sliced (small : location.dcId.toNat < 256) :
    location.sliced.toNat = location.dcId.toNat := by
  unfold sliced
  rw [UInt64.toNat_and]
  have mask : (0xFF : UInt64).toNat = 2 ^ 8 - 1 := rfl
  rw [mask, Nat.and_two_pow_sub_one_eq_mod]
  exact Nat.mod_eq_of_lt small

theorem toNat_shifted :
    location.shifted.toNat = (location.type.value.toNat + 3) <<< 8 := by
  unfold shifted
  cases location.type <;> rfl

theorem toNat_or_sliced {tagged : UInt64} {number : Nat} (shifted : tagged.toNat = number <<< 8)
    (small : location.dcId.toNat < 256) :
    (tagged ||| location.sliced).toNat = number * 256 + location.dcId.toNat := by
  rw [UInt64.toNat_or, location.toNat_sliced small, shifted,
    ← Nat.shiftLeft_add_eq_or_of_lt small, Nat.shiftLeft_eq]

theorem toNat_keyHead (small : location.dcId.toNat < 256) :
    location.keyHead.toNat = location.tag * 256 + location.taggedDcId := by
  have usual := location.toNat_or_sliced location.toNat_shifted small
  have shifted := location.toNat_shifted
  unfold keyHead tag taggedDcId
  cases type : location.type with
  | document =>
    rw [type] at usual
    by_cases whole : location.sizeLetter = 0
    · simp only [whole, if_true]
      exact location.toNat_or_sliced rfl small
    · simpa [whole, LocationType.value] using usual
  | takeout =>
    rw [type] at shifted
    simpa [LocationType.value, Nat.shiftLeft_eq] using shifted
  | legacy | encrypted | secure | photo | peerPhoto | stickerSetThumb | groupCallStream =>
    rw [type] at usual
    simpa [LocationType.value] using usual

theorem toNat_shiftLeft_sixteen {value : UInt64} (small : value.toNat < 2 ^ 32) :
    (value <<< 16).toNat = value.toNat * 2 ^ 16 := by
  have shift : (16 : UInt64).toNat % 64 = 16 := rfl
  rw [UInt64.toNat_shiftLeft, shift, Nat.shiftLeft_eq]
  exact Nat.mod_eq_of_lt (by omega)

/-- The four low bits of the scale. -/
def streamScale : Nat := location.localId.toUInt32.toNat % 2 ^ 4

/-- The next twelve bits of the scale, which share their place with the low bits
of the time. -/
def streamScaleOrTime : Nat :=
  location.localId.toUInt32.toNat / 2 ^ 4 % 2 ^ 12 ||| location.volumeId.toNat % 2 ^ 12

def streamTime : Nat := location.volumeId.toNat / 2 ^ 12 % 2 ^ 24

/-- The letter, which shares its place with the high bits of the time. -/
def streamTimeOrLetter : Nat :=
  location.volumeId.toNat / 2 ^ 36 % 2 ^ 8 ||| location.sizeLetter.toNat

theorem toNat_streamRest :
    location.streamRest.toNat =
      location.localId.toUInt32.toNat * 2 ^ 16 % 2 ^ 32 |||
        location.volumeId.toNat * 2 ^ 20 % 2 ^ 64 ||| location.sizeLetter.toNat * 2 ^ 56 := by
  have letter : location.sizeLetter.toNat < 2 ^ 8 := location.sizeLetter.toNat_lt
  have sixteen : (16 : UInt32).toNat % 32 = 16 := rfl
  have twenty : (20 : UInt64).toNat % 64 = 20 := rfl
  have fiftySix : (56 : UInt64).toNat % 64 = 56 := rfl
  unfold streamRest
  rw [UInt64.toNat_or, UInt64.toNat_or, UInt32.toNat_toUInt64, UInt32.toNat_shiftLeft,
    UInt64.toNat_shiftLeft, UInt64.toNat_shiftLeft, UInt8.toNat_toUInt64, sixteen, twenty,
    fiftySix, Nat.shiftLeft_eq, Nat.shiftLeft_eq, Nat.shiftLeft_eq,
    Nat.mod_eq_of_lt (by omega : location.sizeLetter.toNat * 2 ^ 56 < 2 ^ 64)]

theorem streamRest_field (start width : Nat) :
    location.streamRest.toNat / 2 ^ start % 2 ^ width =
      location.localId.toUInt32.toNat * 2 ^ 16 % 2 ^ 32 / 2 ^ start % 2 ^ width |||
        location.volumeId.toNat * 2 ^ 20 % 2 ^ 64 / 2 ^ start % 2 ^ width |||
          location.sizeLetter.toNat * 2 ^ 56 / 2 ^ start % 2 ^ width := by
  rw [toNat_streamRest, Nat.or_div_two_pow, Nat.or_div_two_pow, Nat.or_mod_two_pow,
    Nat.or_mod_two_pow]

theorem streamRest_fields :
    location.streamRest.toNat / 2 ^ 0 % 2 ^ 16 = 0 ∧
      location.streamRest.toNat / 2 ^ 16 % 2 ^ 4 = location.streamScale ∧
      location.streamRest.toNat / 2 ^ 20 % 2 ^ 12 = location.streamScaleOrTime ∧
      location.streamRest.toNat / 2 ^ 32 % 2 ^ 24 = location.streamTime ∧
      location.streamRest.toNat / 2 ^ 56 % 2 ^ 8 = location.streamTimeOrLetter := by
  have letter : location.sizeLetter.toNat < 2 ^ 8 := location.sizeLetter.toNat_lt
  unfold streamScale streamScaleOrTime streamTime streamTimeOrLetter
  simp only [streamRest_field]
  generalize location.localId.toUInt32.toNat = scaleBits at *
  generalize location.volumeId.toNat = timeBits at *
  generalize location.sizeLetter.toNat = letterBits at *
  refine ⟨?_, ?_, ?_, ?_, ?_⟩
  · rw [(by omega : scaleBits * 2 ^ 16 % 2 ^ 32 / 2 ^ 0 % 2 ^ 16 = 0),
      (by omega : timeBits * 2 ^ 20 % 2 ^ 64 / 2 ^ 0 % 2 ^ 16 = 0),
      (by omega : letterBits * 2 ^ 56 / 2 ^ 0 % 2 ^ 16 = 0)]
    rfl
  · rw [(by omega : scaleBits * 2 ^ 16 % 2 ^ 32 / 2 ^ 16 % 2 ^ 4 = scaleBits % 2 ^ 4),
      (by omega : timeBits * 2 ^ 20 % 2 ^ 64 / 2 ^ 16 % 2 ^ 4 = 0),
      (by omega : letterBits * 2 ^ 56 / 2 ^ 16 % 2 ^ 4 = 0), Nat.or_zero, Nat.or_zero]
  · rw [(by omega : scaleBits * 2 ^ 16 % 2 ^ 32 / 2 ^ 20 % 2 ^ 12 = scaleBits / 2 ^ 4 % 2 ^ 12),
      (by omega : timeBits * 2 ^ 20 % 2 ^ 64 / 2 ^ 20 % 2 ^ 12 = timeBits % 2 ^ 12),
      (by omega : letterBits * 2 ^ 56 / 2 ^ 20 % 2 ^ 12 = 0), Nat.or_zero]
  · rw [(by omega : scaleBits * 2 ^ 16 % 2 ^ 32 / 2 ^ 32 % 2 ^ 24 = 0),
      (by omega : timeBits * 2 ^ 20 % 2 ^ 64 / 2 ^ 32 % 2 ^ 24 = timeBits / 2 ^ 12 % 2 ^ 24),
      (by omega : letterBits * 2 ^ 56 / 2 ^ 32 % 2 ^ 24 = 0), Nat.zero_or, Nat.or_zero]
  · rw [(by omega : scaleBits * 2 ^ 16 % 2 ^ 32 / 2 ^ 56 % 2 ^ 8 = 0),
      (by omega : timeBits * 2 ^ 20 % 2 ^ 64 / 2 ^ 56 % 2 ^ 8 = timeBits / 2 ^ 36 % 2 ^ 8),
      (by omega : letterBits * 2 ^ 56 / 2 ^ 56 % 2 ^ 8 = letterBits), Nat.zero_or]

/-- Two streams keep the same bits of their scales, times and letters. -/
def SameStreamBits (a b : StorageFileLocation) : Prop :=
  a.streamScale = b.streamScale ∧ a.streamScaleOrTime = b.streamScaleOrTime ∧
    a.streamTime = b.streamTime ∧ a.streamTimeOrLetter = b.streamTimeOrLetter

theorem streamRest_eq_iff (a b : StorageFileLocation) :
    a.streamRest = b.streamRest ↔ SameStreamBits a b := by
  obtain ⟨firstLow, firstScale, firstBoth, firstTime, firstLetter⟩ := a.streamRest_fields
  obtain ⟨secondLow, secondScale, secondBoth, secondTime, secondLetter⟩ := b.streamRest_fields
  have firstSmall : a.streamRest.toNat < 2 ^ 64 := UInt64.toNat_lt _
  have secondSmall : b.streamRest.toNat < 2 ^ 64 := UInt64.toNat_lt _
  unfold SameStreamBits
  rw [← UInt64.toNat_inj, ← firstScale, ← firstBoth, ← firstTime, ← firstLetter,
    ← secondScale, ← secondBoth, ← secondTime, ← secondLetter]
  omega

theorem keyRest_dvd : 2 ^ 16 ∣ location.keyRest.toNat := by
  have localIdRest : 2 ^ 16 ∣ (location.localId.toUInt32.toUInt64 <<< 16).toNat := by
    rw [toNat_shiftLeft_sixteen (by rw [UInt32.toNat_toUInt64]; exact UInt32.toNat_lt _)]
    exact dvd_mul_left ..
  have letterRest : 2 ^ 16 ∣ (location.sizeLetter.toUInt64 <<< 16).toNat := by
    have letter : location.sizeLetter.toNat < 2 ^ 8 := location.sizeLetter.toNat_lt
    rw [toNat_shiftLeft_sixteen (by rw [UInt8.toNat_toUInt64]; omega)]
    exact dvd_mul_left ..
  unfold keyRest
  cases location.type with
  | legacy | peerPhoto | stickerSetThumb => exact localIdRest
  | document =>
    dsimp only
    split
    · exact Nat.dvd_zero _
    · exact letterRest
  | photo => exact letterRest
  | groupCallStream =>
    have low := location.streamRest_fields.1
    rw [Nat.pow_zero, Nat.div_one] at low
    exact Nat.dvd_of_mod_eq_zero low
  | encrypted | secure | takeout => exact Nat.dvd_zero _

theorem localIdRest_eq_iff (a b : StorageFileLocation) :
    a.localId.toUInt32.toUInt64 <<< 16 = b.localId.toUInt32.toUInt64 <<< 16 ↔
      a.localId = b.localId := by
  rw [← UInt64.toNat_inj,
    toNat_shiftLeft_sixteen (by rw [UInt32.toNat_toUInt64]; exact UInt32.toNat_lt _),
    toNat_shiftLeft_sixteen (by rw [UInt32.toNat_toUInt64]; exact UInt32.toNat_lt _),
    UInt32.toNat_toUInt64, UInt32.toNat_toUInt64]
  constructor
  · intro same
    have words : a.localId.toUInt32 = b.localId.toUInt32 := UInt32.toNat_inj.mp (by omega)
    rw [← a.localId.toInt32_toUInt32, words, b.localId.toInt32_toUInt32]
  · intro same
    rw [same]

theorem letterRest_eq_iff (a b : StorageFileLocation) :
    a.sizeLetter.toUInt64 <<< 16 = b.sizeLetter.toUInt64 <<< 16 ↔
      a.sizeLetter = b.sizeLetter := by
  have first : a.sizeLetter.toNat < 2 ^ 8 := a.sizeLetter.toNat_lt
  have second : b.sizeLetter.toNat < 2 ^ 8 := b.sizeLetter.toNat_lt
  rw [← UInt64.toNat_inj, toNat_shiftLeft_sixteen (by rw [UInt8.toNat_toUInt64]; omega),
    toNat_shiftLeft_sixteen (by rw [UInt8.toNat_toUInt64]; omega),
    UInt8.toNat_toUInt64, UInt8.toNat_toUInt64, ← UInt8.toNat_inj]
  omega

theorem cacheKey_eq_iff (a b : StorageFileLocation) (aSmall : a.dcId.toNat < 256)
    (bSmall : b.dcId.toNat < 256) :
    a.cacheKey = b.cacheKey ↔ a.tag = b.tag ∧ a.taggedDcId = b.taggedDcId ∧
      a.keyRest = b.keyRest ∧ a.keyLow = b.keyLow := by
  have heads := a.toNat_keyHead aSmall
  have bHeads := b.toNat_keyHead bSmall
  have aDc : a.taggedDcId < 256 := by
    unfold taggedDcId
    split <;> omega
  have bDc : b.taggedDcId < 256 := by
    unfold taggedDcId
    split <;> omega
  have aTag : a.tag < 256 := by
    unfold tag
    split <;> first | omega | split <;> omega
  have bTag : b.tag < 256 := by
    unfold tag
    split <;> first | omega | split <;> omega
  rw [cacheKey_eq, cacheKey_eq, Key.mk.injEq,
    or_rest_eq_iff (by omega) (by omega) a.keyRest_dvd b.keyRest_dvd, ← UInt64.toNat_inj,
    heads, bHeads]
  constructor
  · rintro ⟨⟨headEq, restEq⟩, lowEq⟩
    exact ⟨by omega, by omega, restEq, lowEq⟩
  · rintro ⟨tagEq, dcEq, restEq, lowEq⟩
    exact ⟨⟨by rw [tagEq, dcEq], restEq⟩, lowEq⟩

/-- The type that a tag stands for. -/
def typeOfTag : Nat → LocationType
  | 3 => .legacy
  | 4 => .encrypted
  | 1 | 5 => .document
  | 6 => .secure
  | 7 => .takeout
  | 8 => .photo
  | 9 => .peerPhoto
  | 10 => .stickerSetThumb
  | _ => .groupCallStream

theorem typeOfTag_tag : typeOfTag location.tag = location.type := by
  unfold tag
  cases location.type with
  | document =>
    dsimp only
    split <;> rfl
  | legacy | encrypted | secure | takeout | photo | peerPhoto | stickerSetThumb
  | groupCallStream => rfl

theorem type_eq_of_tag {a b : StorageFileLocation} (same : a.tag = b.tag) :
    a.type = b.type := by
  rw [← a.typeOfTag_tag, same, b.typeOfTag_tag]

theorem taggedDcId_eq_iff {a b : StorageFileLocation} (types : a.type = b.type)
    (located : a.type ≠ .takeout) : a.taggedDcId = b.taggedDcId ↔ a.dcId = b.dcId := by
  unfold taggedDcId
  rw [if_neg located, if_neg (types ▸ located), UInt16.toNat_inj]

/-- Where the fields that are packed tell the same as those that are compared. -/
def KeysTell (a b : StorageFileLocation) : Prop :=
  a.type = b.type → a.dcId = b.dcId →
    match a.type with
    | .peerPhoto =>
      a.volumeId = b.volumeId → a.localId = b.localId →
        a.id = b.id ∧ a.sizeLetter = b.sizeLetter
    | .stickerSetThumb =>
      a.volumeId = b.volumeId → a.localId = b.localId → a.id = b.id
    | .groupCallStream =>
      a.id = b.id →
        (SameStreamBits a b ↔ a.localId = b.localId ∧ a.sizeLetter = b.sizeLetter)
    | _ => True

section Pairs

variable {a b : StorageFileLocation}

theorem equals_of_valid (aValid : a.valid = true) (bValid : b.valid = true)
    (types : a.type = b.type) : a.equals b = true ↔
      match a.type with
      | .legacy => a.dcId = b.dcId ∧ a.volumeId = b.volumeId ∧ a.localId = b.localId
      | .encrypted | .secure => a.dcId = b.dcId ∧ a.id = b.id
      | .photo | .document => a.dcId = b.dcId ∧ a.id = b.id ∧ a.sizeLetter = b.sizeLetter
      | .takeout => True
      | .peerPhoto => a.dcId = b.dcId ∧ a.volumeId = b.volumeId ∧ a.localId = b.localId ∧
          a.id = b.id ∧ a.sizeLetter = b.sizeLetter
      | .stickerSetThumb =>
        a.dcId = b.dcId ∧ a.volumeId = b.volumeId ∧ a.localId = b.localId ∧ a.id = b.id
      | .groupCallStream =>
        a.dcId = b.dcId ∧ a.id = b.id ∧ a.localId = b.localId ∧
          a.sizeLetter = b.sizeLetter := by
  unfold equals
  rw [aValid, bValid, if_neg (by simp), if_neg (by simp), if_neg (not_not.mpr types)]
  cases a.type <;> simp [and_assoc]

theorem cacheKey_eq_of_type (aSmall : a.dcId.toNat < 256) (bSmall : b.dcId.toNat < 256)
    (types : a.type = b.type) : a.cacheKey = b.cacheKey ↔
      match a.type with
      | .legacy | .peerPhoto | .stickerSetThumb =>
        a.dcId = b.dcId ∧ a.localId = b.localId ∧ a.volumeId = b.volumeId
      | .encrypted | .secure => a.dcId = b.dcId ∧ a.id = b.id
      | .photo | .document => a.dcId = b.dcId ∧ a.sizeLetter = b.sizeLetter ∧ a.id = b.id
      | .takeout => True
      | .groupCallStream => a.dcId = b.dcId ∧ SameStreamBits a b ∧ a.id = b.id := by
  rw [cacheKey_eq_iff a b aSmall bSmall]
  have dcs := fun located : a.type ≠ .takeout => taggedDcId_eq_iff types located
  unfold tag keyRest keyLow
  cases type : a.type with
  | legacy | peerPhoto | stickerSetThumb =>
    rw [type] at types dcs
    simp only [← types, dcs (by simp), localIdRest_eq_iff, true_and]
  | encrypted | secure =>
    rw [type] at types dcs
    simp only [← types, dcs (by simp), true_and]
  | photo =>
    rw [type] at types dcs
    simp only [← types, dcs (by simp), letterRest_eq_iff, true_and]
  | takeout =>
    simp [taggedDcId, type, ← types]
  | groupCallStream =>
    rw [type] at types dcs
    simp only [← types, dcs (by simp), streamRest_eq_iff, true_and]
  | document =>
    rw [type] at types dcs
    simp only [← types, dcs (by simp)]
    by_cases aWhole : a.sizeLetter = 0
    · by_cases bWhole : b.sizeLetter = 0
      · simp [aWhole, bWhole]
      · simp [aWhole, bWhole, Ne.symm bWhole]
    · by_cases bWhole : b.sizeLetter = 0
      · simp [aWhole, bWhole]
      · simp only [aWhole, bWhole, if_false, true_and, letterRest_eq_iff]

/-- Keys and comparison agree exactly where the packed fields tell the same. -/
theorem cacheKey_eq_iff_equals_iff (aValid : a.valid = true) (bValid : b.valid = true)
    (aSmall : a.dcId.toNat < 256) (bSmall : b.dcId.toNat < 256) :
    (a.cacheKey = b.cacheKey ↔ a.equals b = true) ↔ KeysTell a b := by
  by_cases types : a.type = b.type
  · rw [cacheKey_eq_of_type aSmall bSmall types, equals_of_valid aValid bValid types]
    rw [KeysTell, imp_iff_right types]
    cases a.type <;> dsimp only <;> tauto
  · have different : a.cacheKey ≠ b.cacheKey := by
      rw [ne_eq, cacheKey_eq_iff a b aSmall bSmall]
      exact fun same => types (type_eq_of_tag same.1)
    have unequal : ¬ a.equals b = true := by
      unfold equals
      rw [aValid, bValid, if_neg (by simp), if_neg (by simp), if_pos types]
      simp
    refine iff_of_true (iff_of_false different unequal) ?_
    exact fun same => (types same).elim

end Pairs

theorem cacheKey_eq_iff_equals_iff_photos :
    (({ dcId := 2, type := .photo, id := 7, sizeLetter := 97 } : StorageFileLocation).cacheKey =
        ({ dcId := 2, type := .photo, id := 7, sizeLetter := 120 } :
          StorageFileLocation).cacheKey ↔
      ({ dcId := 2, type := .photo, id := 7, sizeLetter := 97 } : StorageFileLocation).equals
        { dcId := 2, type := .photo, id := 7, sizeLetter := 120 } = true) ↔
      KeysTell { dcId := 2, type := .photo, id := 7, sizeLetter := 97 }
        { dcId := 2, type := .photo, id := 7, sizeLetter := 120 } :=
  cacheKey_eq_iff_equals_iff (by decide) (by decide) (by decide) (by decide)

/-- The thumbnails of two sticker sets with the same version share a key. -/
theorem sticker_set_thumbs_share_key :
    ({ dcId := 2, type := .stickerSetThumb, id := 1, localId := 5 } :
        StorageFileLocation).valid = true ∧
      ({ dcId := 2, type := .stickerSetThumb, id := 2, localId := 5 } :
        StorageFileLocation).valid = true ∧
      ({ dcId := 2, type := .stickerSetThumb, id := 1, localId := 5 } :
        StorageFileLocation).cacheKey =
        ({ dcId := 2, type := .stickerSetThumb, id := 2, localId := 5 } :
          StorageFileLocation).cacheKey ∧
      ({ dcId := 2, type := .stickerSetThumb, id := 1, localId := 5 } :
        StorageFileLocation).equals
        { dcId := 2, type := .stickerSetThumb, id := 2, localId := 5 } = false := by
  decide

end StorageFileLocation

end TelegramDesktop
