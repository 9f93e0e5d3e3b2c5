import TelegramDesktop.ByteStrings

/-!
# Powers modulo a prime

The checks of `mtproto/mtproto_dh_utils.cpp` on what is exchanged to compute a common
key.  Primality and powers are computed elsewhere.
-/

namespace TelegramDesktop

/-- The arithmetic of big numbers. -/
structure BigNumbers where
  isPrime : Nat → Bool
  modExp : Nat → Nat → Nat → Nat

namespace DhUtils

/-- The number of big-endian bytes. -/
def bigNum (bytes : Bytes) : Nat := ofBigEndian bytes

def bitsSize (number : Nat) : Nat := if number = 0 then 0 else number.log2 + 1

def bytesSize (number : Nat) : Nat := (bitsSize number + 7) / 8

/-- The shortest big-endian bytes of a number. -/
def getBytes (number : Nat) : Bytes := (littleEndian (bytesSize number) number).reverse

def maxModExpSize : Nat := 256

def isPrimeAndGoodCheck (numbers : BigNumbers) (prime : Nat) (g : Int32) : Bool :=
  bitsSize prime = 2048 && numbers.isPrime prime &&
    (if g = 2 then prime % 8 = 7
      else if g = 3 then prime % 3 = 2
      else if g = 4 then true
      else if g = 5 then prime % 5 = 1 || prime % 5 = 4
      else if g = 6 then prime % 24 = 19 || prime % 24 = 23
      else if g = 7 then prime % 7 = 3 || prime % 7 = 5 || prime % 7 = 6
      else false) &&
    numbers.isPrime ((prime - 1) / 2)

/-- The power is far enough from both ends of the group. -/
def isGoodModExpFirst (modexp prime : Nat) : Bool :=
  let minDiffBitsCount := 2048 - 64
  !(prime < modexp || bitsSize (prime - modexp) < minDiffBitsCount ||
    bitsSize modexp < minDiffBitsCount || bytesSize modexp > maxModExpSize)

/-- The prime that needs no check. -/
def goodPrime : Bytes :=
  [0xC7, 0x1C, 0xAE, 0xB9, 0xC6, 0xB1, 0xC9, 0x04, 0x8E, 0x6C, 0x52, 0x2F, 0x70, 0xF1, 0x3F, 0x73,
   0x98, 0x0D, 0x40, 0x23, 0x8E, 0x3E, 0x21, 0xC1, 0x49, 0x34, 0xD0, 0x37, 0x56, 0x3D, 0x93, 0x0F,
   0x48, 0x19, 0x8A, 0x0A, 0xA7, 0xC1, 0x40, 0x58, 0x22, 0x94, 0x93, 0xD2, 0x25, 0x30, 0xF4, 0xDB,
   0xFA, 0x33, 0x6F, 0x6E, 0x0A, 0xC9, 0x25, 0x13, 0x95, 0x43, 0xAE, 0xD4, 0x4C, 0xCE, 0x7C, 0x37,
   0x20, 0xFD, 0x51, 0xF6, 0x94, 0x58, 0x70, 0x5A, 0xC6, 0x8C, 0xD4, 0xFE, 0x6B, 0x6B, 0x13, 0xAB,
   0xDC, 0x97, 0x46, 0x51, 0x29, 0x69, 0x32, 0x84, 0x54, 0xF1, 0x8F, 0xAF, 0x8C, 0x59, 0x5F, 0x64,
   0x24, 0x77, 0xFE, 0x96, 0xBB, 0x2A, 0x94, 0x1D, 0x5B, 0xCD, 0x1D, 0x4A, 0xC8, 0xCC, 0x49, 0x88,
   0x07, 0x08, 0xFA, 0x9B, 0x37, 0x8E, 0x3C, 0x4F, 0x3A, 0x90, 0x60, 0xBE, 0xE6, 0x7C, 0xF9, 0xA4,
   0xA4, 0xA6, 0x95, 0x81, 0x10, 0x51, 0x90, 0x7E, 0x16, 0x27, 0x53, 0xB5, 0x6B, 0x0F, 0x6B, 0x41,
   0x0D, 0xBA, 0x74, 0xD8, 0xA8, 0x4B, 0x2A, 0x14, 0xB3, 0x14, 0x4E, 0x0E, 0xF1, 0x28, 0x47, 0x54,
   0xFD, 0x17, 0xED, 0x95, 0x0D, 0x59, 0x65, 0xB4, 0xB9, 0xDD, 0x46, 0x58, 0x2D, 0xB1, 0x17, 0x8D,
   0x16, 0x9C, 0x6B, 0xC4, 0x65, 0xB0, 0xD6, 0xFF, 0x9C, 0xA3, 0x92, 0x8F, 0xEF, 0x5B, 0x9A, 0xE4,
   0xE4, 0x18, 0xFC, 0x15, 0xE8, 0x3E, 0xBE, 0xA0, 0xF8, 0x7F, 0xA9, 0xFF, 0x5E, 0xED, 0x70, 0x05,
   0x0D, 0xED, 0x28, 0x49, 0xF4, 0x7B, 0xF9, 0x59, 0xD9, 0x56, 0x85, 0x0C, 0xE9, 0x29, 0x85, 0x1F,
   0x0D, 0x81, 0x15, 0xF6, 0x35, 0xB1, 0x05, 0xEE, 0x2E, 0x4E, 0x15, 0xD0, 0x4B, 0x24, 0x54, 0xBF,
   0x6F, 0x4F, 0xAD, 0xF0, 0x34, 0xB1, 0x04, 0x03, 0x11, 0x9C, 0xD8, 0xE3, 0xB9, 0x2F, 0xCC, 0x5B]

def isPrimeAndGood (numbers : BigNumbers) (primeBytes : Bytes) (g : Int32) : Bool :=
  if primeBytes = goodPrime && (g = 3 || g = 4 || g = 5 || g = 7) then true
  else isPrimeAndGoodCheck numbers (bigNum primeBytes) g

/-- The power that is sent, with the random exponent that stays secret. -/
structure ModExpFirst where
  modexp : Bytes
  randomPower : Bytes

/-- The random powers that are tried are given.  There is no result while none of them
is good. -/
def createModExp (numbers : BigNumbers) (g : Int32) (primeBytes : Bytes) (powers : List Bytes) :
    Option ModExpFirst :=
  powers.findSome? fun randomPower =>
    let modexp := numbers.modExp g.toInt.toNat (bigNum randomPower) (bigNum primeBytes)
    if isGoodModExpFirst modexp (bigNum primeBytes) then some ⟨getBytes modexp, randomPower⟩
    else none

def createAuthKey (numbers : BigNumbers) (firstBytes randomBytes primeBytes : Bytes) : Bytes :=
  if isGoodModExpFirst (bigNum firstBytes) (bigNum primeBytes) then
    getBytes (numbers.modExp (bigNum firstBytes) (bigNum randomBytes) (bigNum primeBytes))
  else []

theorem isGoodModExpFirst_of_createAuthKey {numbers : BigNumbers}
    {firstBytes randomBytes primeBytes : Bytes}
    (key : createAuthKey numbers firstBytes randomBytes primeBytes ≠ []) :
    isGoodModExpFirst (bigNum firstBytes) (bigNum primeBytes) = true := by
  unfold createAuthKey at key
  split at key
  · assumption
  · exact absurd rfl key

end DhUtils

end TelegramDesktop
