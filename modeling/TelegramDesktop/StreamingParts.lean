import TelegramDesktop.ByteStrings
import TelegramDesktop.FlatMap

/-!
# Parts of a streamed file

A streamed file is loaded in parts. The definitions follow the functions at the top of
`media/streaming/media_streaming_reader.cpp`. Sizes of byte strings are `int` there, so
no conversion of a size loses bits.
-/

namespace TelegramDesktop.Streaming

def kPartSize : Nat := 131072

def kPartsInSlice : Nat := 64

def kInSlice : Nat := 8388608

def kMaxPartsInHeader : Nat := 64

def kMaxOnlyInHeader : Nat := 10485760

def kPartsOutsideFirstSliceGood : Nat := 8

def kSlicesInMemory : Nat := 2

def kPreloadPartsAhead : Nat := 8

example : kPartSize = 128 * 1024 ∧ kInSlice = kPartsInSlice * kPartSize ∧
    kMaxOnlyInHeader = 80 * kPartSize := by decide

abbrev PartsMap := FlatMap Nat Bytes

/-- The parts of an entry, and those of the first slice that it includes. -/
structure ParsedCacheEntry where
  parts : PartsMap
  included : Option PartsMap

/-- Is the entry one piece of bytes? -/
def isContiguousSerialization (serializedSize maxSliceSize : Int) : Bool :=
  serializedSize % kPartSize == 0 || serializedSize == maxSliceSize

def isFullInHeader (size : Nat) : Bool := size ≤ kMaxOnlyInHeader

/-- A good header has few parts beyond the first slice. -/
def computeIsGoodHeader (size : Nat) (header : PartsMap) : Bool :=
  if isFullInHeader size then false
  else (header.lowerBound kInSlice).length ≤ kPartsOutsideFirstSliceGood

/-- The number of slices, as computed in `uint32`. -/
def slicesCount (size : Nat) : Nat := (size + kInSlice - 1) % 2 ^ 32 / kInSlice

def maxSliceSize (sliceNumber size : Nat) : Int :=
  if sliceNumber = 0 then toInt32 size
  else if sliceNumber = slicesCount size then
    toInt32 (size - (sliceNumber - 1) * kInSlice)
  else kInSlice

def takeInt (data : Bytes) : Option Nat × Bytes :=
  if data.length < 4 then (none, data)
  else (some (ofLittleEndian (data.take 4)), data.drop 4)

def takeBytes (count : Int) (data : Bytes) : Bytes × Bytes :=
  if count ≤ 0 ∨ data.length < count then ([], data)
  else (data.take count.toNat, data.drop count.toNat)

/-- The loop over the parts; a part that does not fit ends it. -/
def parseComplexParts (maxSize : Nat) : Nat → PartsMap → Bytes → PartsMap × Bytes
  | 0, result, data => (result, data)
  | count + 1, result, data =>
    let offset := takeInt data
    let size := takeInt offset.2
    let bytes := takeBytes (toInt32 (size.1.getD 0)) size.2
    if maxSize ≤ offset.1.getD 0 ∨ size.1.getD 0 = 0 ∨ maxSize < size.1.getD 0 ∨
        maxSize < (offset.1.getD 0 + size.1.getD 0) % 2 ^ 32 ∨
        bytes.1.length ≠ size.1.getD 0 then
      (result, [])
    else
      parseComplexParts maxSize count (result.emplace (offset.1.getD 0) bytes.1) bytes.2

/-- The parts read and the bytes that remain.  The limit is compared as a
`uint32`. -/
def parseComplexCachedMap (result : PartsMap) (data : Bytes) (maxSize : Int) :
    PartsMap × Bytes :=
  let maybeCount := takeInt data
  match maybeCount.1 with
  | none => (result, [])
  | some count =>
    if count = 0 ∨ kMaxOnlyInHeader / kPartSize < count then (result, maybeCount.2)
    else parseComplexParts (maxSize % 2 ^ 32).toNat count result maybeCount.2

/-- The parts that the loop over a contiguous byte string takes. -/
def contiguousParts (data : Bytes) : List (Nat × Bytes) :=
  (List.range ((data.length + kPartSize - 1) / kPartSize)).map fun index =>
    (index * kPartSize, (data.drop (index * kPartSize)).take kPartSize)

/-- The parts of an entry, contiguous or complex. -/
def parseCachedMap (result : PartsMap) (data : Bytes) (maxSize : Int) :
    PartsMap × Bytes :=
  if isContiguousSerialization data.length maxSize then
    if maxSize < data.length then (result, [])
    else (result.emplaceAll (contiguousParts data), [])
  else parseComplexCachedMap result data maxSize

/-- A cache entry; that of a good header has parts of other slices. -/
def parseCacheEntry (data : Bytes) (sliceNumber size : Nat) : ParsedCacheEntry :=
  let parsed := parseCachedMap ∅ data (maxSliceSize sliceNumber size)
  if sliceNumber = 0 ∧ computeIsGoodHeader size parsed.1 then
    ⟨parsed.1, some (parseCachedMap ∅ parsed.2 (maxSliceSize 1 size)).1⟩
  else ⟨parsed.1, none⟩

/-- Where a part ends, as computed in `uint32`. -/
def partEnd (part : Nat × Bytes) : Nat := (part.1 + part.2.length) % 2 ^ 32

/-- The end of what is loaded without a gap. -/
def findNotLoadedStart : List (Nat × Bytes) → Nat → Nat
  | [], offset => offset
  | part :: parts, offset =>
    if part.1 ≤ offset ∧ offset ≤ partEnd part then
      findNotLoadedStart parts (partEnd part)
    else offset

/-- Copy the parts to the start of the buffer.  It fails where an assertion or
the bounds of a span do. -/
def copyLoaded : Bytes → List (Nat × Bytes) → Nat → Nat → Option Bytes
  | buffer, [], _, _ => some buffer
  | buffer, part :: parts, filled, till =>
    let copyTill := min (partEnd part) till
    if part.1 ≤ filled ∧ filled < copyTill ∧ copyTill - part.1 ≤ part.2.length ∧
        copyTill - filled ≤ buffer.length then
      (copyLoaded (buffer.drop (copyTill - filled)) parts copyTill till).map
        ((part.2.drop (filled - part.1)).take (copyTill - filled) ++ ·)
    else none

end TelegramDesktop.Streaming
