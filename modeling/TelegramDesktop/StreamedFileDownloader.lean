import TelegramDesktop.FileLoader
import Mathlib.Algebra.BigOperators.Group.Finset.Basic

/-!
# Streamed downloads

A downloader asks a reader for the parts of a file and saves the parts that it gets, in
memory or in a file that it has opened, as in `storage/streamed_file_downloader.cpp` and
`storage/file_download.cpp`.  The cancelling of a download and what is put in the cache
are left out, and the operations on the file succeed.
-/

namespace TelegramDesktop

/-- Whether a file is loaded to the cache as well. -/
inductive LoadToCacheSetting
  | toFileOnly
  | toCacheAsWell
  deriving DecidableEq

namespace StreamedFileDownloader

/-- How the file is opened. -/
inductive OpenMode
  | writeOnly
  | readWrite
  deriving DecidableEq

end StreamedFileDownloader

/-- `openMode` is the one of the file while it is open.  `offsetRequests` and `offsetAcks`
are passed to the reader, and `finalized` counts the calls of `finalizeResult`. -/
structure StreamedFileDownloader where
  fullSize : Nat
  hasFilename : Bool
  toCache : LoadToCacheSetting
  partsCount : Int
  partIsSaved : List Bool
  file : Bytes := []
  openMode : Option StreamedFileDownloader.OpenMode := none
  data : Bytes := []
  skippedBytes : Int := 0
  finished : Bool := false
  nextPartIndex : Nat := 0
  partsRequested : Int := 0
  partsSaved : Nat := 0
  offsetRequests : List Nat := []
  offsetAcks : List Nat := []
  finalized : Nat := 0

namespace StreamedFileDownloader

def kPartSize : Nat := 128 * 1024

def kRequestPartsCount : Nat := 32

variable (loader : StreamedFileDownloader)

def fileIsOpen : Bool := loader.openMode.isSome

/-- A download to a file opens it. -/
def checkForOpen : StreamedFileDownloader :=
  if loader.hasFilename = false ∨ loader.toCache ≠ .toFileOnly ∨ loader.fileIsOpen then loader
  else { loader with file := [], openMode := some .writeOnly }

/-- The number of parts as it is before it becomes an `int`. -/
def partsNumber (size : Nat) : Nat := (size + kPartSize - 1) / kPartSize

/-- A loader that was made and has opened its file, if it has one to open.  There is none
where an assertion fails or where the number of parts is negative. -/
def start (size : Nat) (hasFilename : Bool) (toCache : LoadToCacheSetting) :
    Option StreamedFileDownloader :=
  let partsCount := toInt32 (partsNumber size)
  if (hasFilename = false ∧ kMaxFileInMemory < size) ∨ partsCount < 0 then none
  else
    some
      ({ fullSize := size
         hasFilename := hasFilename
         toCache := toCache
         partsCount := partsCount
         partIsSaved := List.replicate partsCount.toNat false : StreamedFileDownloader
        }.checkForOpen)

/-- The bytes written so far, without those skipped. -/
def currentOffset : Int :=
  (if loader.fileIsOpen then loader.file.length else loader.data.length) - loader.skippedBytes

/-- The bytes that are counted as skipped after a part was written at an offset of what is
written so far. -/
def skippedAfter (written offset count : Nat) (skipped : Int) : Int :=
  if offset < written then skipped - count
  else if written < offset then skipped + (offset - written)
  else skipped

/-- In memory as in the file the bytes are put at the offset, with zeros before them where
nothing was written yet. -/
def writeResultPart (offset : Nat) (buffer : Bytes) : StreamedFileDownloader :=
  if buffer = [] then loader
  else if loader.fileIsOpen then
    { loader with
      skippedBytes :=
        skippedAfter loader.file.length offset buffer.length loader.skippedBytes
      file := overwrite loader.file offset buffer }
  else
    { loader with
      skippedBytes :=
        skippedAfter loader.data.length offset buffer.length loader.skippedBytes
      data := overwrite loader.data offset buffer }

/-- The file is opened again for reading if it is not.  Nothing shorter than the size is
returned. -/
def readLoadedPartBack (offset size : Nat) : Bytes × StreamedFileDownloader :=
  if loader.fileIsOpen then
    let opened :=
      if loader.openMode = some .writeOnly then { loader with openMode := some .readWrite }
      else loader
    let result := segment opened.file offset (offset + size)
    (if result.length = size then result else [], opened)
  else
    (if offset + size ≤ loader.data.length then segment loader.data offset (offset + size) else [],
      loader)

/-- What was loaded to the cache as well is also written to the file. -/
def finalizeResult : StreamedFileDownloader :=
  let written :=
    if loader.hasFilename ∧ loader.toCache = .toCacheAsWell then
      { loader with file := loader.data }
    else loader
  { written with finished := true, openMode := none, finalized := loader.finalized + 1 }

/-- Offsets are 32-bit for the reader. -/
def loadForDownloader (offset : Nat) : Option StreamedFileDownloader :=
  if 2 ^ 32 ≤ offset then none
  else some { loader with offsetRequests := loader.offsetRequests ++ [offset] }

def doneForDownloader (offset : Nat) : Option StreamedFileDownloader :=
  if 2 ^ 32 ≤ offset then none
  else some { loader with offsetAcks := loader.offsetAcks ++ [offset] }

/-- The next part that is not saved is asked for. -/
def requestPart : Option StreamedFileDownloader :=
  let index :=
    loader.nextPartIndex + (loader.partIsSaved.drop loader.nextPartIndex).findIdx (· = false)
  if index = loader.partsCount then some { loader with nextPartIndex := index }
  else
    let moved := { loader with nextPartIndex := index + 1 }
    (moved.loadForDownloader (index * kPartSize)).map fun asked =>
      { asked with partsRequested := asked.partsRequested + 1 }

/-- Every part that is requested moves `nextPartIndex`, which bounds the loop. -/
def requestPartsLoop : Nat → StreamedFileDownloader → Option StreamedFileDownloader
  | 0, loader => some loader
  | fuel + 1, loader =>
    if loader.finished = false ∧ loader.nextPartIndex < loader.partsCount ∧
        loader.partsRequested < kRequestPartsCount then
      loader.requestPart.bind (requestPartsLoop fuel)
    else some loader

def requestParts : Option StreamedFileDownloader :=
  requestPartsLoop (loader.partsCount - loader.nextPartIndex).toNat loader

/-- A part that is saved is read back. -/
def readLoadedPart (offset : Nat) : Option (Bytes × StreamedFileDownloader) :=
  if offset < loader.fullSize ∧ offset % kPartSize = 0 then
    loader.partIsSaved[offset / kPartSize]?.map fun saved =>
      if saved then loader.readLoadedPartBack offset kPartSize else ([], loader)
  else none

/-- The part is marked as saved. -/
def countSaved (index : Nat) : StreamedFileDownloader :=
  { loader with
    partIsSaved := loader.partIsSaved.set index true
    partsSaved := loader.partsSaved + 1
    partsRequested :=
      if index < loader.nextPartIndex then loader.partsRequested - 1 else loader.partsRequested }

/-- A loaded part is written and counted. -/
def savePart (offset : Nat) (bytes : Bytes) : Option StreamedFileDownloader :=
  if ¬(offset < loader.fullSize ∧ offset % kPartSize = 0) then none
  else if loader.finished then some loader
  else
    let index := offset / kPartSize
    loader.partIsSaved[index]?.bind fun saved =>
      if saved then some loader
      else
        let written := (loader.countSaved index).writeResultPart offset bytes
        (written.doneForDownloader offset).bind fun acked =>
          if acked.partsSaved = acked.partsCount then some acked.finalizeResult
          else acked.requestParts

/-- What the loader is told. -/
inductive Event
  | requestParts
  | savePart (offset : Nat)
  | readLoadedPart (offset : Nat)
  deriving DecidableEq

/-- One part of the file. -/
def part (file : Bytes) (offset : Nat) : Bytes := segment file offset (offset + kPartSize)

def step (file : Bytes) (loader : StreamedFileDownloader) : Event → Option StreamedFileDownloader
  | .requestParts => loader.requestParts
  | .savePart offset => loader.savePart offset (part file offset)
  | .readLoadedPart offset => (loader.readLoadedPart offset).map Prod.snd

def download (file : Bytes) (hasFilename : Bool) (toCache : LoadToCacheSetting)
    (events : List Event) : Option StreamedFileDownloader :=
  (start file.length hasFilename toCache).bind fun loader => run (step file) loader events

def isSaved (index : Nat) : Bool := loader.partIsSaved.getD index false

/-- All parts are saved. -/
def allSaved : Prop := ∀ index < partsNumber loader.fullSize, loader.isSaved index = true

def toFileOnly : Bool := loader.hasFilename && loader.toCache = .toFileOnly

/-- What was downloaded. -/
def result : Bytes := if loader.toFileOnly then loader.file else loader.data

/-- The requests are those of the parts below the next one that are not saved, and the
result is there, once, when all the parts are. -/
structure Accounted (file : Bytes) (loader : StreamedFileDownloader) : Prop where
  requested : loader.partsRequested =
    ((Finset.range loader.nextPartIndex).filter fun index => loader.isSaved index = false).card
  few : loader.partsRequested ≤ kRequestPartsCount
  finalized : (loader.allSaved → loader.finalized = 1) ∧ (¬loader.allSaved → loader.finalized = 0)
  result : loader.allSaved →
    loader.result = file ∧ (loader.hasFilename = true → loader.file = file)

/-- The bytes of the saved parts. -/
def savedSize (file : Bytes) : Nat :=
  ∑ index ∈ Finset.range (partsNumber file.length),
    if loader.isSaved index then (part file (index * kPartSize)).length else 0

/-- The offset that is shown is the size of the saved parts. -/
def CountsSaved (file : Bytes) (loader : StreamedFileDownloader) : Prop :=
  loader.currentOffset = loader.savedSize file

/-- The part is returned if it is saved, and nothing otherwise. -/
def ReadsBack (file : Bytes) (loader : StreamedFileDownloader) (offset : Nat) : Prop :=
  (loader.readLoadedPart offset).map Prod.fst =
    some (if loader.isSaved (offset / kPartSize) then part file offset else [])

/-- What is kept: a file that is finished is closed, with nothing in memory, and of a
shorter last part it is only said that it is not read before it is saved. -/
structure AssembledUntilClosed (file : Bytes) (loader : StreamedFileDownloader) : Prop where
  accounted : Accounted file loader
  countsSaved : (loader.toFileOnly = true → loader.finished = false) → CountsSaved file loader
  readsBack : (loader.toFileOnly = true → loader.finished = false) →
    ∀ offset < file.length, offset % kPartSize = 0 →
      (loader.isSaved (offset / kPartSize) = true → offset + kPartSize ≤ file.length) →
        ReadsBack file loader offset
  closed : loader.toFileOnly = true → loader.finished = true →
    loader.currentOffset = 0 ∧
      ∀ offset < file.length, offset % kPartSize = 0 →
        (loader.readLoadedPart offset).map Prod.fst = some []

end StreamedFileDownloader

end TelegramDesktop
