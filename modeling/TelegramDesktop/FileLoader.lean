import TelegramDesktop.ByteStrings
import TelegramDesktop.Runs

/-!
# File loaders and the cache

A loader takes a file from the cache or asks for its parts, and puts what it has
loaded in the cache, as in `storage/file_download.cpp` and
`storage/file_download_mtproto.cpp`.  A file that is written next to the cache, the
cancelling of a loader and the counting of its progress are left out.
-/

namespace TelegramDesktop

def kDownloadPartSize : Nat := 128 * 1024

def kMaxFileInMemory : Nat := 10 * 1024 * 1024

/-- `partial:` -/
def partialPrefix : Bytes := [0x70, 0x61, 0x72, 0x74, 0x69, 0x61, 0x6C, 0x3A]

def kPrefix : Nat := 8

/-- Whether the file was looked for in the local cache. -/
inductive LocalStatus
  | notTried
  | notFound
  | loading
  | loaded
  deriving DecidableEq

/-- A loader is in the queue from the time it starts to load.  The requests it has sent
are known by their offsets. -/
structure FileLoader where
  loadSize : Nat
  fullSize : Nat
  isWebFile : Bool := false
  localStatus : LocalStatus := .loading
  data : Bytes := []
  finished : Bool := false
  isQueued : Bool := false
  nextRequestOffset : Nat := 0
  lastComplete : Bool := false
  sentRequests : List Nat := []
  deriving DecidableEq

/-- Bytes are written at an offset, and there are some between the end and the offset. -/
def overwrite (data : Bytes) (offset : Nat) (buffer : Bytes) : Bytes :=
  if buffer = [] then data
  else
    let resized := data ++ List.replicate (offset - data.length) 0
    resized.take offset ++ buffer ++ resized.drop (offset + buffer.length)

namespace FileLoader

variable (loader : FileLoader)

def haveSentRequests : Bool := !loader.sentRequests.isEmpty

/-- Nothing stands against another request. -/
def readyToRequest : Bool :=
  !loader.finished && !loader.lastComplete &&
    (loader.fullSize ≠ 0 || !loader.haveSentRequests) &&
    (loader.fullSize = 0 || loader.nextRequestOffset < loader.loadSize)

def writeResultPart (offset : Nat) (buffer : Bytes) : FileLoader :=
  { loader with data := overwrite loader.data offset buffer }

/-- What is put in the cache for a key. -/
def cachedValue : Option Bytes :=
  if loader.localStatus = .notFound ∧ loader.data.length ≤ kMaxFileInMemory then
    some (if loader.fullSize = 0 ∨ loader.data.length = loader.fullSize then loader.data
      else partialPrefix ++ loader.data)
  else none

def finalizeResult : FileLoader := { loader with finished := true }

/-- A part is written, and the loader is finished if it was the last one. -/
def feedPart (offset : Nat) (bytes : Bytes) : FileLoader :=
  let written := loader.writeResultPart offset bytes
  let fed :=
    if bytes = [] ∨ bytes.length % 1024 ≠ 0 then { written with lastComplete := true }
    else written
  if fed.haveSentRequests = false ∧
      (fed.lastComplete ∨ (fed.fullSize ≠ 0 ∧ fed.loadSize ≤ fed.nextRequestOffset)) then
    { fed with isQueued := false }.finalizeResult
  else fed

/-- The whole file was in the cache. -/
def finishWithBytes (data : Bytes) : FileLoader :=
  { loader with data := data, localStatus := .loaded, finished := true }

def startLoading : FileLoader := { loader with isQueued := true }

/-- The part of a prefix that the loader takes. -/
def usedSize (data : Bytes) : Nat :=
  (data.length - kPrefix) / kDownloadPartSize * kDownloadPartSize

def startLoadingWithPartial (data : Bytes) : FileLoader :=
  let use := usedSize data
  if use > 0 then
    ({ loader with nextRequestOffset := use }.feedPart 0
      ((data.drop kPrefix).take use)).startLoading
  else loader.startLoading

/-- The value comes from the cache; there is none if it is empty. -/
def localLoaded (value : Bytes) : FileLoader :=
  if value = [] then { loader with localStatus := .notFound }.startLoading
  else if partialPrefix <+: value ∧ value.length < loader.loadSize + kPrefix then
    { loader with localStatus := .notFound }.startLoadingWithPartial value
  else
    loader.finishWithBytes (if partialPrefix <+: value then value.drop kPrefix else value)

def setWebFileSizeHook (size : Nat) : FileLoader :=
  { loader with fullSize := size, loadSize := size }

/-- What a loader does: it sends a request or takes an answer. -/
inductive Event
  | request
  | answer (offset : Nat)
  deriving DecidableEq

/-- The next part is requested. -/
def takeNextRequestOffset : FileLoader :=
  { loader with
    nextRequestOffset := loader.nextRequestOffset + kDownloadPartSize
    sentRequests := loader.nextRequestOffset :: loader.sentRequests }

/-- An answer is taken. -/
def partLoaded (file : Bytes) (offset : Nat) : FileLoader :=
  let received := { loader with sentRequests := loader.sentRequests.erase offset }
  let sized := if received.isWebFile then received.setWebFileSizeHook file.length else received
  sized.feedPart offset (segment file offset (offset + kDownloadPartSize))

/-- A request is sent by a loader in the queue, and any request may be answered next. -/
def step (file : Bytes) (loader : FileLoader) : Event → Option FileLoader
  | .request =>
    if loader.isQueued ∧ loader.readyToRequest then some loader.takeNextRequestOffset else none
  | .answer offset =>
    if offset ∈ loader.sentRequests then some (loader.partLoaded file offset) else none

/-- Every run of a loader ends, and has the property at its end. -/
def AlwaysFinishes (file : Bytes) (loader : FileLoader) (property : FileLoader → Prop) : Prop :=
  ∃ bound, ∀ events last, run (step file) loader events = some last →
    events.length ≤ bound ∧ (last.finished → property last) ∧
      (¬last.finished → ∃ event, (step file last event).isSome)

end FileLoader

end TelegramDesktop
