import TelegramDesktop.ByteStrings
import TelegramDesktop.Runs
import Mathlib.Data.List.Nodup

/-!
# Loading an update

A loader asks for the chunks of a file, two at a time, and writes them to its output in
order, as in `mtproto/dedicated_file_loader.cpp`.  The output that is there already is
cut to whole chunks.  Sizes are 64-bit integers except where a function takes an `int`.
-/

namespace TelegramDesktop

/-- `bytes` are those that were received and not written yet. -/
structure DedicatedLoader.Request where
  offset : Nat
  bytes : Bytes := []
  deriving DecidableEq

/-- The answer to a request of a part. -/
inductive DedicatedLoader.UploadFile
  | fileCdnRedirect
  | file (bytes : Bytes)

/-- `delayed` counts the calls of `sendRequest` that are delayed, `awaited` and `requested`
are the offsets of the requests without an answer and of all of them, and `ready` and
`failed` count what was reported. -/
structure DedicatedLoader where
  size : Nat
  output : Bytes := []
  isOpen : Bool := true
  alreadySize : Nat := 0
  totalSize : Int := 0
  requests : List DedicatedLoader.Request := []
  offset : Nat := 0
  delayed : Nat := 0
  awaited : List Nat := []
  requested : List Nat := []
  ready : Nat := 0
  failed : Nat := 0

namespace DedicatedLoader

def kChunkSize : Nat := 128 * 1024

def kMaxFileSize : Nat := 256 * 1024 * 1024

def kRequestsCount : Nat := 2

/-- What is kept of an output that exists.  The file operations succeed. -/
def validateOutput : Option Bytes → Bytes
  | none => []
  | some content =>
    let fullSize := content.length
    if fullSize < kChunkSize ∨ kMaxFileSize < fullSize then []
    else
      content.take
        (if fullSize % kChunkSize ≠ 0 then fullSize - fullSize % kChunkSize else fullSize)

variable (loader : DedicatedLoader)

/-- The total size is an `int`.  Nothing can be written when the output is closed. -/
def writeChunk (data : Bytes) (totalSize : Int) : DedicatedLoader :=
  if data ≠ [] ∧ loader.isOpen = false then { loader with failed := loader.failed + 1 }
  else
    let total := if loader.totalSize = 0 then totalSize else loader.totalSize
    let already := loader.alreadySize + data.length
    let written := { loader with
      output := loader.output ++ data
      totalSize := total
      alreadySize := already }
    if 0 < total ∧ total ≤ already then { written with isOpen := false, ready := loader.ready + 1 }
    else written

def sendRequest : DedicatedLoader :=
  if kRequestsCount ≤ loader.requests.length ∨ loader.size ≤ loader.offset then loader
  else
    let requests := loader.requests ++ [{ offset := loader.offset }]
    { loader with
      requests := requests
      awaited := loader.awaited ++ [loader.offset]
      requested := loader.requested ++ [loader.offset]
      offset := loader.offset + kChunkSize
      delayed := if requests.length < kRequestsCount then loader.delayed + 1 else loader.delayed }

/-- The received parts are written from the front of the requests. -/
def writeReceived : List Request → DedicatedLoader → DedicatedLoader
  | [], loader => { loader with requests := [] }
  | front :: rest, loader =>
    if front.bytes ≠ [] then
      writeReceived rest (loader.writeChunk front.bytes (toInt32 loader.size))
    else { loader with requests := front :: rest }

/-- The offset is an `int`.  There is no next state where an assertion fails. -/
def gotPart (offset : Int) (result : UploadFile) : Option DedicatedLoader :=
  if loader.requests = [] then none
  else
    match result with
    | .fileCdnRedirect => some { loader with failed := loader.failed + 1 }
    | .file bytes =>
      if bytes = [] then some { loader with failed := loader.failed + 1 }
      else
        (loader.requests.findIdx? fun request => request.offset = offset).map fun i =>
          (writeReceived
            (loader.requests.modify i fun request => { request with bytes := bytes })
            loader).sendRequest

/-- What exists is written first, and the rest is asked for. -/
def startLoading : DedicatedLoader :=
  ({ loader with offset := loader.alreadySize }.writeChunk []
    (toInt32 loader.size)).sendRequest

/-- `start` of a loader for a file of this size, with the output that exists. -/
def start (size : Nat) (existing : Option Bytes) : DedicatedLoader :=
  let kept := validateOutput existing
  { size := size, output := kept, alreadySize := kept.length : DedicatedLoader }.startLoading

/-- A request is answered, or a delayed call is made. -/
inductive Event
  | answer (offset : Nat)
  | sendRequest
  deriving DecidableEq

/-- Only what was asked for is answered. -/
def enabled : Event → Bool
  | .answer offset => offset ∈ loader.awaited
  | .sendRequest => 0 < loader.delayed

/-- The chunk of the file at an offset. -/
def part (file : Bytes) (offset : Nat) : Bytes := segment file offset (offset + kChunkSize)

def handle (file : Bytes) : Event → Option DedicatedLoader
  | .answer offset =>
    { loader with awaited := loader.awaited.erase offset }.gotPart (toInt32 offset)
      (.file (part file offset))
  | .sendRequest => some { loader with delayed := loader.delayed - 1 }.sendRequest

def step (file : Bytes) (loader : DedicatedLoader) (event : Event) : Option DedicatedLoader :=
  if loader.enabled event then loader.handle file event else none

/-- What holds at every moment: the output is a beginning of the file, no offset was
requested twice, it was reported once that the output is ready if it is the file, no
assertion fails on an answer, and when nothing is awaited the output is the file. -/
structure InOrder (file : Bytes) (loader : DedicatedLoader) : Prop where
  isPrefix : loader.output <+: file
  once : loader.requested.Nodup
  ready : loader.ready = if loader.output = file then 1 else 0
  answered : ∀ event, loader.enabled event = true → (loader.handle file event).isSome = true
  complete : loader.awaited = [] → loader.output = file

/-- In every run the loader writes the file in its order. -/
def Assembles (file : Bytes) (existing : Option Bytes) : Prop :=
  ∀ events loader, run (step file) (start file.length existing) events = some loader →
    InOrder file loader

end DedicatedLoader

end TelegramDesktop
