import TelegramDesktop.StreamingParts

/-!
# Slices of a streamed file

The state of `Reader::Slices` and its operations, as in
`media/streaming/media_streaming_reader.cpp`.  An operation fails where one of
its assertions does; the failure names the place.
-/

namespace TelegramDesktop.Streaming

def kLoadFromRemoteMax : Nat := 8

def kReadFromCacheMax : Nat := 2

/-- The assertions that fail. -/
inductive Failure
  | constructor
  | addPart
  | processCacheData
  | headerDone
  | processCacheResult
  | processPart
  | processCachedSizes
  | fillArguments
  | fillHeaderCache
  | fillSlices
  | copyLoaded
  | serializeArguments
  | serializeEmpty
  | firstSliceNotLoaded
  /-- An index outside of a vector. -/
  | outOfRange
  /-- A loop that never reaches its end. -/
  | endless
  deriving DecidableEq, Repr

/-- An assertion of the source. -/
def require (condition : Prop) [Decidable condition] (failure : Failure) :
    Except Failure Unit :=
  if condition then .ok () else .error failure

@[simp] theorem require_eq_ok {condition : Prop} [Decidable condition] {failure : Failure}
    {done : Unit} : require condition failure = .ok done ↔ condition := by
  unfold require
  split <;> simp_all

theorem bind_eq_ok {α β : Type} {first : Except Failure α} {next : α → Except Failure β}
    {result : β} : (first >>= next) = .ok result ↔
      ∃ middle, first = .ok middle ∧ next middle = .ok result := by
  cases first with
  | error failure => simp [bind, Except.bind]
  | ok middle => simp [bind, Except.bind]

/-- What is known of the header of a file. -/
inductive HeaderMode
  | unknown
  | small
  | good
  | full
  | noCache
  deriving DecidableEq, Repr

/-- How a fill ends. -/
inductive FillState
  | success
  | waitingCache
  | waitingRemote
  | failed
  deriving DecidableEq, Repr

/-- A slice to be written to the cache. -/
structure SerializedSlice where
  number : Int := -1
  data : Bytes := []

/-- What a fill needs to be loaded, and what is written to the cache. -/
structure FillResult where
  sliceNumbersFromCache : List Nat := []
  offsetsFromLoader : List Nat := []
  toCache : SerializedSlice := {}
  state : FillState := .waitingRemote

/-- `StackIntVector::add` for a vector of at most `size` values. -/
def stackAdd (size : Nat) (values : List Nat) (value : Nat) : List Nat :=
  if values.length < size then values ++ [value] else values

/-- The loaded parts of a slice and its flags. -/
structure Slice where
  parts : PartsMap := ∅
  loadingFromCache : Bool := false
  loadedFromCache : Bool := false
  changedSinceCache : Bool := false
  fullInCache : Bool := false

/-- The loaded parts between two iterators are kept as a list. -/
structure PrepareFillResult where
  offsetsFromLoader : List Nat := []
  parts : List (Nat × Bytes) := []
  ready : Bool := true

namespace Slice

/-- The parts of the cache join those loaded. -/
def processCacheData (slice : Slice) (data : PartsMap) : Except Failure Slice := do
  require (slice.loadingFromCache = true ∧ slice.loadedFromCache = false) .processCacheData
  return { slice with
    parts := if slice.parts.isEmpty then data
      else slice.parts.emplaceAll data.entries
    loadingFromCache := false
    loadedFromCache := true }

/-- A loaded part is added. -/
def addPart (slice : Slice) (offset : Nat) (bytes : Bytes) : Except Failure Slice := do
  require (slice.parts.contains offset = false) .addPart
  return { slice with
    parts := slice.parts.emplace offset bytes
    changedSinceCache := slice.changedSinceCache || slice.loadedFromCache }

/-- The loop over the offsets to load; `check` points at the parts that are
still ahead. -/
def offsetsLoop : Nat → List (Nat × Bytes) → Nat → Nat → List Nat → Except Failure (List Nat)
  | 0, _, _, _, _ => .error .endless
  | rounds + 1, check, offset, till, result =>
    if offset = till then .ok result
    else
      let ahead := check.dropWhile fun part => part.1 < offset
      let next := (offset + kPartSize) % 2 ^ 32
      if (ahead.head?.map Prod.fst) = some offset then
        offsetsLoop rounds ahead next till result
      else if result.length < kLoadFromRemoteMax then
        offsetsLoop rounds ahead next till (stackAdd kLoadFromRemoteMax result offset)
      else .ok result

/-- The iterator before the first part with a larger offset. -/
def checkFrom (slice : Slice) (start : Nat) : List (Nat × Bytes) :=
  ((slice.parts.entries.takeWhile fun part => part.1 ≤ start).getLast?).toList ++
    slice.parts.entries.dropWhile fun part => part.1 ≤ start

/-- The parts that are not loaded yet. -/
def offsetsFromLoader (slice : Slice) (start till : Nat) : Except Failure (List Nat) :=
  offsetsLoop (2 ^ 16) (slice.checkFrom (start % 2 ^ 32)) (start % 2 ^ 32) (till % 2 ^ 32) []

/-- The parts of a range, and what is missing of them. -/
def prepareFill (slice : Slice) (start till : Nat) : Except Failure PrepareFillResult :=
  let fromOffset := start / kPartSize * kPartSize
  let tillPart := (till + kPartSize - 1) / kPartSize
  let preloadTillOffset := (tillPart + kPreloadPartsAhead) * kPartSize
  if (slice.parts.entries.takeWhile fun part => part.1 ≤ start) = [] then do
    let offsets ← slice.offsetsFromLoader fromOffset preloadTillOffset
    return { offsetsFromLoader := offsets, ready := false }
  else
    let parts := (slice.checkFrom start).takeWhile fun part => part.1 < till
    let haveTill := findNotLoadedStart parts fromOffset
    if haveTill < till then do
      let offsets ← slice.offsetsFromLoader haveTill preloadTillOffset
      return { offsetsFromLoader := offsets, ready := false }
    else do
      let offsets ← slice.offsetsFromLoader (tillPart * kPartSize) preloadTillOffset
      return { offsetsFromLoader := offsets, parts := parts }

end Slice

/-- The slices of a file, with its header. -/
structure Slices where
  size : Nat
  data : List Slice := []
  header : Slice := {}
  usedSlices : List Nat := []
  headerMode : HeaderMode := .unknown
  fullInCache : Bool := false

namespace Slices

def create (size : Nat) (useCache : Bool) : Except Failure Slices := do
  require (0 < size) .constructor
  let slices : Slices := { size := size }
  let started := if useCache then
      { slices with header := { loadingFromCache := true } }
    else { slices with headerMode := .noCache }
  if isFullInHeader size then return started
  else do
    require (slicesCount size < 0x1FF) .constructor
    return { started with data := List.replicate (slicesCount size) {} }

variable (slices : Slices)

def isFullInHeader : Bool := Streaming.isFullInHeader slices.size

def isGoodHeader : Bool := slices.headerMode = .good

def slice (index : Nat) : Except Failure Slice :=
  match slices.data[index]? with
  | some slice => .ok slice
  | none => .error .outOfRange

def setSlice (index : Nat) (slice : Slice) : Slices :=
  { slices with data := slices.data.set index slice }

/-- The header is `0`, the slices follow. -/
def numbered (sliceNumber : Nat) : Except Failure Slice :=
  if sliceNumber = 0 then .ok slices.header else slices.slice (sliceNumber - 1)

def setNumbered (sliceNumber : Nat) (slice : Slice) : Slices :=
  if sliceNumber = 0 then { slices with header := slice }
  else slices.setSlice (sliceNumber - 1) slice

/-- The mode of the header is settled. -/
def headerDone (fromCache : Bool) : Except Failure Slices :=
  if slices.headerMode ≠ .unknown then .ok slices
  else
    let decided := { slices with
      headerMode := if slices.isFullInHeader then .full
        else if computeIsGoodHeader slices.size slices.header.parts then .good
        else .small }
    if fromCache then .ok decided
    else do
      require (∀ slice ∈ slices.data,
        slice.loadingFromCache = false ∧ slice.loadedFromCache = false) .headerDone
      return { decided with
        data := decided.data.map fun slice => { slice with loadedFromCache := true } }

def checkFullInCache : Bool :=
  if slices.isFullInHeader then slices.header.fullInCache
  else slices.data.all Slice.fullInCache

def partsCount (sliceNumber : Nat) : Nat :=
  if sliceNumber = 0 then (slices.size + kPartSize - 1) / kPartSize
  else if sliceNumber < slices.data.length then kPartsInSlice
  else (slices.size - (sliceNumber - 1) * kInSlice + kPartSize - 1) / kPartSize

/-- A slice with all its parts is marked as full. -/
def checkSliceFullLoaded (sliceNumber : Nat) : Except Failure Slices :=
  if sliceNumber = 0 ∧ slices.isFullInHeader = false then .ok slices
  else do
    let slice ← slices.numbered sliceNumber
    let loaded := slice.parts.size == slices.partsCount sliceNumber
    if slice.fullInCache && !loaded then
      return { slices.setNumbered sliceNumber { slice with fullInCache := false } with
        fullInCache := false }
    else if !slice.fullInCache && loaded then
      let marked := slices.setNumbered sliceNumber { slice with fullInCache := true }
      return { marked with fullInCache := marked.checkFullInCache }
    else return slices

/-- Add the parts of the header to their slices while the predicate holds. -/
def applyWhile (predicate : Nat → Bool) : List (Nat × Bytes) → Slices → Except Failure Slices
  | [], slices => .ok slices
  | part :: parts, slices =>
    let index := part.1 / kInSlice
    if predicate index then do
      let slice ← slices.slice index
      let added ← slice.addPart (part.1 - index * kInSlice) part.2
      applyWhile predicate parts (slices.setSlice index added)
    else .ok slices

/-- The parts of the header go to the slices. -/
def applyHeaderCacheData : Except Failure Slices :=
  if slices.header.parts.isEmpty then .ok slices
  else if slices.headerMode = .good then
    applyWhile (· = 0) slices.header.parts.entries slices
  else if slices.headerMode ≠ .unknown then .ok slices
  else if slices.isFullInHeader then slices.headerDone true
  else do
    let applied ← applyWhile (· < slices.data.length) slices.header.parts.entries slices
    applied.headerDone true

/-- What follows once it is clear that the result of a cache query is wanted. -/
def applyCacheResult (sliceNumber : Nat) (result : PartsMap) : Except Failure Slices := do
  let slice ← slices.numbered sliceNumber
  if slice.loadingFromCache = false then return slices
  else
    let processed ← slice.processCacheData result
    let checked ← (slices.setNumbered sliceNumber processed).checkSliceFullLoaded sliceNumber
    if sliceNumber = 0 then
      let applied ← checked.applyHeaderCacheData
      if applied.isGoodHeader then
        let first ← applied.slice 0
        return applied.setSlice 0 { first with loadingFromCache := true }
      else return applied
    else return checked

/-- The answer of the cache for one slice. -/
def processCacheResult (sliceNumber : Nat) (result : PartsMap) : Except Failure Slices := do
  require (sliceNumber ≤ slices.data.length) .processCacheResult
  if sliceNumber = 0 ∧ slices.isGoodHeader = true then
    let first ← slices.slice 0
    if first.loadingFromCache = false then return slices
    else
      applyCacheResult { slices with header :=
        { slices.header with loadingFromCache := true, loadedFromCache := false } }
        sliceNumber result
  else slices.applyCacheResult sliceNumber result

def processCachedSizes (sizes : List Int) : Except Failure Slices := do
  require (sizes.length = slices.data.length) .processCachedSizes
  let data := slices.data.mapIdx fun index slice =>
    let sliceSize := if index + 1 < slices.data.length then kInSlice
      else slices.size - index * kInSlice
    { slice with
      fullInCache := slice.fullInCache || sizes.getD index 0 % 2 ^ 32 == sliceSize }
  return { slices with data := data, fullInCache := data.all Slice.fullInCache }

def addToSlice (offset : Nat) (bytes : Bytes) : Except Failure Slices := do
  let index := offset / kInSlice
  let slice ← slices.slice index
  let added ← slice.addPart (offset - index * kInSlice) bytes
  (slices.setSlice index added).checkSliceFullLoaded (index + 1)

/-- A part from the loader. -/
def processPart (offset : Nat) (bytes : Bytes) : Except Failure Slices := do
  require (slices.isFullInHeader = true ∨ offset / kInSlice < slices.data.length) .processPart
  if slices.isFullInHeader then
    let header ← slices.header.addPart offset bytes
    { slices with header := header }.checkSliceFullLoaded 0
  else if slices.headerMode = .unknown then
    if slices.header.parts.contains offset then return slices
    else if slices.header.parts.size < kMaxPartsInHeader then
      let header ← slices.header.addPart offset bytes
      { slices with header := header }.addToSlice offset bytes
    else slices.addToSlice offset bytes
  else slices.addToSlice offset bytes

def unloadSlice (slice : Slice) : Slice := { fullInCache := slice.fullInCache }

def appendInt (value : Nat) : Bytes := littleEndian 4 value

def serializeParts (parts : List (Nat × Bytes)) : Bytes :=
  parts.flatMap fun part => appendInt part.1 ++ appendInt part.2.length ++ part.2

def serializeComplexSlice (slice : Slice) : Bytes :=
  appendInt slice.parts.size ++ serializeParts slice.parts.entries

def eraseAll (parts : PartsMap) (erased : List (Nat × Bytes)) : PartsMap :=
  erased.foldl (fun result part => result.erase part.1) parts

def serializeAndUnloadFirstSliceNoHeader : Except Failure (Slices × Bytes) := do
  let first ← slices.slice 0
  require (first.loadedFromCache = true) .firstSliceNotLoaded
  let kept := { first with parts := eraseAll first.parts slices.header.parts.entries }
  return (slices.setSlice 0 (unloadSlice kept), serializeComplexSlice kept)

/-- Zero bytes are added while the data looks contiguous; this happens twice at
most, because neither a multiple of the part size nor the full size comes soon
again. -/
def padSerialization : Nat → Bytes → Int → Bytes
  | 0, data, _ => data
  | rounds + 1, data, maxSize =>
    if isContiguousSerialization data.length maxSize then
      padSerialization rounds (data ++ [0]) maxSize
    else data

def isContinuous (slice : Slice) : Bool :=
  match slice.parts.entries.getLast? with
  | some back => back.1 < findNotLoadedStart slice.parts.entries 0
  | none => false

def finishSerialization (sliceNumber : Nat) (slice : Slice) : Slices :=
  if sliceNumber = 0 then
    { slices with header := { slices.header with changedSinceCache := false } }
  else slices.setNumbered sliceNumber (unloadSlice slice)

/-- The entry of a slice, which is unloaded. -/
def serializeNumbered (sliceNumber : Nat) : Except Failure (Slices × SerializedSlice) := do
  let slice ← slices.numbered sliceNumber
  require (0 < slice.parts.size) .serializeEmpty
  let maxSize := maxSliceSize sliceNumber slices.size
  if slices.isGoodHeader = true ∧ sliceNumber = 0 then
    let (unloaded, first) ← slices.serializeAndUnloadFirstSliceNoHeader
    let data := padSerialization 3 (serializeComplexSlice slice ++ first) maxSize
    return (unloaded.finishSerialization sliceNumber slice, ⟨sliceNumber, data⟩)
  else if isContinuous slice then
    return (slices.finishSerialization sliceNumber slice,
      ⟨sliceNumber, slice.parts.entries.flatMap Prod.snd⟩)
  else
    let data := padSerialization 3 (serializeComplexSlice slice) maxSize
    return (slices.finishSerialization sliceNumber slice, ⟨sliceNumber, data⟩)

/-- In good mode the first slice is written together with the header. -/
def writtenNumber (sliceNumber : Nat) : Nat :=
  if slices.isGoodHeader = true ∧ sliceNumber = 1 then 0 else sliceNumber

def serializeAndUnloadSlice (sliceNumber : Nat) :
    Except Failure (Slices × SerializedSlice) := do
  require (slices.headerMode ≠ .unknown ∧ slices.headerMode ≠ .noCache ∧
    sliceNumber ≤ slices.data.length) .serializeArguments
  slices.serializeNumbered (slices.writtenNumber sliceNumber)

def noNeedToSaveToCache (purgeSlice : Nat) (purged : Slice) : Bool :=
  slices.headerMode = .noCache ||
    (!purged.changedSinceCache &&
      (!slices.isGoodHeader || 0 < purgeSlice || !slices.header.changedSinceCache))

/-- Beyond the limit the slice used least recently is unloaded. -/
def serializeAndUnloadUnused : Except Failure (Slices × SerializedSlice) :=
  if slices.headerMode = .unknown then .ok (slices, {})
  else
    match slices.usedSlices with
    | purgeSlice :: rest =>
      if kSlicesInMemory ≤ rest.length then do
        let popped := { slices with usedSlices := rest }
        let purged ← popped.slice purgeSlice
        if purged.loadedFromCache = false then return (popped, {})
        else if popped.noNeedToSaveToCache purgeSlice purged then
          return (popped.setSlice purgeSlice (unloadSlice purged), {})
        else popped.serializeAndUnloadSlice (purgeSlice + 1)
      else .ok (slices, {})
    | [] => .ok (slices, {})

/-- A slice with changes is unloaded. -/
def unloadToCache : Except Failure (Slices × SerializedSlice) :=
  if slices.headerMode = .unknown ∨ slices.headerMode = .noCache then .ok (slices, {})
  else if slices.header.changedSinceCache then slices.serializeAndUnloadSlice 0
  else
    match slices.data.findIdx? Slice.changedSinceCache with
    | some index => slices.serializeAndUnloadSlice (index + 1)
    | none => .ok (slices, {})

def markSliceUsed (sliceIndex : Nat) : Slices :=
  { slices with usedSlices := slices.usedSlices.erase sliceIndex ++ [sliceIndex] }

/-- The loaded parts are copied to the buffer. -/
def copyLoaded (buffer : Bytes) (parts : List (Nat × Bytes)) (start till : Nat) :
    Except Failure Bytes :=
  match Streaming.copyLoaded buffer parts start till with
  | some filled => .ok filled
  | none => .error .copyLoaded

/-- The buffer is filled from a file kept in its header. -/
def fillFromHeader (offset : Nat) (buffer : Bytes) :
    Except Failure (Slices × FillResult × Bytes) := do
  let till := offset + buffer.length
  let prepared ← slices.header.prepareFill offset till
  let wanted := prepared.offsetsFromLoader.filter fun offset => offset < slices.size
  let result : FillResult :=
    { offsetsFromLoader := wanted.foldl (stackAdd kLoadFromRemoteMax) [] }
  if prepared.ready then
    let filled ← copyLoaded buffer prepared.parts offset till
    return (slices, { result with state := .success }, filled)
  else return (slices, result, buffer)

def cacheNotLoaded (slice : Slice) : Bool :=
  slices.headerMode ≠ .noCache && slices.headerMode ≠ .unknown && !slice.loadedFromCache

/-- The offsets in a slice that the loader should be asked for. -/
def handlePrepareResult (result : FillResult) (sliceIndex : Nat) (slice : Slice)
    (prepared : PrepareFillResult) : FillResult :=
  if slices.cacheNotLoaded slice then result
  else
    let wanted := prepared.offsetsFromLoader.filter fun offset =>
      offset < kInSlice ∧ offset + sliceIndex * kInSlice < slices.size
    let full := wanted.map fun offset => offset + sliceIndex * kInSlice
    { result with
      offsetsFromLoader := full.foldl (stackAdd kLoadFromRemoteMax) result.offsetsFromLoader }

/-- The slice is asked for from the cache. -/
def handleReadFromCache (result : FillResult) (sliceIndex : Nat) (slice : Slice) :
    Slices × FillResult :=
  if slices.cacheNotLoaded slice then
    if slice.loadingFromCache then (slices, { result with state := .waitingCache })
    else
      (slices.setSlice sliceIndex { slice with loadingFromCache := true },
        { result with
          sliceNumbersFromCache :=
            stackAdd kReadFromCacheMax result.sliceNumbersFromCache (sliceIndex + 1)
          state := .waitingCache })
  else (slices, result)

/-- The buffer is filled from one slice. -/
def fillFromSlice (fromSlice offset : Nat) (buffer : Bytes) :
    Except Failure (Slices × FillResult × Bytes) := do
  let firstFrom := offset - fromSlice * kInSlice
  let firstTill := min kInSlice (offset + buffer.length - fromSlice * kInSlice)
  let slice ← slices.slice fromSlice
  let first ← slice.prepareFill firstFrom firstTill
  let result := slices.handlePrepareResult {} fromSlice slice first
  if first.ready then
    let filled ← copyLoaded buffer first.parts firstFrom firstTill
    let (saved, toCache) ← (slices.markSliceUsed fromSlice).serializeAndUnloadUnused
    return (saved, { result with toCache := toCache, state := .success }, filled)
  else
    let (asked, waiting) := slices.handleReadFromCache result fromSlice slice
    return (asked, waiting, buffer)

/-- The buffer is filled from two slices. -/
def fillFromTwoSlices (fromSlice offset : Nat) (buffer : Bytes) :
    Except Failure (Slices × FillResult × Bytes) := do
  let till := offset + buffer.length
  let firstFrom := offset - fromSlice * kInSlice
  let firstTill := min kInSlice (till - fromSlice * kInSlice)
  let secondTill := till - (fromSlice + 1) * kInSlice
  let firstSlice ← slices.slice fromSlice
  let secondSlice ← slices.slice (fromSlice + 1)
  let first ← firstSlice.prepareFill firstFrom firstTill
  let second ← secondSlice.prepareFill 0 secondTill
  let result := slices.handlePrepareResult
    (slices.handlePrepareResult {} fromSlice firstSlice first)
    (fromSlice + 1) secondSlice second
  if first.ready && second.ready then
    let firstFilled ← copyLoaded buffer first.parts firstFrom firstTill
    let secondFilled ← copyLoaded (firstFilled.drop (firstTill - firstFrom)) second.parts 0
      secondTill
    let used := (slices.markSliceUsed fromSlice).markSliceUsed (fromSlice + 1)
    let (saved, toCache) ← used.serializeAndUnloadUnused
    return (saved, { result with toCache := toCache, state := .success },
      firstFilled.take (firstTill - firstFrom) ++ secondFilled)
  else
    let (askedFirst, waitingFirst) := slices.handleReadFromCache result fromSlice firstSlice
    let (asked, waiting) :=
      askedFirst.handleReadFromCache waitingFirst (fromSlice + 1) secondSlice
    return (asked, waiting, buffer)

/-- The buffer is filled, or what it lacks is named. -/
def fill (offset : Nat) (buffer : Bytes) : Except Failure (Slices × FillResult × Bytes) := do
  require (buffer ≠ [] ∧ offset < slices.size ∧ offset + buffer.length ≤ slices.size ∧
    buffer.length ≤ kInSlice) .fillArguments
  if slices.headerMode ≠ .noCache ∧ slices.header.loadedFromCache = false then
    require (slices.header.loadingFromCache = true) .fillHeaderCache
    return (slices, {}, buffer)
  else if slices.isFullInHeader then slices.fillFromHeader offset buffer
  else
    let till := offset + buffer.length
    let fromSlice := offset / kInSlice
    let tillSlice := (till + kInSlice - 1) % 2 ^ 32 / kInSlice
    require ((fromSlice + 1 = tillSlice ∨ fromSlice + 2 = tillSlice) ∧
      tillSlice ≤ slices.data.length) .fillSlices
    if fromSlice + 1 < tillSlice then slices.fillFromTwoSlices fromSlice offset buffer
    else slices.fillFromSlice fromSlice offset buffer

section Found

variable {slices}

theorem slice_eq_ok {index : Nat} {slice : Slice} :
    slices.slice index = .ok slice ↔ slices.data[index]? = some slice := by
  unfold Slices.slice
  cases slices.data[index]? with
  | none => simp
  | some found => simp

theorem lt_length_of_slice {index : Nat} {slice : Slice}
    (found : slices.slice index = .ok slice) : index < slices.data.length :=
  (List.getElem?_eq_some_iff.mp (slice_eq_ok.mp found)).1

end Found

end Slices

end TelegramDesktop.Streaming
