import TelegramDesktop.DataStream
import TelegramDesktop.DcIds
import TelegramDesktop.FlatMapGroups

/-!
# Options of the data centers

`DcOptions` of `mtproto/mtproto_dc_options.cpp` keeps the endpoints of every
data center and the public keys of the CDN data centers.  What is kept is
written to the settings and read back from there at the next start.
-/

namespace TelegramDesktop

/-- What the options use of `RSAPublicKey`: its constructors from the bytes of a
key and from the two numbers, and its methods. -/
structure RSAPublicKey (Key : Type*) where
  ofBytes : Bytes → Key
  ofNumbers : Bytes → Bytes → Key
  valid : Key → Bool
  fingerprint : Key → UInt64
  getN : Key → Bytes
  getE : Key → Bytes

/-- The servers of the production or of the tests. -/
inductive Environment
  | production
  | test
  deriving DecidableEq, Repr

namespace DcOptions

/-- An address that is built into the program. -/
structure BuiltInDc where
  id : DcId
  ip : String
  port : Int32

def kBuiltInDcs : List BuiltInDc :=
  [⟨1, "149.154.175.50", 443⟩,
    ⟨2, "149.154.167.51", 443⟩,
    ⟨2, "95.161.76.100", 443⟩,
    ⟨3, "149.154.175.100", 443⟩,
    ⟨4, "149.154.167.91", 443⟩,
    ⟨5, "149.154.171.5", 443⟩]

def kBuiltInDcsIPv6 : List BuiltInDc :=
  [⟨1, "2001:0b28:f23d:f001:0000:0000:0000:000a", 443⟩,
    ⟨2, "2001:067c:04e8:f002:0000:0000:0000:000a", 443⟩,
    ⟨3, "2001:0b28:f23d:f003:0000:0000:0000:000a", 443⟩,
    ⟨4, "2001:067c:04e8:f004:0000:0000:0000:000a", 443⟩,
    ⟨5, "2001:0b28:f23f:f005:0000:0000:0000:000a", 443⟩]

def kBuiltInDcsTest : List BuiltInDc :=
  [⟨1, "149.154.175.10", 443⟩,
    ⟨2, "149.154.167.40", 443⟩,
    ⟨3, "149.154.175.117", 443⟩]

def kBuiltInDcsIPv6Test : List BuiltInDc :=
  [⟨1, "2001:0b28:f23d:f001:0000:0000:0000:000e", 443⟩,
    ⟨2, "2001:067c:04e8:f002:0000:0000:0000:000e", 443⟩,
    ⟨3, "2001:0b28:f23d:f003:0000:0000:0000:000e", 443⟩]

/-- `f_ipv6` of the scheme. -/
def ipv6Flag : UInt32 := 0x01

/-- `f_static` of the scheme. -/
def staticFlag : UInt32 := 0x10

/-- An address of a data center, with its flags and its secret. -/
structure Endpoint where
  id : DcId
  flags : UInt32
  ip : Bytes
  port : Int32
  secret : Bytes
  deriving DecidableEq

def BuiltInDc.endpoint (entry : BuiltInDc) (flags : UInt32) : Endpoint :=
  { id := entry.id
    flags
    ip := entry.ip.toList.map fun letter => UInt8.ofNat letter.toNat
    port := entry.port
    secret := [] }

/-- See also `TcpConnection::Protocol::Create`. -/
def validateSecret (secret : Bytes) : Bool :=
  (21 ≤ secret.length && secret.head? = some 0xEE) ||
    (secret.length = 17 && secret.head? = some 0xDD) || secret.length = 16 || secret.isEmpty

/-- Endpoints of a data center that are not kept beside each other. -/
def sameAddress (first second : Endpoint) : Bool :=
  first.ip = second.ip && first.port = second.port

abbrev Data := FlatMap DcId (List Endpoint)

/-- The endpoints after one is applied, and whether it was added. -/
def applyOneOption (data : Data) (endpoint : Endpoint) : Data × Bool :=
  match data.find? endpoint.id with
  | some list =>
    if list.any fun other => sameAddress other endpoint then (data, false)
    else (data.set endpoint.id (list ++ [endpoint]), true)
  | none => (data.emplace endpoint.id [endpoint], true)

/-- `applyOneOption` for all the addresses. -/
def applyAll (data : Data) (endpoints : List Endpoint) : Data :=
  endpoints.foldl (fun data endpoint => (applyOneOption data endpoint).1) data

/-- `equal` of `CountOptionsDifference` -/
def sameAddresses (m n : List Endpoint) : Bool :=
  m.length = n.length && m.all fun endpoint => n.any fun other => sameAddress other endpoint

/-- The ids at which two sequences differ.  An id that equals the mark for the
end makes the source read behind the other sequence's end: there is no result. -/
def countOptionsDifference : List (DcId × List Endpoint) → List (DcId × List Endpoint) →
    Option (List DcId)
  | [], [] => some []
  | a :: as, [] =>
    if a.1 < Int32.maxValue then (countOptionsDifference as []).map (a.1 :: ·) else none
  | [], b :: bs =>
    if b.1 < Int32.maxValue then (countOptionsDifference [] bs).map (b.1 :: ·) else none
  | a :: as, b :: bs =>
    if a.1 < b.1 then (countOptionsDifference as (b :: bs)).map (a.1 :: ·)
    else if b.1 < a.1 then (countOptionsDifference (a :: as) bs).map (b.1 :: ·)
    else if sameAddresses a.2 b.2 then countOptionsDifference as bs
    else (countOptionsDifference as bs).map (a.1 :: ·)
termination_by as bs => as.length + bs.length

/-- An address as the server sends it. -/
structure MTPDdcOption where
  flags : UInt32
  id : DcId
  ipAddress : Bytes
  port : Int32
  secret : Option Bytes

/-- An option of the server, or an object of another type. -/
inductive MTPDcOption
  | dcOption (data : MTPDdcOption)
  | wrongType

def MTPDdcOption.endpoint (option : MTPDdcOption) : Endpoint :=
  { id := option.id
    flags := option.flags
    ip := option.ipAddress
    port := option.port
    secret := option.secret.getD [] }

/-- Options of a wrong type are skipped. -/
def MTPDcOption.endpoint? : MTPDcOption → Option Endpoint
  | dcOption data => some data.endpoint
  | wrongType => none

/-- `MTPDcdnPublicKey` -/
structure CdnPublicKey where
  dcId : DcId
  publicKey : Bytes

abbrev CdnPublicKeys (Key : Type*) := FlatMap DcId (FlatMap UInt64 Key)

section Keys

variable {Key : Type*}

/-- `_cdnPublicKeys[dcId].emplace(fingerprint, key)` -/
def emplaceKey (keys : CdnPublicKeys Key) (dcId : DcId) (fingerprint : UInt64) (key : Key) :
    CdnPublicKeys Key :=
  keys.set dcId (((keys.find? dcId).getD ∅).emplace fingerprint key)

end Keys

end DcOptions

open DcOptions

/-- The public keys of other data centers and the ids of the CDN data centers are
not among what is written. -/
structure DcOptions (Key : Type*) where
  environment : Environment
  data : Data := ∅
  cdnPublicKeys : CdnPublicKeys Key := ∅
  immutable : Bool := false

namespace DcOptions

variable {Key : Type*} (rsa : RSAPublicKey Key) (options : DcOptions Key)

def isTestMode : Bool := options.environment ≠ .production

/-- The addresses that are built in. -/
def builtIn : List Endpoint :=
  ((if options.isTestMode then kBuiltInDcsTest else kBuiltInDcs).map
      fun entry => entry.endpoint staticFlag) ++
    (if options.isTestMode then kBuiltInDcsIPv6Test else kBuiltInDcsIPv6).map
      fun entry => entry.endpoint (staticFlag ||| ipv6Flag)

/-- The options before anything is loaded. -/
def constructFromBuiltIn : DcOptions Key :=
  { options with data := applyAll ∅ options.builtIn }

/-- `DcOptions(environment)` -/
def construct (environment : Environment) : DcOptions Key :=
  constructFromBuiltIn { environment }

def constructAddOne (id : Int32) (flags : UInt32) (ip : Bytes) (port : Int32)
    (secret : Bytes) : DcOptions Key :=
  { options with data :=
      (applyOneOption options.data { id := bareDcId id, flags, ip, port, secret }).1 }

def processFromList (list : List MTPDcOption) (overwrite : Bool) : Option (DcOptions Key) :=
  if list.isEmpty || options.immutable then some options
  else
    let data := applyAll (if overwrite then ∅ else options.data)
      (list.filterMap MTPDcOption.endpoint?)
    (countOptionsDifference options.data.entries data.entries).map fun difference =>
      if difference.isEmpty then options else { options with data }

def setFromList (list : List MTPDcOption) : Option (DcOptions Key) :=
  options.processFromList list true

def addFromList (list : List MTPDcOption) : Option (DcOptions Key) :=
  options.processFromList list false

/-- All the keys, each with its data center and its fingerprint. -/
def keysOf (keys : CdnPublicKeys Key) : List (DcId × UInt64 × Key) :=
  keys.entries.flatMap fun item => item.2.entries.map fun entry => (item.1, entry)

/-- The other options, which are not the same ones, are not used afterwards. -/
def addFromOther (other : DcOptions Key) : DcOptions Key :=
  if options.immutable || other.data.isEmpty then options
  else
    { options with
      data := applyAll options.data (other.data.entries.flatMap Prod.snd)
      cdnPublicKeys := (keysOf other.cdnPublicKeys).foldl
        (fun keys entry => emplaceKey keys entry.1 entry.2.1 entry.2.2) options.cdnPublicKeys }

/-- The loop of `setCDNConfig` -/
def applyKey (keys : CdnPublicKeys Key) (data : CdnPublicKey) : CdnPublicKeys Key :=
  let key := rsa.ofBytes data.publicKey
  if rsa.valid key then emplaceKey keys data.dcId (rsa.fingerprint key) key else keys

def setCDNConfig (config : List CdnPublicKey) : DcOptions Key :=
  { options with cdnPublicKeys := config.foldl (applyKey rsa) ∅ }

open DataStream (writeInt32 writeSize writeBytes)

def kVersion : Int32 := 2

/-- The addresses of data centers that are not temporary. -/
def writtenEndpoints : List Endpoint :=
  (options.data.entries.filter fun item => !isTemporaryDcId item.1).flatMap Prod.snd

def serializeEndpoint (endpoint : Endpoint) : Bytes :=
  writeInt32 endpoint.id ++ writeInt32 endpoint.flags.toInt32 ++ writeInt32 endpoint.port ++
    writeSize endpoint.ip.length ++ endpoint.ip ++
    writeSize endpoint.secret.length ++ endpoint.secret

def serializeKey (key : DcId × UInt64 × Key) : Bytes :=
  writeInt32 key.1 ++ writeBytes (rsa.getN key.2.2) ++ writeBytes (rsa.getE key.2.2)

/-- What is written of the options. -/
def serializeKept : Bytes :=
  writeInt32 (-kVersion) ++ writeSize options.writtenEndpoints.length ++
    options.writtenEndpoints.flatMap serializeEndpoint ++
    writeSize (keysOf options.cdnPublicKeys).length ++
    (keysOf options.cdnPublicKeys).flatMap (serializeKey rsa)

/-- Options that come from a file are not written to the settings. -/
def serialize : Bytes :=
  if options.immutable then (construct options.environment : DcOptions Key).serializeKept rsa
  else options.serializeKept rsa

def kMaxIpSize : Int32 := 45

def kMaxSecretSize : Int32 := 32

/-- The first versions had no secrets. -/
def readSecret (version : Int) (stream : DataStream) : Option (Bytes × DataStream) :=
  if 0 < version then
    let secretSize := stream.readInt32.1
    let stream := stream.readInt32.2
    if secretSize < 0 || kMaxSecretSize < secretSize then none
    else if 0 < secretSize then some (stream.readRawData secretSize.toUInt32.toNat)
    else some ([], stream)
  else some ([], stream)

/-- One address; old versions know no secret. -/
def readEndpoint (version : Int) (stream : DataStream) : Option (Endpoint × DataStream) :=
  let (id, stream) := stream.readInt32
  let (flags, stream) := stream.readInt32
  let (port, stream) := stream.readInt32
  let (ipSize, stream) := stream.readInt32
  if ipSize ≤ 0 || kMaxIpSize < ipSize then none
  else
    let (ip, stream) := stream.readRawData ipSize.toUInt32.toNat
    match readSecret version stream with
    | none => none
    | some (secret, stream) =>
      if stream.ok then some ({ id, flags := flags.toUInt32, ip, port, secret }, stream)
      else none

/-- The loop over the endpoints: the data as far as they were applied, and the
stream if all of them were good. -/
def readEndpoints (version : Int) : Nat → DataStream → Data → Data × Option DataStream
  | 0, stream, data => (data, some stream)
  | count + 1, stream, data =>
    match readEndpoint version stream with
    | none => (data, none)
    | some (endpoint, stream) =>
      readEndpoints version count stream (applyOneOption data endpoint).1

/-- The loop over the keys, and whether all of them were good. -/
def readKeys : Nat → DataStream → CdnPublicKeys Key → CdnPublicKeys Key × Bool
  | 0, _, keys => (keys, true)
  | count + 1, stream, keys =>
    let (dcId, stream) := stream.readInt32
    let (n, stream) := stream.readBytes
    let (e, stream) := stream.readBytes
    if !stream.ok then (keys, false)
    else
      let key := rsa.ofNumbers n e
      if rsa.valid key then
        readKeys count stream (emplaceKey keys dcId (rsa.fingerprint key) key)
      else (keys, false)

def constructFromSerialized (serialized : Bytes) : DcOptions Key × Bool :=
  let (minusVersion, stream) := DataStream.readInt32 ⟨serialized, true⟩
  let version : Int := if minusVersion < 0 then -minusVersion.toInt else 0
  let (count, stream) := if 0 < version then stream.readInt32 else (minusVersion, stream)
  if !stream.ok then (options, false)
  else
    match readEndpoints version count.toUInt32.toNat stream ∅ with
    | (data, none) => ({ options with data }, false)
    | (data, some stream) =>
      if !stream.atEnd && 1 < version then
        let (count, stream) := stream.readInt32
        if !stream.ok then ({ options with data }, false)
        else
          let (cdnPublicKeys, read) :=
            readKeys rsa count.toUInt32.toNat stream options.cdnPublicKeys
          ({ options with data, cdnPublicKeys }, read)
      else ({ options with data }, true)

end DcOptions

end TelegramDesktop
