import TelegramDesktop.DhUtils

/-!
# Creating an authorization key

The exchange of `mtproto/details/mtproto_dc_key_creator.cpp`. Hashes, ciphers and
readers of the generated scheme are parameters, and all that is random comes with the
answer that is handled.
-/

namespace TelegramDesktop.KeyExchange

abbrev Nonce := BitVec 128

abbrev NewNonce := BitVec 256

/-- The bytes of a value in memory. -/
def memoryOf {width : Nat} (value : BitVec width) : Bytes := littleEndian (width / 8) value.toNat

/-- The value of bytes in memory. -/
def ofMemory (width : Nat) (bytes : Bytes) : BitVec width :=
  BitVec.ofNat width (ofLittleEndian bytes)

/-- The first answer of the server: its nonce, the number to factor and its keys. -/
structure ResPQ where
  nonce : Nonce
  serverNonce : Nonce
  pq : Bytes
  serverPublicKeyFingerprints : List UInt64

/-- The second answer of the server. -/
inductive ServerDHParams
  | ok (nonce serverNonce : Nonce) (encryptedAnswer : Bytes)
  | fail (nonce serverNonce newNonceHash : Nonce)

/-- What the encrypted part of the second answer holds. -/
structure ServerDHInnerData where
  nonce : Nonce
  serverNonce : Nonce
  g : Int32
  dhPrime : Bytes
  gA : Bytes

/-- How the server ends the exchange. -/
inductive DHGen
  | ok
  | retry
  | fail
  deriving DecidableEq

/-- `dh_gen_ok`, `dh_gen_retry` and `dh_gen_fail` have the same fields. -/
structure SetClientDHParamsAnswer where
  kind : DHGen
  nonce : Nonce
  serverNonce : Nonce
  newNonceHash : Nonce

/-- An answer as the first reader that accepts it reads it.  An answer that is empty or
that no reader accepts is unknown. -/
inductive Answer
  | reqPQ (data : ResPQ)
  | reqDHParams (data : ServerDHParams)
  | setClientDHParams (data : SetClientDHParamsAnswer)
  | unknown

/-- What the client encrypts with the public key of the server. -/
structure PQInnerData where
  pq : Bytes
  p : Bytes
  q : Bytes
  nonce : Nonce
  serverNonce : Nonce
  newNonce : NewNonce
  expiresIn : Int32

/-- What the client sends encrypted in its last request. -/
structure ClientDHInnerData where
  nonce : Nonce
  serverNonce : Nonce
  retryId : BitVec 64
  gB : Bytes

/-- The requests of the exchange. -/
inductive Request
  | reqPQMulti (nonce : Nonce)
  | reqDHParams (nonce serverNonce : Nonce) (p q : Bytes) (fingerprint : UInt64)
      (encryptedData : Bytes)
  | setClientDHParams (nonce serverNonce : Nonce) (encryptedData : Bytes)

/-- The encryption, the hashes and the reader of the inner data that the creator calls. -/
structure Primitives extends BigNumbers where
  RSAKey : Type
  sha1 : Bytes → Bytes
  aesIgeDecrypt : Bytes → Bytes → Bytes → Bytes
  /-- The data and how many bytes of it were read. -/
  readServerDHInnerData : Bytes → Option (ServerDHInnerData × Nat)
  getDcRSAKey : List UInt64 → Option RSAKey
  fingerprint : RSAKey → UInt64
  factorizePQ : Bytes → Bytes × Bytes
  encryptPQInnerRSA : PQInnerData → RSAKey → Nat → Bytes
  encryptClientDHInner : ClientDHInnerData → Bytes → Bytes → Nat → Bytes

/-- An answer, and what is random while it is handled: the nonces, the powers that are
tried and the seed of the encryption. -/
structure Event where
  answer : Answer
  nonce : Nonce
  newNonce : NewNonce
  powers : List Bytes
  seed : Nat

/-- How far one attempt has come. -/
inductive Stage
  | None
  | WaitingPQ
  | WaitingDH
  | WaitingDone
  | Ready
  deriving DecidableEq

/-- One attempt at a key, with all that was agreed on so far. -/
structure Attempt where
  nonce : Nonce := 0
  serverNonce : Nonce := 0
  newNonce : NewNonce := 0
  authKeyAuxHash : BitVec 64 := 0
  retryId : BitVec 64 := 0
  g : Int32 := 0
  aesKey : Bytes := List.replicate 32 0
  aesIV : Bytes := List.replicate 32 0
  authKeyHash : BitVec 64 := 0
  doneSalt : BitVec 64 := 0
  dhPrime : Bytes := []
  gA : Bytes := []
  authKey : Bytes := List.replicate 256 0
  expiresIn : Int32 := 0
  retries : Nat := 0
  stage : Stage := .None

/-- Why the creation of a key fails. -/
inductive DcKeyError
  | UnknownPublicKey
  | Other
  deriving DecidableEq

/-- What comes of an answer that is given to an attempt.  A new power is still looked
for when the attempt is computing. -/
inductive Outcome
  | sends (attempt : Attempt) (request : Request)
  | ready (attempt : Attempt)
  | failed (error : DcKeyError)
  | computing

/-- `AuthKey::FillData` -/
def fillData (computedAuthKey : Bytes) : Bytes :=
  List.replicate (256 - computedAuthKey.length) 0 ++ computedAuthKey

namespace Attempt

variable (primitives : Primitives) (event : Event) (attempt : Attempt)

/-- The lower 128 bits of a hash. -/
def nonceDigest (data : Bytes) : Nonce := ofMemory 128 (((primitives.sha1 data).drop 4).take 16)

/-- `new_nonce_buf` with its check byte. -/
def newNonceBuf (check : UInt8) : Bytes :=
  memoryOf attempt.newNonce ++ [check] ++ memoryOf attempt.authKeyAuxHash

/-- An attempt begins with a nonce. -/
def pqSend (expiresIn : Int32) (nonce : Nonce) : Attempt :=
  { attempt with stage := .WaitingPQ, expiresIn := expiresIn, nonce := nonce }

def pqAnswered (data : ResPQ) : Outcome :=
  if attempt.stage ≠ .WaitingPQ then .failed .Other
  else
    match primitives.getDcRSAKey data.serverPublicKeyFingerprints with
    | none => .failed .UnknownPublicKey
    | some rsaKey =>
      let parsed := primitives.factorizePQ data.pq
      if parsed.1 = [] ∨ parsed.2 = [] then .failed .Other
      else
        let inner : PQInnerData := {
          pq := data.pq
          p := parsed.1
          q := parsed.2
          nonce := attempt.nonce
          serverNonce := data.serverNonce
          newNonce := event.newNonce
          expiresIn := attempt.expiresIn }
        let dhEncString := primitives.encryptPQInnerRSA inner rsaKey event.seed
        if dhEncString = [] then .failed .Other
        else
          .sends
            { attempt with
              serverNonce := data.serverNonce
              newNonce := event.newNonce
              stage := .WaitingDH }
            (.reqDHParams attempt.nonce data.serverNonce parsed.1 parsed.2
              (primitives.fingerprint rsaKey) dhEncString)

/-- The power of the client is sent, unless it was tried too often. -/
def dhClientParamsSend : Outcome :=
  let retries := attempt.retries + 1
  if retries > 5 then .failed .Other
  else
    match DhUtils.createModExp primitives.toBigNumbers attempt.g attempt.dhPrime event.powers with
    | none => .computing
    | some gB =>
      if gB.modexp = [] then .failed .Other
      else
        let computedAuthKey := DhUtils.createAuthKey primitives.toBigNumbers attempt.gA
          gB.randomPower attempt.dhPrime
        if computedAuthKey = [] then .failed .Other
        else
          let authKey := fillData computedAuthKey
          let authKeySha := primitives.sha1 authKey
          let inner : ClientDHInnerData :=
            ⟨attempt.nonce, attempt.serverNonce, attempt.retryId, gB.modexp⟩
          let sdhEncString := primitives.encryptClientDHInner inner attempt.aesKey
            attempt.aesIV event.seed
          .sends
            { attempt with
              retries := retries
              authKey := authKey
              authKeyAuxHash := ofMemory 64 (authKeySha.take 8)
              authKeyHash := ofMemory 64 ((authKeySha.drop 12).take 8)
              stage := .WaitingDone }
            (.setClientDHParams attempt.nonce attempt.serverNonce sdhEncString)

/-- The key and the vector that the second answer is encrypted with. -/
def answerCipher (newNonce : NewNonce) (serverNonce : Nonce) : Bytes × Bytes :=
  let ns := primitives.sha1 (memoryOf newNonce ++ memoryOf serverNonce)
  let sn := primitives.sha1 (memoryOf serverNonce ++ memoryOf newNonce)
  let nn := primitives.sha1 (memoryOf newNonce ++ memoryOf newNonce)
  (ns.take 20 ++ sn.take 12,
    (sn.drop 12).take 8 ++ nn.take 20 ++ (memoryOf newNonce).take 4)

/-- The inner data of an encrypted answer, if the answer is well formed. -/
def decryptInner (newNonce : NewNonce) (serverNonce : Nonce) (encDHStr : Bytes) :
    Option ServerDHInnerData :=
  if encDHStr.length % 4 ≠ 0 ∨ encDHStr.length / 4 < 6 then none
  else
    let (aesKey, aesIV) := answerCipher primitives newNonce serverNonce
    let decBuffer := primitives.aesIgeDecrypt encDHStr aesKey aesIV
    match primitives.readServerDHInnerData (decBuffer.drop 20) with
    | none => none
    | some (inner, size) =>
      if primitives.sha1 ((decBuffer.drop 20).take size) ≠ decBuffer.take 20 then none
      else some inner

def dhParamsOk (serverNonce : Nonce) (encryptedAnswer : Bytes) : Outcome :=
  if serverNonce ≠ attempt.serverNonce then .failed .Other
  else
    match decryptInner primitives attempt.newNonce attempt.serverNonce encryptedAnswer with
    | none => .failed .Other
    | some inner =>
      if inner.nonce ≠ attempt.nonce then .failed .Other
      else if inner.serverNonce ≠ attempt.serverNonce then .failed .Other
      else if !DhUtils.isPrimeAndGood primitives.toBigNumbers inner.dhPrime inner.g then
        .failed .Other
      else
        let (aesKey, aesIV) := answerCipher primitives attempt.newNonce attempt.serverNonce
        dhClientParamsSend primitives event { attempt with
          aesKey := aesKey
          aesIV := aesIV
          dhPrime := inner.dhPrime
          g := inner.g
          gA := inner.gA
          retryId := 0
          retries := 0 }

def dhParamsAnswered (data : ServerDHParams) : Outcome :=
  if attempt.stage ≠ .WaitingDH then .failed .Other
  else
    match data with
    | .ok _ serverNonce encryptedAnswer =>
      dhParamsOk primitives event attempt serverNonce encryptedAnswer
    | .fail _ _ _ => .failed .Other

/-- The byte that the hash of an ending is made with. -/
def checkByte : DHGen → UInt8
  | .ok => 1
  | .retry => 2
  | .fail => 3

def dhClientParamsAnswered (data : SetClientDHParamsAnswer) : Outcome :=
  if attempt.stage ≠ .WaitingDone then .failed .Other
  else if data.nonce ≠ attempt.nonce then .failed .Other
  else if data.serverNonce ≠ attempt.serverNonce then .failed .Other
  else if data.newNonceHash ≠ nonceDigest primitives (attempt.newNonceBuf (checkByte data.kind))
    then .failed .Other
  else
    match data.kind with
    | .ok =>
      .ready { attempt with
        doneSalt := attempt.newNonce.setWidth 64 ^^^ attempt.serverNonce.setWidth 64
        stage := .Ready }
    | .retry =>
      dhClientParamsSend primitives event { attempt with retryId := attempt.authKeyAuxHash }
    | .fail => .failed .Other

end Attempt

/-- Which keys are wanted. -/
structure DcKeyRequest where
  temporaryExpiresIn : Int32
  persistentNeeded : Bool

/-- The keys that were created, with their salts. -/
structure DcKeyResult where
  temporaryKey : Bytes
  temporaryServerSalt : BitVec 64
  persistentKey : Option Bytes := none
  persistentServerSalt : BitVec 64 := 0

/-- A call of the delegate. -/
inductive Report
  | failed (error : DcKeyError)
  | done (result : DcKeyResult)

/-- Creates a temporary key and, where it is wanted, a persistent one. -/
structure DcKeyCreator where
  request : DcKeyRequest
  temporary : Attempt := {}
  persistent : Attempt := {}
  sent : List Request := []
  receiving : Bool := true
  reports : List Report := []

/-- Which of the two attempts an answer is for. -/
inductive Which
  | temporary
  | persistent
  deriving DecidableEq

namespace DcKeyCreator

variable (primitives : Primitives) (creator : DcKeyCreator)

def attempt : Which → Attempt
  | .temporary => creator.temporary
  | .persistent => creator.persistent

def setAttempt (attempt : Attempt) : Which → DcKeyCreator
  | .temporary => { creator with temporary := attempt }
  | .persistent => { creator with persistent := attempt }

def pqSend (which : Which) (expiresIn : Int32) (nonce : Nonce) : DcKeyCreator :=
  { creator.setAttempt ((creator.attempt which).pqSend expiresIn nonce) which with
    sent := creator.sent ++ [.reqPQMulti nonce] }

/-- A creator starts with the attempt that is needed first. -/
def start (request : DcKeyRequest) (nonce : Nonce) : DcKeyCreator :=
  let creator : DcKeyCreator := { request := request }
  if request.persistentNeeded then creator.pqSend .persistent 0 nonce
  else creator.pqSend .temporary request.temporaryExpiresIn nonce

/-- The attempt that an answer is for. -/
def attemptByNonce (nonce : Nonce) : Option Which :=
  if creator.temporary.nonce = nonce then some .temporary
  else if creator.persistent.nonce = nonce then some .persistent
  else none

def failed (error : DcKeyError) : DcKeyCreator :=
  { creator with receiving := false, reports := creator.reports ++ [.failed error] }

/-- What is reported when the keys are there. -/
def result : DcKeyResult :=
  let result : DcKeyResult := {
    temporaryKey := creator.temporary.authKey
    temporaryServerSalt := creator.temporary.doneSalt }
  if creator.persistent.stage = .Ready then
    { result with
      persistentKey := some creator.persistent.authKey
      persistentServerSalt := creator.persistent.doneSalt }
  else result

/-- The persistent key is created first, and the temporary one after it. -/
def done (nonce : Nonce) : DcKeyCreator :=
  if creator.temporary.stage = .None then
    creator.pqSend .temporary creator.request.temporaryExpiresIn nonce
  else
    { creator with receiving := false, reports := creator.reports ++ [.done creator.result] }

/-- What an attempt leads to in the creator. -/
def follow (event : Event) (which : Which) : Outcome → Option DcKeyCreator
  | .sends attempt request =>
    some { creator.setAttempt attempt which with sent := creator.sent ++ [request] }
  | .ready attempt => some ((creator.setAttempt attempt which).done event.nonce)
  | .failed error => some (creator.failed error)
  | .computing => none

def ServerDHParams.nonce : ServerDHParams → Nonce
  | .ok nonce _ _ => nonce
  | .fail nonce _ _ => nonce

/-- The attempt handles the answer. -/
def answered (event : Event) (attempt : Attempt) : Outcome :=
  match event.answer with
  | .reqPQ data => attempt.pqAnswered primitives event data
  | .reqDHParams data => attempt.dhParamsAnswered primitives event data
  | .setClientDHParams data => attempt.dhClientParamsAnswered primitives event data
  | .unknown => .failed .Other

def nonceOf : Answer → Option Nonce
  | .reqPQ data => some data.nonce
  | .reqDHParams data => some (ServerDHParams.nonce data)
  | .setClientDHParams data => some data.nonce
  | .unknown => none

/-- An answer without an attempt is left alone. -/
def handleAnswer (event : Event) : Option DcKeyCreator :=
  match (nonceOf event.answer).bind creator.attemptByNonce with
  | some which => creator.follow event which (answered primitives event (creator.attempt which))
  | none => some (creator.failed .Other)

/-- An answer is not handled when nothing is received any more. -/
def step (event : Event) : Option DcKeyCreator :=
  if creator.receiving then creator.handleAnswer primitives event else some creator

def run : DcKeyCreator → List Event → Option DcKeyCreator
  | creator, [] => some creator
  | creator, event :: events => (creator.step primitives event).bind fun next => next.run events

end DcKeyCreator

end TelegramDesktop.KeyExchange
