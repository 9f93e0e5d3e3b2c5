import TelegramDesktop.ByteStrings

/-!
# The server hello of a TLS socket

The part of `mtproto/details/mtproto_tls_socket.cpp` that reads the answer to the client
hello.  Bytes come in chunks, each of which is read from the socket in one piece, and
the check goes on as soon as the next part of the hello is there.  The length of that
part is an `int16`, and an operation on a span that goes out of its bounds ends the
program, which is `none` here.
-/

namespace TelegramDesktop.Tls

def kHelloDigestLength : Nat := 32
def kLengthSize : Nat := 2
def kServerHelloPart1 : Bytes := [0x16, 0x03, 0x03]
def kServerHelloPart3 : Bytes := [0x14, 0x03, 0x03, 0x00, 0x01, 0x01, 0x17, 0x03, 0x03]
def kServerHelloDigestPosition : Nat := 11

/-- The conversion to an `int16` -/
def toInt16 (value : Int) : Int := value.bmod (2 ^ 16)

/-- `subspan`, where the count of minus one stands for all the rest. -/
def subspan (data : Bytes) (offset : Nat) (count : Int) : Option Bytes :=
  if data.length < offset then none
  else if count = -1 then some (data.drop offset)
  else if count < 0 ∨ data.length < offset + count.toNat then none
  else some (segment data offset (offset + count.toNat))

/-- Do the data begin like this? -/
def checkPart (data check : Bytes) : Bool :=
  if data.length < check.length then false else data.take check.length == check

/-- The big-endian length at an offset. -/
def readPartLength (data : Bytes) (offset : Nat) : Option Nat :=
  (subspan data offset kLengthSize).map ofBigEndian

/-- The states of a socket. -/
inductive State
  | notConnected
  | connecting
  | waitingHello
  | connected
  | error
  deriving DecidableEq, Repr

/-- A socket, with the bytes that have come and how far they are read. -/
structure TlsSocket where
  secret : Bytes
  state : State
  incoming : Bytes
  incomingGoodDataOffset : Nat
  incomingGoodDataLimit : Nat
  /-- An `int16` -/
  serverHelloLength : Int
  /-- What has come and has not been read from the socket yet -/
  unread : Bytes
  deriving DecidableEq, Repr

namespace TlsSocket

/-- The state in which the client hello with this digest has been sent. -/
def helloSent (secret digest : Bytes) : TlsSocket where
  secret
  state := .waitingHello
  incoming := digest
  incomingGoodDataOffset := 0
  incomingGoodDataLimit := 0
  serverHelloLength := 0
  unread := []

def keyFromSecret (socket : TlsSocket) : Option Bytes := subspan socket.secret 1 16

def handleError (socket : TlsSocket) : TlsSocket := { socket with state := .error }

def requiredHelloPartReady (socket : TlsSocket) : Bool :=
  decide ((kHelloDigestLength : Int) + socket.serverHelloLength ≤ socket.incoming.length)

/-- Bytes that are used up are dropped. -/
def shiftIncomingBy (socket : TlsSocket) (amount : Nat) : Option TlsSocket :=
  if socket.incomingGoodDataOffset ≠ 0 ∨ socket.incomingGoodDataLimit ≠ 0 then none
  else
    some (if amount < socket.incoming.length then
        { socket with incoming := socket.incoming.drop amount }
      else { socket with incoming := [] })

def overwrite (data : Bytes) (offset : Nat) (part : Bytes) : Bytes :=
  data.take offset ++ part ++ data.drop (offset + part.length)

section Hello

variable (hmacSha256 : Bytes → Bytes → Bytes)

/-- The digest of the hello is compared. -/
def checkHelloDigest (socket : TlsSocket) : Option TlsSocket := do
  let fulldata ← subspan socket.incoming 0 (kHelloDigestLength + socket.serverHelloLength)
  let digest ← subspan fulldata (kHelloDigestLength + kServerHelloDigestPosition) kHelloDigestLength
  let position := kHelloDigestLength + kServerHelloDigestPosition
  let zeros := List.replicate kHelloDigestLength 0
  -- the span is a view, so the bytes that came in are changed as well
  let socket := { socket with incoming := overwrite socket.incoming position zeros }
  let key ← socket.keyFromSecret
  if digest ≠ hmacSha256 key (overwrite fulldata position zeros) then
    some socket.handleError
  else
    let socket ← socket.shiftIncomingBy fulldata.length
    some { socket with
      incomingGoodDataOffset := 0
      incomingGoodDataLimit := 0
      state := .connected }

section Parts

-- `readHello`, called again while the next part is waited for
variable (readHello : TlsSocket → Option TlsSocket) (socket : TlsSocket)

def checkHelloParts34 (parts123Size : Nat) : Option TlsSocket := do
  let data ← subspan socket.incoming kHelloDigestLength parts123Size
  let part4Size ← readPartLength data (parts123Size - kLengthSize)
  let full := parts123Size + part4Size
  if socket.serverHelloLength = parts123Size then
    let part3 ← subspan data (parts123Size - kLengthSize - kServerHelloPart3.length) (-1)
    if !checkPart part3 kServerHelloPart3 then
      some socket.handleError
    else
      let socket := { socket with serverHelloLength := toInt16 full }
      if !socket.requiredHelloPartReady then readHello socket
      else checkHelloDigest hmacSha256 socket
  else checkHelloDigest hmacSha256 socket

def checkHelloParts12 (parts1Size : Nat) : Option TlsSocket := do
  let data ← subspan socket.incoming kHelloDigestLength parts1Size
  let part2Size ← readPartLength data (parts1Size - kLengthSize)
  let parts123Size := parts1Size + part2Size + kServerHelloPart3.length + kLengthSize
  if socket.serverHelloLength = parts1Size then
    let part1 ← subspan data (parts1Size - kLengthSize - kServerHelloPart1.length) (-1)
    if !checkPart part1 kServerHelloPart1 then
      some socket.handleError
    else
      let socket := { socket with serverHelloLength := toInt16 parts123Size }
      if !socket.requiredHelloPartReady then readHello socket
      else checkHelloParts34 hmacSha256 readHello socket parts123Size
  else checkHelloParts34 hmacSha256 readHello socket parts123Size

end Parts

/-- Reading takes all there is, so the loop ends after one round. -/
def readHello : Nat → TlsSocket → Option TlsSocket
  | 0, _ => none
  | depth + 1, socket =>
    let parts1Size := kServerHelloPart1.length + kLengthSize
    let socket :=
      if socket.serverHelloLength = 0 then { socket with serverHelloLength := (parts1Size : Int) }
      else socket
    let socket :=
      if socket.requiredHelloPartReady then socket
      else { socket with incoming := socket.incoming ++ socket.unread, unread := [] }
    if socket.requiredHelloPartReady then
      checkHelloParts12 hmacSha256 (readHello depth) socket parts1Size
    else some socket

/-- A chunk has come; this is `plainReadyRead` while the hello is waited for. -/
def plainReadyRead (depth : Nat) (socket : TlsSocket) (chunk : Bytes) : Option TlsSocket :=
  readHello hmacSha256 depth { socket with unread := socket.unread ++ chunk }

/-- The chunks are delivered until the hello is decided, and the rest of them is left. -/
def receive (depth : Nat) : TlsSocket → List Bytes → Option (TlsSocket × List Bytes)
  | socket, [] => some (socket, [])
  | socket, chunk :: chunks =>
    if socket.state = .waitingHello then
      (plainReadyRead hmacSha256 depth socket chunk).bind fun socket => receive depth socket chunks
    else some (socket, chunk :: chunks)

end Hello

end TlsSocket

/-- What the bytes after the client hello amount to. -/
inductive Verdict
  | waiting
  | error
  | connected (following : Bytes)
  deriving DecidableEq, Repr

/-- The size of the first three parts and of the length after them -/
def parts123Size (sent : Bytes) : Nat := 16 + ofBigEndian (segment sent 3 5)

/-- The size of the whole hello. -/
def fullSize (sent : Bytes) : Nat :=
  parts123Size sent + ofBigEndian (segment sent (parts123Size sent - 2) (parts123Size sent))

/-- What was sent starts as a hello of the server. -/
def HasPart1 (sent : Bytes) : Prop := sent.take 3 = kServerHelloPart1

/-- The third part of the hello is there. -/
def HasPart3 (sent : Bytes) : Prop :=
  segment sent (parts123Size sent - 11) (parts123Size sent - 2) = kServerHelloPart3

instance (sent : Bytes) : Decidable (HasPart1 sent) := inferInstanceAs (Decidable (_ = _))
instance (sent : Bytes) : Decidable (HasPart3 sent) := inferInstanceAs (Decidable (_ = _))

/-- The digest field is what the key makes of the client digest and the rest. -/
def HasDigest (hmacSha256 : Bytes → Bytes → Bytes) (key digest hello : Bytes) : Prop :=
  43 ≤ hello.length ∧
    segment hello 11 43 =
      hmacSha256 key (digest ++ hello.take 11 ++ List.replicate 32 0 ++ hello.drop 43)

instance (hmacSha256 : Bytes → Bytes → Bytes) (key digest hello : Bytes) :
    Decidable (HasDigest hmacSha256 key digest hello) := inferInstanceAs (Decidable (_ ∧ _))

/-- What is to be said of the bytes sent so far. -/
def verdict (hmacSha256 : Bytes → Bytes → Bytes) (key digest sent : Bytes) : Verdict :=
  if sent.length < 5 then .waiting
  else if ¬HasPart1 sent then .error
  else if sent.length < parts123Size sent then .waiting
  else if ¬HasPart3 sent then .error
  else if sent.length < fullSize sent then .waiting
  else if HasDigest hmacSha256 key digest (sent.take (fullSize sent)) then
    .connected (sent.drop (fullSize sent))
  else .error

end TelegramDesktop.Tls
