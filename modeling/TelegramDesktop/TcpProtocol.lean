import TelegramDesktop.TlsSocket

/-!
# Framing of packets over TCP

The versions of `TcpConnection::Protocol` in `mtproto/connection_tcp.cpp`.  A buffer to
send has two integers in front of its payload, where the length is written; what is read
starts with a length as well.  A failed expectation and a span out of its bounds end the
program, which is `none` here.
-/

namespace TelegramDesktop.Tcp

open List UInt8

open Tls (subspan)

/-- The size of `mtpPrime` -/
def primeSize : Nat := 4

def kPacketSizeMax : Nat := 0x01000000 * primeSize

def kUnknownSize : Int := -1
def kInvalidSize : Int := -2

abbrev MtpBuffer := List Int32

/-- The bytes of a packet. -/
def bytesOf (ints : MtpBuffer) : Bytes :=
  ints.flatMap fun prime => littleEndian primeSize prime.toUInt32.toNat

/-- The protocols, with the secret that their keys are made from -/
inductive Protocol
  | version0
  | version1 (secret : Bytes)
  | versionD (secret : Bytes)
  deriving DecidableEq

/-- The protocol of a secret; for other secrets the program ends. -/
def Protocol.create (secret : Bytes) : Option Protocol := do
  if 21 ≤ secret.length ∧ secret.head? = some 0xEE ∨
      secret.length = 17 ∧ secret.head? = some 0xDD then
    return .versionD (← subspan secret 1 16)
  else if secret.length = 16 then return .version1 secret
  else if secret.isEmpty then return .version0
  else none

/-- The random numbers of a frame. -/
structure Draws where
  padding : UInt32
  fill : Nat → Int32

def Draws.paddingSize (draws : Draws) : Nat := (draws.padding &&& 0x0F).toNat

namespace Protocol

def finalizePacket0 (buffer : MtpBuffer) : Option Bytes :=
  if 2 < buffer.length ∧ buffer.length < 0x1000003 then
    let intsSize := buffer.length - 2
    let bytesSize := intsSize * primeSize
    let data := bytesOf buffer
    let (data, added) :=
      if intsSize < 0x7F then (data.set 7 (UInt8.ofNat intsSize), 1)
      else
        ((((data.set 4 0x7F).set 5 (UInt8.ofNat (intsSize &&& 0xFF))).set 6
          (UInt8.ofNat ((intsSize >>> 8) &&& 0xFF))).set 7
          (UInt8.ofNat ((intsSize >>> 16) &&& 0xFF)), 4)
    subspan data (8 - added) (added + bytesSize : Nat)
  else none

def readPacketLength0 (bytes : Bytes) : Int :=
  match bytes with
  | [] => kUnknownSize
  | byte :: _ =>
    let first := byte.toInt8
    if first = 0x7F then
      match bytes with
      | _ :: low :: middle :: high :: _ =>
        let ints := low.toNat ||| middle.toNat <<< 8 ||| high.toNat <<< 16
        if 0x7F ≤ ints then (ints <<< 2 : Nat) + 4 else kInvalidSize
      | _ => kUnknownSize
    else if 0 < first ∧ first < 0x7F then
      let ints := byte.toNat
      (ints <<< 2 : Nat) + 1
    else kInvalidSize

def readPacket0 (bytes : Bytes) : Option Bytes :=
  let size := readPacketLength0 bytes
  if size ≠ kUnknownSize ∧ size ≠ kInvalidSize ∧ size ≤ bytes.length then
    let sizeLength := if bytes.head? = some 0x7F then 4 else 1
    subspan bytes sizeLength (size - sizeLength)
  else none

def finalizePacketD (draws : Draws) (buffer : MtpBuffer) : Option Bytes :=
  if 2 < buffer.length ∧ buffer.length < 0x1000003 then
    let intsSize := buffer.length - 2
    let padding := draws.paddingSize
    let bytesSize := intsSize * primeSize + padding
    let buffer := buffer.set 1 (Int32.ofNat bytesSize)
    let buffer := buffer ++ (List.range ((padding + 3) / 4)).map draws.fill
    subspan (bytesOf buffer) 4 (4 + bytesSize : Nat)
  else none

def readPacketLengthD (bytes : Bytes) : Int :=
  if bytes.length < 4 then kUnknownSize
  else
    let value := (ofLittleEndian (bytes.take 4) + 4) % 2 ^ 32
    if 8 ≤ value ∧ value < kPacketSizeMax then value else kInvalidSize

def readPacketD (bytes : Bytes) : Option Bytes :=
  let size := readPacketLengthD bytes
  if size ≠ kUnknownSize ∧ size ≠ kInvalidSize ∧ size ≤ bytes.length then
    subspan bytes 4 (size - 4)
  else none

/-- The packet with its length, as the version sends it. -/
def finalizePacket (draws : Draws) : Protocol → MtpBuffer → Option Bytes
  | version0 | version1 _ => finalizePacket0
  | versionD _ => finalizePacketD draws

/-- The length of the first packet, if it is there. -/
def readPacketLength : Protocol → Bytes → Int
  | version0 | version1 _ => readPacketLength0
  | versionD _ => readPacketLengthD

/-- The payload of a packet. -/
def readPacket : Protocol → Bytes → Option Bytes
  | version0 | version1 _ => readPacket0
  | versionD _ => readPacketD

/-- The length that is read from the packet of a buffer is that of the packet, and its
content is the payload of the buffer, with a padding in version D only. -/
structure Frames (protocol : Protocol) (draws : Draws) (buffer : MtpBuffer) (packet : Bytes) :
    Prop where
  finalized : protocol.finalizePacket draws buffer = some packet
  length : protocol.readPacketLength packet = packet.length
  content : ∃ padding, protocol.readPacket packet =
    some (bytesOf (buffer.drop 2) ++ padding) ∧ padding.length ≤ 15 ∧
      (padding = [] ∨ ∃ secret, protocol = versionD secret)

/-- The frame is short enough for the protocol. -/
def Fits (size padding : Nat) : Protocol → Prop
  | version0 | version1 _ => size ≤ 0x1000001
  | versionD _ => (size - 2) * primeSize + padding + 4 < kPacketSizeMax

@[simp] theorem length_bytesOf (ints : MtpBuffer) :
    (bytesOf ints).length = ints.length * primeSize := by
  induction ints with
  | nil => rfl
  | cons first rest ih =>
    have head : (bytesOf (first :: rest)).length = primeSize + (bytesOf rest).length := by
      rw [bytesOf, flatMap_cons, length_append, length_littleEndian]
      rfl
    rw [head, ih, length_cons, Nat.succ_mul, Nat.add_comm]

theorem bytesOf_append (first second : MtpBuffer) :
    bytesOf (first ++ second) = bytesOf first ++ bytesOf second := flatMap_append ..

theorem bytesOf_cons (first : Int32) (rest : MtpBuffer) :
    bytesOf (first :: rest) = littleEndian 4 first.toUInt32.toNat ++ bytesOf rest :=
  flatMap_cons ..

/-- The length in one byte, or in four. -/
def header0 (intsSize : Nat) : Bytes :=
  if intsSize < 0x7F then [UInt8.ofNat intsSize]
  else 0x7F :: littleEndian 3 intsSize

theorem ofNat_and_0xFF (value : Nat) : UInt8.ofNat (value &&& 0xFF) = UInt8.ofNat value := by
  apply UInt8.toNat_inj.mp
  have mask : value &&& 0xFF = value % 2 ^ 8 := Nat.and_two_pow_sub_one_eq_mod value 8
  rw [mask, UInt8.toNat_ofNat', UInt8.toNat_ofNat', Nat.mod_mod]

theorem subspan_between {before part : Bytes} {offset count : Nat} (after : Bytes)
    (start : before.length = offset) (size : part.length = count) :
    subspan (before ++ (part ++ after)) offset count = some part := by
  unfold subspan
  rw [length_append, length_append, start, size, if_neg (by omega),
    if_neg (by omega), if_neg (by omega), segment, Int.toNat_natCast,
    Nat.add_sub_cancel_left, ← start, drop_left, ← size, take_left]

theorem subspan_append {before part : Bytes} {offset count : Nat}
    (start : before.length = offset) (size : part.length = count) :
    subspan (before ++ part) offset count = some part := by
  have whole := subspan_between [] start size
  rwa [append_nil] at whole

theorem finalizePacket0_eq {first second : Int32} {payload : MtpBuffer}
    (some : 0 < payload.length) (few : payload.length < 0x1000001) :
    finalizePacket0 (first :: second :: payload) =
      Option.some (header0 payload.length ++ bytesOf payload) := by
  have memory : bytesOf (first :: second :: payload) =
      littleEndian 4 first.toUInt32.toNat ++ (littleEndian 4 second.toUInt32.toNat ++
        bytesOf payload) := by
    rw [bytesOf_cons, bytesOf_cons]
  unfold finalizePacket0 header0
  rw [if_pos (by simp only [length_cons]; omega), memory]
  dsimp only
  have size : (first :: second :: payload).length - 2 = payload.length := rfl
  rw [size]
  by_cases short : payload.length < 0x7F
  · rw [if_pos short, if_pos short]
    obtain ⟨head, headLength, split⟩ : ∃ head : Bytes, head.length = 7 ∧
        (littleEndian 4 first.toUInt32.toNat ++ (littleEndian 4 second.toUInt32.toNat ++
          bytesOf payload)).set 7 (ofNat payload.length) =
        head ++ ([ofNat payload.length] ++ bytesOf payload) :=
      ⟨_ :: _ :: _ :: _ :: _ :: _ :: _ :: [], rfl, rfl⟩
    have length : ([ofNat payload.length] ++ bytesOf payload).length =
        1 + payload.length * primeSize := by
      rw [length_append, length_bytesOf]
      rfl
    rw [split]
    exact subspan_append headLength length
  · rw [if_neg short, if_neg short]
    have packet : 0x7F :: littleEndian 3 payload.length ++ bytesOf payload =
        0x7F :: ofNat (payload.length &&& 0xFF) :: ofNat ((payload.length >>> 8) &&& 0xFF) ::
          ofNat ((payload.length >>> 16) &&& 0xFF) :: bytesOf payload := by
      rw [ofNat_and_0xFF, ofNat_and_0xFF, ofNat_and_0xFF, Nat.shiftRight_eq_div_pow,
        Nat.shiftRight_eq_div_pow]
      have twice : payload.length / 2 ^ 16 = payload.length / 256 / 256 :=
        (Nat.div_div_eq_div_mul payload.length 256 256).symm
      rw [twice]
      rfl
    have length : (0x7F :: littleEndian 3 payload.length ++ bytesOf payload).length =
        4 + payload.length * primeSize := by
      rw [length_append, length_bytesOf, length_cons, length_littleEndian]
    rw [packet] at length ⊢
    have start : (littleEndian 4 first.toUInt32.toNat).length = 8 - 4 := rfl
    exact subspan_append start length

theorem length_header0 (intsSize : Nat) :
    (header0 intsSize).length = if intsSize < 0x7F then 1 else 4 := by
  unfold header0
  split
  · rfl
  · rw [length_cons, length_littleEndian]

theorem threeBytes_eq {value : Nat} (fits : value < 2 ^ 24) :
    (ofNat value).toNat ||| (ofNat (value / 256)).toNat <<< 8 |||
      (ofNat (value / 256 / 256)).toNat <<< 16 = value := by
  simp only [toNat_ofNat']
  have low : value % 2 ^ 8 < 2 ^ 8 := Nat.mod_lt _ (by decide)
  have two : value % 2 ^ 8 + (value / 256 % 2 ^ 8) <<< 8 < 2 ^ 16 := by
    rw [Nat.shiftLeft_eq]
    omega
  rw [Nat.or_comm (value % 2 ^ 8), ← Nat.shiftLeft_add_eq_or_of_lt low, Nat.or_comm,
    Nat.add_comm, ← Nat.shiftLeft_add_eq_or_of_lt two, Nat.shiftLeft_eq, Nat.shiftLeft_eq]
  omega

theorem readPacketLength0_header0 {intsSize : Nat} (content : Bytes) (some : 0 < intsSize)
    (few : intsSize < 0x1000001) :
    readPacketLength0 (header0 intsSize ++ content) =
      if intsSize < 0x1000000 then
        (((header0 intsSize).length + intsSize * primeSize : Nat) : Int)
      else kInvalidSize := by
  rw [length_header0]
  unfold header0
  by_cases short : intsSize < 0x7F
  · have signed : ∀ size < 0x7F, 0 < size → (ofNat size).toInt8 ≠ 0x7F ∧
        0 < (ofNat size).toInt8 ∧ (ofNat size).toInt8 < 0x7F := by
      decide +kernel
    obtain ⟨notLong, positive, below⟩ := signed intsSize short some
    have value : (ofNat intsSize).toNat = intsSize := by
      rw [toNat_ofNat']
      omega
    rw [if_pos short, if_pos short, if_pos (by omega), singleton_append]
    unfold readPacketLength0
    dsimp only
    rw [if_neg notLong, if_pos ⟨positive, below⟩, value, Nat.shiftLeft_eq, primeSize]
    omega
  · rw [if_neg short, if_neg short]
    have long : (0x7F : UInt8).toInt8 = 0x7F := rfl
    unfold readPacketLength0
    simp only [littleEndian, cons_append]
    rw [if_pos long]
    by_cases fits : intsSize < 0x1000000
    · rw [threeBytes_eq fits, if_pos (by omega), if_pos fits, Nat.shiftLeft_eq, primeSize]
      omega
    · have size : intsSize = 0x1000000 := by omega
      rw [size]
      rfl

theorem readPacket0_header0 {intsSize : Nat} {content : Bytes} (some : 0 < intsSize)
    (few : intsSize < 0x1000000) (size : content.length = intsSize * primeSize) :
    readPacket0 (header0 intsSize ++ content) = Option.some content := by
  have length : readPacketLength0 (header0 intsSize ++ content) =
      (((header0 intsSize).length + content.length : Nat) : Int) := by
    rw [readPacketLength0_header0 content some (by omega), if_pos few, size]
  have sizeLength : (if (header0 intsSize ++ content).head? = Option.some 0x7F then 4 else 1) =
      (header0 intsSize).length := by
    have notLong : ∀ size < 0x7F, ofNat size ≠ 0x7F := by decide +kernel
    rw [length_header0]
    unfold header0
    by_cases short : intsSize < 0x7F
    · rw [if_pos short, if_pos short, singleton_append, head?_cons, if_neg]
      exact fun same => notLong intsSize short (Option.some.inj same)
    · rw [if_neg short, if_neg short]
      rfl
  have rest : (((header0 intsSize).length + content.length : Nat) : Int) -
      (header0 intsSize).length = (content.length : Nat) := by omega
  unfold readPacket0
  dsimp only
  rw [length, sizeLength, rest, length_append, if_pos]
  · exact subspan_append rfl rfl
  · unfold kUnknownSize kInvalidSize
    omega

/-- The padding of a packet, cut out of whole random integers. -/
def Draws.paddingBytes (draws : Draws) : Bytes :=
  (bytesOf ((List.range ((draws.paddingSize + 3) / 4)).map draws.fill)).take draws.paddingSize

theorem paddingSize_lt (draws : Draws) : draws.paddingSize < 16 := by
  unfold Draws.paddingSize
  rw [UInt32.toNat_and]
  exact Nat.lt_of_le_of_lt Nat.and_le_right (by decide)

@[simp] theorem length_paddingBytes (draws : Draws) :
    (Draws.paddingBytes draws).length = draws.paddingSize := by
  unfold Draws.paddingBytes
  rw [length_take, length_bytesOf, length_map, length_range, primeSize]
  omega

theorem finalizePacketD_eq (draws : Draws) {first second : Int32} {payload : MtpBuffer}
    (some : 0 < payload.length) (few : payload.length < 0x1000001) :
    finalizePacketD draws (first :: second :: payload) =
      Option.some (littleEndian 4 (payload.length * primeSize + draws.paddingSize) ++
        (bytesOf payload ++ Draws.paddingBytes draws)) := by
  have size : (first :: second :: payload).length - 2 = payload.length := rfl
  have written : ∀ value : Nat, littleEndian 4 (Int32.ofNat value).toUInt32.toNat =
      littleEndian 4 value := littleEndian_mod 4
  unfold finalizePacketD Draws.paddingBytes
  dsimp only
  rw [if_pos (by simp only [length_cons]; omega), size, set_cons_succ,
    set_cons_zero, bytesOf_append, bytesOf_cons, bytesOf_cons, written]
  have length := length_paddingBytes draws
  unfold Draws.paddingBytes at length
  generalize bytesOf ((range ((draws.paddingSize + 3) / 4)).map draws.fill) = fill at *
  have memory (before value content : Bytes) :
      before ++ (value ++ content) ++ fill =
        before ++ (value ++ (content ++ fill.take draws.paddingSize) ++
          fill.drop draws.paddingSize) := by
    simp
  rw [memory]
  refine subspan_between _ (length_littleEndian 4 _) ?_
  rw [length_append, length_append, length_littleEndian, length_bytesOf, length]

theorem readPacketLengthD_eq {size : Nat} (content : Bytes) (small : size + 4 < 2 ^ 32)
    (some : 4 ≤ size) :
    readPacketLengthD (littleEndian 4 size ++ content) =
      if size + 4 < kPacketSizeMax then ((size + 4 : Nat) : Int) else kInvalidSize := by
  have enough : ¬ (littleEndian 4 size ++ content).length < 4 := by
    rw [length_append, length_littleEndian]
    omega
  have first : (littleEndian 4 size ++ content).take 4 = littleEndian 4 size :=
    take_left' (length_littleEndian 4 size)
  unfold readPacketLengthD
  rw [if_neg enough, first, ofLittleEndian_littleEndian (by omega), Nat.mod_eq_of_lt small]
  by_cases fits : size + 4 < kPacketSizeMax
  · rw [if_pos fits, if_pos ⟨by omega, fits⟩]
  · rw [if_neg fits, if_neg (fun both => fits both.2)]

theorem readPacketD_eq {size : Nat} {content : Bytes} (some : 4 ≤ size)
    (few : size + 4 < kPacketSizeMax) (length : content.length = size) :
    readPacketD (littleEndian 4 size ++ content) = Option.some content := by
  have small : size + 4 < 2 ^ 32 := lt_trans few (by decide)
  have rest : ((size + 4 : Nat) : Int) - 4 = (size : Nat) := by omega
  unfold readPacketD
  dsimp only
  rw [readPacketLengthD_eq content small some, if_pos few, rest, length_append,
    length_littleEndian, if_pos]
  · exact subspan_append (length_littleEndian 4 size) length
  · unfold kUnknownSize kInvalidSize
    omega

section Framing

variable {protocol : Protocol} {draws : Draws} {first second : Int32} {payload : MtpBuffer}

theorem frames0_iff (finalize : protocol.finalizePacket draws = finalizePacket0)
    (readLength : protocol.readPacketLength = readPacketLength0)
    (read : protocol.readPacket = readPacket0) (some : 0 < payload.length)
    (few : payload.length < 0x1000001) :
    (∃ packet, protocol.Frames draws (first :: second :: payload) packet) ↔
      payload.length < 0x1000000 := by
  constructor
  · rintro ⟨packet, finalized, length, _⟩
    rw [finalize, finalizePacket0_eq some few] at finalized
    cases finalized
    by_contra large
    rw [readLength, readPacketLength0_header0 _ some few, if_neg large, kInvalidSize] at length
    omega
  · intro fits
    refine ⟨header0 payload.length ++ bytesOf payload, ?_, ?_, [], ?_, Nat.zero_le _, .inl rfl⟩
    · rw [finalize]
      exact finalizePacket0_eq some few
    · rw [readLength, readPacketLength0_header0 _ some few, if_pos fits, length_append,
        length_bytesOf]
    · rw [read, readPacket0_header0 some fits (length_bytesOf payload), append_nil]
      rfl

theorem framesD_iff (secret : Bytes) (some : 0 < payload.length)
    (few : payload.length < 0x1000001) :
    (∃ packet, (versionD secret).Frames draws (first :: second :: payload) packet) ↔
      payload.length * primeSize + draws.paddingSize + 4 < kPacketSizeMax := by
  have padding := paddingSize_lt draws
  have atLeast : 4 ≤ payload.length * primeSize + draws.paddingSize := by
    unfold primeSize
    omega
  have small : payload.length * primeSize + draws.paddingSize + 4 < 2 ^ 32 := by
    unfold primeSize
    omega
  have length : (bytesOf payload ++ Draws.paddingBytes draws).length =
      payload.length * primeSize + draws.paddingSize := by
    rw [length_append, length_bytesOf, length_paddingBytes]
  constructor
  · rintro ⟨packet, finalized, read, _⟩
    rw [finalizePacket, finalizePacketD_eq draws some few] at finalized
    cases finalized
    by_contra large
    rw [readPacketLength, readPacketLengthD_eq _ small atLeast, if_neg large, kInvalidSize] at read
    omega
  · intro fits
    refine ⟨_, finalizePacketD_eq draws some few, ?_, Draws.paddingBytes draws, ?_, ?_,
      .inr ⟨secret, rfl⟩⟩
    · rw [readPacketLength, readPacketLengthD_eq _ small atLeast, if_pos fits,
        length_append, length_littleEndian, length, add_comm]
    · have read := readPacketD_eq atLeast fits length
      exact read
    · rw [length_paddingBytes]
      omega

end Framing

/-- Framing is undone exactly at the sizes whose length the reader takes: in versions 0
and 1 all but the largest one, in version D those that stay below its limit together
with the padding. -/
theorem frames_iff_fits (protocol : Protocol) (draws : Draws) (buffer : MtpBuffer)
    (atLeast : 2 < buffer.length) (atMost : buffer.length < 0x1000003) :
    (∃ packet, protocol.Frames draws buffer packet) ↔
      protocol.Fits buffer.length draws.paddingSize := by
  obtain ⟨first, second, payload, rfl⟩ : ∃ first second payload,
      buffer = first :: second :: payload := by
    match buffer, atLeast with
    | first :: second :: payload, _ => exact ⟨first, second, payload, rfl⟩
  rw [length_cons, length_cons] at atLeast atMost ⊢
  have some : 0 < payload.length := by omega
  have few : payload.length < 0x1000001 := by omega
  cases protocol with
  | version0 =>
    rw [frames0_iff rfl rfl rfl some few, Fits]
    omega
  | version1 secret =>
    rw [frames0_iff rfl rfl rfl some few, Fits]
    omega
  | versionD secret =>
    have size : payload.length + 1 + 1 - 2 = payload.length := rfl
    rw [framesD_iff secret some few, Fits, size]

/-- Three integers behind the place for their length -/
theorem frames_threeIntegers :
    ∃ packet, version0.Frames ⟨0, fun _ => 0⟩ [0, 0, 1, 2, 3] packet :=
  (frames_iff_fits version0 ⟨0, fun _ => 0⟩ [0, 0, 1, 2, 3] (by decide) (by decide)).mpr (by
    unfold Fits
    decide)

/-- The largest buffer that is taken has a length of which nothing is left in three
bytes. -/
theorem largest_buffer_is_not_read_back :
    ¬ ∀ (protocol : Protocol) (draws : Draws) (buffer : MtpBuffer), 2 < buffer.length →
      buffer.length < 0x1000003 → ∃ packet, protocol.Frames draws buffer packet := by
  intro always
  have length : (replicate 0x1000000 (0 : Int32)).length = 0x1000000 :=
    length_replicate
  have frames := always version0 ⟨0, fun _ => 0⟩ (0 :: 0 :: replicate 0x1000000 0)
    (by rw [length_cons, length_cons, length]; decide)
    (by rw [length_cons, length_cons, length]; decide)
  have fits := (frames0_iff rfl rfl rfl (by rw [length]; decide) (by rw [length]; decide)).mp frames
  rw [length] at fits
  exact absurd fits (by decide)

end Protocol

end TelegramDesktop.Tcp
