import TelegramDesktop.TlsSocket

/-!
# The verdict on a server hello does not depend on the chunks

While the hello is waited for, the state of the socket is determined by the bytes that
have come.  This holds as long as the sizes that the peer chooses fit the `int16` and
the hello is long enough for a digest; otherwise some way of cutting the bytes leads
out of the bounds or to an early verdict.
-/

namespace TelegramDesktop.Tls

open List Option TlsSocket

section More

variable {sent : Bytes} (more : Bytes)

theorem segment_append_of_le {content : Bytes} {till : Nat} (start : Nat)
    (inside : till ≤ content.length) :
    segment (content ++ more) start till = segment content start till := by
  rw [← segment_take (content ++ more) start (le_refl till),
    ← segment_take content start (le_refl till), take_append_of_le_length inside]

theorem hasPart1_append (enough : 5 ≤ sent.length) :
    HasPart1 (sent ++ more) ↔ HasPart1 sent := by
  unfold HasPart1
  rw [take_append_of_le_length (by omega)]

theorem parts123Size_append (enough : 5 ≤ sent.length) :
    parts123Size (sent ++ more) = parts123Size sent := by
  unfold parts123Size
  rw [segment_append_of_le more 3 enough]

theorem le_parts123Size (sent : Bytes) : 16 ≤ parts123Size sent := Nat.le_add_right _ _

theorem parts123Size_le_fullSize (sent : Bytes) : parts123Size sent ≤ fullSize sent :=
  Nat.le_add_right _ _

theorem hasPart3_append (enough : parts123Size sent ≤ sent.length) :
    HasPart3 (sent ++ more) ↔ HasPart3 sent := by
  have least := le_parts123Size sent
  unfold HasPart3
  rw [parts123Size_append more (by omega), segment_append_of_le more _ (by omega)]

theorem fullSize_append (enough : parts123Size sent ≤ sent.length) :
    fullSize (sent ++ more) = fullSize sent := by
  have least := le_parts123Size sent
  unfold fullSize
  rw [parts123Size_append more (by omega), segment_append_of_le more _ enough]

end More

theorem segment_length_le {content : Bytes} {start till : Nat} :
    (segment content start till).length ≤ till - start := by
  unfold segment
  rw [length_take]
  exact min_le_left _ _

theorem ofBigEndian_segment_lt (content : Bytes) (start : Nat) :
    ofBigEndian (segment content start (start + 2)) < 65536 := by
  have bound := ofLittleEndian_lt (segment content start (start + 2)).reverse
  rw [length_reverse] at bound
  refine lt_of_lt_of_le bound ?_
  have short : (segment content start (start + 2)).length ≤ 2 := by
    have := @segment_length_le content start (start + 2)
    omega
  calc 256 ^ (segment content start (start + 2)).length ≤ 256 ^ 2 :=
        Nat.pow_le_pow_right (by decide) short
    _ = 65536 := by decide

theorem parts123Size_lt (sent : Bytes) : parts123Size sent < 16 + 65536 :=
  Nat.add_lt_add_left (ofBigEndian_segment_lt sent 3) 16

theorem fullSize_lt (sent : Bytes) : fullSize sent < parts123Size sent + 65536 := by
  have least := le_parts123Size sent
  have bound := ofBigEndian_segment_lt sent (parts123Size sent - 2)
  rw [Nat.sub_add_cancel (by omega)] at bound
  exact Nat.add_lt_add_left bound _

section Verdict

variable (hmacSha256 : Bytes → Bytes → Bytes) (key digest : Bytes) {sent : Bytes}

theorem verdict_of_short (short : sent.length < 5) :
    verdict hmacSha256 key digest sent = .waiting := if_pos short

theorem verdict_of_not_part1 (enough : 5 ≤ sent.length) (wrong : ¬HasPart1 sent) :
    verdict hmacSha256 key digest sent = .error := by
  unfold verdict
  rw [if_neg (not_lt.mpr enough), if_pos wrong]

theorem verdict_of_short123 (part1 : HasPart1 sent) (short : sent.length < parts123Size sent) :
    verdict hmacSha256 key digest sent = .waiting := by
  by_cases enough : sent.length < 5
  · exact verdict_of_short hmacSha256 key digest enough
  unfold verdict
  rw [if_neg enough, if_neg (not_not.mpr part1), if_pos short]

theorem verdict_of_not_part3 (part1 : HasPart1 sent) (enough : parts123Size sent ≤ sent.length)
    (wrong : ¬HasPart3 sent) : verdict hmacSha256 key digest sent = .error := by
  have least := le_parts123Size sent
  unfold verdict
  rw [if_neg (by omega), if_neg (not_not.mpr part1), if_neg (not_lt.mpr enough), if_pos wrong]

theorem verdict_of_parts (part1 : HasPart1 sent) (enough : parts123Size sent ≤ sent.length)
    (part3 : HasPart3 sent) : verdict hmacSha256 key digest sent =
      if sent.length < fullSize sent then .waiting
      else if HasDigest hmacSha256 key digest (sent.take (fullSize sent)) then
        .connected (sent.drop (fullSize sent))
      else .error := by
  have least := le_parts123Size sent
  unfold verdict
  rw [if_neg (by omega), if_neg (not_not.mpr part1), if_neg (not_lt.mpr enough),
    if_neg (not_not.mpr part3)]

theorem verdict_append (more : Bytes) :
    (verdict hmacSha256 key digest sent = .error →
      verdict hmacSha256 key digest (sent ++ more) = .error) ∧
    ∀ following, verdict hmacSha256 key digest sent = .connected following →
      verdict hmacSha256 key digest (sent ++ more) = .connected (following ++ more) := by
  have longer : (sent ++ more).length = sent.length + more.length := length_append
  by_cases enough : 5 ≤ sent.length
  swap
  · rw [verdict_of_short hmacSha256 key digest (by omega)]
    simp
  by_cases part1 : HasPart1 sent
  swap
  · rw [verdict_of_not_part1 _ _ _ enough part1, verdict_of_not_part1 _ _ _ (by omega)
      (mt (hasPart1_append more enough).mp part1)]
    simp
  by_cases enough123 : parts123Size sent ≤ sent.length
  swap
  · rw [verdict_of_short123 _ _ _ part1 (by omega)]
    simp
  have size := parts123Size_append more enough
  by_cases part3 : HasPart3 sent
  swap
  · rw [verdict_of_not_part3 _ _ _ part1 enough123 part3,
      verdict_of_not_part3 _ _ _ ((hasPart1_append more enough).mpr part1) (by omega)
        (mt (hasPart3_append more enough123).mp part3)]
    simp
  rw [verdict_of_parts _ _ _ part1 enough123 part3,
    verdict_of_parts _ _ _ ((hasPart1_append more enough).mpr part1) (by omega)
      ((hasPart3_append more enough123).mpr part3), fullSize_append more enough123]
  by_cases enoughFull : fullSize sent ≤ sent.length
  swap
  · rw [if_pos (not_le.mp enoughFull)]
    simp
  have stillFull : ¬(sent ++ more).length < fullSize sent := by omega
  rw [if_neg (not_lt.mpr enoughFull), if_neg stillFull,
    take_append_of_le_length enoughFull, drop_append_of_le_length enoughFull]
  split
  · simp
  · simp

end Verdict

/-- As far as they are known, the two sizes fit the `int16`, or a size that does not has not
been reached as what it has become, and the hello has a place for the digest. -/
structure Fits (sent : Bytes) : Prop where
  parts123 : 5 ≤ sent.length → HasPart1 sent →
    parts123Size sent < 2 ^ 15 ∨ (sent.length : Int) < toInt16 (parts123Size sent)
  full : parts123Size sent ≤ sent.length → HasPart1 sent → HasPart3 sent →
    fullSize sent < 2 ^ 15 ∧ (fullSize sent ≤ sent.length → 43 ≤ fullSize sent)

theorem Fits.of_append {sent more : Bytes} (fits : Fits (sent ++ more)) : Fits sent where
  parts123 enough part1 := by
    have longer := fits.parts123 (by rw [length_append]; omega)
      ((hasPart1_append more enough).mpr part1)
    rw [parts123Size_append more enough, length_append] at longer
    omega
  full enough part1 part3 := by
    have least := le_parts123Size sent
    have longer := fits.full (by rw [parts123Size_append more (by omega), length_append]; omega)
      ((hasPart1_append more (by omega)).mpr part1) ((hasPart3_append more enough).mpr part3)
    rw [fullSize_append more enough, length_append] at longer
    exact ⟨longer.1, fun inside => longer.2 (by omega)⟩

theorem toInt16_of_lt {size : Nat} (small : size < 2 ^ 15) : toInt16 size = size := by
  apply Int.bmod_eq_of_le <;> omega

theorem toInt16_le (size : Nat) : toInt16 size ≤ size := by
  unfold toInt16 Int.bmod
  dsimp only
  split <;> omega

/-- A size from `2 ^ 15` on that is not twice as large as what an `int16` counts. -/
theorem toInt16_of_le {size : Nat} (large : 2 ^ 15 ≤ size) (below : size < 2 ^ 15 + 2 ^ 16) :
    toInt16 size = size - 2 ^ 16 := by
  unfold toInt16 Int.bmod
  dsimp only
  split <;> omega

section Spans

variable {data : Bytes} {offset count : Nat}

theorem subspan_eq_some (inside : offset + count ≤ data.length) :
    subspan data offset count = some (segment data offset (offset + count)) := by
  unfold subspan
  rw [if_neg (by omega), if_neg (by omega), if_neg (by omega), Int.toNat_natCast]

theorem subspan_eq_none (outside : data.length < offset + count) :
    subspan data offset count = none := by
  unfold subspan
  split
  · rfl
  rw [if_neg (by omega), if_pos (by omega)]

theorem subspan_rest (inside : offset ≤ data.length) :
    subspan data offset (-1) = some (data.drop offset) := by
  unfold subspan
  rw [if_neg (by omega), if_pos rfl]

theorem segment_zero (data : Bytes) (till : Nat) : segment data 0 till = data.take till := rfl

theorem subspan_incoming {digest sent : Bytes} (size : digest.length = 32)
    (inside : count ≤ sent.length) :
    subspan (digest ++ sent) kHelloDigestLength count = some (sent.take count) := by
  have whole : kHelloDigestLength + count ≤ (digest ++ sent).length := by
    rw [length_append, size, kHelloDigestLength]
    omega
  rw [subspan_eq_some whole]
  congr 1
  have dropped := segment_drop (digest ++ sent) 32 0 count
  rw [drop_left' size] at dropped
  exact dropped.symm

theorem subspan_incoming_eq_none {digest sent : Bytes} (size : digest.length = 32)
    (outside : sent.length < count) :
    subspan (digest ++ sent) kHelloDigestLength count = none := by
  apply subspan_eq_none
  rw [length_append, size, kHelloDigestLength]
  omega

theorem readPartLength_take {sent : Bytes} (inside : offset + 2 ≤ count)
    (enough : count ≤ sent.length) :
    readPartLength (sent.take count) offset =
      some (ofBigEndian (segment sent offset (offset + 2))) := by
  have whole : offset + kLengthSize ≤ (sent.take count).length := by
    rw [length_take, kLengthSize]
    omega
  unfold readPartLength
  rw [subspan_eq_some whole, map_some, kLengthSize, segment_take sent offset inside]

theorem checkPart_drop_take {sent check : Bytes} (inside : offset + check.length ≤ count)
    (enough : count ≤ sent.length) :
    checkPart ((sent.take count).drop offset) check =
      decide (segment sent offset (offset + check.length) = check) := by
  have long : ¬((sent.take count).drop offset).length < check.length := by
    rw [length_drop, length_take]
    omega
  have here : ((sent.take count).drop offset).take check.length =
      segment sent offset (offset + check.length) := by
    rw [← segment_take sent offset inside, segment, Nat.add_sub_cancel_left]
  unfold checkPart
  rw [if_neg long, here]
  apply Bool.eq_iff_iff.mpr
  rw [beq_iff_eq, decide_eq_true_iff]

end Spans

/-- The secret of a proxy and the digest of the client hello that has been sent. -/
structure Client where
  secret : Bytes
  digest : Bytes
  secretSize : 21 ≤ secret.length
  digestSize : digest.length = 32

namespace Client

variable (client : Client)

/-- The key within the secret. -/
def key : Bytes := segment client.secret 1 17

/-- The socket that waits for a part of the hello, with these bytes after the digest. -/
def awaiting (sent : Bytes) (length : Int) : TlsSocket :=
  { TlsSocket.helloSent client.secret client.digest with
    incoming := client.digest ++ sent
    serverHelloLength := length }

@[simp] theorem state_awaiting (sent : Bytes) (length : Int) :
    (client.awaiting sent length).state = .waitingHello := rfl

theorem awaiting_nil : client.awaiting [] 0 = helloSent client.secret client.digest := by
  unfold awaiting helloSent
  rw [append_nil]

theorem ready_awaiting (sent : Bytes) (length : Int) :
    (client.awaiting sent length).requiredHelloPartReady =
      decide (length ≤ (sent.length : Int)) := by
  have size : (client.digest ++ sent).length = 32 + sent.length := by
    rw [length_append, client.digestSize]
  have same : ((kHelloDigestLength : Int) + length ≤ (client.digest ++ sent).length) ↔
      length ≤ (sent.length : Int) := by
    rw [size, kHelloDigestLength]
    push_cast
    omega
  exact decide_eq_decide.mpr same

theorem keyFromSecret_awaiting (sent : Bytes) (length : Int) :
    (client.awaiting sent length).keyFromSecret = some client.key := by
  have size := client.secretSize
  have inside : 1 + 16 ≤ client.secret.length := by omega
  exact subspan_eq_some inside

end Client

/-- The socket and the chunks that are left agree with a verdict. -/
def TlsSocket.Meets (socket : TlsSocket) (rest : List Bytes) : Verdict → Prop
  | .waiting => socket.state = .waitingHello ∧ rest = []
  | .error => socket.state = .error
  | .connected following =>
    socket.state = .connected ∧ socket.incoming ++ socket.unread ++ rest.flatten = following

variable {socket : TlsSocket}

section Checks

variable (hmacSha256 : Bytes → Bytes → Bytes) (client : Client) {sent : Bytes}

theorem shiftIncomingBy_eq (offset : socket.incomingGoodDataOffset = 0)
    (limit : socket.incomingGoodDataLimit = 0) (amount : Nat) :
    socket.shiftIncomingBy amount =
      some { socket with incoming := socket.incoming.drop amount } := by
  unfold shiftIncomingBy
  rw [if_neg (by simp [offset, limit])]
  split
  next => rfl
  next short => rw [drop_of_length_le (not_lt.mp short)]

theorem checkHelloDigest_eq {fulldata field key : Bytes}
    (whole : subspan socket.incoming 0 (kHelloDigestLength + socket.serverHelloLength) =
      some fulldata)
    (digest : subspan fulldata (kHelloDigestLength + kServerHelloDigestPosition)
      kHelloDigestLength = some field)
    (secret : socket.keyFromSecret = some key) (offset : socket.incomingGoodDataOffset = 0)
    (limit : socket.incomingGoodDataLimit = 0) :
    checkHelloDigest hmacSha256 socket =
      some (if field = hmacSha256 key (TlsSocket.overwrite fulldata 43 (replicate 32 0)) then
        { socket with
          incoming := (TlsSocket.overwrite socket.incoming 43 (replicate 32 0)).drop
            fulldata.length
          incomingGoodDataOffset := 0
          incomingGoodDataLimit := 0
          state := .connected }
      else
        { socket with
          incoming := TlsSocket.overwrite socket.incoming 43 (replicate 32 0)
          state := .error }) := by
  unfold keyFromSecret at secret
  unfold checkHelloDigest keyFromSecret
  simp only [bind_eq_bind, whole, bind_some, digest, secret]
  have place : kHelloDigestLength + kServerHelloDigestPosition = 43 := rfl
  have size : kHelloDigestLength = 32 := rfl
  rw [place, size]
  by_cases same : field = hmacSha256 key (TlsSocket.overwrite fulldata 43 (replicate 32 0))
  · rw [if_pos same, if_neg (not_not.mpr same), shiftIncomingBy_eq]
    · rfl
    · exact offset
    · exact limit
  · rw [if_neg same, if_pos same]
    rfl

theorem overwrite_hello {hello : Bytes} (digest : Bytes) (size : digest.length = 32) :
    TlsSocket.overwrite (digest ++ hello) 43 (replicate 32 0) =
      digest ++ hello.take 11 ++ replicate 32 0 ++ hello.drop 43 := by
  unfold TlsSocket.overwrite
  rw [length_replicate, take_append, drop_append, size,
    take_of_length_le (by omega), drop_of_length_le (by omega), nil_append]

theorem drop_overwrite {data : Bytes} {amount : Nat} (long : 75 ≤ data.length)
    (later : 75 ≤ amount) :
    (TlsSocket.overwrite data 43 (replicate 32 0)).drop amount = data.drop amount := by
  unfold TlsSocket.overwrite
  have front : (data.take 43 ++ replicate 32 (0 : UInt8)).length = 75 := by
    rw [length_append, length_take, length_replicate]
    omega
  rw [length_replicate, drop_append, front, drop_of_length_le (by omega), nil_append, drop_drop]
  congr 1
  omega

theorem checkHelloDigest_full (part1 : HasPart1 sent) (part3 : HasPart3 sent)
    (enough : fullSize sent ≤ sent.length) (long : 43 ≤ fullSize sent) :
    ∃ socket, checkHelloDigest hmacSha256 (client.awaiting sent (fullSize sent)) =
        some socket ∧ socket.state ≠ .waitingHello ∧
      socket.Meets [] (verdict hmacSha256 client.key client.digest sent) := by
  have size := client.digestSize
  have enough123 : parts123Size sent ≤ sent.length := (parts123Size_le_fullSize sent).trans enough
  rw [verdict_of_parts _ _ _ part1 enough123 part3, if_neg (not_lt.mpr enough)]
  have incomingLength : (client.digest ++ sent).length = 32 + sent.length := by
    rw [length_append, size]
  have whole : subspan (client.digest ++ sent) 0 ((kHelloDigestLength : Int) + fullSize sent) =
      some (client.digest ++ sent.take (fullSize sent)) := by
    have inside : 0 + (32 + fullSize sent) ≤ (client.digest ++ sent).length := by omega
    have found := subspan_eq_some inside
    rw [segment_zero, zero_add, take_append, size,
      take_of_length_le (by omega), Nat.add_sub_cancel_left] at found
    exact found
  have helloLength : (sent.take (fullSize sent)).length = fullSize sent :=
    length_take_of_le enough
  have fullLength : (client.digest ++ sent.take (fullSize sent)).length = 32 + fullSize sent := by
    rw [length_append, size, helloLength]
  have field : subspan (client.digest ++ sent.take (fullSize sent))
      (kHelloDigestLength + kServerHelloDigestPosition) kHelloDigestLength =
        some (segment (sent.take (fullSize sent)) 11 43) := by
    have inside : 43 + 32 ≤ (client.digest ++ sent.take (fullSize sent)).length := by omega
    have dropped := segment_drop (client.digest ++ sent.take (fullSize sent)) 32 11 43
    rw [drop_left' size] at dropped
    exact (subspan_eq_some inside).trans (congrArg some dropped.symm)
  have checked := checkHelloDigest_eq hmacSha256 whole field
    (client.keyFromSecret_awaiting sent (fullSize sent)) rfl rfl
  rw [checked, overwrite_hello client.digest size]
  have digestIff : HasDigest hmacSha256 client.key client.digest (sent.take (fullSize sent)) ↔
      segment (sent.take (fullSize sent)) 11 43 = hmacSha256 client.key
        (client.digest ++ (sent.take (fullSize sent)).take 11 ++ replicate 32 0 ++
          (sent.take (fullSize sent)).drop 43) :=
    and_iff_right (by omega)
  by_cases same : HasDigest hmacSha256 client.key client.digest (sent.take (fullSize sent))
  · rw [if_pos (digestIff.mp same), if_pos same]
    refine ⟨_, rfl, by simp, rfl, ?_⟩
    have rest : (client.digest ++ sent).drop (32 + fullSize sent) = sent.drop (fullSize sent) := by
      rw [drop_append, size, drop_of_length_le (by omega), nil_append, Nat.add_sub_cancel_left]
    simp only [flatten_nil, append_nil, fullLength]
    have shifted : (TlsSocket.overwrite (client.digest ++ sent) 43 (replicate 32 0)).drop
        (32 + fullSize sent) = (client.digest ++ sent).drop (32 + fullSize sent) :=
      drop_overwrite (by omega) (by omega)
    exact (append_nil _).trans (shifted.trans rest)
  · rw [if_neg (mt digestIff.mpr same), if_neg same]
    exact ⟨_, rfl, by simp, rfl⟩

end Checks

/-- The size that is waited for, by what has been sent. -/
inductive Stage (sent : Bytes) : Int → Prop
  | start (short : sent.length < 5) : Stage sent 0
  | part1 (short : sent.length < 5) : Stage sent 5
  | parts123 (enough : 5 ≤ sent.length) (part1 : HasPart1 sent)
      (short : (sent.length : Int) < toInt16 (parts123Size sent)) :
      Stage sent (toInt16 (parts123Size sent))
  | full (enough : parts123Size sent ≤ sent.length) (part1 : HasPart1 sent)
      (part3 : HasPart3 sent) (short : sent.length < fullSize sent) : Stage sent (fullSize sent)

theorem Stage.verdict {sent : Bytes} {length : Int} (stage : Stage sent length)
    (hmacSha256 : Bytes → Bytes → Bytes) (key digest : Bytes) :
    Tls.verdict hmacSha256 key digest sent = .waiting := by
  cases stage with
  | start short => exact verdict_of_short _ _ _ short
  | part1 short => exact verdict_of_short _ _ _ short
  | parts123 enough part1 short =>
    have below := toInt16_le (parts123Size sent)
    exact verdict_of_short123 _ _ _ part1 (by omega)
  | full enough part1 part3 short =>
    rw [verdict_of_parts _ _ _ part1 enough part3, if_pos short]

/-- What one round of the check leads to: the next stage or a verdict. -/
def Follows (hmacSha256 : Bytes → Bytes → Bytes) (client : Client) (sent : Bytes)
    (socket : TlsSocket) : Prop :=
  (∃ length, Stage sent length ∧ socket = client.awaiting sent length) ∨
    (socket.state ≠ .waitingHello ∧
      socket.Meets [] (verdict hmacSha256 client.key client.digest sent))

section Parts

variable (hmacSha256 : Bytes → Bytes → Bytes) (client : Client) {sent : Bytes}
  {readHello : TlsSocket → Option TlsSocket}

theorem segment_fullSize (sent : Bytes) :
    parts123Size sent + ofBigEndian (segment sent (parts123Size sent - kLengthSize)
      (parts123Size sent - kLengthSize + 2)) = fullSize sent := by
  have least := le_parts123Size sent
  unfold fullSize
  rw [kLengthSize, Nat.sub_add_cancel (by omega)]

theorem checkHelloParts34_awaiting (length : Int) (enough : parts123Size sent ≤ sent.length) :
    checkHelloParts34 hmacSha256 readHello (client.awaiting sent length)
        (parts123Size sent) =
      if length = parts123Size sent then
        if ¬HasPart3 sent then some (client.awaiting sent length).handleError
        else if toInt16 (fullSize sent) ≤ sent.length then
          checkHelloDigest hmacSha256 (client.awaiting sent (toInt16 (fullSize sent)))
        else readHello (client.awaiting sent (toInt16 (fullSize sent)))
      else checkHelloDigest hmacSha256 (client.awaiting sent length) := by
  have least := le_parts123Size sent
  have data := subspan_incoming client.digestSize enough
  have incoming : (client.awaiting sent length).incoming = client.digest ++ sent := rfl
  have awaited : (client.awaiting sent length).serverHelloLength = length := rfl
  have place : parts123Size sent - kLengthSize - kServerHelloPart3.length =
      parts123Size sent - 11 := rfl
  have till : parts123Size sent - 11 + kServerHelloPart3.length = parts123Size sent - 2 := by
    change parts123Size sent - 11 + 9 = _
    omega
  have compared : checkPart ((sent.take (parts123Size sent)).drop (parts123Size sent - 11))
      kServerHelloPart3 = decide (HasPart3 sent) := by
    rw [checkPart_drop_take (by omega) enough, till]
    rfl
  unfold checkHelloParts34
  rw [incoming, data]
  simp only [bind_eq_bind, bind_some]
  rw [readPartLength_take (by rw [kLengthSize]; omega) enough, bind_some, segment_fullSize,
    awaited, place, subspan_rest (by rw [length_take]; omega), bind_some, compared]
  refine if_congr Iff.rfl ?_ rfl
  by_cases part3 : HasPart3 sent
  · rw [if_neg (not_not.mpr part3), decide_eq_true part3, Bool.not_true, if_neg Bool.false_ne_true]
    change (if
        (!(client.awaiting sent (toInt16 (fullSize sent))).requiredHelloPartReady) = true then
        readHello (client.awaiting sent (toInt16 (fullSize sent)))
      else checkHelloDigest hmacSha256 (client.awaiting sent (toInt16 (fullSize sent)))) = _
    rw [client.ready_awaiting]
    by_cases ready : toInt16 (fullSize sent) ≤ sent.length
    · rw [if_pos ready, decide_eq_true ready, Bool.not_true, if_neg Bool.false_ne_true]
    · rw [if_neg ready, decide_eq_false ready, Bool.not_false, if_pos rfl]
  · rw [if_pos part3, decide_eq_false part3, Bool.not_false, if_pos rfl]

theorem checkHelloParts12_awaiting (length : Int) (enough : 5 ≤ sent.length) :
    checkHelloParts12 hmacSha256 readHello (client.awaiting sent length) 5 =
      if length = 5 then
        if ¬HasPart1 sent then some (client.awaiting sent length).handleError
        else if toInt16 (parts123Size sent) ≤ sent.length then
          checkHelloParts34 hmacSha256 readHello
            (client.awaiting sent (toInt16 (parts123Size sent))) (parts123Size sent)
        else readHello (client.awaiting sent (toInt16 (parts123Size sent)))
      else
        checkHelloParts34 hmacSha256 readHello (client.awaiting sent length)
          (parts123Size sent) := by
  have data := subspan_incoming client.digestSize enough
  have incoming : (client.awaiting sent length).incoming = client.digest ++ sent := rfl
  have awaited : (client.awaiting sent length).serverHelloLength = length := rfl
  have place : 5 - kLengthSize - kServerHelloPart1.length = 0 := rfl
  have size : 5 + ofBigEndian (segment sent (5 - kLengthSize) (5 - kLengthSize + 2)) +
      kServerHelloPart3.length + kLengthSize = parts123Size sent := by
    change 5 + ofBigEndian (segment sent 3 5) + 9 + 2 = 16 + ofBigEndian (segment sent 3 5)
    omega
  have compared : checkPart ((sent.take 5).drop 0) kServerHelloPart1 = decide (HasPart1 sent) :=
    checkPart_drop_take (by decide) enough
  unfold checkHelloParts12
  rw [incoming, data]
  simp only [bind_eq_bind, bind_some]
  rw [readPartLength_take (by decide) enough, bind_some, size, awaited, place,
    subspan_rest (Nat.zero_le _), bind_some, compared]
  refine if_congr Iff.rfl ?_ rfl
  by_cases part1 : HasPart1 sent
  · rw [if_neg (not_not.mpr part1), decide_eq_true part1, Bool.not_true, if_neg Bool.false_ne_true]
    change (if
        (!(client.awaiting sent (toInt16 (parts123Size sent))).requiredHelloPartReady) = true then
        readHello (client.awaiting sent (toInt16 (parts123Size sent)))
      else checkHelloParts34 hmacSha256 readHello
          (client.awaiting sent (toInt16 (parts123Size sent))) (parts123Size sent)) = _
    rw [client.ready_awaiting]
    by_cases ready : toInt16 (parts123Size sent) ≤ sent.length
    · rw [if_pos ready, decide_eq_true ready, Bool.not_true, if_neg Bool.false_ne_true]
    · rw [if_neg ready, decide_eq_false ready, Bool.not_false, if_pos rfl]
  · rw [if_pos part1, decide_eq_false part1, Bool.not_false, if_pos rfl]

theorem readHello_awaiting (depth : Nat) (chunk : Bytes) {length : Int} (nonzero : length ≠ 0)
    (short : (sent.length : Int) < length) :
    TlsSocket.readHello hmacSha256 (depth + 1)
        { client.awaiting sent length with unread := chunk } =
      if length ≤ ((sent ++ chunk).length : Int) then
        TlsSocket.checkHelloParts12 hmacSha256 (TlsSocket.readHello hmacSha256 depth)
          (client.awaiting (sent ++ chunk) length) 5
      else some (client.awaiting (sent ++ chunk) length) := by
  have waits : ¬length ≤ (sent.length : Int) := by omega
  have before : requiredHelloPartReady
      { client.awaiting sent length with unread := chunk } = false :=
    (client.ready_awaiting sent length).trans (decide_eq_false waits)
  have read : (⟨client.secret, .waitingHello, client.digest ++ sent ++ chunk, 0, 0, length, []⟩ :
      TlsSocket) = client.awaiting (sent ++ chunk) length := by
    unfold Client.awaiting helloSent
    rw [append_assoc]
  unfold readHello
  dsimp only
  rw [if_neg (show ¬(client.awaiting sent length).serverHelloLength = 0 from nonzero), before,
    if_neg Bool.false_ne_true]
  change (if requiredHelloPartReady
      ⟨client.secret, .waitingHello, client.digest ++ sent ++ chunk, 0, 0, length, []⟩ = true then
    checkHelloParts12 hmacSha256 (readHello hmacSha256 depth)
      ⟨client.secret, .waitingHello, client.digest ++ sent ++ chunk, 0, 0, length, []⟩ 5
    else some ⟨client.secret, .waitingHello, client.digest ++ sent ++ chunk, 0, 0, length, []⟩) = _
  rw [read, client.ready_awaiting]
  simp

theorem readHello_again (depth : Nat) {length : Int} (nonzero : length ≠ 0)
    (short : (sent.length : Int) < length) :
    TlsSocket.readHello hmacSha256 (depth + 1) (client.awaiting sent length) =
      some (client.awaiting sent length) := by
  have nothing := readHello_awaiting hmacSha256 client depth [] nonzero short
  rw [append_nil, if_neg (by omega)] at nothing
  exact nothing

theorem parts34_follows (depth : Nat) (fits : Fits sent) (part1 : HasPart1 sent)
    (enough : parts123Size sent ≤ sent.length) :
    ∃ socket, TlsSocket.checkHelloParts34 hmacSha256 (TlsSocket.readHello hmacSha256 (depth + 1))
        (client.awaiting sent (parts123Size sent)) (parts123Size sent) = some socket ∧
      Follows hmacSha256 client sent socket := by
  rw [checkHelloParts34_awaiting hmacSha256 client _ enough, if_pos rfl]
  by_cases part3 : HasPart3 sent
  swap
  · rw [if_pos part3]
    refine ⟨_, rfl, .inr ⟨by simp [handleError], ?_⟩⟩
    rw [verdict_of_not_part3 _ _ _ part1 enough part3]
    rfl
  have size := toInt16_of_lt (fits.full enough part1 part3).1
  rw [if_neg (not_not.mpr part3), size]
  by_cases whole : fullSize sent ≤ sent.length
  · rw [if_pos (by omega)]
    obtain ⟨socket, checked, decided⟩ := checkHelloDigest_full hmacSha256 client part1 part3 whole
      ((fits.full enough part1 part3).2 whole)
    exact ⟨socket, checked, .inr decided⟩
  · rw [if_neg (by omega), readHello_again hmacSha256 client depth (by omega) (by omega)]
    exact ⟨_, rfl, .inl ⟨_, .full enough part1 part3 (by omega), rfl⟩⟩

theorem parts12_follows (depth : Nat) (fits : Fits sent) (enough : 5 ≤ sent.length) :
    ∃ socket, TlsSocket.checkHelloParts12 hmacSha256 (TlsSocket.readHello hmacSha256 (depth + 1))
        (client.awaiting sent 5) 5 = some socket ∧ Follows hmacSha256 client sent socket := by
  rw [checkHelloParts12_awaiting hmacSha256 client _ enough, if_pos rfl]
  by_cases part1 : HasPart1 sent
  swap
  · rw [if_pos part1]
    refine ⟨_, rfl, .inr ⟨by simp [handleError], ?_⟩⟩
    rw [verdict_of_not_part1 _ _ _ enough part1]
    rfl
  rw [if_neg (not_not.mpr part1)]
  by_cases ready : toInt16 (parts123Size sent) ≤ sent.length
  · have small := (fits.parts123 enough part1).resolve_right (by omega)
    have size := toInt16_of_lt small
    rw [if_pos ready, size]
    rw [size] at ready
    exact parts34_follows hmacSha256 client depth fits part1 (by omega)
  · rw [if_neg ready, readHello_again hmacSha256 client depth (by omega) (by omega)]
    exact ⟨_, rfl, .inl ⟨_, .parts123 enough part1 (by omega), rfl⟩⟩

/-- A chunk takes the socket to the next stage or to the verdict on all that has come. -/
theorem plainReadyRead_follows (depth : Nat) {chunk : Bytes} {length : Int}
    (stage : Stage sent length) (fits : Fits (sent ++ chunk)) :
    ∃ socket, TlsSocket.plainReadyRead hmacSha256 (depth + 2) (client.awaiting sent length) chunk =
        some socket ∧ Follows hmacSha256 client (sent ++ chunk) socket := by
  have longer : (sent ++ chunk).length = sent.length + chunk.length := length_append
  have fromPart1 : sent.length < 5 →
      ∃ socket, readHello hmacSha256 (depth + 2)
          { client.awaiting sent 5 with unread := chunk } = some socket ∧
        Follows hmacSha256 client (sent ++ chunk) socket := by
    intro short
    rw [readHello_awaiting hmacSha256 client (depth + 1) chunk (by decide) (by omega)]
    by_cases ready : (5 : Int) ≤ ((sent ++ chunk).length : Int)
    · rw [if_pos ready]
      exact parts12_follows hmacSha256 client depth fits (by omega)
    · rw [if_neg ready]
      exact ⟨_, rfl, .inl ⟨5, .part1 (by omega), rfl⟩⟩
  cases stage with
  | start short => exact fromPart1 short
  | part1 short => exact fromPart1 short
  | parts123 enough part1 short =>
    have least := le_parts123Size sent
    have size := parts123Size_append chunk enough
    have part1 := (hasPart1_append chunk enough).mpr part1
    rw [← size] at short ⊢
    change ∃ socket, readHello hmacSha256 (depth + 2)
        { client.awaiting sent (toInt16 (parts123Size (sent ++ chunk))) with unread := chunk } =
          some socket ∧ _
    rw [readHello_awaiting hmacSha256 client (depth + 1) chunk (by omega) short]
    by_cases ready : toInt16 (parts123Size (sent ++ chunk)) ≤ ((sent ++ chunk).length : Int)
    · have small := (fits.parts123 (by omega) part1).resolve_right (by omega)
      have whole := toInt16_of_lt small
      rw [if_pos ready, whole, checkHelloParts12_awaiting hmacSha256 client _ (by omega),
        if_neg (by omega)]
      rw [whole] at ready
      exact parts34_follows hmacSha256 client depth fits part1 (by omega)
    · rw [if_neg ready]
      exact ⟨_, rfl, .inl ⟨_, .parts123 (by omega) part1 (by omega), rfl⟩⟩
  | full enough part1 part3 short =>
    have least := le_parts123Size sent
    have enough1 : 5 ≤ sent.length := by omega
    have size := parts123Size_append chunk enough1
    have sizeFull := fullSize_append chunk enough
    have part1 := (hasPart1_append chunk enough1).mpr part1
    have part3 := (hasPart3_append chunk enough).mpr part3
    rw [← sizeFull] at short ⊢
    change ∃ socket, readHello hmacSha256 (depth + 2)
        { client.awaiting sent (fullSize (sent ++ chunk)) with unread := chunk } =
          some socket ∧ _
    rw [readHello_awaiting hmacSha256 client (depth + 1) chunk (by omega) (by omega)]
    by_cases ready : (fullSize (sent ++ chunk) : Int) ≤ ((sent ++ chunk).length : Int)
    · rw [if_pos ready, checkHelloParts12_awaiting hmacSha256 client _ (by omega),
        if_neg (by omega), checkHelloParts34_awaiting hmacSha256 client _ (by omega),
        if_neg (by omega)]
      obtain ⟨socket, checked, decided⟩ := checkHelloDigest_full hmacSha256 client part1 part3
        (by omega) ((fits.full (by omega) part1 part3).2 (by omega))
      exact ⟨socket, checked, .inr decided⟩
    · rw [if_neg ready]
      exact ⟨_, rfl, .inl ⟨_, .full (by omega) part1 part3 (by omega), rfl⟩⟩

end Parts

section Runs

variable (hmacSha256 : Bytes → Bytes → Bytes) (client : Client) {sent : Bytes}

theorem receive_decided (depth : Nat) (decided : socket.state ≠ .waitingHello)
    (chunks : List Bytes) :
    receive hmacSha256 depth socket chunks = some (socket, chunks) := by
  cases chunks with
  | nil => rfl
  | cons chunk chunks =>
    unfold receive
    rw [if_neg decided]

theorem meets_of_decided {verdict : Verdict} {rest : List Bytes}
    {more : Verdict} (meets : socket.Meets [] verdict) (decided : verdict ≠ .waiting)
    (error : verdict = .error → more = .error)
    (connected : ∀ following, verdict = .connected following →
      more = .connected (following ++ rest.flatten)) : socket.Meets rest more := by
  cases verdict with
  | waiting => exact absurd rfl decided
  | error =>
    rw [error rfl]
    exact meets
  | connected following =>
    rw [connected following rfl]
    obtain ⟨state, equal⟩ := meets
    rw [flatten_nil, append_nil] at equal
    exact ⟨state, by rw [equal]⟩

theorem receive_meets (depth : Nat) {length : Int} (stage : Stage sent length)
    (chunks : List Bytes) (fits : Fits (sent ++ chunks.flatten)) :
    ∃ socket rest, receive hmacSha256 (depth + 2) (client.awaiting sent length) chunks =
        some (socket, rest) ∧
      socket.Meets rest (verdict hmacSha256 client.key client.digest (sent ++ chunks.flatten)) := by
  induction chunks generalizing sent length with
  | nil =>
    refine ⟨_, [], rfl, ?_⟩
    rw [flatten_nil, append_nil, stage.verdict]
    exact ⟨rfl, rfl⟩
  | cons chunk chunks ih =>
    rw [flatten_cons, ← append_assoc] at fits ⊢
    obtain ⟨socket, taken, follows⟩ :=
      plainReadyRead_follows hmacSha256 client depth stage fits.of_append
    have first : receive hmacSha256 (depth + 2) (client.awaiting sent length)
        (chunk :: chunks) = receive hmacSha256 (depth + 2) socket chunks := by
      rw [receive, if_pos (client.state_awaiting sent length), taken, bind_some]
    rw [first]
    rcases follows with ⟨next, stageNext, rfl⟩ | ⟨decided, meets⟩
    · exact ih stageNext fits
    · refine ⟨socket, chunks, receive_decided hmacSha256 _ decided chunks, ?_⟩
      refine meets_of_decided meets (fun waiting => ?_)
        (verdict_append hmacSha256 client.key client.digest chunks.flatten).1
        (verdict_append hmacSha256 client.key client.digest chunks.flatten).2
      rw [waiting] at meets
      exact decided meets.1

theorem receive_single (depth : Nat) (enough : 5 ≤ sent.length) :
    receive hmacSha256 (depth + 1) (client.awaiting [] 0) [sent] =
      (checkHelloParts12 hmacSha256 (readHello hmacSha256 depth)
        (client.awaiting sent 5) 5).map fun socket => (socket, []) := by
  have read : plainReadyRead hmacSha256 (depth + 1) (client.awaiting [] 0) sent =
      checkHelloParts12 hmacSha256 (readHello hmacSha256 depth)
        (client.awaiting sent 5) 5 := by
    have nonzero : (5 : Int) ≠ 0 := by decide
    have nothing : (([] : Bytes).length : Int) < 5 := by decide
    have checked := readHello_awaiting hmacSha256 client depth sent nonzero nothing
    rw [nil_append, if_pos (by omega)] at checked
    exact checked
  rw [receive, if_pos (client.state_awaiting [] 0), read]
  cases checkHelloParts12 hmacSha256 (readHello hmacSha256 depth)
    (client.awaiting sent 5) 5 with
  | none => rfl
  | some socket => rfl

/-- A second size that does not fit is taken for another one, and the third part is looked for
where nothing has come yet. -/
theorem receive_of_large_parts123 (depth : Nat) (enough : 5 ≤ sent.length)
    (part1 : HasPart1 sent) (reached : toInt16 (parts123Size sent) ≤ sent.length)
    (short : sent.length < parts123Size sent) :
    receive hmacSha256 (depth + 1) (client.awaiting [] 0) [sent] = none := by
  rw [receive_single hmacSha256 client depth enough,
    checkHelloParts12_awaiting hmacSha256 client _ enough, if_pos rfl,
    if_neg (not_not.mpr part1), if_pos reached]
  have incoming : (client.awaiting sent (toInt16 (parts123Size sent))).incoming =
      client.digest ++ sent := rfl
  unfold checkHelloParts34
  rw [incoming, subspan_incoming_eq_none client.digestSize short]
  rfl

theorem checkHelloDigest_decides {next : TlsSocket}
    (checked : checkHelloDigest hmacSha256 socket = some next) :
    next.state ≠ .waitingHello := by
  obtain ⟨fulldata, -, checked⟩ := bind_eq_some_iff.mp checked
  obtain ⟨digest, -, checked⟩ := bind_eq_some_iff.mp checked
  obtain ⟨key, -, checked⟩ := bind_eq_some_iff.mp checked
  split at checked
  · cases checked
    simp [handleError]
  · obtain ⟨shifted, -, checked⟩ := bind_eq_some_iff.mp checked
    cases checked
    simp

/-- A whole size that does not fit is reached at once, so the digest is checked too early. -/
theorem receive_of_large_full (depth : Nat) (part1 : HasPart1 sent) (part3 : HasPart3 sent)
    (whole : sent.length = parts123Size sent) (small : parts123Size sent < 2 ^ 15)
    (large : 2 ^ 15 ≤ fullSize sent) {rest : List Bytes}
    (ends : receive hmacSha256 (depth + 1) (client.awaiting [] 0) [sent] =
      some (socket, rest)) : socket.state ≠ .waitingHello := by
  have least := le_parts123Size sent
  have below := fullSize_lt sent
  have size := toInt16_of_lt small
  have wrapped := toInt16_of_le large (by omega)
  rw [receive_single hmacSha256 client depth (by omega),
    checkHelloParts12_awaiting hmacSha256 client _ (by omega), if_pos rfl,
    if_neg (not_not.mpr part1), if_pos (by omega), size,
    checkHelloParts34_awaiting hmacSha256 client _ (by omega), if_pos rfl,
    if_neg (not_not.mpr part3), if_pos (by omega)] at ends
  obtain ⟨next, checked, equal⟩ := map_eq_some_iff.mp ends
  cases equal
  exact checkHelloDigest_decides hmacSha256 checked

theorem receive_of_short_full (depth : Nat) (part1 : HasPart1 sent) (part3 : HasPart3 sent)
    (whole : sent.length = fullSize sent) (small : fullSize sent < 43) :
    receive hmacSha256 (depth + 1) (client.awaiting [] 0) [sent] = none := by
  have least := le_parts123Size sent
  have larger := parts123Size_le_fullSize sent
  have size : toInt16 (parts123Size sent) = parts123Size sent := toInt16_of_lt (by omega)
  have sizeFull : toInt16 (fullSize sent) = fullSize sent := toInt16_of_lt (by omega)
  rw [receive_single hmacSha256 client depth (by omega),
    checkHelloParts12_awaiting hmacSha256 client _ (by omega), if_pos rfl,
    if_neg (not_not.mpr part1), if_pos (by omega), size,
    checkHelloParts34_awaiting hmacSha256 client _ (by omega), if_pos rfl,
    if_neg (not_not.mpr part3), if_pos (by omega), sizeFull]
  have bytes : (client.digest ++ sent).length = 32 + fullSize sent := by
    rw [length_append, client.digestSize, whole]
  have fulldata : subspan (client.digest ++ sent) 0 ((kHelloDigestLength : Int) + fullSize sent) =
      some (client.digest ++ sent) := by
    have inside : 0 + (32 + fullSize sent) ≤ (client.digest ++ sent).length := by omega
    have found := subspan_eq_some inside
    rw [segment_zero, zero_add, ← bytes, take_length, bytes] at found
    exact found
  have outside : subspan (client.digest ++ sent)
      (kHelloDigestLength + kServerHelloDigestPosition) kHelloDigestLength = none := by
    apply subspan_eq_none
    rw [bytes]
    change 32 + fullSize sent < 43 + 32
    omega
  have incoming : (client.awaiting sent (fullSize sent)).incoming = client.digest ++ sent := rfl
  have length : (client.awaiting sent (fullSize sent)).serverHelloLength = fullSize sent := rfl
  unfold checkHelloDigest
  rw [incoming, length, fulldata]
  simp only [bind_eq_bind, bind_some, outside, bind_none, map_none]

/-- At every moment while these bytes come, in whatever chunks, the socket has gone where the
verdict on the bytes so far wants it. -/
def ChecksHello (depth : Nat) (sent : Bytes) : Prop :=
  ∀ chunks : List Bytes, chunks.flatten <+: sent →
    ∃ socket rest,
      TlsSocket.receive hmacSha256 depth (TlsSocket.helloSent client.secret client.digest) chunks =
        some (socket, rest) ∧
      socket.Meets rest (verdict hmacSha256 client.key client.digest chunks.flatten)

theorem ChecksHello.single {depth : Nat} {more : Bytes}
    (checks : ChecksHello hmacSha256 client (depth + 1) (sent ++ more)) :
    ∃ socket rest, receive hmacSha256 (depth + 1) (client.awaiting [] 0) [sent] =
        some (socket, rest) ∧
      socket.Meets rest (verdict hmacSha256 client.key client.digest sent) := by
  have inside : [sent].flatten <+: sent ++ more := by
    rw [flatten_singleton]
    exact prefix_append sent more
  rw [client.awaiting_nil]
  have checked := checks [sent] inside
  rwa [flatten_singleton] at checked

theorem exists_split {count : Nat} (enough : count ≤ sent.length) :
    ∃ first more, first ++ more = sent ∧ first.length = count :=
  ⟨sent.take count, sent.drop count, take_append_drop _ _, length_take_of_le enough⟩

section

variable {depth : Nat} (checks : ChecksHello hmacSha256 client (depth + 1) sent)
include checks

theorem parts123_of_checksHello (enough : 5 ≤ sent.length) (part1 : HasPart1 sent) :
    parts123Size sent < 2 ^ 15 ∨ (sent.length : Int) < toInt16 (parts123Size sent) := by
  by_contra wrong
  obtain ⟨large, reached⟩ := not_or.mp wrong
  have below := parts123Size_lt sent
  have wrapped := toInt16_of_le (not_lt.mp large) (by omega)
  -- five bytes, or as many as the size has become
  have inside : max 5 (parts123Size sent - 2 ^ 16) ≤ sent.length := by omega
  obtain ⟨first, more, rfl, length⟩ := exists_split inside
  have enoughFirst : 5 ≤ first.length := by omega
  have size := parts123Size_append more enoughFirst
  rw [size] at wrapped below large length
  have none := receive_of_large_parts123 hmacSha256 client depth enoughFirst
    ((hasPart1_append more enoughFirst).mp part1) (by omega) (by omega)
  obtain ⟨socket, rest, ends, -⟩ := checks.single
  rw [none] at ends
  cases ends

theorem full_of_checksHello (small : parts123Size sent < 2 ^ 15)
    (enough : parts123Size sent ≤ sent.length) (part1 : HasPart1 sent) (part3 : HasPart3 sent) :
    fullSize sent < 2 ^ 15 := by
  by_contra large
  have least := le_parts123Size sent
  obtain ⟨first, more, rfl, length⟩ := exists_split enough
  have enoughFirst : 5 ≤ first.length := by omega
  have size := parts123Size_append more enoughFirst
  rw [size] at length small
  have sizeFull := fullSize_append more (le_of_eq length.symm)
  have part1First := (hasPart1_append more enoughFirst).mp part1
  have part3First := (hasPart3_append more (le_of_eq length.symm)).mp part3
  obtain ⟨socket, rest, ends, meets⟩ := checks.single
  have decided := receive_of_large_full hmacSha256 client depth part1First part3First length small
    (by omega) ends
  rw [verdict_of_parts _ _ _ part1First (le_of_eq length.symm) part3First,
    if_pos (by omega)] at meets
  exact decided meets.1

theorem long_of_checksHello (enough : fullSize sent ≤ sent.length) (part1 : HasPart1 sent)
    (part3 : HasPart3 sent) :
    43 ≤ fullSize sent := by
  by_contra short
  have least := le_parts123Size sent
  have larger := parts123Size_le_fullSize sent
  obtain ⟨first, more, rfl, length⟩ := exists_split enough
  have enoughFirst : 5 ≤ first.length := by omega
  have size := parts123Size_append more enoughFirst
  have enough123 : parts123Size first ≤ first.length := by omega
  have sizeFull := fullSize_append more enough123
  have none := receive_of_short_full hmacSha256 client depth
    ((hasPart1_append more enoughFirst).mp part1) ((hasPart3_append more enough123).mp part3)
    (by omega) (by omega)
  obtain ⟨socket, rest, ends, -⟩ := checks.single
  rw [none] at ends
  cases ends

end

/-- The hello is checked safely and independently of the chunks exactly if the sizes in it fit. -/
theorem checksHello_iff_fits (depth : Nat) (hmacSha256 : Bytes → Bytes → Bytes) (client : Client)
    (sent : Bytes) : ChecksHello hmacSha256 client (depth + 2) sent ↔ Fits sent := by
  constructor
  · intro checks
    refine ⟨parts123_of_checksHello hmacSha256 client checks, fun enough part1 part3 => ?_⟩
    have least := le_parts123Size sent
    have small : parts123Size sent < 2 ^ 15 := by
      have below := toInt16_le (parts123Size sent)
      refine (parts123_of_checksHello hmacSha256 client checks (by omega) part1).resolve_right ?_
      omega
    exact ⟨full_of_checksHello hmacSha256 client checks small enough part1 part3,
      fun whole => long_of_checksHello hmacSha256 client checks whole part1 part3⟩
  · rintro fits chunks ⟨more, rfl⟩
    have nothing : ([] : Bytes).length < 5 := by decide
    have checked := receive_meets hmacSha256 client depth (.start nothing) chunks
      (by rw [nil_append]; exact fits.of_append)
    rwa [client.awaiting_nil, nil_append] at checked

end Runs

/-- A secret and a digest of the sizes that the socket works with. -/
def exampleClient : Client where
  secret := List.replicate 21 0xEE
  digest := List.replicate 32 0x2A
  secretSize := by decide
  digestSize := by decide

/-- The third part is looked for behind the end where the second one has 65280 bytes. -/
theorem long_second_part_is_not_awaited :
    ¬∃ depth, ∀ (hmacSha256 : Bytes → Bytes → Bytes) (client : Client) (sent : Bytes),
      ChecksHello hmacSha256 client depth sent := by
  rintro ⟨depth, claim⟩
  obtain ⟨socket, rest, ends, -⟩ :=
    claim (fun _ _ => []) exampleClient [0x16, 0x03, 0x03, 0xFF, 0x00]
      [[0x16, 0x03, 0x03, 0xFF, 0x00]] (prefix_refl _)
  cases depth with
  | zero => cases ends
  | succ depth =>
    rw [← exampleClient.awaiting_nil,
      receive_of_large_parts123 _ exampleClient depth (by decide) (by decide) (by decide)
        (by decide)] at ends
    cases ends

end TelegramDesktop.Tls
