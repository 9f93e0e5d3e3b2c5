import TelegramDesktop.DcOptions
import TelegramDesktop.TcpProtocol
import Mathlib.Data.List.GetD

/-!
# Passwords of proxies

The password of an MTProto proxy is a text in hexadecimal or base64 form.  Whether it is
valid is told from the text, following `mtproto/mtproto_proxy_data.cpp`; a connection
goes by the bytes of the secret that the text stands for.
-/

namespace TelegramDesktop.Proxies

open List Option UInt8

open DcOptions (validateSecret)

/-- A text as its UTF-16 units -/
abbrev Text := List UInt16

def between (code : UInt16) (first last : Char) : Bool :=
  first.toNat ≤ code.toNat && code.toNat ≤ last.toNat

/-- The code in lower case, for the ASCII letters that it is used for -/
def toLower (code : UInt16) : Nat :=
  if between code 'A' 'Z' then code.toNat + 32 else code.toNat

/-- Whether a proxy can be used. -/
inductive Status
  | valid
  | unsupported
  | invalid
  deriving DecidableEq, Repr

def isHexDigit (code : UInt16) : Bool :=
  between code 'a' 'f' || between code 'A' 'F' || between code '0' '9'

def isHexMtprotoPassword (password : Text) : Bool :=
  let size := password.length
  if size < 32 ∨ size % 2 = 1 then false
  else password.all isHexDigit

/-- A hex password by its size and its first byte. -/
def hexMtprotoPasswordStatus (password : Text) : Status :=
  let size := password.length / 2
  let type1 := toLower (password.getD 0 0)
  let type2 := toLower (password.getD 1 0)
  let valid := size = 16 ∨ (size = 17 ∧ type1 = 'd'.toNat ∧ type2 = 'd'.toNat) ∨
    (21 ≤ size ∧ type1 = 'e'.toNat ∧ type2 = 'e'.toNat)
  if valid then .valid
  else if size < 16 then .invalid
  else .unsupported

def fromHex (code : UInt16) : Option Nat :=
  if between code '0' '9' then some (code.toNat - '0'.toNat)
  else if between code 'A' 'F' then some (10 + (code.toNat - 'A'.toNat))
  else if between code 'a' 'f' then some (10 + (code.toNat - 'a'.toNat))
  else none

/-- The bytes of pairs of digits; the program ends at anything else. -/
def secretFromHexMtprotoPassword : Text → Option Bytes
  | [] => some []
  | [_] => none
  | first :: second :: rest => do
      let high ← fromHex first
      let low ← fromHex second
      return UInt8.ofNat (high * 16 + low) :: (← secretFromHexMtprotoPassword rest)

/-- The size of a text after one or two `=` at its end are left out. -/
def innerSize (password : Text) : Nat → Nat → Nat
  | 0, result => result
  | rounds + 1, result =>
    if (password.getD (result - 1) 0).toNat ≠ '='.toNat then result
    else innerSize password rounds (result - 1)

/-- The password without the padding at its end. -/
def base64UrlInner (password : Text) : Text :=
  password.take (innerSize password 2 password.length)

def isBase64UrlDigit (code : UInt16) : Bool :=
  between code 'a' 'z' || between code 'A' 'Z' || between code '0' '9' ||
    code.toNat = '_'.toNat || code.toNat = '-'.toNat

def isBase64UrlMtprotoPassword (password : Text) : Bool :=
  let size := password.length
  if size < 22 ∨ size % 4 = 1 then false
  else (base64UrlInner password).all isBase64UrlDigit

/-- A base64 password by its size and first byte. -/
def base64UrlMtprotoPasswordStatus (password : Text) : Status :=
  let size := ((base64UrlInner password).length * 3) / 4
  let first := password.getD 0 0
  let second := password.getD 1 0
  let valid := size = 16 ∨
    (size = 17 ∧ first.toNat = '3'.toNat ∧
      (between second 'Q' 'Z' ∨ between second 'a' 'f')) ∨
    (21 ≤ size ∧ first.toNat = '7'.toNat ∧ between second 'g' 'v')
  if size < 16 then .invalid
  else if valid then .valid
  else .unsupported

/-- The kinds of proxies. -/
inductive ProxyType
  | none
  | socks5
  | http
  | mtproto
  deriving DecidableEq, Repr

/-- A proxy, with its secret as the password where it is an mtproto one. -/
structure ProxyData where
  type : ProxyType
  host : Text
  port : UInt32
  password : Text

/-- The status of any password. -/
def mtprotoPasswordStatus (password : Text) : Status :=
  if isHexMtprotoPassword password then hexMtprotoPasswordStatus password
  else if isBase64UrlMtprotoPassword password then base64UrlMtprotoPasswordStatus password
  else .invalid

def ProxyData.status (proxy : ProxyData) : Status :=
  if proxy.type = .none ∨ proxy.host.isEmpty ∨ proxy.port = 0 then .invalid
  else if proxy.type = .mtproto then mtprotoPasswordStatus proxy.password
  else .valid

/-- What a secret is given to: `AbstractSocket::Create` and the constructor of a TLS
socket, which expects its secret to be long enough and to start with `EE`. -/
inductive AbstractSocket
  | tls (secret : Bytes)
  | tcp

/-- A `tls` socket takes secrets that begin with `0xEE`. -/
def tlsSocket (secret : Bytes) : Option AbstractSocket :=
  if 21 ≤ secret.length ∧ secret.head? = some 0xEE then some (.tls secret) else none

def AbstractSocket.create (secret : Bytes) : Option AbstractSocket :=
  if 21 ≤ secret.length ∧ secret.head? = some 0xEE then tlsSocket secret else some .tcp

/-- The six bits of a base64 digit. -/
def sextet (code : UInt16) : Option Nat :=
  if between code 'A' 'Z' then some (code.toNat - 'A'.toNat)
  else if between code 'a' 'z' then some (code.toNat - 'a'.toNat + 26)
  else if between code '0' '9' then some (code.toNat - '0'.toNat + 52)
  else if code.toNat = '-'.toNat then some 62
  else if code.toNat = '_'.toNat then some 63
  else none

/-- The bytes of a sequence of six bits each; an incomplete byte at the end is dropped. -/
def bytesOfSextets : List Nat → Bytes
  | first :: second :: third :: fourth :: rest =>
    UInt8.ofNat (first * 4 + second / 16) :: UInt8.ofNat (second % 16 * 16 + third / 4) ::
      UInt8.ofNat (third % 4 * 64 + fourth) :: bytesOfSextets rest
  | [first, second, third] =>
    [UInt8.ofNat (first * 4 + second / 16), UInt8.ofNat (second % 16 * 16 + third / 4)]
  | [first, second] => [UInt8.ofNat (first * 4 + second / 16)]
  | _ => []

/-- What `QByteArray::fromBase64` does with base64 for URLs: it decodes the digits and
leaves out padding. -/
def DecodesBase64Url (fromBase64 : Bytes → Bytes) : Prop :=
  ∀ (digits : Text) (values : List Nat) (padding : Nat),
    digits.map sextet = values.map some →
    fromBase64 (digits.map (fun code => UInt8.ofNat code.toNat) ++
      List.replicate padding (UInt8.ofNat '='.toNat)) = bytesOfSextets values

section Secrets

variable (fromBase64 : Bytes → Bytes)

/-- `toLatin1` for codes that Latin-1 has, and `?` for the others -/
def toLatin1 (text : Text) : Bytes :=
  text.map fun code => if code.toNat < 256 then UInt8.ofNat code.toNat else UInt8.ofNat '?'.toNat

def secretFromBase64UrlMtprotoPassword (password : Text) : Bytes :=
  fromBase64 (toLatin1 password)

/-- The secret of a password; the program ends where it is `none`. -/
def secretFromMtprotoPassword (password : Text) : Option Bytes :=
  if isHexMtprotoPassword password then secretFromHexMtprotoPassword password
  else if isBase64UrlMtprotoPassword password then
    some (secretFromBase64UrlMtprotoPassword fromBase64 password)
  else some []

def ProxyData.secret (proxy : ProxyData) : Option Bytes :=
  if proxy.type = .mtproto then secretFromMtprotoPassword fromBase64 proxy.password else none

end Secrets

variable {code : UInt16}

theorem between_iff {first last : Char} :
    between code first last = true ↔ first.toNat ≤ code.toNat ∧ code.toNat ≤ last.toNat := by
  rw [between, Bool.and_eq_true, decide_eq_true_eq, decide_eq_true_eq]

theorem fromHex_spec (digit : isHexDigit code = true) :
    ∃ value, fromHex code = some value ∧ value < 16 ∧
      (toLower code = 'd'.toNat ↔ value = 13) ∧ (toLower code = 'e'.toNat ↔ value = 14) := by
  unfold isHexDigit at digit
  unfold fromHex toLower
  simp only [Bool.or_eq_true, between_iff, Char.reduceToNat] at digit ⊢
  rcases digit with (lower | upper) | number
  · refine ⟨10 + (code.toNat - 97), ?_, by omega, ?_, ?_⟩
    · rw [if_neg (by omega), if_neg (by omega), if_pos lower]
    · rw [if_neg (by omega)]
      omega
    · rw [if_neg (by omega)]
      omega
  · refine ⟨10 + (code.toNat - 65), ?_, by omega, ?_, ?_⟩
    · rw [if_neg (by omega), if_pos upper]
    · rw [if_pos (by omega)]
      omega
    · rw [if_pos (by omega)]
      omega
  · refine ⟨code.toNat - 48, ?_, by omega, ?_, ?_⟩
    · rw [if_pos number]
    · rw [if_neg (by omega)]
      omega
    · rw [if_neg (by omega)]
      omega

variable {password : Text}

theorem secretFromHex_spec (digits : password.all isHexDigit = true)
    (even : password.length % 2 = 0) :
    ∃ secret, secretFromHexMtprotoPassword password = some secret ∧
      secret.length = password.length / 2 := by
  induction password using secretFromHexMtprotoPassword.induct with
  | case1 => exact ⟨[], rfl, rfl⟩
  | case2 digit => exact absurd even (by simp)
  | case3 first second rest ih =>
    rw [all_cons, all_cons, Bool.and_eq_true, Bool.and_eq_true] at digits
    rw [length_cons, length_cons] at even ⊢
    obtain ⟨high, isHigh, _⟩ := fromHex_spec digits.1
    obtain ⟨low, isLow, _⟩ := fromHex_spec digits.2.1
    obtain ⟨secret, isSecret, size⟩ := ih digits.2.2 (by omega)
    refine ⟨ofNat (high * 16 + low) :: secret, ?_, ?_⟩
    · rw [secretFromHexMtprotoPassword, isHigh, isLow, isSecret]
      rfl
    · rw [length_cons, size]
      omega

theorem secretFromHex_head {secret : Bytes}
    (digits : password.all isHexDigit = true) (some : 2 ≤ password.length)
    (decoded : secretFromHexMtprotoPassword password = Option.some secret) :
    (secret.head? = Option.some 0xDD ↔
      toLower (password.getD 0 0) = 'd'.toNat ∧ toLower (password.getD 1 0) = 'd'.toNat) ∧
    (secret.head? = Option.some 0xEE ↔
      toLower (password.getD 0 0) = 'e'.toNat ∧ toLower (password.getD 1 0) = 'e'.toNat) := by
  match password, some with
  | first :: second :: rest, _ =>
    rw [all_cons, all_cons, Bool.and_eq_true, Bool.and_eq_true] at digits
    obtain ⟨high, isHigh, highSmall, highD, highE⟩ := fromHex_spec digits.1
    obtain ⟨low, isLow, lowSmall, lowD, lowE⟩ := fromHex_spec digits.2.1
    rw [secretFromHexMtprotoPassword, isHigh, isLow] at decoded
    change ((secretFromHexMtprotoPassword rest).bind fun tail =>
      Option.some (ofNat (high * 16 + low) :: tail)) = Option.some secret at decoded
    obtain ⟨tail, _, decoded⟩ := bind_eq_some_iff.mp decoded
    obtain rfl := Option.some.inj decoded
    have first? : (first :: second :: rest).getD 0 0 = first := rfl
    have second? : (first :: second :: rest).getD 1 0 = second := rfl
    rw [first?, second?, highD, lowD, highE, lowE, head?_cons, some_inj,
      some_inj, ← UInt8.toNat_inj, ← UInt8.toNat_inj, UInt8.toNat_ofNat']
    constructor
    · show (high * 16 + low) % 256 = 221 ↔ _
      omega
    · show (high * 16 + low) % 256 = 238 ↔ _
      omega

theorem validateSecret_iff {secret : Bytes} (nonempty : secret ≠ []) :
    validateSecret secret = true ↔ secret.length = 16 ∨
      (secret.length = 17 ∧ secret.head? = some 0xDD) ∨
      (21 ≤ secret.length ∧ secret.head? = some 0xEE) := by
  have notEmpty : secret.isEmpty = false := isEmpty_eq_false_iff.mpr nonempty
  rw [validateSecret, notEmpty]
  simp only [Bool.or_eq_true, Bool.and_eq_true, decide_eq_true_eq, Bool.false_eq_true, or_false]
  constructor
  · rintro ((long | middle) | short)
    · exact .inr (.inr long)
    · exact .inr (.inl middle)
    · exact .inl short
  · rintro (short | middle | long)
    · exact .inr short
    · exact .inl (.inr middle)
    · exact .inl (.inl long)

theorem hexStatus_iff (isHex : isHexMtprotoPassword password = true) :
    ∃ secret, secretFromHexMtprotoPassword password = some secret ∧
      (hexMtprotoPasswordStatus password = .valid ↔
        secret ≠ [] ∧ validateSecret secret = true) := by
  unfold isHexMtprotoPassword at isHex
  dsimp only at isHex
  split at isHex
  · cases isHex
  next shape =>
    rw [not_or] at shape
    obtain ⟨secret, decoded, size⟩ := secretFromHex_spec isHex (by omega)
    obtain ⟨isD, isE⟩ := secretFromHex_head isHex (by omega) decoded
    have nonempty : secret ≠ [] := by
      intro none
      rw [none, length_nil] at size
      omega
    refine ⟨secret, decoded, ?_⟩
    rw [and_iff_right nonempty, validateSecret_iff nonempty, isD, isE, size]
    unfold hexMtprotoPasswordStatus
    dsimp only
    split
    next valid =>
      exact iff_of_true rfl valid
    next notValid =>
      refine iff_of_false ?_ notValid
      split
      · exact Status.noConfusion
      · exact Status.noConfusion

/-- What is left out in some rounds are as many `=`, or fewer. -/
theorem innerSize_spec (rounds : Nat) {result : Nat}
    (inside : result ≤ password.length) (long : rounds < result) :
    ∃ padding ≤ rounds, password.take result =
      password.take (innerSize password rounds result) ++
        replicate padding (UInt16.ofNat '='.toNat) := by
  induction rounds generalizing result with
  | zero => exact ⟨0, le_refl 0, (append_nil _).symm⟩
  | succ rounds ih =>
    unfold innerSize
    split
    · exact ⟨0, Nat.zero_le _, (append_nil _).symm⟩
    next isPadding =>
      obtain ⟨before, rfl⟩ : ∃ before, result = before + 1 := ⟨result - 1, by omega⟩
      rw [Nat.add_sub_cancel] at isPadding ⊢
      obtain ⟨padding, few, split⟩ := ih (by omega : before ≤ password.length) (by omega)
      have last : password.getD before 0 = UInt16.ofNat '='.toNat :=
        UInt16.toNat_inj.mp (not_not.mp isPadding)
      refine ⟨padding + 1, by omega, ?_⟩
      rw [getD_eq_getElem _ _ (by omega)] at last
      rw [take_succ_eq_append_getElem (by omega), last, split, append_assoc, replicate_succ']

theorem base64UrlInner_spec (password : Text) (long : 2 < password.length) :
    ∃ padding ≤ 2, password = base64UrlInner password ++
      replicate padding (UInt16.ofNat '='.toNat) := by
  have whole := innerSize_spec 2 (le_refl password.length) long
  rwa [take_length] at whole

theorem sextet_spec (digit : isBase64UrlDigit code = true) :
    ∃ value, sextet code = some value ∧ value < 64 ∧
      (value = 55 ↔ code.toNat = '3'.toNat) ∧ (value = 59 ↔ code.toNat = '7'.toNat) ∧
      (16 ≤ value ∧ value < 32 ↔
        between code 'Q' 'Z' = true ∨ between code 'a' 'f' = true) ∧
      (32 ≤ value ∧ value < 48 ↔ between code 'g' 'v' = true) := by
  unfold isBase64UrlDigit at digit
  unfold sextet
  simp only [Bool.or_eq_true, between_iff, Char.reduceToNat, decide_eq_true_eq] at digit ⊢
  rcases digit with (((lower | upper) | number) | low) | dash
  · refine ⟨code.toNat - 97 + 26, ?_, by omega, by omega, by omega, by omega, by omega⟩
    rw [if_neg (by omega), if_pos lower]
  · refine ⟨code.toNat - 65, ?_, by omega, by omega, by omega, by omega, by omega⟩
    rw [if_pos upper]
  · refine ⟨code.toNat - 48 + 52, ?_, by omega, by omega, by omega, by omega, by omega⟩
    rw [if_neg (by omega), if_neg (by omega), if_pos number]
  · refine ⟨63, ?_, by omega, by omega, by omega, by omega, by omega⟩
    rw [if_neg (by omega), if_neg (by omega), if_neg (by omega), if_neg (by omega), if_pos low]
  · refine ⟨62, ?_, by omega, by omega, by omega, by omega, by omega⟩
    rw [if_neg (by omega), if_neg (by omega), if_neg (by omega), if_pos dash]

theorem length_bytesOfSextets (values : List Nat) :
    (bytesOfSextets values).length = values.length * 3 / 4 := by
  induction values using bytesOfSextets.induct with
  | case1 first second third fourth rest ih =>
    simp only [bytesOfSextets, length_cons, ih]
    omega
  | case2 => simp [bytesOfSextets]
  | case3 => simp [bytesOfSextets]
  | case4 values notFour notThree notTwo =>
    match values with
    | [] => simp [bytesOfSextets]
    | [_] => simp [bytesOfSextets]
    | [_, _] => exact absurd rfl (notTwo _ _)
    | [_, _, _] => exact absurd rfl (notThree _ _ _)
    | _ :: _ :: _ :: _ :: _ => exact absurd rfl (notFour _ _ _ _ _)

theorem sextets_spec {digits : Text} (all : digits.all isBase64UrlDigit = true) :
    (∃ values : List Nat, digits.map sextet = values.map some) ∧
      toLatin1 digits = digits.map fun code => ofNat code.toNat := by
  induction digits with
  | nil => exact ⟨⟨[], rfl⟩, rfl⟩
  | cons code digits ih =>
    rw [all_cons, Bool.and_eq_true] at all
    obtain ⟨⟨values, rest⟩, latin⟩ := ih all.2
    obtain ⟨value, isValue, _⟩ := sextet_spec all.1
    have small : code.toNat < 256 := by
      have digit := all.1
      unfold isBase64UrlDigit at digit
      simp only [Bool.or_eq_true, between_iff, Char.reduceToNat, decide_eq_true_eq] at digit
      omega
    refine ⟨⟨value :: values, ?_⟩, ?_⟩
    · rw [map_cons, map_cons, isValue, rest]
    · unfold toLatin1 at latin ⊢
      rw [map_cons, map_cons, latin, if_pos small]

theorem bytesOfSextets_head {digits : Text} {values : List Nat} (some : 2 ≤ digits.length)
    (all : digits.all isBase64UrlDigit = true)
    (sextets : digits.map sextet = values.map Option.some) :
    ((bytesOfSextets values).head? = Option.some 0xDD ↔ (digits.getD 0 0).toNat = '3'.toNat ∧
      (between (digits.getD 1 0) 'Q' 'Z' = true ∨ between (digits.getD 1 0) 'a' 'f' = true)) ∧
    ((bytesOfSextets values).head? = Option.some 0xEE ↔
      (digits.getD 0 0).toNat = '7'.toNat ∧ between (digits.getD 1 0) 'g' 'v' = true) := by
  match digits, values, some with
  | first :: second :: rest, values, _ =>
    rw [all_cons, all_cons, Bool.and_eq_true, Bool.and_eq_true] at all
    obtain ⟨high, isHigh, highSmall, three, seven, _⟩ := sextet_spec all.1
    obtain ⟨low, isLow, lowSmall, _, _, quarter, half⟩ := sextet_spec all.2.1
    rw [map_cons, map_cons, isHigh, isLow] at sextets
    obtain ⟨tail, rfl⟩ : ∃ tail, values = high :: low :: tail := by
      match values, sextets with
      | _ :: _ :: tail, sextets =>
        rw [map_cons, map_cons, cons.injEq, cons.injEq, some_inj, some_inj] at sextets
        exact ⟨tail, by rw [sextets.1, sextets.2.1]⟩
    have head : (bytesOfSextets (high :: low :: tail)).head? =
        Option.some (ofNat (high * 4 + low / 16)) := by
      match tail with
      | [] => rfl
      | [_] => rfl
      | _ :: _ :: _ => rfl
    have first? : (first :: second :: rest).getD 0 0 = first := rfl
    have second? : (first :: second :: rest).getD 1 0 = second := rfl
    rw [head, first?, second?, ← three, ← seven, ← quarter, ← half, some_inj,
      some_inj, ← UInt8.toNat_inj, ← UInt8.toNat_inj, UInt8.toNat_ofNat']
    constructor
    · show (high * 4 + low / 16) % 256 = 221 ↔ _
      omega
    · show (high * 4 + low / 16) % 256 = 238 ↔ _
      omega

theorem base64Status_iff {fromBase64 : Bytes → Bytes} (decodes : DecodesBase64Url fromBase64)
    (isBase64 : isBase64UrlMtprotoPassword password = true) :
    base64UrlMtprotoPasswordStatus password = .valid ↔
      secretFromBase64UrlMtprotoPassword fromBase64 password ≠ [] ∧
        validateSecret (secretFromBase64UrlMtprotoPassword fromBase64 password) = true := by
  unfold isBase64UrlMtprotoPassword at isBase64
  dsimp only at isBase64
  split at isBase64
  · cases isBase64
  rename_i shape
  rw [not_or] at shape
  obtain ⟨padding, few, split⟩ := base64UrlInner_spec password (by omega)
  obtain ⟨⟨values, sextets⟩, latin⟩ := sextets_spec isBase64
  have long : 20 ≤ (base64UrlInner password).length := by
    have length := congrArg length split
    rw [length_append, length_replicate] at length
    omega
  have isSecret : secretFromBase64UrlMtprotoPassword fromBase64 password =
      bytesOfSextets values := by
    have spaces : toLatin1 (replicate padding (UInt16.ofNat '='.toNat)) =
        replicate padding (ofNat '='.toNat) := map_replicate ..
    rw [secretFromBase64UrlMtprotoPassword, split]
    unfold toLatin1 at latin spaces ⊢
    rw [map_append, latin, spaces]
    exact decodes _ values padding sextets
  have size : (bytesOfSextets values).length = (base64UrlInner password).length * 3 / 4 := by
    have length := congrArg length sextets
    rw [length_map, length_map] at length
    rw [length_bytesOfSextets, length]
  have first : password.getD 0 0 = (base64UrlInner password).getD 0 0 := by
    conv_lhs => rw [split]
    exact getD_append _ _ _ _ (by omega)
  have second : password.getD 1 0 = (base64UrlInner password).getD 1 0 := by
    conv_lhs => rw [split]
    exact getD_append _ _ _ _ (by omega)
  have nonempty : bytesOfSextets values ≠ [] := by
    intro none
    rw [none, length_nil] at size
    omega
  obtain ⟨isD, isE⟩ := bytesOfSextets_head (by omega) isBase64 sextets
  rw [isSecret, and_iff_right nonempty, validateSecret_iff nonempty, isD, isE, size, ← first,
    ← second]
  unfold base64UrlMtprotoPasswordStatus
  dsimp only
  split
  · refine iff_of_false Status.noConfusion ?_
    omega
  · split
    next valid =>
      exact iff_of_true rfl valid
    next notValid =>
      exact iff_of_false Status.noConfusion notValid

theorem create_isSome {secret : Bytes} (nonempty : secret ≠ [])
    (valid : validateSecret secret = true) :
    (∃ protocol, Tcp.Protocol.create secret = some protocol) ∧
      ∃ socket, AbstractSocket.create secret = some socket := by
  constructor
  · have key (long : 17 ≤ secret.length) : ∃ part, Tls.subspan secret 1 16 = some part := by
      unfold Tls.subspan
      rw [if_neg (by omega), if_neg (by decide), if_neg (by simp only [Int.reduceToNat]; omega)]
      exact ⟨_, rfl⟩
    unfold Tcp.Protocol.create
    rcases (validateSecret_iff nonempty).mp valid with short | middle | long
    · rw [if_neg (by omega), if_pos short]
      exact ⟨_, rfl⟩
    · obtain ⟨part, isPart⟩ := key (by omega)
      rw [if_pos (.inr middle), isPart]
      exact ⟨_, rfl⟩
    · obtain ⟨part, isPart⟩ := key (by omega)
      rw [if_pos (.inl long), isPart]
      exact ⟨_, rfl⟩
  · unfold AbstractSocket.create
    split
    next isTls =>
      rw [tlsSocket, if_pos isTls]
      exact ⟨_, rfl⟩
    · exact ⟨_, rfl⟩

theorem passwordStatus_iff {fromBase64 : Bytes → Bytes} (decodes : DecodesBase64Url fromBase64)
    (password : Text) :
    ∃ secret, secretFromMtprotoPassword fromBase64 password = some secret ∧
      (mtprotoPasswordStatus password = .valid ↔
        secret ≠ [] ∧ validateSecret secret = true) := by
  unfold secretFromMtprotoPassword mtprotoPasswordStatus
  by_cases isHex : isHexMtprotoPassword password = true
  · rw [if_pos isHex, if_pos isHex]
    exact hexStatus_iff isHex
  · rw [if_neg isHex, if_neg isHex]
    by_cases isBase64 : isBase64UrlMtprotoPassword password = true
    · rw [if_pos isBase64, if_pos isBase64]
      exact ⟨_, rfl, base64Status_iff decodes isBase64⟩
    · rw [if_neg isBase64, if_neg isBase64]
      exact ⟨[], rfl, iff_of_false Status.noConfusion fun valid => valid.1 rfl⟩

/-- A password is valid exactly if its secret is, and a valid proxy has a protocol and a
socket for its secret. -/
theorem mtprotoPassword_valid_iff (fromBase64 : Bytes → Bytes)
    (decodes : DecodesBase64Url fromBase64) :
    (∀ password, ∃ secret, secretFromMtprotoPassword fromBase64 password = some secret ∧
      (mtprotoPasswordStatus password = .valid ↔
        secret ≠ [] ∧ validateSecret secret = true)) ∧
    ∀ proxy : ProxyData, proxy.type = .mtproto → proxy.status = .valid →
      ∃ secret protocol socket, proxy.secret fromBase64 = some secret ∧
        Tcp.Protocol.create secret = some protocol ∧
        AbstractSocket.create secret = some socket := by
  refine ⟨passwordStatus_iff decodes, fun proxy isMtproto valid => ?_⟩
  obtain ⟨secret, isSecret, status⟩ := passwordStatus_iff decodes proxy.password
  unfold ProxyData.status at valid
  split at valid
  · cases valid
  · obtain ⟨nonempty, isValid⟩ := status.mp valid
    obtain ⟨⟨protocol, isProtocol⟩, socket, isSocket⟩ := create_isSome nonempty isValid
    refine ⟨secret, protocol, socket, ?_, isProtocol, isSocket⟩
    rw [ProxyData.secret, if_pos isMtproto]
    exact isSecret

/-- A decoder that skips what is no digit. -/
def skippingFromBase64 (text : Bytes) : Bytes :=
  bytesOfSextets (text.filterMap fun byte => sextet (UInt16.ofNat byte.toNat))

theorem sextet_small {value : Nat} (isValue : sextet code = some value) :
    code.toNat < 256 := by
  unfold sextet at isValue
  simp only [between_iff, Char.reduceToNat] at isValue
  split at isValue
  · omega
  split at isValue
  · omega
  split at isValue
  · omega
  split at isValue
  · omega
  split at isValue
  · omega
  · cases isValue

theorem decodesBase64Url_skipping : DecodesBase64Url skippingFromBase64 := by
  intro digits values padding sextets
  have skipped : (replicate padding (ofNat '='.toNat)).filterMap
      (fun byte => sextet (UInt16.ofNat byte.toNat)) = [] :=
    filterMap_replicate_of_none rfl
  unfold skippingFromBase64
  rw [filterMap_append, skipped, append_nil]
  congr 1
  induction digits generalizing values with
  | nil =>
    cases values with
    | nil => rfl
    | cons value values => cases sextets
  | cons code digits ih =>
    cases values with
    | nil => cases sextets
    | cons value values =>
      rw [map_cons, map_cons, cons.injEq] at sextets
      have small := sextet_small sextets.1
      have same : UInt16.ofNat (ofNat code.toNat).toNat = code := by
        rw [toNat_ofNat', Nat.mod_eq_of_lt small]
        exact UInt16.ofNat_toNat
      rw [map_cons, filterMap_cons, same, sextets.1, ih values sextets.2]

/-- The secret of a TLS proxy for the domain `a.io` in base64 for URLs -/
def tlsPassword : Text :=
  "7gAAAAAAAAAAAAAAAAAAAABhLmlv".toList.map fun char => UInt16.ofNat char.toNat

def tlsProxy : ProxyData where
  type := .mtproto
  host := [97, 46, 105, 111]
  port := 443
  password := tlsPassword

/-- Sixteen bytes in hexadecimal form, and a secret in base64 -/
theorem mtprotoPassword_valid_iff_zeros :
    (∃ secret, secretFromMtprotoPassword skippingFromBase64 (List.replicate 32 48) =
        some secret ∧
      (mtprotoPasswordStatus (List.replicate 32 48) = .valid ↔
        secret ≠ [] ∧ validateSecret secret = true)) ∧
    (∃ secret, secretFromMtprotoPassword skippingFromBase64 tlsPassword = some secret ∧
      (mtprotoPasswordStatus tlsPassword = .valid ↔
        secret ≠ [] ∧ validateSecret secret = true)) ∧
    ∃ secret protocol socket, tlsProxy.secret skippingFromBase64 = some secret ∧
      Tcp.Protocol.create secret = some protocol ∧ AbstractSocket.create secret = some socket := by
  obtain ⟨secrets, proxies⟩ :=
    mtprotoPassword_valid_iff skippingFromBase64 decodesBase64Url_skipping
  exact ⟨secrets _, secrets _, proxies tlsProxy rfl (by decide +kernel)⟩

end TelegramDesktop.Proxies
