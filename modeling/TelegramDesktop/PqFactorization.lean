import TelegramDesktop.ByteStrings
import TelegramDesktop.PollardRho
import TelegramDesktop.WhileLoops
import Mathlib.Algebra.BigOperators.Group.Finset.Basic

/-!
# Factorization of pq

The number that a server sends is factorized as in
`mtproto/details/mtproto_dc_key_creator.cpp`.  A function fails where a 64-bit value would
overflow or where the fuel of a loop is not enough.  Numbers that do not fit are factorized
elsewhere.
-/

namespace TelegramDesktop.PqFactorization

/-- An addition that does not overflow. -/
def add64 (a b : Nat) : Option Nat := if a + b < 2 ^ 64 then some (a + b) else none

def sub64 (a b : Nat) : Option Nat := if b ≤ a then some (a - b) else none

def shl64 (a shift : Nat) : Option Nat := if a <<< shift < 2 ^ 64 then some (a <<< shift) else none

section Factorizing

variable (fuel : Nat)

def halveBoth (a b : Nat) : Option (Nat × Nat × Nat) :=
  whileLoop (fun (a, b, shift) =>
    some (if a &&& 1 = 0 ∧ b &&& 1 = 0 then .inl (a >>> 1, b >>> 1, shift + 1)
      else .inr (a, b, shift))) fuel (a, b, 0)

/-- All factors two are taken out. -/
def halve (a : Nat) : Option Nat :=
  whileLoop (fun a => some (if a &&& 1 = 0 then .inl (a >>> 1) else .inr a)) fuel a

/-- One round of the binary gcd. -/
def subtractRound (shift : Nat) : Nat × Nat → Option ((Nat × Nat) ⊕ Nat)
  | (a, b) =>
    (halve fuel a).bind fun a =>
      (halve fuel b).bind fun b =>
        if a > b then (sub64 a b).map fun a => .inl (a, b)
        else if b > a then (sub64 b a).map fun b => .inl (a, b)
        else (shl64 a shift).map .inr

/-- The binary gcd of the source. -/
def gcd (a b : Nat) : Option Nat :=
  if a = 0 then some b
  else if b = 0 then some a
  else
    (halveBoth fuel a b).bind fun (a, b, shift) =>
      whileLoop (subtractRound fuel shift) fuel (a, b)

/-- `c += a; if (c >= pq) c -= pq` -/
def addMod (pq c a : Nat) : Option Nat :=
  (add64 c a).bind fun c => if c ≥ pq then sub64 c pq else some c

/-- `c += a * b` -/
def addProductRound (pq : Nat) : Nat × Nat × Nat → Option ((Nat × Nat × Nat) ⊕ Nat)
  | (a, b, c) =>
    if b = 0 then some (.inr c)
    else
      (if b &&& 1 ≠ 0 then addMod pq c a else some c).bind fun c =>
        (addMod pq a a).map fun a => .inl (a, b >>> 1, c)

/-- `a * b + c` modulo `pq`, bit by bit. -/
def addProduct (pq a b c : Nat) : Option Nat := whileLoop (addProductRound pq) fuel (a, b, c)

/-- The random numbers of one round. -/
structure Draw where
  index : Fin 16
  value : UInt64

/-- The variables of a round. -/
structure RoundState where
  x : Nat
  y : Nat
  j : Nat
  iter : Nat
  g : Nat

/-- The round returns a divisor and the count of all steps. -/
def roundStep (pq q lim : Nat) (state : RoundState) : Option (RoundState ⊕ (Nat × Nat)) :=
  if state.j < lim then
    let iter := state.iter + 1
    (addProduct fuel pq state.x state.x q).bind fun x =>
      (if x < state.y then (add64 pq x).bind fun sum => sub64 sum state.y
        else sub64 x state.y).bind fun z =>
          (gcd fuel z pq).map fun g =>
            if g ≠ 1 then .inr (g, iter)
            else
              .inl { x := x
                     y := if state.j &&& (state.j - 1) = 0 then x else state.y
                     j := state.j + 1
                     iter := iter
                     g := g }
  else some (.inr (state.g, state.iter))

/-- One start of the search, with its random draw. -/
def searchRound (draws : Nat → Draw) (pq : Nat) :
    Nat × Nat × Nat → Option ((Nat × Nat × Nat) ⊕ Nat)
  | (i, iter, g) =>
    if i < 3 ∨ iter < 1000 then
      let q := (17 + (draws i).index.val) % (pq - 1)
      let x := (draws i).value.toNat % (pq - 1) + 1
      let lim := 1 <<< (min 5 i + 18)
      (whileLoop (roundStep fuel pq q lim) fuel ⟨x, x, 1, iter, g⟩).map fun (g, iter) =>
        if 1 < g ∧ g < pq then .inr g else .inl (i + 1, iter, g)
    else some (.inr g)

/-- A divisor of a number of 63 bits at most. -/
def factorizeSmallPQ (draws : Nat → Draw) (pq : Nat) : Option Nat :=
  if pq < 2 ∨ pq > 1 <<< 63 then some 1
  else
    (whileLoop (searchRound fuel draws pq) fuel (0, 0, 0)).map fun g =>
      if g ≠ 0 then
        let other := pq / g
        if other < g then other else g
      else g

/-- The two factors, the smaller one first. -/
structure ParsedPQ where
  p : Bytes := []
  q : Bytes := []
  deriving DecidableEq

def factorizePQ (factorizeBigPQ : Bytes → ParsedPQ) (draws : Nat → Draw) (pqStr : Bytes) :
    Option ParsedPQ :=
  if pqStr.length > 8 ∨ pqStr.length = 8 ∧ (pqStr.headD 0).toNat &&& 128 ≠ 0 then
    some (factorizeBigPQ pqStr)
  else
    (pqStr.foldlM (fun pq byte => (shl64 pq 8).map (· ||| byte.toNat)) 0).bind fun pq =>
      (factorizeSmallPQ fuel draws pq).map fun p =>
        if p = 0 ∨ pq % p ≠ 0 then {}
        else { p := (littleEndian 4 p).reverse, q := (littleEndian 4 (pq / p)).reverse }

end Factorizing

section Search

variable (pq : Nat) (draws : Nat → Draw)

/-- The steps that one start of the search takes. -/
def stepsOf (i : Nat) : Nat :=
  PollardRho.lastStep pq ((17 + (draws i).index.val) % (pq - 1))
    ((draws i).value.toNat % (pq - 1) + 1) (2 ^ (min 5 i + 18))

/-- What one start of the search finds. -/
def divisorOf (i : Nat) : Nat :=
  PollardRho.divisor pq ((17 + (draws i).index.val) % (pq - 1))
    ((draws i).value.toNat % (pq - 1) + 1) (stepsOf pq draws i)

/-- The steps of the starts before this one. -/
def stepsBefore (i : Nat) : Nat := ∑ before ∈ Finset.range i, stepsOf pq draws before

/-- A round is made if it is one of the first three, or if there were few steps before. -/
def IsMade (i : Nat) : Prop := i < 3 ∨ stepsBefore pq draws i < 1000

/-- A divisor other than one and the number itself. -/
def IsProper (divisor : Nat) : Prop := 1 < divisor ∧ divisor < pq

instance (divisor : Nat) : Decidable (IsProper pq divisor) :=
  inferInstanceAs (Decidable (1 < divisor ∧ divisor < pq))

/-- The first walk that ends with a proper divisor ends with this one. -/
def Finds (divisor : Nat) : Prop :=
  ∃ i, IsMade pq draws i ∧ (∀ before, before < i → ¬IsProper pq (divisorOf pq draws before)) ∧
    IsProper pq (divisorOf pq draws i) ∧ divisorOf pq draws i = divisor

end Search

/-- More than the loops make rounds. -/
def enoughFuel : Nat := 2 ^ 66

/-- Greatest common divisors are right, nothing overflows and the loops end. -/
structure Ends (factorizeBigPQ : Bytes → ParsedPQ) (draws : Nat → Draw) (pqStr : Bytes)
    (parsed : ParsedPQ) : Prop where
  gcd_eq : ∀ fuel, enoughFuel ≤ fuel → ∀ a b : UInt64,
    gcd fuel a.toNat b.toNat = some (Nat.gcd a.toNat b.toNat)
  returned : ∀ fuel, enoughFuel ≤ fuel →
    factorizePQ fuel factorizeBigPQ draws pqStr = some parsed

/-- Two factors that are found give the number, the smaller one first. -/
def Sound (factorizeBigPQ : Bytes → ParsedPQ) (draws : Nat → Draw) (pqStr : Bytes) : Prop :=
  ∃ parsed, Ends factorizeBigPQ draws pqStr parsed ∧
    (parsed.p ≠ [] → parsed.q ≠ [] →
      ofBigEndian parsed.p * ofBigEndian parsed.q = ofBigEndian pqStr ∧
        1 < ofBigEndian parsed.p ∧ ofBigEndian parsed.p ≤ ofBigEndian parsed.q)

end TelegramDesktop.PqFactorization
