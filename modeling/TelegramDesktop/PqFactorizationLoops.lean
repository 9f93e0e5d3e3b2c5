import TelegramDesktop.PqFactorization
import Mathlib.Data.Nat.Prime.Basic
import Mathlib.Data.Nat.ModEq

/-!
# The loops of the factorization

Every loop has an invariant that tells what it computes and a variant that bounds its
rounds.
-/

namespace TelegramDesktop.PqFactorization

open Option

theorem add64_eq {a b : Nat} (small : a + b < 2 ^ 64) : add64 a b = some (a + b) := if_pos small

theorem sub64_eq {a b : Nat} (below : b ≤ a) : sub64 a b = some (a - b) := if_pos below

theorem shl64_eq {a shift : Nat} (small : a * 2 ^ shift < 2 ^ 64) :
    shl64 a shift = some (a * 2 ^ shift) := by
  rw [shl64, Nat.shiftLeft_eq, if_pos small]

theorem half_mul_pow {a exponent : Nat} (even : a % 2 = 0) :
    a / 2 * 2 ^ (exponent + 1) = a * 2 ^ exponent := by
  rw [Nat.pow_succ, Nat.mul_comm (2 ^ exponent) 2, ← Nat.mul_assoc,
    Nat.div_mul_cancel (Nat.dvd_of_mod_eq_zero even)]

theorem halve_spec {fuel a : Nat} (positive : 0 < a) (enough : a < fuel) :
    ∃ odd, halve fuel a = some odd ∧ odd % 2 = 1 ∧ ∃ exponent, a = odd * 2 ^ exponent := by
  apply whileLoop_of_variant (fun state => 0 < state ∧ ∃ exponent, a = state * 2 ^ exponent) id
  · rintro state ⟨statePositive, exponent, same⟩
    unfold GoodRound
    simp only [Nat.and_one_is_mod, Nat.shiftRight_one]
    by_cases even : state % 2 = 0
    · refine .inl ⟨state / 2, by rw [if_pos even], ⟨by omega, exponent + 1, ?_⟩, ?_⟩
      · rw [half_mul_pow even, same]
      · exact Nat.div_lt_self statePositive (by decide)
    · exact .inr ⟨state, by rw [if_neg even], by omega, exponent, same⟩
  · exact ⟨positive, 0, by rw [Nat.pow_zero, Nat.mul_one]⟩
  · exact enough

theorem halveBoth_spec {fuel a b : Nat} (aPositive : 0 < a) (enough : a < fuel) :
    ∃ halved, halveBoth fuel a b = some halved ∧ a = halved.1 * 2 ^ halved.2.2 ∧
      b = halved.2.1 * 2 ^ halved.2.2 ∧ (halved.1 % 2 = 1 ∨ halved.2.1 % 2 = 1) := by
  apply whileLoop_of_variant
    (fun state => a = state.1 * 2 ^ state.2.2 ∧ b = state.2.1 * 2 ^ state.2.2)
    (fun state => state.1)
  · rintro ⟨first, second, shift⟩ ⟨aSame, bSame⟩
    unfold GoodRound
    simp only [Nat.and_one_is_mod, Nat.shiftRight_one]
    by_cases even : first % 2 = 0 ∧ second % 2 = 0
    · refine .inl ⟨(first / 2, second / 2, shift + 1), by rw [if_pos even], ⟨?_, ?_⟩, ?_⟩
      · rw [half_mul_pow even.1, aSame]
      · rw [half_mul_pow even.2, bSame]
      · have firstPositive : 0 < first := Nat.pos_of_mul_pos_right (aSame ▸ aPositive)
        exact Nat.div_lt_self firstPositive (by decide)
    · refine .inr ⟨(first, second, shift), by rw [if_neg even], aSame, bSame, ?_⟩
      dsimp only
      omega
  · exact ⟨by rw [Nat.pow_zero, Nat.mul_one], by rw [Nat.pow_zero, Nat.mul_one]⟩
  · exact enough

theorem gcd_of_halved {a b first second i k : Nat} (aSame : a = first * 2 ^ i)
    (bSame : b = second * 2 ^ k) (firstOdd : first % 2 = 1) (secondOdd : second % 2 = 1)
    (odd : a % 2 = 1 ∨ b % 2 = 1) : Nat.gcd a b = Nat.gcd first second := by
  have apart : ∀ {value exponent : Nat}, value % 2 = 1 → Nat.Coprime (2 ^ exponent) value :=
    fun isOdd => (Nat.coprime_two_left.mpr (Nat.odd_iff.mpr isOdd)).pow_left _
  rcases odd with aOdd | bOdd
  · rw [bSame, Nat.gcd_comm, Nat.Coprime.gcd_mul_right_cancel second (apart aOdd), Nat.gcd_comm,
      aSame, Nat.Coprime.gcd_mul_right_cancel first (apart secondOdd)]
  · rw [aSame, Nat.Coprime.gcd_mul_right_cancel first (apart bOdd), bSame, Nat.gcd_comm,
      Nat.Coprime.gcd_mul_right_cancel second (apart firstOdd), Nat.gcd_comm]

theorem subtract_spec {fuel a b shift : Nat} (aPositive : 0 < a) (bPositive : 0 < b)
    (odd : a % 2 = 1 ∨ b % 2 = 1) (enough : a + b < fuel)
    (fits : Nat.gcd a b * 2 ^ shift < 2 ^ 64) :
    ∃ result, whileLoop (subtractRound fuel shift) fuel (a, b) = some result ∧
      result = Nat.gcd a b * 2 ^ shift := by
  apply whileLoop_of_variant
    (fun state => 0 < state.1 ∧ 0 < state.2 ∧ (state.1 % 2 = 1 ∨ state.2 % 2 = 1) ∧
      state.1 + state.2 < fuel ∧ Nat.gcd state.1 state.2 = Nat.gcd a b)
    (fun state => state.1 + state.2)
  · rintro ⟨first, second⟩ ⟨firstPositive, secondPositive, oneOdd, below, same⟩
    dsimp only at firstPositive secondPositive oneOdd below same
    obtain ⟨x, isX, xOdd, i, firstSame⟩ := halve_spec firstPositive (by omega : first < fuel)
    obtain ⟨y, isY, yOdd, k, secondSame⟩ := halve_spec secondPositive (by omega : second < fuel)
    have common := gcd_of_halved firstSame secondSame xOdd yOdd oneOdd
    have xBelow : x ≤ first := firstSame ▸ Nat.le_mul_of_pos_right _ (Nat.two_pow_pos i)
    have yBelow : y ≤ second := secondSame ▸ Nat.le_mul_of_pos_right _ (Nat.two_pow_pos k)
    unfold GoodRound subtractRound
    simp only [isX, isY, bind_some]
    rcases Nat.lt_trichotomy x y with less | equal | more
    · refine .inl ⟨(x, y - x), ?_, ⟨by dsimp only; omega, by dsimp only; omega,
        .inl xOdd, by dsimp only; omega, ?_⟩, by dsimp only; omega⟩
      · rw [if_neg (by omega), if_pos less, sub64_eq less.le, map_some]
      · rw [← same, common]
        exact Nat.gcd_sub_self_right less.le
    · refine .inr ⟨Nat.gcd a b * 2 ^ shift, ?_, rfl⟩
      have value : x = Nat.gcd a b := by rw [← same, common, ← equal, Nat.gcd_self]
      rw [if_neg (by omega), if_neg (by omega), shl64_eq (value ▸ fits), value, map_some]
    · refine .inl ⟨(x - y, y), ?_, ⟨by dsimp only; omega, by dsimp only; omega,
        .inr yOdd, by dsimp only; omega, ?_⟩, by dsimp only; omega⟩
      · rw [if_pos more, sub64_eq more.le, map_some]
      · rw [← same, common]
        exact Nat.gcd_sub_self_left more.le
  · exact ⟨aPositive, bPositive, odd, enough, rfl⟩
  · exact enough

theorem gcd_eq {fuel a b : Nat} (enough : a + b < fuel) (aSmall : a < 2 ^ 64)
    (bSmall : b < 2 ^ 64) :
    gcd fuel a b = some (Nat.gcd a b) := by
  unfold gcd
  by_cases aZero : a = 0
  · rw [if_pos aZero, aZero, Nat.gcd_zero_left]
  · rw [if_neg aZero]
    by_cases bZero : b = 0
    · rw [if_pos bZero, bZero, Nat.gcd_zero_right]
    · rw [if_neg bZero]
      have aPositive := Nat.pos_of_ne_zero aZero
      obtain ⟨⟨x, y, shift⟩, halved, aSame, bSame, odd⟩ :=
        halveBoth_spec (b := b) aPositive (by omega : a < fuel)
      have common : Nat.gcd a b = Nat.gcd x y * 2 ^ shift := by
        rw [aSame, bSame, Nat.gcd_mul_right]
      have xBelow : x ≤ a := aSame ▸ Nat.le_mul_of_pos_right _ (Nat.two_pow_pos shift)
      have yBelow : y ≤ b := bSame ▸ Nat.le_mul_of_pos_right _ (Nat.two_pow_pos shift)
      have fits : Nat.gcd x y * 2 ^ shift < 2 ^ 64 :=
        common ▸ (Nat.gcd_le_left b aPositive).trans_lt aSmall
      have xPositive : 0 < x := Nat.pos_of_mul_pos_right (aSame ▸ aPositive)
      have yPositive : 0 < y := Nat.pos_of_mul_pos_right (bSame ▸ Nat.pos_of_ne_zero bZero)
      obtain ⟨result, returned, rfl⟩ := subtract_spec xPositive yPositive odd
        (by omega : x + y < fuel) fits
      rw [halved, bind_some]
      dsimp only
      rw [returned, common]

theorem addMod_eq {pq c a : Nat} (small : pq ≤ 2 ^ 63) (cBelow : c < pq) (aBelow : a < pq) :
    addMod pq c a = some ((c + a) % pq) := by
  rw [addMod, add64_eq (by omega), bind_some]
  by_cases above : c + a ≥ pq
  · rw [if_pos above, sub64_eq above, Nat.mod_eq_sub_mod above, Nat.mod_eq_of_lt (by omega)]
  · rw [if_neg above, Nat.mod_eq_of_lt (by omega)]

theorem addProduct_eq {fuel pq a b c : Nat} (small : pq ≤ 2 ^ 63) (aBelow : a < pq)
    (cBelow : c < pq) (enough : b < fuel) :
    addProduct fuel pq a b c = some ((c + a * b) % pq) := by
  obtain ⟨result, returned, rfl⟩ : ∃ result,
      whileLoop (addProductRound pq) fuel (a, b, c) = some result ∧
        result = (c + a * b) % pq := by
    apply whileLoop_of_variant (fun state => state.1 < pq ∧ state.2.2 < pq ∧
        state.2.2 + state.1 * state.2.1 ≡ c + a * b [MOD pq])
      (fun state => state.2.1)
    · rintro ⟨x, y, z⟩ ⟨xBelow, zBelow, same⟩
      unfold GoodRound addProductRound
      by_cases zero : y = 0
      · refine .inr ⟨z, if_pos zero, ?_⟩
        rw [zero, mul_zero, add_zero] at same
        rw [← same, Nat.mod_eq_of_lt zBelow]
      · have double : (x + x) % pq * (y / 2) ≡ x * (2 * (y / 2)) [MOD pq] := by
          rw [← mul_assoc, mul_two]
          exact (Nat.mod_modEq _ _).mul_right _
        have halved := Nat.div_add_mod y 2
        simp only [if_neg zero, Nat.and_one_is_mod, Nat.shiftRight_one,
          addMod_eq small xBelow xBelow, map_some]
        have pqPositive : 0 < pq := by omega
        rcases Nat.mod_two_eq_zero_or_one y with even | odd
        · refine .inl ⟨((x + x) % pq, y / 2, z), ?_, ⟨Nat.mod_lt _ pqPositive, zBelow, ?_⟩, ?_⟩
          · rw [even, if_neg (by decide), bind_some]
          · refine Nat.ModEq.trans (double.add_left z) ?_
            rwa [show 2 * (y / 2) = y by omega]
          · exact Nat.div_lt_self (Nat.pos_of_ne_zero zero) (by decide)
        · refine .inl ⟨((x + x) % pq, y / 2, (z + x) % pq), ?_,
            ⟨Nat.mod_lt _ pqPositive, Nat.mod_lt _ pqPositive, ?_⟩, ?_⟩
          · rw [odd, if_pos (by decide), addMod_eq small zBelow xBelow, bind_some]
          · refine Nat.ModEq.trans ((Nat.mod_modEq (z + x) pq).add double) ?_
            have whole : z + x + x * (2 * (y / 2)) = z + x * y := by
              conv_rhs => rw [← halved, odd, mul_add, mul_one]
              omega
            rwa [whole]
          · exact Nat.div_lt_self (Nat.pos_of_ne_zero zero) (by decide)
    · exact ⟨aBelow, cBelow, rfl⟩
    · exact enough
  exact returned

end TelegramDesktop.PqFactorization
