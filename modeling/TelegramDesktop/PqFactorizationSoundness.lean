import TelegramDesktop.PqFactorizationLoops

/-!
# When pq is factorized

A round follows a walk to its last step, and the search is over with the first walk that
ends with a proper divisor.
-/

namespace TelegramDesktop.PqFactorization

open List Option PollardRho

variable {fuel pq : Nat}

theorem gcd_difference {x y : Nat} (yBelow : y < pq) :
    Nat.gcd (if x < y then pq + x - y else x - y) pq = Int.gcd ((x : Int) - y) pq := by
  split
  · have value : ((pq + x - y : Nat) : Int) = (x - y : Int) + pq := by omega
    rw [← Int.gcd_natCast_natCast, value, Int.gcd_add_self_left]
  · have value : ((x - y : Nat) : Int) = (x - y : Int) := by omega
    rw [← Int.gcd_natCast_natCast, value]

theorem difference_eq {x y : Nat} (small : pq ≤ 2 ^ 63) (yBelow : y < pq) :
    (if x < y then (add64 pq x).bind fun sum => sub64 sum y else sub64 x y) =
      some (if x < y then pq + x - y else x - y) := by
  split
  · rw [add64_eq (by omega), bind_some, sub64_eq (by omega)]
  · rw [sub64_eq (by omega)]

theorem round_spec {q x lim : Nat} (iter g : Nat) (enough : enoughFuel ≤ fuel) (small : pq ≤ 2 ^ 63)
    (qBelow : q < pq) (xBelow : x < pq) (large : 1 < lim) (limit : lim ≤ 2 ^ 32) :
    ∃ result, whileLoop (roundStep fuel pq q lim) fuel ⟨x, x, 1, iter, g⟩ = some result ∧
      result = (divisor pq q x (lastStep pq q x lim), iter + lastStep pq q x lim) := by
  have fuelLarge : 2 ^ 66 ≤ fuel := enough
  apply whileLoop_of_variant
    (fun state => 1 ≤ state.j ∧ state.j ≤ lim ∧ state.x = walk pq q x (state.j - 1) ∧
      state.y = walk pq q x (anchor state.j) ∧
      (∀ before, 0 < before → before < state.j → divisor pq q x before = 1) ∧
      state.iter + 1 = iter + state.j ∧ (1 < state.j → state.g = 1))
    (fun state => lim - state.j)
  · rintro ⟨a, y, j, count, last⟩ ⟨positive, inside, isX, isY, first, isCount, isLast⟩
    dsimp only at positive inside isX isY first isCount isLast
    have aBelow : a < pq := isX ▸ walk_lt xBelow _
    have yBelow : y < pq := isY ▸ walk_lt xBelow _
    unfold GoodRound roundStep
    dsimp only
    by_cases more : j < lim
    · have next : (q + a * a) % pq = walk pq q x j := by
        obtain ⟨before, rfl⟩ : ∃ before, j = before + 1 := ⟨j - 1, by omega⟩
        rw [isX, Nat.add_sub_cancel, walk]
      have nextBelow : walk pq q x j < pq := walk_lt xBelow _
      have isDivisor : Nat.gcd (if walk pq q x j < y then pq + walk pq q x j - y
          else walk pq q x j - y) pq = divisor pq q x j := by
        rw [gcd_difference yBelow, divisor, isY]
      have difference : (if walk pq q x j < y then pq + walk pq q x j - y
          else walk pq q x j - y) < pq := by
        split <;> omega
      have common : gcd fuel (if walk pq q x j < y then pq + walk pq q x j - y
          else walk pq q x j - y) pq = some (divisor pq q x j) := by
        rw [gcd_eq (by omega) (by omega) (by omega), isDivisor]
      simp only [if_pos more, addProduct_eq small aBelow qBelow (by omega : a < fuel), next,
        bind_some, difference_eq small yBelow, common, map_some]
      by_cases one : divisor pq q x j = 1
      · refine .inl ⟨⟨walk pq q x j, if j &&& (j - 1) = 0 then walk pq q x j else y, j + 1,
          count + 1, divisor pq q x j⟩, ?_, ⟨Nat.le_add_left 1 j, more, rfl, ?_, ?_, ?_, ?_⟩,
          ?_⟩
        · rw [if_neg (not_not.mpr one)]
        · rw [anchor_succ positive]
          split
          · rfl
          · exact isY
        · intro before low high
          rcases Nat.lt_succ_iff_lt_or_eq.mp high with less | rfl
          · exact first before low less
          · exact one
        · dsimp only
          omega
        · exact fun _ => one
        · dsimp only
          omega
      · have stops := lastStep_of_divisor positive more one first
        refine .inr ⟨_, by rw [if_pos one], ?_⟩
        rw [stops]
        congr 1
    · obtain rfl : j = lim := by omega
      have stops : lastStep pq q x j = j - 1 := lastStep_of_none first
      refine .inr ⟨_, if_neg more, ?_⟩
      rw [stops, isLast large, first (j - 1) (by omega) (by omega)]
      congr 1
      omega
  · refine ⟨le_rfl, large.le, rfl, rfl, ?_, rfl, ?_⟩
    · intro before low high
      dsimp only at high
      omega
    · intro more
      exact absurd more (lt_irrefl 1)
  · omega

section Search

variable {draws : Nat → Draw}

theorem stepsBefore_succ (pq : Nat) (draws : Nat → Draw) (i : Nat) :
    stepsBefore pq draws (i + 1) = stepsBefore pq draws i + stepsOf pq draws i :=
  Finset.sum_range_succ _ _

theorem stepsBefore_mono (pq : Nat) (draws : Nat → Draw) {i k : Nat} (later : i ≤ k) :
    stepsBefore pq draws i ≤ stepsBefore pq draws k := by
  induction k, later using Nat.le_induction with
  | base => exact le_rfl
  | succ k later ih =>
    rw [stepsBefore_succ]
    omega

theorem stepsOf_pos (pq : Nat) (draws : Nat → Draw) (i : Nat) : 0 < stepsOf pq draws i := by
  apply lastStep_pos
  exact Nat.one_lt_two_pow (by omega)

theorem divisorOf_dvd (pq : Nat) (draws : Nat → Draw) (i : Nat) : divisorOf pq draws i ∣ pq :=
  divisor_dvd _

theorem Finds.unique {first second : Nat} (isFirst : Finds pq draws first)
    (isSecond : Finds pq draws second) : first = second := by
  obtain ⟨i, -, iBefore, iProper, rfl⟩ := isFirst
  obtain ⟨k, -, kBefore, kProper, rfl⟩ := isSecond
  rcases lt_trichotomy i k with less | rfl | more
  · exact absurd iProper (kBefore i less)
  · rfl
  · exact absurd kProper (iBefore k more)

theorem searchRound_eq (enough : enoughFuel ≤ fuel) (two : 2 ≤ pq) (small : pq ≤ 2 ^ 63)
    {i : Nat} (isMade : IsMade pq draws i) (g : Nat) :
    searchRound fuel draws pq (i, stepsBefore pq draws i, g) =
      some (if IsProper pq (divisorOf pq draws i) then .inr (divisorOf pq draws i)
        else .inl (i + 1, stepsBefore pq draws (i + 1), divisorOf pq draws i)) := by
  have limit : 2 ^ (min 5 i + 18) ≤ 2 ^ 32 := Nat.pow_le_pow_right (by decide) (by omega)
  have qBelow : (17 + (draws i).index.val) % (pq - 1) < pq :=
    (Nat.mod_lt _ (by omega)).trans (by omega)
  have xBelow : (draws i).value.toNat % (pq - 1) + 1 < pq := by
    have below := Nat.mod_lt (draws i).value.toNat (by omega : 0 < pq - 1)
    omega
  obtain ⟨result, returned, rfl⟩ := round_spec (stepsBefore pq draws i) g enough
    small qBelow xBelow (Nat.one_lt_two_pow (by omega)) limit
  unfold searchRound
  dsimp only
  rw [if_pos (show i < 3 ∨ stepsBefore pq draws i < 1000 from isMade), Nat.one_shiftLeft,
    returned, map_some, stepsBefore_succ]
  rfl

/-- The search returns what the first walk that ends with a proper divisor ends with. -/
theorem search_spec (draws : Nat → Draw) (enough : enoughFuel ≤ fuel) (two : 2 ≤ pq)
    (small : pq ≤ 2 ^ 63) :
    ∃ g, whileLoop (searchRound fuel draws pq) fuel (0, 0, 0) = some g ∧
      (Finds pq draws g ∨ (∀ divisor, ¬Finds pq draws divisor) ∧ (g = 1 ∨ g = pq)) := by
  have fuelLarge : 2 ^ 66 ≤ fuel := enough
  apply whileLoop_of_variant (fun state => state.2.1 = stepsBefore pq draws state.1 ∧
      (∀ before, before < state.1 → ¬IsProper pq (divisorOf pq draws before)) ∧
      (0 < state.1 → state.2.2 = divisorOf pq draws (state.1 - 1)))
    (fun state => (3 - state.1) + (1000 - state.2.1))
  · rintro ⟨i, iter, g⟩ ⟨isIter, before, isLast⟩
    dsimp only at isIter before isLast
    subst isIter
    unfold GoodRound
    by_cases isMade : IsMade pq draws i
    · rw [searchRound_eq enough two small isMade]
      by_cases proper : IsProper pq (divisorOf pq draws i)
      · refine .inr ⟨_, by rw [if_pos proper], .inl ⟨i, isMade, before, proper, rfl⟩⟩
      · refine .inl ⟨(i + 1, stepsBefore pq draws (i + 1), divisorOf pq draws i),
          by rw [if_neg proper], ⟨rfl, ?_, fun _ => rfl⟩, ?_⟩
        · intro other less
          rcases Nat.lt_succ_iff_lt_or_eq.mp less with earlier | rfl
          · exact before other earlier
          · exact proper
        · have positive := stepsOf_pos pq draws i
          have next := stepsBefore_succ pq draws i
          unfold IsMade at isMade
          dsimp only
          omega
    · have stops : searchRound fuel draws pq (i, stepsBefore pq draws i, g) = some (.inr g) :=
        if_neg isMade
      rw [IsMade, not_or, not_lt, not_lt] at isMade
      refine .inr ⟨g, stops, .inr ⟨?_, ?_⟩⟩
      · rintro divisor ⟨k, kMade, -, kProper, -⟩
        rcases lt_or_ge k i with less | later
        · exact before k less kProper
        · have more := stepsBefore_mono pq draws later
          unfold IsMade at kMade
          omega
      · have last := isLast (by omega)
        have notProper := before (i - 1) (by omega)
        have divides := divisorOf_dvd pq draws (i - 1)
        rw [← last] at notProper divides
        have positive := Nat.pos_of_dvd_of_pos divides (by omega)
        have below := Nat.le_of_dvd (by omega) divides
        unfold IsProper at notProper
        omega
  · refine ⟨rfl, fun before less => absurd less (Nat.not_lt_zero _), ?_⟩
    intro positive
    exact absurd positive (lt_irrefl 0)
  · omega

/-- The smaller part of what the search finds, or one. -/
theorem factorizeSmallPQ_spec (draws : Nat → Draw) (enough : enoughFuel ≤ fuel)
    (small : pq ≤ 2 ^ 63) :
    ∃ p, factorizeSmallPQ fuel draws pq = some p ∧
      ((∃ divisor, Finds pq draws divisor ∧ p = min divisor (pq / divisor)) ∨
        (∀ divisor, ¬Finds pq draws divisor) ∧ p = 1) := by
  unfold factorizeSmallPQ
  by_cases tiny : pq < 2
  · refine ⟨1, if_pos (.inl tiny), .inr ⟨?_, rfl⟩⟩
    rintro divisor ⟨i, -, -, ⟨more, less⟩, -⟩
    omega
  · have fits : ¬(pq < 2 ∨ pq > 1 <<< 63) := by
      rw [Nat.one_shiftLeft]
      omega
    obtain ⟨g, returned, found⟩ := search_spec draws enough (by omega : 2 ≤ pq) small
    rw [if_neg fits, returned, map_some]
    refine ⟨_, rfl, ?_⟩
    rcases found with isFound | ⟨notFound, rfl | rfl⟩
    · have positive : g ≠ 0 := by
        obtain ⟨i, -, -, proper, rfl⟩ := isFound
        exact ne_of_gt (zero_lt_one.trans proper.1)
      refine .inl ⟨g, isFound, ?_⟩
      rw [if_pos positive]
      dsimp only
      split <;> omega
    · refine .inr ⟨notFound, ?_⟩
      rw [if_pos (by decide), Nat.div_one]
      exact if_neg (by omega)
    · refine .inr ⟨notFound, ?_⟩
      rw [if_pos (by omega), Nat.div_self (by omega)]
      exact if_pos (by omega)

end Search

theorem ofBigEndian_append_byte (bytes : Bytes) (byte : UInt8) :
    ofBigEndian (bytes ++ [byte]) = ofBigEndian bytes * 2 ^ 8 + byte.toNat := by
  unfold ofBigEndian
  rw [reverse_append, reverse_singleton, singleton_append, ofLittleEndian]
  omega

theorem ofBigEndian_lt (bytes : Bytes) : ofBigEndian bytes < 256 ^ bytes.length := by
  rw [← length_reverse]
  exact ofLittleEndian_lt bytes.reverse

theorem parse_eq (bytes : Bytes) (short : bytes.length ≤ 8) :
    bytes.foldlM (fun pq byte => (shl64 pq 8).map (· ||| byte.toNat)) 0 =
      some (ofBigEndian bytes) := by
  induction bytes using List.reverseRecOn with
  | nil => rfl
  | append_singleton bytes byte ih =>
    rw [List.length_append, List.length_singleton] at short
    have below : ofBigEndian bytes < 256 ^ 7 :=
      (ofBigEndian_lt bytes).trans_le (Nat.pow_le_pow_right (by decide) (by omega))
    have fits : ofBigEndian bytes * 2 ^ 8 < 2 ^ 64 := by omega
    have joined := Nat.shiftLeft_add_eq_or_of_lt byte.toNat_lt (ofBigEndian bytes)
    rw [Nat.shiftLeft_eq] at joined
    rw [List.foldlM_append, ih (by omega), ofBigEndian_append_byte, joined]
    simp only [List.foldlM_cons, List.foldlM_nil, Option.bind_eq_bind, Option.bind_some,
      shl64_eq fits, Option.map_some, Option.pure_def]

theorem le_ofBigEndian_cons (byte : UInt8) (bytes : Bytes) :
    byte.toNat * 256 ^ bytes.length ≤ ofBigEndian (byte :: bytes) := by
  induction bytes using reverseRecOn with
  | nil => simp [ofBigEndian, ofLittleEndian]
  | append_singleton bytes last ih =>
    rw [← cons_append, ofBigEndian_append_byte, length_append, length_singleton,
      pow_succ, ← mul_assoc]
    omega

theorem head_and {pqStr : Bytes} (length : pqStr.length = 8)
    (small : ofBigEndian pqStr < 2 ^ 63) : (pqStr.headD 0).toNat &&& 128 = 0 := by
  cases pqStr with
  | nil => cases length
  | cons byte bytes =>
    have seven : bytes.length = 7 := by simpa using length
    have least := le_ofBigEndian_cons byte bytes
    rw [seven] at least
    have below : byte.toNat < 2 ^ 7 := by omega
    rw [headD_cons]
    apply Nat.eq_of_testBit_eq
    intro place
    rw [Nat.testBit_and, Nat.zero_testBit, show 128 = 2 ^ 7 from rfl, Nat.testBit_two_pow]
    by_cases seventh : 7 = place
    · rw [← seventh, Nat.testBit_lt_two_pow below, Bool.false_and]
    · rw [decide_eq_false seventh, Bool.and_false]

theorem ofBigEndian_four (value : Nat) :
    ofBigEndian (littleEndian 4 value).reverse = value % 2 ^ 32 := by
  rw [ofBigEndian, reverse_reverse, ← littleEndian_mod]
  exact ofLittleEndian_littleEndian (Nat.mod_lt _ (by decide))

variable {factorizeBigPQ : Bytes → ParsedPQ} {draws : Nat → Draw} {pqStr : Bytes}

/-- A factor next to what is left of the number, as they are written. -/
def parsedOf (pq p : Nat) : ParsedPQ where
  p := (littleEndian 4 p).reverse
  q := (littleEndian 4 (pq / p)).reverse

theorem factorizePQ_eq (short : pqStr.length ≤ 8) (small : ofBigEndian pqStr < 2 ^ 63) {p : Nat}
    (returned : factorizeSmallPQ fuel draws (ofBigEndian pqStr) = some p) (positive : 0 < p)
    (divides : p ∣ ofBigEndian pqStr) :
    factorizePQ fuel factorizeBigPQ draws pqStr = some (parsedOf (ofBigEndian pqStr) p) := by
  have fits : ¬(pqStr.length > 8 ∨ pqStr.length = 8 ∧ (pqStr.headD 0).toNat &&& 128 ≠ 0) := by
    rintro (long | ⟨length, high⟩)
    · omega
    · exact high (head_and length small)
  have factor : ¬(p = 0 ∨ ofBigEndian pqStr % p ≠ 0) := by
    rw [Nat.mod_eq_zero_of_dvd divides]
    omega
  rw [factorizePQ, if_neg fits, parse_eq pqStr short, bind_some, returned, map_some, if_neg factor]
  rfl

/-- Factors that were cut to four bytes are right if and only if nothing was cut. -/
theorem product_of_cut {p q limit : Nat} (pPositive : 0 < p) (qPositive : 0 < q) :
    p % limit * (q % limit) = p * q ↔ p % limit = p ∧ q % limit = q := by
  constructor
  · intro same
    have pCut := Nat.mod_le p limit
    have qCut := Nat.mod_le q limit
    constructor
    · apply Nat.le_antisymm pCut
      apply Nat.le_of_mul_le_mul_right _ qPositive
      rw [← same]
      exact Nat.mul_le_mul_left _ qCut
    · apply Nat.le_antisymm qCut
      apply Nat.le_of_mul_le_mul_left _ pPositive
      rw [← same]
      exact Nat.mul_le_mul_right _ pCut
  · rintro ⟨pSame, qSame⟩
    rw [pSame, qSame]

theorem Finds.proper {divisor : Nat} (found : Finds pq draws divisor) :
    IsProper pq divisor ∧ divisor ∣ pq := by
  obtain ⟨i, -, -, proper, rfl⟩ := found
  exact ⟨proper, divisorOf_dvd pq draws i⟩

section

variable {p : Nat} (short : pqStr.length ≤ 8) (small : ofBigEndian pqStr < 2 ^ 63)
include short small

section

variable
  (returned : ∀ fuel, enoughFuel ≤ fuel → factorizeSmallPQ fuel draws (ofBigEndian pqStr) = some p)
  (positive : 0 < p) (divides : p ∣ ofBigEndian pqStr)

include returned positive divides

theorem ends_of_factor :
    Ends factorizeBigPQ draws pqStr (parsedOf (ofBigEndian pqStr) p) := by
  constructor
  · intro fuel enough a b
    have fuelLarge : 2 ^ 66 ≤ fuel := enough
    have aSmall := a.toNat_lt
    have bSmall := b.toNat_lt
    exact gcd_eq (by omega) aSmall bSmall
  · intro fuel enough
    exact factorizePQ_eq short small (returned fuel enough) positive divides

theorem sound_iff_of_factor :
    Sound factorizeBigPQ draws pqStr ↔
      p % 2 ^ 32 * (ofBigEndian pqStr / p % 2 ^ 32) = ofBigEndian pqStr ∧ 1 < p % 2 ^ 32 ∧
        p % 2 ^ 32 ≤ ofBigEndian pqStr / p % 2 ^ 32 := by
  have ends : Ends factorizeBigPQ draws pqStr (parsedOf (ofBigEndian pqStr) p) :=
    ends_of_factor short small returned positive divides
  have isP : ofBigEndian (parsedOf (ofBigEndian pqStr) p).p = p % 2 ^ 32 := ofBigEndian_four p
  have isQ : ofBigEndian (parsedOf (ofBigEndian pqStr) p).q = ofBigEndian pqStr / p % 2 ^ 32 :=
    ofBigEndian_four _
  rw [← isP, ← isQ]
  constructor
  · rintro ⟨other, others, factors⟩
    have same := (ends.returned enoughFuel le_rfl).symm.trans (others.returned enoughFuel le_rfl)
    cases same
    apply factors
    · exact ne_nil_of_length_pos (by simp [parsedOf])
    · exact ne_nil_of_length_pos (by simp [parsedOf])
  · intro factors
    exact ⟨_, ends, fun _ _ => factors⟩

end

theorem sound_iff_of_factors {q : Nat} (product : ofBigEndian pqStr = p * q) (proper : 1 < p)
    (ordered : p ≤ q)
    (returned : ∀ fuel, enoughFuel ≤ fuel →
      factorizeSmallPQ fuel draws (ofBigEndian pqStr) = some p) :
    Sound factorizeBigPQ draws pqStr ↔ p < 2 ^ 32 ∧ q < 2 ^ 32 := by
  have positive : 0 < p := by omega
  have quotient : ofBigEndian pqStr / p = q := by
    rw [product, Nat.mul_div_cancel_left _ positive]
  rw [sound_iff_of_factor short small returned positive ⟨q, product⟩, quotient, product,
    product_of_cut positive (by omega)]
  constructor
  · rintro ⟨⟨pSame, qSame⟩, -⟩
    exact ⟨pSame ▸ Nat.mod_lt _ (by decide), qSame ▸ Nat.mod_lt _ (by decide)⟩
  · rintro ⟨pFits, qFits⟩
    rw [Nat.mod_eq_of_lt pFits, Nat.mod_eq_of_lt qFits]
    exact ⟨⟨rfl, rfl⟩, proper, ordered⟩

end

theorem factorizeSmallPQ_of_finds (small : pq ≤ 2 ^ 63) {divisor : Nat}
    (found : Finds pq draws divisor) (enough : enoughFuel ≤ fuel) :
    factorizeSmallPQ fuel draws pq = some (min divisor (pq / divisor)) := by
  obtain ⟨p, isP, ⟨other, isOther, rfl⟩ | ⟨never, -⟩⟩ := factorizeSmallPQ_spec draws enough small
  · rw [isP, found.unique isOther]
  · exact absurd found (never divisor)

theorem factorizeSmallPQ_of_never (small : pq ≤ 2 ^ 63)
    (never : ∀ divisor, ¬Finds pq draws divisor) (enough : enoughFuel ≤ fuel) :
    factorizeSmallPQ fuel draws pq = some 1 := by
  obtain ⟨p, isP, ⟨other, isOther, -⟩ | ⟨-, rfl⟩⟩ := factorizeSmallPQ_spec draws enough small
  · exact absurd isOther (never other)
  · exact isP

theorem exists_ends (factorizeBigPQ : Bytes → ParsedPQ) (draws : Nat → Draw)
    (short : pqStr.length ≤ 8) (small : ofBigEndian pqStr < 2 ^ 63) :
    ∃ parsed, Ends factorizeBigPQ draws pqStr parsed := by
  by_cases found : ∃ divisor, Finds (ofBigEndian pqStr) draws divisor
  · obtain ⟨divisor, isFound⟩ := found
    obtain ⟨⟨more, less⟩, divides⟩ := isFound.proper
    refine ⟨_, ends_of_factor short small
      (fun fuel enough => factorizeSmallPQ_of_finds small.le isFound enough) ?_ ?_⟩
    · have rest : 0 < ofBigEndian pqStr / divisor := Nat.div_pos less.le (by omega)
      omega
    · rcases min_choice divisor (ofBigEndian pqStr / divisor) with isMin | isMin
      · rwa [isMin]
      · rw [isMin]
        exact Nat.div_dvd_of_dvd divides
  · exact ⟨_, ends_of_factor short small (fun fuel enough => factorizeSmallPQ_of_never small.le
      (fun divisor isFound => found ⟨divisor, isFound⟩) enough) one_pos (one_dvd _)⟩

theorem not_sound_of_never (short : pqStr.length ≤ 8) (small : ofBigEndian pqStr < 2 ^ 63)
    (never : ∀ divisor, ¬Finds (ofBigEndian pqStr) draws divisor) :
    ¬Sound factorizeBigPQ draws pqStr := by
  have returned := fun fuel (enough : enoughFuel ≤ fuel) =>
    factorizeSmallPQ_of_never small.le never enough
  rw [sound_iff_of_factor short small returned one_pos (one_dvd _)]
  rintro ⟨-, more, -⟩
  exact absurd more (by decide)

theorem sound_of_finds (short : pqStr.length ≤ 8) (small : ofBigEndian pqStr < 2 ^ 63)
    {divisor : Nat} (found : Finds (ofBigEndian pqStr) draws divisor) :
    Sound factorizeBigPQ draws pqStr ↔
      divisor < 2 ^ 32 ∧ ofBigEndian pqStr / divisor < 2 ^ 32 := by
  obtain ⟨⟨more, less⟩, cofactor, product⟩ := found.proper
  have returned := fun fuel (enough : enoughFuel ≤ fuel) =>
    factorizeSmallPQ_of_finds small.le found enough
  have quotient : ofBigEndian pqStr / divisor = cofactor := by
    rw [product, Nat.mul_div_cancel_left _ (by omega)]
  rw [quotient] at returned ⊢
  have cofactorProper : 1 < cofactor := by
    by_contra one
    have most : divisor * cofactor ≤ divisor * 1 := Nat.mul_le_mul_left _ (by omega)
    omega
  rcases le_total divisor cofactor with ordered | ordered
  · rw [min_eq_left ordered] at returned
    exact sound_iff_of_factors short small product more ordered returned
  · rw [min_eq_right ordered] at returned
    rw [sound_iff_of_factors short small (product.trans (mul_comm _ _)) cofactorProper
      ordered returned, and_comm]

/-- The loops end, and the factors are right if a proper divisor is found and both it and the
other factor fit four bytes, and only then. -/
theorem sound_iff_finds (factorizeBigPQ : Bytes → ParsedPQ) (draws : Nat → Draw)
    (short : pqStr.length ≤ 8) (small : ofBigEndian pqStr < 2 ^ 63) :
    (∃ parsed, Ends factorizeBigPQ draws pqStr parsed) ∧
      (Sound factorizeBigPQ draws pqStr ↔ ∃ divisor, Finds (ofBigEndian pqStr) draws divisor ∧
        divisor < 2 ^ 32 ∧ ofBigEndian pqStr / divisor < 2 ^ 32) := by
  refine ⟨exists_ends factorizeBigPQ draws short small, ?_⟩
  constructor
  · intro sound
    by_contra noDivisor
    apply not_sound_of_never short small _ sound
    intro divisor found
    exact noDivisor ⟨divisor, found, (sound_of_finds short small found).mp sound⟩
  · rintro ⟨divisor, found, fits⟩
    exact (sound_of_finds short small found).mpr fits

/-- The first walk meets at its first step. -/
theorem sound_iff_finds_fifteen : Sound (fun _ => {}) (fun _ => ⟨0, 0⟩) [15] := by
  have last : stepsOf 15 (fun _ => ⟨0, 0⟩) 0 = 1 :=
    lastStep_of_divisor one_pos (by decide) (by decide) fun before low high => by omega
  have found : divisorOf 15 (fun _ => ⟨0, 0⟩) 0 = 3 := by
    rw [divisorOf, last]
    decide
  refine (sound_iff_finds _ _ (by decide) (by decide)).2.mpr
    ⟨3, ⟨0, Or.inl (by decide), fun before less => absurd less (Nat.not_lt_zero _), ?_, found⟩,
      by decide, by decide⟩
  change IsProper 15 (divisorOf 15 (fun _ => ⟨0, 0⟩) 0)
  rw [found]
  decide

theorem not_sound_of_prime (short : pqStr.length ≤ 8) (small : ofBigEndian pqStr < 2 ^ 63)
    (prime : (ofBigEndian pqStr).Prime) : ¬Sound factorizeBigPQ draws pqStr := by
  apply not_sound_of_never short small
  intro divisor found
  obtain ⟨⟨more, less⟩, divides⟩ := found.proper
  rcases (Nat.dvd_prime prime).mp divides with one | whole
  · omega
  · omega

/-- A prime number is not split. -/
theorem not_sound_seven : ¬Sound (fun _ => {}) (fun _ => ⟨0, 0⟩) [7] :=
  not_sound_of_prime (by decide) (by decide) (show Nat.Prime 7 by decide)

end TelegramDesktop.PqFactorization
