import Mathlib.Algebra.Group.Int.Defs
import Mathlib.Algebra.Group.Nat.Defs
import Mathlib.Data.List.Basic
import Mathlib.Order.Lattice

/-!
# Byte strings

Integers of a fixed width in their order, as values and as bytes, and segments of a
byte string.
-/

namespace TelegramDesktop

open List

instance instLinearOrderInt32 : LinearOrder Int32 where
  le_refl := Int32.le_refl
  le_trans _ _ _ := Int32.le_trans
  le_antisymm _ _ := Int32.le_antisymm
  le_total := Int32.le_total
  lt_iff_le_not_ge _ _ := Int32.lt_iff_le_and_ne.trans
    ⟨fun below => ⟨below.1, fun above => below.2 (Int32.le_antisymm below.1 above)⟩,
      fun below => ⟨below.1, fun same => below.2 (same ▸ Int32.le_refl _)⟩⟩
  min a b := if a ≤ b then a else b
  max a b := if a ≤ b then b else a
  toDecidableLE := inferInstance
  toDecidableEq := inferInstance
  toDecidableLT := inferInstance

instance instLinearOrderUInt32 : LinearOrder UInt32 where
  le_refl := UInt32.le_refl
  le_trans _ _ _ := UInt32.le_trans
  le_antisymm _ _ := UInt32.le_antisymm
  le_total := UInt32.le_total
  lt_iff_le_not_ge _ _ := UInt32.lt_iff_le_and_ne.trans
    ⟨fun below => ⟨below.1, fun above => below.2 (UInt32.le_antisymm below.1 above)⟩,
      fun below => ⟨below.1, fun same => below.2 (same ▸ UInt32.le_refl _)⟩⟩
  min a b := if a ≤ b then a else b
  max a b := if a ≤ b then b else a
  toDecidableLE := inferInstance
  toDecidableEq := inferInstance
  toDecidableLT := inferInstance

instance instLinearOrderUInt64 : LinearOrder UInt64 where
  le_refl := UInt64.le_refl
  le_trans _ _ _ := UInt64.le_trans
  le_antisymm _ _ := UInt64.le_antisymm
  le_total := UInt64.le_total
  lt_iff_le_not_ge _ _ := UInt64.lt_iff_le_and_ne.trans
    ⟨fun below => ⟨below.1, fun above => below.2 (UInt64.le_antisymm below.1 above)⟩,
      fun below => ⟨below.1, fun same => below.2 (same ▸ UInt64.le_refl _)⟩⟩
  min a b := if a ≤ b then a else b
  max a b := if a ≤ b then b else a
  toDecidableLE := inferInstance
  toDecidableEq := inferInstance
  toDecidableLT := inferInstance

instance instLawfulBEqInt32 : LawfulBEq Int32 := instLawfulBEq

/-- The value an `int32` takes after arithmetic or a conversion that may wrap
around. -/
def toInt32 (value : Int) : Int := value.bmod (2 ^ 32)

theorem toInt32_eq_self {value : Int} (nonneg : 0 ≤ value) (below : value < 2 ^ 31) :
    toInt32 value = value := by
  apply Int.bmod_eq_of_le <;> omega

abbrev Bytes := List UInt8

/-- The bytes of an integer, the least significant one first. -/
def littleEndian : Nat → Nat → Bytes
  | 0, _ => []
  | width + 1, value => UInt8.ofNat value :: littleEndian width (value / 256)

/-- The number whose least byte comes first. -/
def ofLittleEndian : Bytes → Nat
  | [] => 0
  | byte :: bytes => byte.toNat + 256 * ofLittleEndian bytes

@[simp] theorem length_littleEndian (width value : Nat) :
    (littleEndian width value).length = width := by
  induction width generalizing value with
  | zero => rfl
  | succ width ih => rw [littleEndian, length_cons, ih]

theorem ofLittleEndian_littleEndian {width value : Nat} (fits : value < 256 ^ width) :
    ofLittleEndian (littleEndian width value) = value := by
  induction width generalizing value with
  | zero =>
    have none : value = 0 := Nat.lt_one_iff.mp fits
    rw [none]
    rfl
  | succ width ih =>
    have rest : value / 256 < 256 ^ width := by
      rw [Nat.div_lt_iff_lt_mul (by decide)]
      rwa [pow_succ] at fits
    rw [littleEndian, ofLittleEndian, ih rest, UInt8.toNat_ofNat']
    exact Nat.mod_add_div value 256

theorem littleEndian_ofLittleEndian (bytes : Bytes) :
    littleEndian bytes.length (ofLittleEndian bytes) = bytes := by
  induction bytes with
  | nil => rfl
  | cons byte bytes ih =>
    have first : UInt8.ofNat (byte.toNat + 256 * ofLittleEndian bytes) = byte := by
      apply UInt8.toNat_inj.mp
      have small := byte.toNat_lt
      rw [UInt8.toNat_ofNat']
      omega
    have rest : (byte.toNat + 256 * ofLittleEndian bytes) / 256 = ofLittleEndian bytes := by
      have small := byte.toNat_lt
      omega
    rw [ofLittleEndian, length_cons, littleEndian, first, rest, ih]

theorem ofLittleEndian_lt (bytes : Bytes) : ofLittleEndian bytes < 256 ^ bytes.length := by
  induction bytes with
  | nil => exact Nat.one_pos
  | cons byte bytes ih =>
    have small := byte.toNat_lt
    rw [ofLittleEndian, length_cons, pow_succ]
    omega

theorem littleEndian_add (first second value : Nat) :
    littleEndian (first + second) value =
      littleEndian first value ++ littleEndian second (value / 256 ^ first) := by
  induction first generalizing value with
  | zero => simp [littleEndian]
  | succ first ih =>
    rw [Nat.add_right_comm, littleEndian, littleEndian, ih, Nat.div_div_eq_div_mul,
      pow_succ', cons_append]

theorem littleEndian_mod (width value : Nat) :
    littleEndian width (value % 256 ^ width) = littleEndian width value := by
  induction width generalizing value with
  | zero => rfl
  | succ width ih =>
    have first : UInt8.ofNat (value % 256 ^ (width + 1)) = UInt8.ofNat value := by
      apply UInt8.toNat_inj.mp
      rw [UInt8.toNat_ofNat', UInt8.toNat_ofNat']
      exact Nat.mod_mod_of_dvd value ⟨256 ^ width, Nat.pow_succ'⟩
    have rest : value % 256 ^ (width + 1) / 256 = value / 256 % 256 ^ width := by
      rw [Nat.pow_succ', Nat.mod_mul_right_div_self]
    rw [littleEndian, littleEndian, first, rest, ih]

/-- The value of bytes with the most significant one first. -/
def ofBigEndian (bytes : Bytes) : Nat := ofLittleEndian bytes.reverse

section Segments

variable {α : Type*}

/-- The items of a sequence from one position till another. -/
def segment (content : List α) (start till : Nat) : List α :=
  (content.drop start).take (till - start)

theorem length_segment {content : List α} {start till : Nat} (inside : till ≤ content.length) :
    (segment content start till).length = till - start := by
  rw [segment, length_take, length_drop]
  omega

theorem segment_drop (content : List α) (offset start till : Nat) :
    segment (content.drop offset) start till =
      segment content (offset + start) (offset + till) := by
  rw [segment, segment, drop_drop, Nat.add_sub_add_left]

theorem segment_take (content : List α) {limit till : Nat} (start : Nat) (inside : till ≤ limit) :
    segment (content.take limit) start till = segment content start till := by
  rw [segment, segment, drop_take, take_take]
  congr 1
  omega

theorem mapM_eq_some_map {β : Type*} {found : α → Option β} (value : α → β) {list : List α}
    (same : ∀ one ∈ list, found one = some (value one)) :
    list.mapM found = some (list.map value) := by
  induction list with
  | nil => rfl
  | cons one list ih =>
    rw [mapM_cons, same one mem_cons_self,
      ih fun other member => same other (mem_cons_of_mem _ member)]
    rfl

end Segments

end TelegramDesktop
