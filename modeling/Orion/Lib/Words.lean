import Mathlib.Data.Nat.Bitwise
import Mathlib.Tactic

/-!
# Machine words

Rounding: `(x + (a - 1)) & ~(a - 1)` on 32-bit words, for a power of two `a`, is the least multiple of
`a` that is not below `x`, as long as the addition does not wrap. Single bits of bytes: `b & (1 << k)`.
-/

namespace Orion.Lib

/-- `(x + (a - 1)) & ~(a - 1)` -/
def alignUp (x a : UInt32) : UInt32 := (x + (a - 1)) &&& ~~~(a - 1)

variable {k : Nat} {a x b c : UInt32}

theorem and_high_bits {x n : Nat} (hx : x < 2 ^ n) (hk : k ≤ n) :
    x &&& (2 ^ n - 1 - (2 ^ k - 1)) = 2 ^ k * (x / 2 ^ k) := by
  have hpos : 0 < 2 ^ k := Nat.two_pow_pos k
  have hmask : 2 ^ n - 1 - (2 ^ k - 1) = 2 ^ n - (2 ^ k - 1 + 1) := by omega
  have hlt : 2 ^ k - 1 < 2 ^ n := by
    have := Nat.pow_le_pow_right (Nat.zero_lt_two) hk
    omega
  apply Nat.eq_of_testBit_eq
  intro i
  rw [Nat.testBit_and, hmask, Nat.testBit_two_pow_sub_succ hlt, Nat.testBit_two_pow_sub_one,
    Nat.testBit_two_pow_mul, Nat.testBit_div_two_pow]
  by_cases hki : k ≤ i
  · have hsum : i - k + k = i := by omega
    by_cases hin : i < n
    · simp [hki, hin, hsum]
    -- above bit `n` both sides are zero
    have hzero : x.testBit i = false :=
      Nat.testBit_lt_two_pow (lt_of_lt_of_le hx (Nat.pow_le_pow_right Nat.zero_lt_two (by omega)))
    simp [hin, hsum, hzero]
  · simp [hki, Nat.lt_of_not_le hki]

section

variable (ha : a.toNat = 2 ^ k)

include ha

theorem toNat_and_not_pred (y : UInt32) : (y &&& ~~~(a - 1)).toNat = a.toNat * (y.toNat / a.toNat) := by
  have hpos : 0 < a.toNat := by rw [ha]; exact Nat.two_pow_pos k
  have hk : k ≤ 32 := by
    have hlt := a.toNat_lt
    rw [ha] at hlt
    exact (Nat.pow_lt_pow_iff_right Nat.one_lt_two).mp hlt |>.le
  have hone : (1 : UInt32) ≤ a := by
    rw [UInt32.le_iff_toNat_le]
    exact hpos
  have hnot : (~~~(a - 1)).toNat = 2 ^ 32 - 1 - (2 ^ k - 1) := by
    rw [UInt32.toNat_not, UInt32.toNat_sub_of_le a 1 hone]
    change _ - 1 - (a.toNat - 1) = _
    rw [ha]
    rfl
  rw [UInt32.toNat_and, hnot, and_high_bits y.toNat_lt hk, ha]

/-- The result is a multiple of `a` even when the addition wraps. -/
theorem dvd_alignUp (x : UInt32) : a.toNat ∣ (alignUp x a).toNat := by
  rw [alignUp, toNat_and_not_pred ha]
  exact Nat.dvd_mul_right _ _

theorem toNat_alignUp (hw : x.toNat + a.toNat ≤ 2 ^ 32) :
    (alignUp x a).toNat = a.toNat * ((x.toNat + (a.toNat - 1)) / a.toNat) := by
  have hpos : 0 < a.toNat := by rw [ha]; exact Nat.two_pow_pos k
  have hone : (1 : UInt32) ≤ a := by
    rw [UInt32.le_iff_toNat_le]
    exact hpos
  have hsub : (a - 1).toNat = a.toNat - 1 := UInt32.toNat_sub_of_le a 1 hone
  have hadd : (x + (a - 1)).toNat = x.toNat + (a.toNat - 1) := by
    rw [UInt32.toNat_add, hsub, Nat.mod_eq_of_lt (by omega)]
  rw [alignUp, toNat_and_not_pred ha, hadd]

theorem alignUp_spec (hw : x.toNat + a.toNat ≤ 2 ^ 32) :
    a.toNat ∣ (alignUp x a).toNat ∧ x.toNat ≤ (alignUp x a).toNat ∧ (alignUp x a).toNat < x.toNat + a.toNat := by
  have hpos : 0 < a.toNat := by rw [ha]; exact Nat.two_pow_pos k
  refine ⟨dvd_alignUp ha x, ?_⟩
  rw [toNat_alignUp ha hw]
  have hdiv := Nat.div_add_mod (x.toNat + (a.toNat - 1)) a.toNat
  have hmod := Nat.mod_lt (x.toNat + (a.toNat - 1)) hpos
  omega

end

/-! ## Bits of a byte -/

/-- The mask of bit `k`. -/
def bit (k : Nat) : UInt8 := 1 <<< UInt8.ofNat k

theorem toNat_bit (hk : k < 8) : (bit k).toNat = 2 ^ k := by
  have hlt : 2 ^ k < 2 ^ 8 := Nat.pow_lt_pow_right Nat.one_lt_two hk
  unfold bit
  rw [UInt8.toNat_shiftLeft, UInt8.toNat_ofNat']
  change 1 <<< (k % 2 ^ 8 % 8) % 2 ^ 8 = 2 ^ k
  rw [Nat.mod_eq_of_lt (show k < 2 ^ 8 by omega), Nat.mod_eq_of_lt hk, Nat.shiftLeft_eq, Nat.one_mul,
    Nat.mod_eq_of_lt hlt]

theorem and_bit_ne_zero (hk : k < 8) (b : UInt8) : b &&& bit k ≠ 0 ↔ b.toNat.testBit k = true := by
  have hzero : b &&& bit k = 0 ↔ (b &&& bit k).toNat = 0 := by
    rw [← UInt8.toNat_inj]
    rfl
  rw [Ne, hzero, UInt8.toNat_and, toNat_bit hk, Nat.and_two_pow]
  cases b.toNat.testBit k with
  | true => simp
  | false => simp

theorem testBit_or_bit (hk : k < 8) (b : UInt8) (l : Nat) :
    (b ||| bit k).toNat.testBit l = (b.toNat.testBit l || decide (k = l)) := by
  rw [UInt8.toNat_or, toNat_bit hk, Nat.testBit_or, Nat.testBit_two_pow]

theorem testBit_and_not_bit {l : Nat} (hk : k < 8) (hl : l < 8) (b : UInt8) :
    (b &&& ~~~bit k).toNat.testBit l = (b.toNat.testBit l && !decide (k = l)) := by
  have hlt : 2 ^ k < 2 ^ 8 := Nat.pow_lt_pow_right Nat.one_lt_two hk
  rw [UInt8.toNat_and, UInt8.toNat_not, toNat_bit hk, Nat.testBit_and]
  change (_ && (2 ^ 8 - 1 - 2 ^ k).testBit l) = _
  rw [show 2 ^ 8 - 1 - 2 ^ k = 2 ^ 8 - (2 ^ k + 1) by omega, Nat.testBit_two_pow_sub_succ hlt,
    Nat.testBit_two_pow]
  simp [hl]

/-! ## Flags -/

theorem or_and_distrib (a b c : UInt32) : (a ||| b) &&& c = (a &&& c) ||| (b &&& c) := by
  rw [← UInt32.toBitVec_inj]
  ext i hi
  simp [Bool.and_or_distrib_right]

theorem or_and_of_disjoint (a : UInt32) (h : b &&& c = 0) : (a ||| b) &&& c = a &&& c := by
  rw [or_and_distrib, h, UInt32.or_zero]

theorem or_and_ne_zero (a : UInt32) (h : b &&& c ≠ 0) : (a ||| b) &&& c ≠ 0 := by
  rw [or_and_distrib, ne_eq, UInt32.or_eq_zero_iff]
  exact fun hzero => h hzero.2

end Orion.Lib
