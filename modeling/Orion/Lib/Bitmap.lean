import Orion.Lib.Bytes
import Orion.Lib.Words

/-!
# Bitmaps

A bitmap is a byte buffer in which bit `i` is bit `i % 8` of byte `i / 8`. Accesses to single bits are
described by what they do to every bit.
-/

namespace Orion.Lib.Bytes

open Function

variable (a : Bytes) (i j : ℕ)

/-- `a[i / 8] & (1 << (i % 8))` -/
def bitTest : Bool := a (i / 8) &&& bit (i % 8) ≠ 0

/-- `a[i / 8] |= 1 << (i % 8)` -/
def bitSet : Bytes := update a (i / 8) (a (i / 8) ||| bit (i % 8))

/-- `a[i / 8] &= ~(1 << (i % 8))` -/
def bitClear : Bytes := update a (i / 8) (a (i / 8) &&& ~~~bit (i % 8))

theorem bitTest_eq_testBit : a.bitTest i = (a (i / 8)).toNat.testBit (i % 8) := by
  rw [bitTest, Bool.eq_iff_iff, decide_eq_true_eq, and_bit_ne_zero (Nat.mod_lt i (by decide))]

theorem mod_eq_iff (h : j / 8 = i / 8) : i % 8 = j % 8 ↔ j = i := by omega

theorem bitTest_bitSet : (a.bitSet i).bitTest j = (a.bitTest j || decide (j = i)) := by
  rw [bitTest_eq_testBit, bitTest_eq_testBit, bitSet]
  by_cases hbyte : j / 8 = i / 8
  · rw [hbyte, update_self, testBit_or_bit (Nat.mod_lt i (by decide)), decide_eq_decide.mpr (mod_eq_iff i j hbyte)]
  · have hne : j ≠ i := fun h => hbyte (h ▸ rfl)
    rw [update_of_ne hbyte, decide_eq_false hne, Bool.or_false]

theorem bitTest_bitClear : (a.bitClear i).bitTest j = (a.bitTest j && !decide (j = i)) := by
  rw [bitTest_eq_testBit, bitTest_eq_testBit, bitClear]
  by_cases hbyte : j / 8 = i / 8
  · rw [hbyte, update_self, testBit_and_not_bit (Nat.mod_lt i (by decide)) (Nat.mod_lt j (by decide)),
      decide_eq_decide.mpr (mod_eq_iff i j hbyte)]
  · have hne : j ≠ i := fun h => hbyte (h ▸ rfl)
    rw [update_of_ne hbyte, decide_eq_false hne, Bool.not_false, Bool.and_true]

theorem bitTest_foldl_bitSet (is : List ℕ) : (is.foldl bitSet a).bitTest j = (a.bitTest j || decide (j ∈ is)) := by
  induction is generalizing a with
  | nil => simp
  | cons i is ih =>
    rw [List.foldl_cons, ih, bitTest_bitSet, Bool.or_assoc]
    simp [List.mem_cons]

end Orion.Lib.Bytes
