import Mathlib.Data.UInt
import Orion.Shell.SizeArg

/-!
# When size arguments are read exactly

`strtoul` computes modulo 2^32 and `parse_size_bytes` sees only what is left of the number, so that it rejects the
sizes that are too large for 32 bits by the remainder of the number.
-/

namespace Orion.Shell

open List
open UInt32 (toNat_add toNat_inj toNat_mul toNat_ofNat')

variable {s t x : List UInt8} {f : ℕ}

def DigitFree (s : List UInt8) : Prop := ∀ c ∈ s.head?, ¬(0x30 ≤ c ∧ c ≤ 0x39)

theorem ten_le_letter (b : UInt8) : 10 ≤ b.toUInt32 + 10 := by
  have hb := b.toNat_lt
  rw [UInt32.le_iff_toNat_le, toNat_add, UInt8.toNat_toUInt32]
  simp
  omega

theorem readDigits_stop (hs : DigitFree s) (result : UInt32) : readDigits 10 result s = (result, s) := by
  rcases s with _ | ⟨c, s⟩
  · rfl
  have hc : ¬(0x30 ≤ c ∧ c ≤ 0x39) := hs c rfl
  have hletter : ∀ d, digitValue c = some d → 10 ≤ d := by
    intro d hd
    unfold digitValue at hd
    rw [if_neg hc] at hd
    split_ifs at hd
    all_goals
      obtain rfl := Option.some_inj.mp hd
      exact ten_le_letter _
  unfold readDigits
  split
  · rfl
  · rename_i d hd
    rw [if_pos (hletter d hd)]

theorem readDigits_digits (hs : ∀ c ∈ s, 0x30 ≤ c ∧ c ≤ 0x39) (ht : DigitFree t) (n : ℕ) :
    readDigits 10 (UInt32.ofNat n) (s ++ t) =
      (UInt32.ofNat (s.foldl (fun n c => 10 * n + (c.toNat - 0x30)) n), t) := by
  induction s generalizing n with
  | nil => exact readDigits_stop ht _
  | cons c s ih =>
    obtain ⟨hc, hs⟩ := forall_mem_cons.mp hs
    have hvalue : digitValue c = some (c - 0x30).toUInt32 := if_pos hc
    have hdigit : (c - 0x30).toUInt32.toNat = c.toNat - 0x30 := by
      rw [UInt8.toNat_toUInt32, UInt8.toNat_sub_of_le _ _ hc.1]
      rfl
    have hsmall : c.toNat ≤ 0x39 := UInt8.le_iff_toNat_le.mp hc.2
    have hlt : ¬(10 : UInt32) ≤ (c - 0x30).toUInt32 := by
      rw [UInt32.le_iff_toNat_le, hdigit]
      simp
      omega
    have hnext : UInt32.ofNat n * 10 + (c - 0x30).toUInt32 = UInt32.ofNat (10 * n + (c.toNat - 0x30)) := by
      apply toNat_inj.mp
      rw [toNat_add, toNat_mul, hdigit, toNat_ofNat', toNat_ofNat']
      simp
      omega
    rw [cons_append, readDigits, hvalue]
    dsimp only
    rw [if_neg hlt, hnext, ih hs]
    rfl

theorem strtoul_digits (hs : Digits s) (ht : DigitFree t) : strtoul (s ++ t) 10 = (UInt32.ofNat (number s), t) := by
  obtain ⟨hne, hall⟩ := hs
  obtain ⟨c, s', rfl⟩ := exists_cons_of_ne_nil hne
  obtain ⟨hlow, hhigh⟩ := hall c mem_cons_self
  have hspace : (decide (c = 0x20) || (decide (0x09 ≤ c) && decide (c ≤ 0x0D))) = false := by grind
  have hsign : readSign (c :: (s' ++ t)) = (false, c :: (s' ++ t)) := by
    have hplus : c ≠ 0x2B := by grind
    have hminus : c ≠ 0x2D := by grind
    simp [readSign, hplus, hminus]
  have hread := readDigits_digits hall ht 0
  unfold strtoul
  rw [cons_append, dropWhile_cons_of_neg (by simpa using hspace), hsign]
  exact congrArg (fun r : UInt32 × List UInt8 => (r.1, r.2)) hread

theorem units_read {u : List UInt8 × ℕ} (hu : u ∈ units) :
    DigitFree u.1 ∧ 0 < u.2 ∧ u.2 < 2 ^ 32 ∧ readUnit (skipBlanks u.1) = some (UInt32.ofNat u.2) := by
  simp only [units, mem_cons, not_mem_nil, or_false] at hu
  rcases hu with rfl | rfl | rfl | rfl | rfl | rfl | rfl | rfl | rfl | rfl <;> simp only [DigitFree] <;> decide +kernel

theorem digitFree_blanks (hx : ∀ c ∈ x, isBlank c = true) (ht : DigitFree t) : DigitFree (x ++ t) := by
  rcases x with _ | ⟨c, x⟩
  · exact ht
  have hblank : c = 0x20 ∨ c = 0x09 := by simpa [isBlank] using hx c mem_cons_self
  intro b hb
  obtain rfl : c = b := Option.some_inj.mp hb
  rcases hblank with rfl | rfl <;> decide

/-- The test of `parse_size_bytes` is the one for a product of more than 32 bits. -/
theorem max_div_lt_iff {value mult : UInt32} (hmult : mult.toNat = f) (hpos : 0 < f) :
    0xFFFFFFFF / mult < value ↔ 2 ^ 32 ≤ value.toNat * f := by
  rw [UInt32.lt_iff_toNat_lt, UInt32.toNat_div, hmult, Nat.div_lt_iff_lt_mul hpos]
  simp
  omega

theorem parse_size_eq (hs : Digits s) (ht : DigitFree t) (hpos : 0 < f) (hlt : f < 2 ^ 32)
    (hunit : readUnit (skipBlanks t) = some (UInt32.ofNat f)) :
    parse_size_bytes (s ++ t) =
      if number s % 2 ^ 32 = 0 ∨ 2 ^ 32 ≤ number s % 2 ^ 32 * f then none
      else some (UInt32.ofNat (number s % 2 ^ 32 * f)) := by
  have hstart : skipBlanks (s ++ t) = s ++ t := by
    obtain ⟨c, w, rfl⟩ := exists_cons_of_ne_nil hs.1
    have hc := hs.2 c mem_cons_self
    exact dropWhile_cons_of_neg (by grind [isBlank])
  have hlen : t.length ≠ (s ++ t).length := by
    have hs' := length_pos_of_ne_nil hs.1
    rw [length_append]
    omega
  unfold parse_size_bytes
  rw [hstart]
  dsimp only
  rw [strtoul_digits hs ht, if_neg (by simp [hs.1]), hunit]
  dsimp only
  have hvalue : (UInt32.ofNat (number s)).toNat = number s % 2 ^ 32 := toNat_ofNat'
  have hmult : (UInt32.ofNat f).toNat = f := by
    rw [toNat_ofNat', Nat.mod_eq_of_lt hlt]
  generalize UInt32.ofNat (number s) = value at hvalue ⊢
  rw [← hvalue]
  by_cases hzero : value = 0
  · simp [hzero]
  have hne : value.toNat ≠ 0 := fun h => hzero (toNat_inj.mp h)
  have htest : 0xFFFFFFFF / UInt32.ofNat f < value ↔ 2 ^ 32 ≤ value.toNat * f := max_div_lt_iff hmult hpos
  simp only [hlen, hzero, hne, htest, false_or, if_false]
  by_cases hlarge : 2 ^ 32 ≤ value.toNat * f
  · rw [if_pos hlarge, if_pos hlarge]
  have hproduct : value * UInt32.ofNat f = UInt32.ofNat (value.toNat * f) := by
    apply toNat_inj.mp
    rw [toNat_mul, hmult, toNat_ofNat']
  have hpositive : 0 < value * UInt32.ofNat f := by
    rw [UInt32.lt_iff_toNat_lt, toNat_mul, hmult, Nat.mod_eq_of_lt (Nat.not_le.mp hlarge)]
    exact Nat.mul_pos (Nat.pos_of_ne_zero hne) hpos
  rw [if_neg hlarge, if_neg hlarge, if_pos hpositive, hproduct]

/-- The number has 32 bits, or its remainder is rejected too. -/
theorem parse_size_exact_iff {u : List UInt8 × ℕ} (hs : Digits s) (hx : ∀ c ∈ x, isBlank c = true) (hu : u ∈ units) :
    Exact (number s * u.2) (parse_size_bytes (s ++ (x ++ u.1))) ↔
      number s < 2 ^ 32 ∨ number s % 2 ^ 32 = 0 ∨ 2 ^ 32 ≤ number s % 2 ^ 32 * u.2 := by
  obtain ⟨hfree, hpos, hlt, hunit⟩ := units_read hu
  have hskip : skipBlanks (x ++ u.1) = skipBlanks u.1 := dropWhile_append_of_pos hx
  rw [parse_size_eq hs (digitFree_blanks hx hfree) hpos hlt (hskip ▸ hunit)]
  generalize u.2 = f at hpos ⊢
  by_cases hrejected : number s % 2 ^ 32 = 0 ∨ 2 ^ 32 ≤ number s % 2 ^ 32 * f
  · rw [if_pos hrejected]
    exact ⟨fun _ => Or.inr hrejected, fun _ => ⟨nofun, fun _ => rfl⟩⟩
  rw [if_neg hrejected]
  have hlt : number s % 2 ^ 32 * f < 2 ^ 32 := by omega
  constructor
  · intro hexact
    have hlarge : ¬2 ^ 32 ≤ number s * f := fun hlarge => nomatch hexact.2 hlarge
    have hle : number s ≤ number s * f := Nat.le_mul_of_pos_right _ hpos
    exact Or.inl (by omega)
  · intro hcond
    have hn : number s % 2 ^ 32 = number s := Nat.mod_eq_of_lt (hcond.resolve_right hrejected)
    rw [hn] at hlt ⊢
    refine ⟨?_, fun hlarge => absurd hlarge (by omega)⟩
    rintro b ⟨⟩
    rw [toNat_ofNat', Nat.mod_eq_of_lt hlt]

theorem parse_size_exact_twelve_mb :
    Exact (number (ascii ['1', '2']) * 2 ^ 20) (parse_size_bytes (ascii ['1', '2', ' ', 'm', 'b'])) :=
  (parse_size_exact_iff (s := ascii ['1', '2']) (x := ascii [' ']) (u := (ascii ['m', 'b'], 2 ^ 20))
    ⟨by decide +kernel, by decide +kernel⟩ (by decide +kernel) (by decide)).mpr (by decide)

def wrapping : List UInt8 := ascii ['4', '2', '9', '4', '9', '6', '7', '2', '9', '7']

theorem parse_size_wraps :
    parse_size_bytes wrapping = some (2 ^ 20) ∧ ¬Exact (number wrapping * 2 ^ 20) (parse_size_bytes wrapping) := by
  have hvalue : parse_size_bytes wrapping = some (2 ^ 20) := by decide +kernel
  refine ⟨hvalue, fun hexact => ?_⟩
  have hnone := hexact.2 (by decide +kernel)
  rw [hvalue] at hnone
  cases hnone

end Orion.Shell
