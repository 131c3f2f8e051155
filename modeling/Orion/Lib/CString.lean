import Mathlib.Tactic

/-!
# C strings

A C string is the part of a list of bytes in front of the first zero. The functions below are those of a
C library as far as a client can observe them.
-/

namespace Orion.Lib

open List

/-- The C string at the start of `s`. -/
def cstr (s : List UInt8) : List UInt8 := s.takeWhile (· ≠ 0)

/-- `strncmp(s, t, n) == 0`; behind its last byte a list reads as zero. -/
def strncmpEq : Nat → List UInt8 → List UInt8 → Bool
  | 0, _, _ => true
  | n + 1, s, t =>
    if s.headD 0 ≠ t.headD 0 then false
    else if s.headD 0 = 0 then true
    else strncmpEq n s.tail t.tail

/-- The `n` bytes that `strncpy(dest, s, n)` writes. -/
def strncpy (n : Nat) (s : List UInt8) : List UInt8 :=
  (cstr s).take n ++ List.replicate (n - (cstr s).length) 0

def lastToken (cur : List UInt8) : List (List UInt8) := if cur = [] then [] else [cur]

/-- The tokens that `strtok` finds between the bytes `sep`, when `cur` has been read of the next one. -/
def tokensFrom (sep : UInt8) (cur : List UInt8) : List UInt8 → List (List UInt8)
  | [] => lastToken cur
  | c :: s =>
    if c = 0 then lastToken cur
    else if c = sep then lastToken cur ++ tokensFrom sep [] s
    else tokensFrom sep (cur ++ [c]) s

/-- The parts that `strtok` finds. -/
def tokens (sep : UInt8) (s : List UInt8) : List (List UInt8) := tokensFrom sep [] s

theorem cstr_nil : cstr [] = [] := rfl

theorem cstr_cons_zero (s : List UInt8) : cstr (0 :: s) = [] := rfl

theorem cstr_cons {a : UInt8} (ha : a ≠ 0) (s : List UInt8) : cstr (a :: s) = a :: cstr s := by
  simp [cstr, ha]

variable {s t cur : List UInt8} {sep : UInt8}

theorem strncmpEq_iff {n : Nat} : strncmpEq n s t = true ↔ (cstr s).take n = (cstr t).take n := by
  induction n generalizing s t with
  | zero => simp [strncmpEq]
  | succ n ih =>
    -- the heads decide unless they are equal and not zero
    unfold strncmpEq
    rcases s with _ | ⟨a, s⟩
    · rcases t with _ | ⟨b, t⟩
      · simp [cstr]
      by_cases hb : b = 0
      · simp [hb, cstr_nil, cstr_cons_zero]
      · simp [cstr_nil, cstr_cons hb, Ne.symm hb]
    rcases t with _ | ⟨b, t⟩
    · by_cases ha : a = 0
      · simp [ha, cstr_nil, cstr_cons_zero]
      · simp [cstr_nil, cstr_cons ha, ha]
    by_cases hab : a = b
    · subst hab
      by_cases ha : a = 0
      · simp [ha, cstr_cons_zero]
      · simp [cstr_cons ha, ha, ih]
    · by_cases ha : a = 0
      · have hb : b ≠ 0 := fun hb => hab (ha.trans hb.symm)
        simp [ha, cstr_cons_zero, cstr_cons hb, Ne.symm hb]
      · by_cases hb : b = 0
        · simp [hb, cstr_cons_zero, cstr_cons ha, ha]
        · simp [cstr_cons ha, cstr_cons hb, hab]

theorem zero_notMem_cstr (s : List UInt8) : (0 : UInt8) ∉ cstr s := by
  induction s with
  | nil => simp [cstr_nil]
  | cons a s ih =>
    by_cases ha : a = 0
    · simp [ha, cstr_cons_zero]
    · rw [cstr_cons ha]
      simp [ih, Ne.symm ha]

theorem cstr_append_zeros (h : (0 : UInt8) ∉ s) (n : Nat) : cstr (s ++ List.replicate n 0) = s := by
  have hall : ∀ a ∈ s, decide (a ≠ 0) = true := by
    intro a ha
    simp only [decide_eq_true_eq]
    rintro rfl
    exact h ha
  unfold cstr
  rw [takeWhile_append_of_pos hall]
  cases n <;> simp [replicate_succ]

@[simp] theorem length_strncpy (n : Nat) (s : List UInt8) : (strncpy n s).length = n := by
  simp only [strncpy, length_append, length_take, length_replicate]
  omega

theorem cstr_of_notMem (h : (0 : UInt8) ∉ s) : cstr s = s := by
  simpa using cstr_append_zeros h 0

theorem mem_lastToken (hcur : (0 : UInt8) ∉ cur) (h : t ∈ lastToken cur) : t ≠ [] ∧ (0 : UInt8) ∉ t := by
  unfold lastToken at h
  split at h
  · cases h
  · rename_i hne
    obtain rfl := mem_singleton.mp h
    exact ⟨hne, hcur⟩

theorem mem_tokensFrom (hcur : (0 : UInt8) ∉ cur) (h : t ∈ tokensFrom sep cur s) : t ≠ [] ∧ (0 : UInt8) ∉ t := by
  induction s generalizing cur with
  | nil => exact mem_lastToken hcur h
  | cons c s ih =>
    unfold tokensFrom at h
    split at h
    · exact mem_lastToken hcur h
    rename_i hc
    split at h
    · rcases mem_append.mp h with h | h
      · exact mem_lastToken hcur h
      · exact ih (by simp) h
    · exact ih (by simp [hcur, Ne.symm hc]) h

theorem mem_tokens (h : t ∈ tokens sep s) : t ≠ [] ∧ (0 : UInt8) ∉ t :=
  mem_tokensFrom (by simp) h

end Orion.Lib
