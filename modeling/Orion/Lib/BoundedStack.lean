import Mathlib.Tactic

/-!
# Stacks with a limit

An entry of a list is put on a stack, takes the last one back or does nothing. A stack with room for `n` entries drops
those that find it full. Reading from right to left tells which entries are left without a stack.
-/

namespace Orion.Lib

open List

/-- What an element does to the stack. -/
inductive Effect where
  | skip
  | back
  | put
deriving DecidableEq

section

variable {α : Type} (effect : α → Effect) (n : ℕ)

/-- An element is dropped, taken back or put on a stack of at most `n`. -/
def stackStep (stack : List α) (a : α) : List α :=
  match effect a with
  | .skip => stack
  | .back => stack.dropLast
  | .put => if stack.length < n then stack ++ [a] else stack

/-- What is left of a list that is read from its end, when `k` entries are still to be taken back. -/
def leftFrom : ℕ → List α → List α
  | _, [] => []
  | k, a :: l =>
    match effect a with
    | .skip => leftFrom k l
    | .back => leftFrom (k + 1) l
    | .put =>
      match k with
      | 0 => a :: leftFrom 0 l
      | k + 1 => leftFrom k l

/-- The entries that no later entry takes back. -/
def left (l : List α) : List α := (leftFrom effect 0 l.reverse).reverse

/-- The list with one more entry, unless this is put and finds `n` others there. -/
def accept (before : List α) (a : α) : List α :=
  if effect a = .put ∧ n ≤ (left effect before).length then before else before ++ [a]

end

variable {α : Type} {effect : α → Effect} {n : ℕ} {l : List α}

theorem leftFrom_eq_drop (k : ℕ) (l : List α) : leftFrom effect k l = (leftFrom effect 0 l).drop k := by
  induction l generalizing k with
  | nil => simp [leftFrom]
  | cons a l ih =>
    unfold leftFrom
    cases effect a with
    | skip => exact ih k
    | back =>
      show leftFrom effect (k + 1) l = (leftFrom effect (0 + 1) l).drop k
      rw [ih (k + 1), ih (0 + 1), drop_drop]
      congr 1
      omega
    | put =>
      cases k with
      | zero => rfl
      | succ k => exact ih k

theorem left_concat (l : List α) (a : α) : left effect (l ++ [a]) = match effect a with
    | .skip => left effect l
    | .back => (left effect l).dropLast
    | .put => left effect l ++ [a] := by
  unfold left
  rw [reverse_append, reverse_singleton, singleton_append, leftFrom]
  cases effect a with
  | skip => rfl
  | back =>
    show (leftFrom effect 1 l.reverse).reverse = _
    rw [leftFrom_eq_drop, drop_one, dropLast_reverse]
  | put => exact reverse_cons

theorem stackStep_left (before : List α) (a : α) :
    stackStep effect n (left effect before) a = left effect (accept effect n before a) := by
  unfold accept
  by_cases hfull : effect a = .put ∧ n ≤ (left effect before).length
  · rw [if_pos hfull, stackStep, hfull.1]
    exact if_neg (by omega)
  rw [if_neg hfull, left_concat, stackStep]
  cases heffect : effect a with
  | skip => rfl
  | back => rfl
  | put =>
    have hroom : ¬ n ≤ (left effect before).length := fun h => hfull ⟨heffect, h⟩
    exact if_pos (by omega)

/-- A run of the stack; the entries before have left the stack that it starts with. -/
theorem foldl_stackStep (l before : List α) : l.foldl (stackStep effect n) (left effect before) =
    left effect (l.foldl (accept effect n) before) := by
  induction l generalizing before with
  | nil => rfl
  | cons a l ih => rw [foldl_cons, foldl_cons, stackStep_left, ih]

/-- A stack that never grows beyond its room drops nothing. -/
theorem foldl_accept {before : List α} (hdepth : ∀ m, m <+: l → (left effect (before ++ m)).length ≤ n) :
    l.foldl (accept effect n) before = before ++ l := by
  induction l generalizing before with
  | nil => simp
  | cons a l ih =>
    have hone : accept effect n before a = before ++ [a] := by
      apply if_neg
      rintro ⟨hput, hfull⟩
      have hlen := hdepth [a] (cons_prefix_cons.mpr ⟨rfl, nil_prefix⟩)
      rw [left_concat, hput, length_append, length_singleton] at hlen
      omega
    have hrest : l.foldl (accept effect n) (before ++ [a]) = before ++ [a] ++ l := by
      apply ih
      intro m hm
      rw [append_assoc]
      exact hdepth (a :: m) (cons_prefix_cons.mpr ⟨rfl, hm⟩)
    rw [foldl_cons, hone, hrest, append_assoc]
    rfl

/-- Without entries that take others back, all entries that are put are left. -/
theorem left_eq_filter (hback : ∀ a ∈ l, effect a ≠ .back) :
    left effect l = l.filter (fun a => effect a = .put) := by
  induction l using List.reverseRecOn with
  | nil => rfl
  | append_singleton l a ih =>
    have hrest := ih fun b hb => hback b (mem_append_left _ hb)
    rw [left_concat, filter_append, hrest]
    cases heffect : effect a with
    | skip => simp [heffect]
    | back => exact absurd heffect (hback a (by simp))
    | put => simp [heffect]

theorem mem_of_mem_left {a : α} (h : a ∈ left effect l) : a ∈ l ∧ effect a = .put := by
  induction l using List.reverseRecOn with
  | nil => cases h
  | append_singleton l b ih =>
    have hbefore : a ∈ left effect l → a ∈ l ++ [b] ∧ effect a = .put := fun hmem =>
      ⟨mem_append_left _ (ih hmem).1, (ih hmem).2⟩
    rw [left_concat] at h
    cases heffect : effect b with
    | skip =>
      rw [heffect] at h
      exact hbefore h
    | back =>
      rw [heffect] at h
      exact hbefore (mem_of_mem_dropLast h)
    | put =>
      rw [heffect, mem_append, mem_singleton] at h
      rcases h with h | rfl
      · exact hbefore h
      · exact ⟨by simp, heffect⟩

end Orion.Lib
