import Mathlib.Tactic

/-!
# Switches

A switch is up or down, and every event says which of the two it is now. `Toggles d l d'` says that the events `l`
lead from `d` to `d'` and that every one of them changes the switch.
-/

namespace Orion.Lib

/-- Every event of `l` changes the switch, which is `d` before and `d'` after them. -/
def Toggles (d : Bool) : List Bool → Bool → Prop
  | [], d' => d = d'
  | e :: l, d' => e ≠ d ∧ Toggles e l d'

variable {d d' e : Bool} {l l' : List Bool}

@[simp] theorem toggles_nil : Toggles d [] d' ↔ d = d' := Iff.rfl

@[simp] theorem toggles_cons : Toggles d (e :: l) d' ↔ e ≠ d ∧ Toggles e l d' := Iff.rfl

theorem Toggles.unique {d₁ d₂ : Bool} (h₁ : Toggles d l d₁) (h₂ : Toggles d l d₂) : d₁ = d₂ := by
  induction l generalizing d with
  | nil => exact h₁.symm.trans h₂
  | cons e l ih => exact ih h₁.2 h₂.2

theorem toggles_append : Toggles d (l ++ l') d' ↔ ∃ c, Toggles d l c ∧ Toggles c l' d' := by
  induction l generalizing d with
  | nil => simp
  | cons e l ih =>
    simp only [List.cons_append, toggles_cons, ih]
    constructor
    · rintro ⟨hne, c, hl, hl'⟩
      exact ⟨c, ⟨hne, hl⟩, hl'⟩
    · rintro ⟨c, ⟨hne, hl⟩, hl'⟩
      exact ⟨hne, c, hl, hl'⟩

theorem Toggles.append_iff {c : Bool} (h : Toggles d l c) : Toggles d (l ++ l') d' ↔ Toggles c l' d' := by
  rw [toggles_append]
  constructor
  · rintro ⟨c', hc', hl'⟩
    rwa [h.unique hc']
  · intro hl'
    exact ⟨c, h, hl'⟩

theorem toggles_replicate {n : ℕ} :
    Toggles d (List.replicate n e) d' ↔ (n = 0 ∧ d = d') ∨ (n = 1 ∧ d ≠ e ∧ d' = e) := by
  match n with
  | 0 => simp
  | 1 => simp [eq_comm]
  | n + 2 => simp [List.replicate_succ]

end Orion.Lib
