import Mathlib.Tactic

/-!
# Paths with a cost

`R k s t` says that a system may move from `s` to `t` at the cost `k`. A path adds up the costs of its moves. An
invariant may speak about the budget that is left.
-/

namespace Orion.Lib

variable {σ : Type*} {R : ℕ → σ → σ → Prop} {s t u : σ} {k m n : ℕ}

/-- Steps of `R` in a row; the costs add up. -/
inductive Path (R : ℕ → σ → σ → Prop) : ℕ → σ → σ → Prop where
  | nil (s : σ) : Path R 0 s s
  | cons {k n : ℕ} {s t u : σ} (head : R k s t) (tail : Path R n t u) : Path R (k + n) s u

theorem Path.trans (h : Path R m s t) (h' : Path R n t u) : Path R (m + n) s u := by
  induction h with
  | nil s => rwa [Nat.zero_add]
  | cons head _ ih =>
    rw [Nat.add_assoc]
    exact .cons head (ih h')

/-- `t` can be reached from `s` at a cost of at most `b`. -/
def Within (R : ℕ → σ → σ → Prop) (b : ℕ) (s t : σ) : Prop := ∃ n ≤ b, Path R n s t

theorem Within.refl (s : σ) : Within R 0 s s := ⟨0, le_rfl, .nil s⟩

theorem Within.single (h : R k s t) : Within R k s t := ⟨k + 0, le_rfl, .cons h (.nil t)⟩

theorem Within.trans (h : Within R m s t) (h' : Within R n t u) : Within R (m + n) s u := by
  obtain ⟨a, ha, hp⟩ := h
  obtain ⟨b, hb, hq⟩ := h'
  exact ⟨a + b, Nat.add_le_add ha hb, hp.trans hq⟩

theorem Within.mono (h : Within R m s t) (hle : m ≤ n) : Within R n s t := by
  obtain ⟨a, ha, hp⟩ := h
  exact ⟨a, ha.trans hle, hp⟩

theorem Within.snoc (h : Within R m s t) (hmove : R 0 t u) : Within R m s u := h.trans (.single hmove)

theorem Path.keeps {J : ℕ → σ → Prop} (hmove : ∀ k m s t, R k s t → J (k + m) s → J m t)
    (h : Path R n s t) : ∀ m, J (n + m) s → J m t := by
  induction h with
  | nil s =>
    intro m hJ
    rwa [Nat.zero_add] at hJ
  | cons head _ ih =>
    intro m hJ
    rw [Nat.add_assoc] at hJ
    exact ih m (hmove _ _ _ _ head hJ)

end Orion.Lib
