import Mathlib.Tactic

/-!
# Runs of a deterministic system

A system is a function `step : σ → α → σ`; a run is a list of actions. The rules below turn what one step preserves
into what holds in every state of a run.
-/

namespace Orion.Lib

open List

variable {σ α : Type*} (step : σ → α → σ) {as : List α} {Q : σ → α → Prop} {s : σ}

/-- The state after a run. -/
def exec (s : σ) (as : List α) : σ := as.foldl step s

/-- `P` holds in every state of the run, the first and the last one included. -/
def Throughout (P : σ → Prop) : σ → List α → Prop
  | s, [] => P s
  | s, a :: as => P s ∧ Throughout P (step s a) as

/-- Every action of the run satisfies `Q` in the state in which it is taken. -/
def EachStep (Q : σ → α → Prop) : σ → List α → Prop
  | _, [] => True
  | s, a :: as => Q s a ∧ EachStep Q (step s a) as

instance EachStep.decidable (Q : σ → α → Prop) [∀ s a, Decidable (Q s a)] :
    ∀ s as, Decidable (EachStep step Q s as)
  | _, [] => instDecidableTrue
  | s, a :: as => @instDecidableAnd _ _ _ (EachStep.decidable Q (step s a) as)

@[simp] theorem exec_nil (s : σ) : exec step s [] = s := rfl

@[simp] theorem exec_cons (s : σ) (a : α) (as : List α) : exec step s (a :: as) = exec step (step s a) as := rfl

variable {step} {P : σ → Prop} {J : σ → List α → Prop}

theorem exec_append (s : σ) (as bs : List α) : exec step s (as ++ bs) = exec step (exec step s as) bs := foldl_append

theorem exec_replicate_counter {f : UInt32 → σ} {a : α} (hstep : ∀ n, step (f n) a = f (n + 1)) (k : ℕ) (n : UInt32) :
    exec step (f n) (List.replicate k a) = f (n + UInt32.ofNat k) := by
  induction k generalizing n with
  | zero => exact congrArg f (UInt32.add_zero n).symm
  | succ k ih =>
    have hone : (1 : UInt32) = UInt32.ofNat 1 := rfl
    rw [replicate_succ, exec_cons, hstep, ih, UInt32.add_assoc, UInt32.add_comm 1, hone, ← UInt32.ofNat_add]

theorem Throughout.head (h : Throughout step P s as) : P s := by
  cases as with
  | nil => exact h
  | cons a as => exact h.1

theorem Throughout.mono {P' : σ → Prop} (hP : ∀ s, P s → P' s)
    (h : Throughout step P s as) : Throughout step P' s as := by
  induction as generalizing s with
  | nil => exact hP s h
  | cons a as ih => exact ⟨hP s h.1, ih h.2⟩

/-- `Throughout` speaks about the states that the prefixes of the run lead to. -/
theorem throughout_iff_prefix : Throughout step P s as ↔ ∀ pre, pre <+: as → P (exec step s pre) := by
  induction as generalizing s with
  | nil => simp [Throughout]
  | cons a as ih =>
    simp only [Throughout, ih]
    constructor
    · rintro ⟨hs, hrest⟩ pre hpre
      rcases prefix_cons_iff.mp hpre with rfl | ⟨pre', rfl, hpre'⟩
      · exact hs
      · exact hrest pre' hpre'
    · intro h
      refine ⟨h [] nil_prefix, fun pre hpre => ?_⟩
      exact h (a :: pre) ((prefix_cons_inj a).mpr hpre)

/-- `EachStep` speaks about the states in which the actions of the run are taken. -/
theorem eachStep_iff_prefix : EachStep step Q s as ↔ ∀ pre a, pre ++ [a] <+: as → Q (exec step s pre) a := by
  induction as generalizing s with
  | nil =>
    refine ⟨fun _ pre a hpre => ?_, fun _ => trivial⟩
    simp at hpre
  | cons b as ih =>
    simp only [EachStep, ih]
    constructor
    · rintro ⟨hb, hrest⟩ pre a hpre
      cases pre with
      | nil =>
        obtain rfl : a = b := by simpa using hpre
        exact hb
      | cons c pre =>
        obtain ⟨rfl, htail⟩ := cons_prefix_cons.mp hpre
        exact hrest pre a htail
    · intro h
      refine ⟨h [] b (by simp), fun pre a hpre => ?_⟩
      exact h (b :: pre) a (cons_prefix_cons.mpr ⟨rfl, hpre⟩)

/-- The invariant rule; the invariant may speak about the actions to come, so that a bound on the run can be spent step
by step. -/
theorem throughout_of_inv (hstep : ∀ s a as, J s (a :: as) → Q s a → J (step s a) as)
    (hP : ∀ s as, J s as → P s) (h0 : J s as) (hQ : EachStep step Q s as) : Throughout step P s as := by
  induction as generalizing s with
  | nil => exact hP s [] h0
  | cons a as ih => exact ⟨hP s _ h0, ih (hstep s a as h0 hQ.1) hQ.2⟩

theorem eachStep_of_inv {Q P : σ → α → Prop}
    (hstep : ∀ s a as, J s (a :: as) → Q s a → J (step s a) as) (hP : ∀ s a as, J s (a :: as) → Q s a → P s a)
    (h0 : J s as) (hQ : EachStep step Q s as) : EachStep step P s as := by
  induction as generalizing s with
  | nil => trivial
  | cons a as ih => exact ⟨hP s a as h0 hQ.1, ih (hstep s a as h0 hQ.1) hQ.2⟩

theorem EachStep.and {Q Q' : σ → α → Prop} (h : EachStep step Q s as)
    (h' : EachStep step Q' s as) : EachStep step (fun s a => Q s a ∧ Q' s a) s as := by
  induction as generalizing s with
  | nil => trivial
  | cons a as ih => exact ⟨⟨h.1, h'.1⟩, ih h.2 h'.2⟩

/-- If a step outside `Q` always leads to a state outside `P`, then a run that stays in `P` only takes
steps in `Q`. -/
theorem eachStep_of_throughout (hbad : ∀ s a, P (step s a) → Q s a) (h : Throughout step P s as) :
    EachStep step Q s as := by
  induction as generalizing s with
  | nil => trivial
  | cons a as ih => exact ⟨hbad s a h.2.head, ih h.2⟩

theorem eachStep_of_throughout_inv {J : σ → Prop}
    (hstep : ∀ s a, J s → J (step s a)) (hbad : ∀ s a, J s → P (step s a) → Q s a)
    (h0 : J s) (h : Throughout step P s as) : EachStep step Q s as := by
  induction as generalizing s with
  | nil => trivial
  | cons a as ih => exact ⟨hbad s a h0 h.2.head, ih (hstep s a h0) h.2⟩

/-- For runs with all steps in `F`: if steps in `Q` keep an invariant that implies `P`, and only they lead from it to
`P`, a run stays in `P` exactly when all its steps are in `Q`. -/
theorem throughout_iff_eachStep_under {J : σ → Prop} {F Q : σ → α → Prop} (hP : ∀ s, J s → P s)
    (hstep : ∀ s a, J s → F s a → Q s a → J (step s a)) (hbad : ∀ s a, J s → F s a → P (step s a) → Q s a)
    (h0 : J s) (hF : EachStep step F s as) : Throughout step P s as ↔ EachStep step Q s as := by
  induction as generalizing s with
  | nil => exact iff_of_true (hP s h0) trivial
  | cons a as ih =>
    simp only [Throughout, EachStep]
    constructor
    · rintro ⟨-, hrest⟩
      have hQ := hbad s a h0 hF.1 hrest.head
      exact ⟨hQ, (ih (hstep s a h0 hF.1 hQ) hF.2).mp hrest⟩
    · rintro ⟨hQ, hrest⟩
      exact ⟨hP s h0, (ih (hstep s a h0 hF.1 hQ) hF.2).mpr hrest⟩

theorem eachStep_trivial (s : σ) (as : List α) : EachStep step (fun _ _ => True) s as := by
  induction as generalizing s with
  | nil => trivial
  | cons a as ih => exact ⟨trivial, ih (step s a)⟩

theorem throughout_iff_eachStep {J : σ → Prop} (hP : ∀ s, J s → P s)
    (hstep : ∀ s a, J s → Q s a → J (step s a)) (hbad : ∀ s a, J s → P (step s a) → Q s a)
    (h0 : J s) : Throughout step P s as ↔ EachStep step Q s as :=
  throughout_iff_eachStep_under hP (fun s a hJ _ hQ => hstep s a hJ hQ) (fun s a hJ _ hP => hbad s a hJ hP) h0
    (eachStep_trivial s as)

/-- The invariant rule for a loop that can fail but does not in the states of the invariant. -/
theorem foldlM_of_inv {f : σ → α → Option σ} {J : σ → Prop}
    (hstep : ∀ s a, a ∈ as → J s → ∃ s', f s a = some s' ∧ J s') (h0 : J s) : ∃ s', as.foldlM f s = some s' ∧ J s' := by
  induction as generalizing s with
  | nil => exact ⟨s, rfl, h0⟩
  | cons a as ih =>
    obtain ⟨s', heq, hJ⟩ := hstep s a mem_cons_self h0
    rw [foldlM_cons, heq]
    exact ih (fun t b hb => hstep t b (mem_cons_of_mem a hb)) hJ

end Orion.Lib
