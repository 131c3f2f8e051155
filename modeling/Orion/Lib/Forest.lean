import Mathlib.Tactic
import Mathlib.Data.List.Lattice

/-!
# Directory forests that own blocks

A directory is named by its first block. In its slots stand nodes, each with the list of blocks that it owns and, when
it is a directory, the name of that directory. `Owned` says that the nodes reachable from the root own disjoint lists,
so that every directory has exactly one parent. `Owned.put` is the rule for an operation, which changes one slot.
-/

namespace Orion.Lib

/-- A slot in use: a directory or a file, with the blocks it owns. -/
structure Node (B : Type*) where
  /-- the directory that this node is, if it is one -/
  sub : Option B
  owned : List B
  deriving DecidableEq

/-- What the slots of the directories hold. -/
abbrev View (B S : Type*) := B → S → Option (Node B)

variable {B S : Type*} {w w' : View B S} {root : B} {own : List B}
  {d d' b : B} {s s' : S} {n : Node B} {up : B → B → Prop}

/-- The directories that can be reached from the root. -/
inductive Reach (w : View B S) (root : B) : B → Prop
  | root : Reach w root root
  | sub {d c : B} {s : S} {n : Node B} :
    Reach w root d → w d s = some n → n.sub = some c → Reach w root c

/-- The node `n` in the slot `(d, s)` shares no block with the root or with another slot. -/
structure Separate (w : View B S) (root : B) (own : List B) (d : B) (s : S) (n : Node B) : Prop where
  others : ∀ {d' s' n'}, Reach w root d' → w d' s' = some n' → (d', s') ≠ (d, s) →
    n.owned.Disjoint n'.owned
  root : own.Disjoint n.owned

/-- Reachable nodes own disjoint lists of blocks, and the root owns `own`. -/
structure Owned (w : View B S) (root : B) (own : List B) : Prop where
  root_mem : root ∈ own
  head : ∀ {d s n c}, Reach w root d → w d s = some n → n.sub = some c → c ∈ n.owned
  separate : ∀ {d s n}, Reach w root d → w d s = some n → Separate w root own d s n

/-- Only the slot `(d, s)` may have changed, and no other has gained anything; a new directory in it is empty. -/
structure Put (w w' : View B S) (root : B) (d : B) (s : S) : Prop where
  dir : Reach w root d
  keep : ∀ {d' s' n}, Reach w root d' → w' d' s' = some n → (d', s') ≠ (d, s) → w d' s' = some n
  sub : ∀ {n c}, w' d s = some n → n.sub = some c →
    (∃ n', w d s = some n' ∧ n'.sub = some c) ∨ ∀ s', w' c s' = none

/-- After a `Put` a reachable directory was reachable before or is the new, empty one. -/
theorem Put.reach (hp : Put w w' root d s) (hr : Reach w' root d') : Reach w root d' ∨ ∀ s', w' d' s' = none := by
  induction hr with
  | root => exact .inl .root
  | @sub e c s' n _ he hc ih =>
    rcases ih with hre | hempty
    · by_cases heq : (e, s') = (d, s)
      · obtain ⟨rfl, rfl⟩ := Prod.mk.injEq .. ▸ heq
        rcases hp.sub he hc with ⟨n', hn', hc'⟩ | hempty
        · exact .inl (hre.sub hn' hc')
        · exact .inr hempty
      · exact .inl (hre.sub (hp.keep hre he heq) hc)
    · rw [hempty s'] at he
      cases he

theorem Put.node (hp : Put w w' root d s) (hr : Reach w' root d') (hn : w' d' s' = some n) :
    Reach w root d' ∧ ((d', s') = (d, s) ∨ (d', s') ≠ (d, s) ∧ w d' s' = some n) := by
  rcases hp.reach hr with hre | hempty
  · by_cases heq : (d', s') = (d, s)
    · exact ⟨hre, .inl heq⟩
    · exact ⟨hre, .inr ⟨heq, hp.keep hre hn heq⟩⟩
  · rw [hempty s'] at hn
    cases hn

theorem Owned.put (ho : Owned w root own) (hp : Put w w' root d s) (hnew : ∀ n, w' d s = some n →
      Separate w root own d s n ∧ ∀ c, n.sub = some c → c ∈ n.owned) : Owned w' root own := by
  have hsep : ∀ {e t n}, Reach w' root e → w' e t = some n → Separate w root own e t n := by
    intro e t n hr hn
    obtain ⟨hre, heq | ⟨-, hold⟩⟩ := hp.node hr hn
    · obtain ⟨rfl, rfl⟩ := Prod.mk.injEq .. ▸ heq
      exact (hnew n hn).1
    · exact ho.separate hre hold
  refine ⟨ho.root_mem, ?_, ?_⟩
  · intro e t n c hr hn hc
    obtain ⟨hre, heq | ⟨-, hold⟩⟩ := hp.node hr hn
    · obtain ⟨rfl, rfl⟩ := Prod.mk.injEq .. ▸ heq
      exact (hnew n hn).2 c hc
    · exact ho.head hre hold hc
  · intro e t n hr hn
    refine ⟨?_, (hsep hr hn).root⟩
    intro e' t' n' hr' hn' hne
    obtain ⟨hre', heq | ⟨-, hold'⟩⟩ := hp.node hr' hn'
    · -- the other slot is the changed one, so this one is an old one
      obtain ⟨hre, heq2 | ⟨-, hold⟩⟩ := hp.node hr hn
      · exact absurd (heq.trans heq2.symm) hne
      · obtain ⟨rfl, rfl⟩ := Prod.mk.injEq .. ▸ heq
        exact ((hsep hr' hn').others hre hold hne.symm).symm
    · exact (hsep hr hn).others hre' hold' hne

theorem Owned.slot_unique {n' : Node B} (ho : Owned w root own)
    (hd : Reach w root d) (hd' : Reach w root d') (hn : w d s = some n) (hn' : w d' s' = some n')
    (hb : b ∈ n.owned) (hb' : b ∈ n'.owned) : (d, s) = (d', s') := by
  by_contra hne
  exact (ho.separate hd hn).others hd' hn' (Ne.symm hne) hb hb'

section Keep

variable {d : B} {s : S} (hkeep : ∀ {d' s'}, Reach w root d' → (d', s') ≠ (d, s) → w' d' s' = w d' s')
  (hempty : ∀ {n c}, w d s = some n → n.sub = some c → ∀ s', w c s' = none) {x : B}

include hkeep hempty

/-- A directory is still reached when the slot `(d, s)` has changed, unless it was the one in that slot. -/
theorem Reach.keep (hx : Reach w root x) : Reach w' root x ∨ ∃ n, w d s = some n ∧ n.sub = some x := by
  induction hx with
  | root => exact .inl .root
  | @sub e c t n he hn hc ih =>
    rcases ih with hre | ⟨n', hn', hc'⟩
    · by_cases heq : (e, t) = (d, s)
      · obtain ⟨rfl, rfl⟩ := Prod.mk.injEq .. ▸ heq
        exact .inr ⟨n, hn, hc⟩
      · exact .inl (hre.sub ((hkeep he heq).trans hn) hc)
    · rw [hempty hn' hc' t] at hn
      cases hn

theorem Reach.keep_of_some {t : S} {n : Node B} (hx : Reach w root x) (hn : w x t = some n) : Reach w' root x := by
  rcases hx.keep hkeep hempty with hre | ⟨n', hn', hc'⟩
  · exact hre
  · rw [hempty hn' hc' t] at hn
    cases hn

theorem Reach.keep_self (hd : Reach w root d) : Reach w' root d := by
  rcases hd.keep hkeep hempty with hre | ⟨n, hn, hc⟩
  · exact hre
  · exact hd.keep_of_some hkeep hempty hn

end Keep

/-! ## Links upwards -/

/-- Links in a directory lead to itself or to its parent, and the root has none. -/
def Upward (w : View B S) (root : B) (up : B → B → Prop) : Prop :=
  (∀ b, ¬up root b) ∧
    ∀ {p s n c b}, Reach w root p → w p s = some n → n.sub = some c → up c b → b = c ∨ b = p

theorem Upward.reach (hu : Upward w root up) {c : B} (hc : Reach w root c) (hb : up c b) : Reach w root b := by
  cases hc with
  | root => exact absurd hb (hu.1 b)
  | sub hp hn hc' =>
    rcases hu.2 hp hn hc' hb with rfl | rfl
    · exact hp.sub hn hc'
    · exact hp

/-- A `Put` keeps the links, when it leaves the old ones alone and those of a new directory lead to itself and its
parent. -/
theorem Upward.put {up' : B → B → Prop} (hu : Upward w root up)
    (hp : Put w w' root d s) (hold : ∀ {c b}, Reach w root c → up' c b → up c b)
    (hnew : ∀ {n c b}, w' d s = some n → n.sub = some c →
      (∀ n', w d s = some n' → n'.sub ≠ some c) → up' c b → b = c ∨ b = d) :
    Upward w' root up' := by
  refine ⟨fun b hb => hu.1 b (hold .root hb), ?_⟩
  intro p t n c b hr hn hc hb
  obtain ⟨hre, heq | ⟨-, hn'⟩⟩ := hp.node hr hn
  · obtain ⟨rfl, rfl⟩ := Prod.mk.injEq .. ▸ heq
    by_cases hsame : ∃ n', w p t = some n' ∧ n'.sub = some c
    · obtain ⟨n', hn', hc'⟩ := hsame
      exact hu.2 hre hn' hc' (hold (hre.sub hn' hc') hb)
    · exact hnew hn hc (fun n' hn' hc' => hsame ⟨n', hn', hc'⟩) hb
  · exact hu.2 hre hn' hc (hold (hre.sub hn' hc) hb)

end Orion.Lib
