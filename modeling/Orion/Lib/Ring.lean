import Mathlib.Tactic

/-!
# Ring buffers

A ring of `N` cells with the position `head` of the next write and the position `tail` of the next read.
One cell stays empty, so that a full ring differs from an empty one. `Repr` relates a ring to the list of
what it holds.
-/

namespace Orion.Lib

open List Function
open Nat (mod_eq_of_lt mod_add_mod)

/-- A ring: cells, the next to be written and the next to be read. -/
structure RingBuffer (α : Type*) where
  cells : ℕ → Option α
  head : ℕ
  tail : ℕ

namespace RingBuffer

variable {α : Type*} (N : ℕ)

def empty : RingBuffer α := ⟨fun _ => none, 0, 0⟩

/-- One cell stays empty, so that a full ring differs from an empty one. -/
def enqueue (r : RingBuffer α) (a : α) : Option (RingBuffer α) :=
  if (r.head + 1) % N ≠ r.tail then
    some { r with cells := update r.cells r.head (some a), head := (r.head + 1) % N }
  else none

/-- The oldest element is taken out. -/
def dequeue (r : RingBuffer α) : Option α × RingBuffer α :=
  if r.head ≠ r.tail then
    (r.cells r.tail, { r with cells := update r.cells r.tail none, tail := (r.tail + 1) % N })
  else (none, r)

/-- The cells from the tail to the head. -/
def contents (r : RingBuffer α) : List (Option α) :=
  (List.range ((r.head + N - r.tail) % N)).map fun i => r.cells ((r.tail + i) % N)

/-- The ring holds the list `l`. -/
structure Repr (r : RingBuffer α) (l : List α) : Prop where
  tail_lt : r.tail < N
  head_eq : r.head = (r.tail + l.length) % N
  short : l.length < N
  cell : ∀ i < l.length, r.cells ((r.tail + i) % N) = l[i]?

variable {N} {r : RingBuffer α} {l : List α} {a : α}

theorem repr_empty (hN : 0 < N) : Repr N (empty : RingBuffer α) [] :=
  ⟨hN, by simp [empty], hN, fun i hi => absurd hi (by simp)⟩

theorem offset_inj {t i j : ℕ} (hi : i < N) (hj : j < N) (h : (t + i) % N = (t + j) % N) : i = j := by
  have hmod : i % N = j % N := Nat.ModEq.add_left_cancel' t h
  rwa [mod_eq_of_lt hi, mod_eq_of_lt hj] at hmod

theorem Repr.contents_eq (h : Repr N r l) : r.contents N = l.map some := by
  have hlen : (r.head + N - r.tail) % N = l.length := by
    have hle := h.tail_lt
    have hshort := h.short
    rw [h.head_eq]
    by_cases hwrap : r.tail + l.length < N
    · rw [mod_eq_of_lt hwrap, show r.tail + l.length + N - r.tail = l.length + N by omega,
        Nat.add_mod_right, mod_eq_of_lt hshort]
    · have hm : (r.tail + l.length) % N = r.tail + l.length - N := by
        rw [Nat.mod_eq_sub_mod (by omega), mod_eq_of_lt (by omega)]
      rw [hm, show r.tail + l.length - N + N - r.tail = l.length by omega, mod_eq_of_lt hshort]
  unfold contents
  rw [hlen]
  apply ext_getElem
  · simp
  · intro i hi hi'
    simp only [length_map] at hi'
    simp [h.cell i hi', getElem?_eq_getElem hi']

theorem Repr.enqueue_cases (h : Repr N r l) (a : α) : (l.length + 1 = N ∧ r.enqueue N a = none) ∨
      ∃ r', l.length + 1 < N ∧ r.enqueue N a = some r' ∧ Repr N r' (l ++ [a]) := by
  have hshort := h.short
  have hnext : (r.head + 1) % N = (r.tail + (l.length + 1)) % N := by
    rw [h.head_eq, mod_add_mod, Nat.add_assoc]
  by_cases hfull : l.length + 1 = N
  · left
    refine ⟨hfull, if_neg ?_⟩
    rw [hnext, hfull, Nat.add_mod_right, mod_eq_of_lt h.tail_lt, not_not]
  · right
    have hlt : l.length + 1 < N := by omega
    have hne : (r.head + 1) % N ≠ r.tail := by
      rw [hnext]
      intro heq
      have h0 : (r.tail + (l.length + 1)) % N = (r.tail + 0) % N := by
        rw [heq, Nat.add_zero, mod_eq_of_lt h.tail_lt]
      have := offset_inj hlt (by omega) h0
      omega
    refine ⟨_, hlt, if_pos hne, h.tail_lt, ?_, by simpa using hlt, ?_⟩
    · simpa using hnext
    intro i hi
    simp only [length_append, length_singleton] at hi
    rw [h.head_eq]
    by_cases hil : i = l.length
    · subst hil
      simp
    have hne' : (r.tail + i) % N ≠ (r.tail + l.length) % N := fun heq => hil (offset_inj (by omega) hshort heq)
    show update r.cells ((r.tail + l.length) % N) (some a) ((r.tail + i) % N) = _
    rw [update_of_ne hne', h.cell i (by omega), getElem?_append_left (by omega)]

theorem Repr.dequeue_nil (h : Repr N r []) : r.dequeue N = (none, r) := by
  have heq : r.head = r.tail := by
    rw [h.head_eq]
    simpa using mod_eq_of_lt h.tail_lt
  exact if_neg (not_not.mpr heq)

theorem Repr.advance (h : Repr N r (a :: l)) :
    r.head ≠ r.tail ∧ r.cells r.tail = some a ∧ Repr N { r with tail := (r.tail + 1) % N } l := by
  have hshort : l.length + 1 < N := by simpa using h.short
  have htail := h.tail_lt
  have hne : r.head ≠ r.tail := by
    rw [h.head_eq]
    intro heq
    have h0 : (r.tail + (l.length + 1)) % N = (r.tail + 0) % N := heq.trans (mod_eq_of_lt htail).symm
    have := offset_inj hshort (by omega) h0
    omega
  have hfirst : r.cells r.tail = some a := by
    have := h.cell 0 (by simp)
    rwa [Nat.add_zero, mod_eq_of_lt htail] at this
  refine ⟨hne, hfirst, Nat.mod_lt _ (Nat.zero_lt_of_lt htail), ?_, Nat.lt_of_succ_lt hshort, ?_⟩
  · simp only [mod_add_mod]
    rw [h.head_eq, length_cons]
    congr 1
    omega
  · intro i hi
    have hshift : ((r.tail + 1) % N + i) % N = (r.tail + (i + 1)) % N := by
      rw [mod_add_mod]
      congr 1
      omega
    simp only [hshift]
    rw [h.cell (i + 1) (by simpa using hi), getElem?_cons_succ]

theorem Repr.dequeue_cons (h : Repr N r (a :: l)) : ∃ r', r.dequeue N = (some a, r') ∧ Repr N r' l := by
  obtain ⟨hne, hfirst, hrest⟩ := h.advance
  have htaken : r.dequeue N = (some a, { r with cells := update r.cells r.tail none, tail := (r.tail + 1) % N }) := by
    rw [dequeue, if_pos hne, hfirst]
  refine ⟨_, htaken, hrest.tail_lt, hrest.head_eq, hrest.short, fun i hi => ?_⟩
  -- the cleared cell is none of those that still hold something
  have hshort : l.length + 1 < N := by simpa using h.short
  have hcell : ((r.tail + 1) % N + i) % N ≠ r.tail := by
    intro heq
    rw [mod_add_mod, Nat.add_assoc] at heq
    have h0 : (r.tail + (1 + i)) % N = (r.tail + 0) % N := heq.trans (mod_eq_of_lt h.tail_lt).symm
    have := offset_inj (by omega) (by omega) h0
    omega
  show update r.cells r.tail none _ = _
  rw [update_of_ne hcell]
  exact hrest.cell i hi

end RingBuffer

end Orion.Lib
