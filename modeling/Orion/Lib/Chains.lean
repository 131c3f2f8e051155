import Mathlib.Tactic

/-!
# Chains in a table of links

A table maps the number of a cell to the number of the next cell; the cells in use are numbered from two
on, a zero marks a free cell, and a value from `eoc` on ends a chain. The chains of a table are what a
walk along the links meets.
-/

namespace Orion.Lib

open List Function

variable {l m : List ℕ} {n c : ℕ} {next' : ℕ → ℕ} (eoc : ℕ) (next : ℕ → ℕ)

/-- The value is a cell and no mark. -/
def isCell (c : ℕ) : Prop := 2 ≤ c ∧ c < eoc
deriving Decidable

/-- The cells met in at most `n` steps from `c` on. -/
def walk : ℕ → ℕ → List ℕ
  | 0, _ => []
  | n + 1, c => if isCell eoc c then c :: walk n (next c) else []

/-- The cells of the chain that starts at `c`. Without a repetition there are fewer than `eoc`. -/
def chain (c : ℕ) : List ℕ := walk eoc next eoc c

/-- Every cell links to the next one, and the last to an end mark. -/
def Linked : List ℕ → Prop
  | [] => True
  | [c] => isCell eoc c ∧ eoc ≤ next c
  | c :: d :: l => isCell eoc c ∧ next c = d ∧ Linked (d :: l)

instance : ∀ l, Decidable (Linked eoc next l)
  | [] => instDecidableTrue
  | [_] => inferInstanceAs (Decidable (_ ∧ _))
  | _ :: d :: l => @instDecidableAnd _ _ _ (@instDecidableAnd _ _ _ (instDecidableLinked (d :: l)))

/-- A chain of different cells. -/
structure Chain (l : List ℕ) : Prop where
  linked : Linked eoc next l
  nodup : l.Nodup

/-- The table in which the cells of `l` are linked, with `mark` at the end. -/
def linkUp (mark : ℕ) : (ℕ → ℕ) → List ℕ → (ℕ → ℕ)
  | next, [] => next
  | next, [c] => update next c mark
  | next, c :: d :: l => linkUp mark (update next c d) (d :: l)

/-- The table in which the cells of `l` are free. -/
def clear (next : ℕ → ℕ) (l : List ℕ) : ℕ → ℕ := fun c => if c ∈ l then 0 else next c

variable {eoc next} {mark p d : ℕ}

theorem walk_cons (h : isCell eoc c) : walk eoc next (n + 1) c = c :: walk eoc next n (next c) := if_pos h

theorem walk_of_not_isCell (h : ¬ isCell eoc c) : walk eoc next n c = [] := by
  cases n with
  | zero => rfl
  | succ n => exact if_neg h

theorem chain_of_not_isCell (h : ¬ isCell eoc c) : chain eoc next c = [] := walk_of_not_isCell h

@[simp] theorem chain_zero : chain eoc next 0 = [] := chain_of_not_isCell fun h => by simp [isCell] at h

theorem Linked.tail (h : Linked eoc next (c :: l)) : Linked eoc next l := by
  cases l with
  | nil => trivial
  | cons d l => exact h.2.2

theorem Linked.isCell_head (h : Linked eoc next (c :: l)) : isCell eoc c := by
  cases l with
  | nil => exact h.1
  | cons d l => exact h.1

theorem Linked.isCell (h : Linked eoc next l) (hc : c ∈ l) : isCell eoc c := by
  induction l with
  | nil => cases hc
  | cons d l ih =>
    rcases mem_cons.mp hc with rfl | hc
    · exact h.isCell_head
    · exact ih h.tail hc

theorem Linked.next_ne_zero (h : Linked eoc next l) (hc : c ∈ l) : next c ≠ 0 := by
  induction l with
  | nil => cases hc
  | cons d l ih =>
    rcases mem_cons.mp hc with rfl | hc
    · cases l with
      | nil =>
        have h1 := h.1.2
        have h2 := h.2
        omega
      | cons e l =>
        have h1 := h.2.2.isCell_head.1
        have h2 := h.2.1
        omega
    · exact ih h.tail hc

theorem Linked.congr (h : Linked eoc next l) (he : ∀ c ∈ l, next' c = next c) : Linked eoc next' l := by
  induction l with
  | nil => trivial
  | cons c l ih =>
    have htail := ih h.tail fun d hd => he d (mem_cons_of_mem _ hd)
    have hhead := he c mem_cons_self
    cases l with
    | nil => exact ⟨h.1, by rw [hhead]; exact h.2⟩
    | cons d l => exact ⟨h.1, by rw [hhead]; exact h.2.1, htail⟩

theorem walk_of_linked (h : Linked eoc next (c :: l)) (hn : l.length < n) : walk eoc next n c = c :: l := by
  induction l generalizing n c with
  | nil =>
    obtain ⟨n, rfl⟩ := Nat.exists_eq_succ_of_ne_zero (by omega : n ≠ 0)
    rw [walk_cons h.1, walk_of_not_isCell]
    intro hcell
    exact absurd hcell.2 (Nat.not_lt.mpr h.2)
  | cons d l ih =>
    obtain ⟨n, rfl⟩ := Nat.exists_eq_succ_of_ne_zero (by omega : n ≠ 0)
    rw [walk_cons h.1, h.2.1, ih h.2.2 (by simpa using hn)]

theorem length_le_of_isCell (hnd : l.Nodup) (h : ∀ c ∈ l, isCell eoc c) : l.length ≤ eoc := by
  have hsub : l.toFinset ⊆ Finset.range eoc := by
    intro c hc
    exact Finset.mem_range.mpr (h c (mem_toFinset.mp hc)).2
  have hcard := Finset.card_le_card hsub
  rwa [toFinset_card_of_nodup hnd, Finset.card_range] at hcard

theorem Chain.chain_eq (h : Chain eoc next (c :: l)) : chain eoc next c = c :: l := by
  have hlen := length_le_of_isCell h.nodup fun d hd => h.linked.isCell hd
  exact walk_of_linked h.linked (by simpa using hlen)

theorem Chain.congr (h : Chain eoc next l) (he : ∀ c ∈ l, next' c = next c) : Chain eoc next' l :=
  ⟨h.linked.congr he, h.nodup⟩

theorem Chain.tail (h : Chain eoc next (c :: l)) : Chain eoc next l := ⟨h.linked.tail, h.nodup.of_cons⟩

theorem walk_congr (he : ∀ d ∈ walk eoc next n c, next' d = next d) : walk eoc next' n c = walk eoc next n c := by
  induction n generalizing c with
  | zero => rfl
  | succ n ih =>
    by_cases hc : isCell eoc c
    · rw [walk_cons hc] at he ⊢
      have hhead := he c mem_cons_self
      rw [walk_cons hc, hhead, ih fun d hd => he d (mem_cons_of_mem _ hd)]
    · rw [walk_of_not_isCell hc, walk_of_not_isCell hc]

theorem chain_congr (he : ∀ d ∈ chain eoc next c, next' d = next d) : chain eoc next' c = chain eoc next c :=
  walk_congr he

/-! ## Building and dropping chains -/

theorem linkUp_of_notMem (h : c ∉ l) : linkUp mark next l c = next c := by
  induction l generalizing next with
  | nil => rfl
  | cons d l ih =>
    have hcd : c ≠ d := fun e => h (e ▸ mem_cons_self)
    cases l with
    | nil => exact update_of_ne hcd _ _
    | cons e l =>
      rw [linkUp, ih fun hc => h (mem_cons_of_mem _ hc), update_of_ne hcd]

theorem linked_linkUp (hmark : eoc ≤ mark) (hnd : l.Nodup)
    (hcell : ∀ c ∈ l, isCell eoc c) : Linked eoc (linkUp mark next l) l := by
  induction l generalizing next with
  | nil => trivial
  | cons c l ih =>
    have hc := hcell c mem_cons_self
    rcases l with _ | ⟨d, l⟩
    · exact ⟨hc, by simpa [linkUp] using hmark⟩
    have hnotMem := (nodup_cons.mp hnd).1
    refine ⟨hc, ?_, ih hnd.of_cons fun e he => hcell e (mem_cons_of_mem _ he)⟩
    rw [linkUp, linkUp_of_notMem hnotMem, update_self]

theorem chain_linkUp (hmark : eoc ≤ mark) (hnd : l.Nodup)
    (hcell : ∀ c ∈ l, isCell eoc c) : Chain eoc (linkUp mark next l) l :=
  ⟨linked_linkUp hmark hnd hcell, hnd⟩

theorem clear_of_mem (h : c ∈ l) : clear next l c = 0 := if_pos h

theorem clear_of_notMem (h : c ∉ l) : clear next l c = next c := if_neg h

@[simp] theorem clear_nil : clear next [] = next := funext fun _ => clear_of_notMem (by simp)

theorem Linked.append (hl : Linked eoc next (c :: l))
    (hp : (c :: l).getLast (cons_ne_nil _ _) = p) (hm : Linked eoc next (d :: m))
    (hnd : (c :: l).Nodup) (hpm : p ∉ d :: m) : Linked eoc (update next p d) (c :: l ++ d :: m) := by
  have hm' : Linked eoc (update next p d) (d :: m) := by
    apply hm.congr
    intro e he
    have hep : e ≠ p := fun h => hpm (h.symm ▸ he)
    exact update_of_ne hep _ _
  induction l generalizing c with
  | nil =>
    have hpc : p = c := by simpa using hp.symm
    subst hpc
    exact ⟨hl.1, update_self _ _ _, hm'⟩
  | cons e l ih =>
    have hp' : (e :: l).getLast (cons_ne_nil _ _) = p := by simpa using hp
    have hmem : p ∈ e :: l := hp' ▸ getLast_mem _
    have hpc : c ≠ p := fun h => (nodup_cons.mp hnd).1 (h ▸ hmem)
    exact ⟨hl.1, by rw [update_of_ne hpc]; exact hl.2.1, ih hl.2.2 hp' hnd.of_cons⟩

theorem chain_eq_cons (hc : isCell eoc c) : ∃ l, chain eoc next c = c :: l := by
  obtain ⟨n, hn⟩ := Nat.exists_eq_succ_of_ne_zero (by have := hc.2; omega : eoc ≠ 0)
  have hchain : chain eoc next c = walk eoc next (n + 1) c := by
    unfold chain
    rw [← Nat.succ_eq_add_one, ← hn]
  exact ⟨_, hchain.trans (walk_cons hc)⟩

theorem Chain.append (hl : Chain eoc next l) (hp : l.getLast? = some p)
    (hm : Chain eoc next (d :: m)) (hdisj : l.Disjoint (d :: m)) : Chain eoc (update next p d) (l ++ d :: m) := by
  rcases l with _ | ⟨c, l⟩
  · cases hp
  have hlast : (c :: l).getLast (cons_ne_nil _ _) = p := by
    simpa [getLast?_eq_some_getLast] using hp
  have hpm : p ∉ d :: m := fun hmem => hdisj (hlast ▸ getLast_mem _) hmem
  exact ⟨hl.linked.append hlast hm.linked hl.nodup hpm, hl.nodup.append hm.nodup hdisj⟩

theorem chain_extend {h : ℕ} (hl : Chain eoc next (chain eoc next h))
    (hp : (chain eoc next h).getLast? = some p) (hm : Chain eoc next (d :: m))
    (hdisj : (chain eoc next h).Disjoint (d :: m)) :
    Chain eoc (update next p d) (chain eoc next h ++ d :: m) ∧
      chain eoc (update next p d) h = chain eoc next h ++ d :: m := by
  have hpmem : p ∈ chain eoc next h := mem_of_getLast? hp
  have hcell : isCell eoc h := by
    by_contra hcell
    rw [chain_of_not_isCell hcell] at hpmem
    cases hpmem
  have hlong := hl.append hp hm hdisj
  obtain ⟨l, hc⟩ : ∃ l, chain eoc next h = h :: l := chain_eq_cons hcell
  rw [hc] at hlong ⊢
  exact ⟨hlong, hlong.chain_eq⟩

theorem Linked.eoc_le_last (h : Linked eoc next l) (hc : l.getLast? = some c) : eoc ≤ next c := by
  induction l with
  | nil => cases hc
  | cons d l ih =>
    cases l with
    | nil =>
      obtain rfl : d = c := by simpa using hc
      exact h.2
    | cons e l => exact ih h.tail (by simpa using hc)

theorem Chain.chain_of_append (h : Chain eoc next (l ++ c :: m)) : chain eoc next c = c :: m := by
  induction l with
  | nil => exact h.chain_eq
  | cons d l ih => exact ih h.tail

end Orion.Lib
