import Mathlib.Data.List.Iterate
import Orion.Lib.Chains

/-!
# Loops along links

Loops that go from one cell to the next as long as the number at hand is `live`. The links may lead in a circle; a loop
for which the turns do not suffice answers `none`. The first kind may be stopped by a visit; the second kind frees each
cell once its link has been read.
-/

namespace Orion.Lib

variable {σ β : Type*} {s : σ} {n c : ℕ}

/-! ## Visiting cells -/

section Follow

variable (live : ℕ → Prop) [DecidablePred live] (next : ℕ → ℕ) (visit : σ → ℕ → Except β σ)

/-- The loop from `c` on in at most `n` turns. A visit that fails ends it. -/
def follow : ℕ → σ → ℕ → Option (Except β σ)
  | 0, _, _ => none
  | n + 1, s, c =>
    if live c then
      match visit s c with
      | .error b => some (.error b)
      | .ok s => follow n s (next c)
    else some (.ok s)

variable {live next visit} {b : β} {r : Except β σ}

theorem follow_of_not_live (h : ¬ live c) : follow live next visit (n + 1) s c = some (.ok s) := if_neg h

theorem follow_error (h : live c) (hv : visit s c = .error b) :
    follow live next visit (n + 1) s c = some (.error b) := by
  rw [follow, if_pos h, hv]

theorem follow_ok {s' : σ} (h : live c) (hv : visit s c = .ok s') :
    follow live next visit (n + 1) s c = follow live next visit n s' (next c) := by
  rw [follow, if_pos h, hv]

theorem follow_mono {m : ℕ} (h : follow live next visit n s c = some r) (hnm : n ≤ m) :
    follow live next visit m s c = some r := by
  induction n generalizing m s c with
  | zero => cases h
  | succ n ih =>
    obtain ⟨m, rfl⟩ := Nat.exists_eq_succ_of_ne_zero (by omega : m ≠ 0)
    by_cases hc : live c
    · cases hv : visit s c with
      | error b =>
        rw [follow_error hc hv] at h
        exact (follow_error hc hv).trans h
      | ok s' =>
        rw [follow_ok hc hv] at h
        exact (follow_ok hc hv).trans (ih h (by omega))
    · rw [follow_of_not_live hc] at h
      exact (follow_of_not_live hc).trans h

theorem follow_walk {eoc : ℕ} (h : follow (isCell eoc) next visit n s c = some r) :
    (walk eoc next n c).foldlM visit s = r := by
  induction n generalizing s c with
  | zero => cases h
  | succ n ih =>
    by_cases hc : isCell eoc c
    · rw [walk_cons hc, List.foldlM_cons]
      cases hv : visit s c with
      | error b =>
        rw [follow_error hc hv] at h
        exact Option.some.inj h
      | ok s' =>
        rw [follow_ok hc hv] at h
        exact ih h
    · rw [follow_of_not_live hc] at h
      rw [walk_of_not_isCell hc]
      exact Option.some.inj h

theorem follow_of_live (h : ∀ k < n, live (next^[k] c)) :
    follow live next visit n s c ≠ none ↔ ∃ b, (List.iterate next c n).foldlM visit s = .error b := by
  induction n generalizing s c with
  | zero => simp [follow, pure, Except.pure]
  | succ n ih =>
    have hc : live c := h 0 n.succ_pos
    have hrest : ∀ k < n, live (next^[k] (next c)) := fun k hk => h (k + 1) (by omega)
    rw [List.iterate, List.foldlM_cons]
    rcases hv : visit s c with b | s'
    · simp [follow_error hc hv, bind, Except.bind]
    rw [follow_ok hc hv]
    exact ih hrest

theorem follow_of_leaves (h : ∃ k < n, ¬ live (next^[k] c)) : follow live next visit n s c ≠ none := by
  induction n generalizing s c with
  | zero =>
    obtain ⟨k, hk, -⟩ := h
    omega
  | succ n ih =>
    by_cases hc : live c
    · obtain ⟨k, hk, hdead⟩ := h
      -- the number that is not live comes behind `c`
      obtain ⟨k, rfl⟩ : ∃ k', k = k' + 1 := by
        cases k with
        | zero => exact absurd hc hdead
        | succ k => exact ⟨k, rfl⟩
      rcases hv : visit s c with b | s'
      · simp [follow_error hc hv]
      rw [follow_ok hc hv]
      exact ih ⟨k, by omega, hdead⟩
    · simp [follow_of_not_live hc]

theorem follow_of_stops (h : (List.iterate next c n).foldlM visit s = .error b) :
    follow live next visit n s c ≠ none := by
  by_cases hleaves : ∃ k < n, ¬ live (next^[k] c)
  · exact follow_of_leaves hleaves
  · simp only [not_exists, not_and, not_not] at hleaves
    exact (follow_of_live hleaves).mpr ⟨b, h⟩

theorem follow_ends_iff : (∃ n, follow live next visit n s c ≠ none) ↔
      (∃ k, ¬ live (next^[k] c)) ∨ ∃ n b, (List.iterate next c n).foldlM visit s = .error b := by
  constructor
  · rintro ⟨n, hn⟩
    by_cases hleaves : ∃ k, ¬ live (next^[k] c)
    · exact .inl hleaves
    · have hlive : ∀ k, live (next^[k] c) := not_exists_not.mp hleaves
      exact .inr ⟨n, (follow_of_live fun k _ => hlive k).mp hn⟩
  · rintro (⟨k, hk⟩ | ⟨n, b, hb⟩)
    · exact ⟨k + 1, follow_of_leaves ⟨k, k.lt_succ_self, hk⟩⟩
    · exact ⟨n, follow_of_stops hb⟩

end Follow

/-! ## Freeing cells -/

/-- The cells that are met from `c` on. -/
inductive Reaches (eoc : ℕ) (next : ℕ → ℕ) (c : ℕ) : ℕ → Prop
  | start : isCell eoc c → Reaches eoc next c c
  | step {d : ℕ} : Reaches eoc next c d → isCell eoc (next d) → Reaches eoc next c (next d)

section Sweep

variable (eoc : ℕ) (next : σ → ℕ → ℕ) (free : σ → ℕ → σ)

/-- The loop from `c` on in at most `n` turns: the link is read before the cell is freed. -/
def sweep : ℕ → σ → ℕ → Option σ
  | 0, _, _ => none
  | n + 1, s, c => if isCell eoc c then sweep n (free s c) (next s c) else some s

/-- To free a cell of the table `D` clears its link and leaves the other links of the table alone. -/
def Frees (D : ℕ → Prop) : Prop := ∀ s c d, D c → D d → next (free s c) d = if d = c then 0 else next s d

/-- The links of the table `D` do not lead to cells outside. -/
def Inside (D : ℕ → Prop) (links : ℕ → ℕ) : Prop := ∀ d, D d → isCell eoc (links d) → D (links d)

variable {eoc next free} {D : ℕ → Prop} {s : σ} {c d : ℕ} {links : ℕ → ℕ}

theorem not_isCell_zero : ¬ isCell eoc 0 := fun h => absurd h.1 (by omega)

theorem Reaches.isCell_start (h : Reaches eoc links c d) : isCell eoc c := by
  induction h with
  | start hc => exact hc
  | step _ _ ih => exact ih

theorem Reaches.inside (h : Reaches eoc links c d) (hin : Inside eoc D links) (hc : D c) : D d := by
  induction h with
  | start _ => exact hc
  | step _ hcell ih => exact hin _ ih hcell

theorem Inside.of_free (hfree : Frees next free D) (hin : Inside eoc D (next s)) (hc : D c) :
    Inside eoc D (next (free s c)) := by
  intro d hd hcell
  rw [hfree s c d hc hd] at hcell ⊢
  split at hcell
  · exact absurd hcell not_isCell_zero
  · next hdc =>
    rw [if_neg hdc]
    exact hin d hd hcell

/-- What is met from `c` on is `c` and what is still met behind it once `c` is free. -/
theorem reaches_iff_free (hfree : Frees next free D) (hin : Inside eoc D (next s)) (hc : D c) (hcell : isCell eoc c) :
    Reaches eoc (next s) c d ↔ d = c ∨ Reaches eoc (next (free s c)) (next s c) d := by
  constructor
  · intro h
    induction h with
    | start _ => exact .inl rfl
    | @step d hd hnext ih =>
      refine .inr ?_
      by_cases hdc : d = c
      · subst hdc
        exact .start hnext
      · have hsame : next (free s c) d = next s d := (hfree s c d hc (hd.inside hin hc)).trans (if_neg hdc)
        rw [← hsame] at hnext ⊢
        exact .step (ih.resolve_left hdc) hnext
  · rintro (rfl | h)
    · exact .start hcell
    · induction h with
      | start hnext => exact .step (.start hcell) hnext
      | @step d _ hnext ih =>
        -- a cell that is free leads nowhere, so `d` is another one
        rw [hfree s c d hc (ih.inside hin hc)] at hnext ⊢
        split at hnext
        · exact absurd hnext not_isCell_zero
        · next hdc =>
          rw [if_neg hdc]
          exact .step ih hnext

theorem foldl_frees (hfree : ∀ s c d, next (free s c) d = if d = c then 0 else next s d) (l : List ℕ) :
    next (l.foldl free s) = clear (next s) l := by
  induction l generalizing s with
  | nil => exact clear_nil.symm
  | cons c l ih =>
    rw [List.foldl_cons, ih]
    funext d
    unfold clear
    rw [hfree]
    by_cases hmem : d ∈ l
    · simp [hmem]
    · simp [hmem]

variable [DecidablePred D]

/-- The cells in `D` that have a link. -/
def inUse (eoc : ℕ) (D : ℕ → Prop) [DecidablePred D] (links : ℕ → ℕ) : Finset ℕ :=
  (Finset.Ico 2 eoc).filter fun d => D d ∧ links d ≠ 0

theorem card_inUse_le (links : ℕ → ℕ) : (inUse eoc D links).card ≤ eoc - 2 :=
  (Finset.card_filter_le _ _).trans_eq (Nat.card_Ico 2 eoc)

theorem card_inUse_free (hfree : Frees next free D) (hc : D c) (hcell : isCell eoc c) (hused : next s c ≠ 0) :
    (inUse eoc D (next (free s c))).card < (inUse eoc D (next s)).card := by
  apply Finset.card_lt_card
  refine Finset.ssubset_iff_of_subset ?_ |>.mpr ⟨c, ?_, ?_⟩
  · intro d hd
    obtain ⟨hrange, hD, hne⟩ := Finset.mem_filter.mp hd
    rw [hfree s c d hc hD] at hne
    split at hne
    · exact absurd rfl hne
    · exact Finset.mem_filter.mpr ⟨hrange, hD, hne⟩
  · exact Finset.mem_filter.mpr ⟨Finset.mem_Ico.mpr hcell, hc, hused⟩
  · intro h
    have hne := (Finset.mem_filter.mp h).2.2
    rw [hfree s c c hc hc, if_pos rfl] at hne
    exact hne rfl

/-- The loop ends, whatever the links are, and has freed the cells it could reach: every turn but the last two lowers
the number of cells in use. -/
theorem sweep_frees (hfree : Frees next free D) (hin : Inside eoc D (next s)) (hc : isCell eoc c → D c) :
    ∃ l : List ℕ, (∀ d, d ∈ l ↔ Reaches eoc (next s) c d) ∧
      ∀ n, (inUse eoc D (next s)).card + 2 ≤ n → sweep eoc next free n s c = some (l.foldl free s) := by
  induction hm : (inUse eoc D (next s)).card using Nat.strong_induction_on generalizing s c with
  | _ m ih =>
    subst hm
    by_cases hcell : isCell eoc c
    · have hD := hc hcell
      by_cases hused : next s c = 0
      · refine ⟨[c], fun d => ?_, fun n hn => ?_⟩
        · have hnot : ¬ Reaches eoc (next (free s c)) (next s c) d := fun h => not_isCell_zero (hused ▸ h.isCell_start)
          rw [reaches_iff_free hfree hin hD hcell, or_iff_left hnot, List.mem_singleton]
        · obtain ⟨n, rfl⟩ : ∃ k, n = k + 2 := ⟨n - 2, by omega⟩
          rw [sweep, if_pos hcell, hused, sweep, if_neg not_isCell_zero]
          rfl
      · have hlt := card_inUse_free hfree hD hcell hused
        obtain ⟨l, hl, hrun⟩ := ih _ hlt (hin.of_free hfree hD) (fun h => hin c hD h) rfl
        refine ⟨c :: l, fun d => ?_, fun n hn => ?_⟩
        · rw [reaches_iff_free hfree hin hD hcell, List.mem_cons, hl]
        · obtain ⟨n, rfl⟩ : ∃ k, n = k + 1 := ⟨n - 1, by omega⟩
          rw [sweep, if_pos hcell, hrun n (by omega)]
          rfl
    · refine ⟨[], fun d => ?_, fun n hn => ?_⟩
      · exact ⟨fun h => absurd h List.not_mem_nil, fun h => absurd h.isCell_start hcell⟩
      · obtain ⟨n, rfl⟩ : ∃ k, n = k + 1 := ⟨n - 1, by omega⟩
        exact if_neg hcell

end Sweep

end Orion.Lib
