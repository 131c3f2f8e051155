import Orion.Lib.Bytes
import Orion.Lib.Chains

/-!
# Data in chained cells

A file is kept in the cells of a chain, each of which holds `size` bytes. `skipCells` and `readCells` are the two
loops with which a driver reads a part of it.
-/

namespace Orion.Lib

section

variable (eoc : ℕ) (next : ℕ → ℕ) (area : ℕ → Bytes) (size : ℕ) {n c o count : ℕ}

/-- Whole cells are skipped; `none` if the chain ends before. -/
def skipCells : ℕ → ℕ → Option ℕ
  | 0, c => some c
  | n + 1, c => if eoc ≤ next c then none else skipCells n (next c)

/-- `count` bytes from the offset `o` of the cell `c` on, in at most `n` turns. -/
def readCells : ℕ → ℕ → ℕ → ℕ → List UInt8
  | 0, _, _, _ => []
  | n + 1, c, o, count =>
    if c < eoc ∧ count > 0 then
      let copy := min count (size - o)
      (area c).slice o copy ++ readCells n (next c) 0 (count - copy)
    else []

/-- The bytes of the first `n` cells of the chain. -/
def walkBytes (n c : ℕ) : List UInt8 := (walk eoc next n c).flatMap fun d => (area d).slice 0 size

/-- The bytes of the whole chain of `c`. -/
def cellBytes (c : ℕ) : List UInt8 := walkBytes eoc next area size eoc c

end

variable {eoc : ℕ} {next : ℕ → ℕ} {area : ℕ → Bytes} {size : ℕ} {n c k o count N : ℕ} {l : List ℕ}

theorem walkBytes_cons (h : isCell eoc c) :
    walkBytes eoc next area size (n + 1) c = (area c).slice 0 size ++ walkBytes eoc next area size n (next c) := by
  rw [walkBytes, walk_cons h, List.flatMap_cons]
  rfl

theorem walkBytes_of_not_isCell (h : ¬isCell eoc c) : walkBytes eoc next area size n c = [] := by
  rw [walkBytes, walk_of_not_isCell h]
  rfl

theorem isCell_of_walkBytes (h : k < (walkBytes eoc next area size n c).length) : isCell eoc c ∧ ∃ m, n = m + 1 := by
  have hcell : isCell eoc c := by
    by_contra hnot
    rw [walkBytes_of_not_isCell hnot] at h
    exact Nat.not_lt_zero _ h
  cases n with
  | zero => exact absurd h (Nat.not_lt_zero _)
  | succ m => exact ⟨hcell, m, rfl⟩

theorem take_drop_cell (b : Bytes) (rest : List UInt8) (ho : o ≤ size) :
    ((b.slice 0 size ++ rest).drop o).take count =
      b.slice o (min count (size - o)) ++ rest.take (count - min count (size - o)) := by
  have hdrop : (b.slice 0 size).drop o = b.slice o (size - o) := by
    apply List.ext_getElem
    · simp [Bytes.slice]
    · intro i hi hi'
      simp [Bytes.slice]
  have htake : (b.slice o (size - o)).take count = b.slice o (min count (size - o)) := by
    rw [Bytes.slice, ← List.map_take, List.take_range]
    rfl
  have hlen : (b.slice o (size - o)).length = size - o := by simp [Bytes.slice]
  rw [List.drop_append_of_le_length (by simpa [Bytes.slice] using ho), hdrop, List.take_append, htake, hlen]
  congr 2
  omega

theorem readCells_eq (hsize : o < size)
    (hlen : o + count ≤ (walkBytes eoc next area size N c).length ∨ count = 0) (hn : count ≤ n) :
    readCells eoc next area size n c o count = ((walkBytes eoc next area size N c).drop o).take count := by
  induction N generalizing n c o count with
  | zero =>
    obtain rfl : count = 0 := by
      rcases hlen with hlen | hzero
      · exact Nat.le_zero.mp (le_trans (Nat.le_add_left count o) hlen)
      · exact hzero
    cases n <;> simp [readCells]
  | succ N ih =>
    by_cases hzero : count = 0
    · subst hzero
      cases n <;> simp [readCells]
    have hlen := hlen.resolve_right hzero
    obtain ⟨hcell, -⟩ := isCell_of_walkBytes (lt_of_lt_of_le (by omega : o < o + count) hlen)
    obtain ⟨n, rfl⟩ : ∃ m, n = m + 1 := ⟨n - 1, by omega⟩
    rw [walkBytes_cons hcell] at hlen ⊢
    rw [take_drop_cell _ _ (le_of_lt hsize), readCells, if_pos ⟨hcell.2, Nat.pos_of_ne_zero hzero⟩]
    -- the rest lies behind this cell, or this cell holds all that is wanted
    have hrest : 0 + (count - min count (size - o)) ≤ (walkBytes eoc next area size N (next c)).length ∨
        count - min count (size - o) = 0 := by
      simp only [List.length_append, Bytes.slice, List.length_map, List.length_range] at hlen
      omega
    dsimp only
    rw [ih (Nat.zero_lt_of_lt hsize) hrest (by omega), List.drop_zero]

theorem skipCells_eq (hlen : n * size < (walkBytes eoc next area size N c).length) :
    ∃ d m, skipCells eoc next n c = some d ∧
      walkBytes eoc next area size m d = (walkBytes eoc next area size N c).drop (n * size) := by
  induction n generalizing N c with
  | zero => exact ⟨c, N, rfl, by simp⟩
  | succ n ih =>
    obtain ⟨hcell, N, rfl⟩ := isCell_of_walkBytes hlen
    rw [walkBytes_cons hcell] at hlen ⊢
    have hslice : ((area c).slice 0 size).length = size := by simp [Bytes.slice]
    have hnext : n * size < (walkBytes eoc next area size N (next c)).length := by
      rw [List.length_append, hslice, Nat.succ_mul] at hlen
      omega
    obtain ⟨hcell', -⟩ := isCell_of_walkBytes hnext
    obtain ⟨d, m, hskip, hbytes⟩ := ih hnext
    refine ⟨d, m, ?_, ?_⟩
    · rw [skipCells, if_neg (not_le.mpr hcell'.2), hskip]
    · rw [hbytes, Nat.succ_mul, Nat.add_comm, ← List.drop_drop, List.drop_append_of_le_length (le_of_eq hslice.symm),
        List.drop_of_length_le (le_of_eq hslice), List.nil_append]

theorem cells_read (hcount : 0 < count) (hlen : o + count ≤ (cellBytes eoc next area size c).length) (hn : count ≤ n) :
    ∃ d, skipCells eoc next (o / size) c = some d ∧
      readCells eoc next area size n d (o % size) count = ((cellBytes eoc next area size c).drop o).take count := by
  have hpos : 0 < size := by
    by_contra hnot
    obtain rfl : size = 0 := by omega
    have hnil : cellBytes eoc next area 0 c = [] := by simp [cellBytes, walkBytes, Bytes.slice]
    rw [hnil] at hlen
    simp only [List.length_nil] at hlen
    omega
  have hdiv : o / size * size + o % size = o := Nat.div_add_mod' o size
  have hmod : o % size < size := Nat.mod_lt o hpos
  have hbefore : o / size * size < (walkBytes eoc next area size eoc c).length := lt_of_lt_of_le (by omega) hlen
  obtain ⟨d, m, hskip, hbytes⟩ := skipCells_eq hbefore
  refine ⟨d, hskip, ?_⟩
  rw [readCells_eq (N := m) hmod (.inl ?_) hn, hbytes, List.drop_drop, hdiv]
  · rfl
  · rw [hbytes, List.length_drop]
    change o + count ≤ (walkBytes eoc next area size eoc c).length at hlen
    omega

/-! ## Chains that end -/

theorem length_cellBytes (c : ℕ) : (cellBytes eoc next area size c).length = (chain eoc next c).length * size := by
  simp [cellBytes, walkBytes, chain, Bytes.slice]

theorem drop_cells (l : List ℕ) (k : ℕ) :
    (l.flatMap fun d => (area d).slice 0 size).drop (k * size) = (l.drop k).flatMap fun d => (area d).slice 0 size := by
  induction k generalizing l with
  | zero => simp
  | succ k ih =>
    rcases l with _ | ⟨c, l⟩
    · simp
    have hslice : ((area c).slice 0 size).length = size := by simp [Bytes.slice]
    rw [List.flatMap_cons, Nat.succ_mul, Nat.add_comm, ← List.drop_drop, List.drop_append_of_le_length
      (le_of_eq hslice.symm), List.drop_of_length_le (le_of_eq hslice), List.nil_append, ih, List.drop_succ_cons]

theorem skipCells_linked (hl : Linked eoc next (c :: l)) (hk : k ≤ l.length) :
    ∃ d m, skipCells eoc next k c = some d ∧ Linked eoc next (d :: m) ∧ (c :: l).drop k = d :: m := by
  induction k generalizing c l with
  | zero => exact ⟨c, l, rfl, hl, rfl⟩
  | succ k ih =>
    rcases l with _ | ⟨e, l⟩
    · exact absurd hk (Nat.not_succ_le_zero k)
    obtain ⟨-, hnext, htail⟩ := hl
    obtain ⟨d, m, hskip, hm, hdrop⟩ := ih htail (Nat.le_of_succ_le_succ hk)
    refine ⟨d, m, ?_, hm, hdrop⟩
    rw [skipCells, hnext, if_neg (not_le.mpr htail.isCell_head.2), hskip]

theorem readCells_linked (hl : Linked eoc next (c :: l)) (ho : o < size) (hn : count ≤ n) :
    readCells eoc next area size n c o count =
      (((c :: l).flatMap fun d => (area d).slice 0 size).drop o).take count := by
  induction l generalizing c n o count with
  | nil =>
    obtain ⟨hcell, hend⟩ := hl
    by_cases hzero : count = 0
    · subst hzero
      cases n <;> simp [readCells]
    obtain ⟨n, rfl⟩ : ∃ m, n = m + 1 := ⟨n - 1, by omega⟩
    have hrest : readCells eoc next area size n (next c) 0 (count - min count (size - o)) = [] := by
      cases n with
      | zero => rfl
      | succ n => exact if_neg fun h => absurd h.1 (not_lt.mpr hend)
    rw [List.flatMap_cons, take_drop_cell _ _ (le_of_lt ho), readCells, if_pos ⟨hcell.2, Nat.pos_of_ne_zero hzero⟩]
    dsimp only
    rw [hrest]
    simp
  | cons e l ih =>
    obtain ⟨hcell, hnext, htail⟩ := hl
    by_cases hzero : count = 0
    · subst hzero
      cases n <;> simp [readCells]
    obtain ⟨n, rfl⟩ : ∃ m, n = m + 1 := ⟨n - 1, by omega⟩
    rw [List.flatMap_cons, take_drop_cell _ _ (le_of_lt ho), readCells, if_pos ⟨hcell.2, Nat.pos_of_ne_zero hzero⟩]
    dsimp only
    rw [hnext, ih htail (Nat.zero_lt_of_lt ho) (by omega), List.drop_zero]

/-- Where the chain ends, skipping and reading give all that is there of the segment that was asked for. -/
theorem cells_read_sound (hsound : Linked eoc next (chain eoc next c))
    (ho : o < (cellBytes eoc next area size c).length) (hn : count ≤ n) :
    ∃ d, skipCells eoc next (o / size) c = some d ∧
      readCells eoc next area size n d (o % size) count = ((cellBytes eoc next area size c).drop o).take count := by
  have hlen := ho
  rw [length_cellBytes] at hlen
  have hpos : 0 < size := Nat.pos_of_ne_zero fun h => by simp [h] at hlen
  have hk : o / size < (chain eoc next c).length := (Nat.div_lt_iff_lt_mul hpos).mpr hlen
  obtain ⟨l, hl⟩ : ∃ l, chain eoc next c = c :: l := by
    refine chain_eq_cons ?_
    by_contra hnot
    rw [chain_of_not_isCell hnot] at hk
    exact Nat.not_lt_zero _ hk
  rw [hl] at hsound hk
  obtain ⟨d, m, hskip, hm, hdrop⟩ := skipCells_linked hsound (Nat.le_of_lt_succ hk)
  refine ⟨d, hskip, ?_⟩
  have hbytes : (cellBytes eoc next area size c).drop (o / size * size) =
      (d :: m).flatMap fun d => (area d).slice 0 size := by
    rw [← hdrop, ← hl]
    exact drop_cells (chain eoc next c) (o / size)
  rw [readCells_linked hm (Nat.mod_lt o hpos) hn, ← hbytes, List.drop_drop, Nat.div_add_mod']

end Orion.Lib
