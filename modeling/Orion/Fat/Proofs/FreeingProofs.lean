import Orion.Fat.Freeing

/-!
# Proofs: freeing a chain ends and is exact

A turn of each loop clears one entry, in all copies of the table that the driver writes. The loops therefore end on
every table.
-/

namespace Orion.Fat

open Lib

theorem LinksInRange.inside {eoc len : ℕ} {links : ℕ → ℕ} (h : LinksInRange eoc len links) :
    Inside eoc (· < len) links := by
  intro d hd hcell
  rcases h d hd with hzero | hend | hrange
  · exact absurd (hzero ▸ hcell) not_isCell_zero
  · exact absurd hcell.2 (Nat.not_lt.mpr hend)
  · exact hrange.2

end Orion.Fat

namespace Orion.Fat16

open Lib Fat

variable {NumFATs len : ℕ} {v : Vol} {c i : ℕ}

/-- The entry of `c` in one of the copies. -/
def CopyOf (NumFATs len c i : ℕ) : Prop := ∃ f < NumFATs, i = f * len + c

theorem fat_set_fat_entry (x : ℕ) : (CopyOf NumFATs len c i → (set_fat_entry NumFATs len v c x).fat i = x) ∧
      (¬ CopyOf NumFATs len c i → (set_fat_entry NumFATs len v c x).fat i = v.fat i) := by
  unfold set_fat_entry CopyOf
  induction NumFATs with
  | zero => exact ⟨fun ⟨f, hf, _⟩ => absurd hf (Nat.not_lt_zero f), fun _ => rfl⟩
  | succ n ih =>
    rw [List.range_succ, List.foldl_append]
    by_cases hi : i = n * len + c
    · subst hi
      exact ⟨fun _ => Function.update_self _ _ _, fun h => absurd ⟨n, n.lt_succ_self, rfl⟩ h⟩
    have hstep : ∀ w : Vol, (w.setFat (n * len + c) x).fat i = w.fat i := fun w => Function.update_of_ne hi _ _
    simp only [List.foldl_cons, List.foldl_nil, hstep]
    refine ⟨fun ⟨f, hf, h⟩ => ih.1 ⟨f, ?_, h⟩, fun h => ih.2 fun ⟨f, hf, he⟩ => h ⟨f, by omega, he⟩⟩
    -- it is not the last copy
    have hfn : f ≠ n := by
      rintro rfl
      exact hi h
    omega

theorem copyOf_first (hN : 0 < NumFATs) (hi : i < len) (hc : c < len) : CopyOf NumFATs len c i ↔ i = c := by
  constructor
  · rintro ⟨f, -, rfl⟩
    cases f with
    | zero => simp
    | succ f =>
      rw [Nat.succ_mul] at hi
      omega
  · rintro rfl
    exact ⟨0, hN, by simp⟩

theorem copyOf_inj {d f : ℕ} (hd : d < len) (hc : c < len) (h : CopyOf NumFATs len c (f * len + d)) : d = c := by
  obtain ⟨g, -, h⟩ := h
  have hmod := congrArg (· % len) h
  simpa [Nat.mul_add_mod', Nat.mod_eq_of_lt hd, Nat.mod_eq_of_lt hc] using hmod

/-- A turn of a loop writes zero to the copies of one entry. -/
def ClearsEntry (NumFATs len : ℕ) (free : Vol → ℕ → Vol) : Prop :=
  ∀ v c i, (CopyOf NumFATs len c i → (free v c).fat i = 0) ∧ (¬ CopyOf NumFATs len c i → (free v c).fat i = v.fat i)

theorem freeOverwritten_clears : ClearsEntry NumFATs len (freeOverwritten NumFATs len) :=
  fun _ _ _ => fat_set_fat_entry 0

-- the sectors that are cleared first are no part of the table
theorem freeRemoved_clears : ClearsEntry NumFATs len (freeRemoved NumFATs len) :=
  fun v c _ => fat_set_fat_entry (v := v.zero c) 0

theorem freeEntry_clears : ClearsEntry NumFATs len (freeEntry NumFATs len) := fun _ _ _ => fat_set_fat_entry 0

section Loop

variable {free : Vol → ℕ → Vol} (hfree : ClearsEntry NumFATs len free)
include hfree

theorem ClearsEntry.frees (hN : 0 < NumFATs) : Frees Vol.fat free (· < len) := by
  intro v c d hc hd
  split
  · next hdc => exact (hfree v c d).1 ((copyOf_first hN hd hc).mpr hdc)
  · next hdc => exact (hfree v c d).2 fun h => hdc ((copyOf_first hN hd hc).mp h)

theorem ClearsEntry.foldl (l : List ℕ) : ((∃ c ∈ l, CopyOf NumFATs len c i) → (l.foldl free v).fat i = 0) ∧
      ((∀ c ∈ l, ¬ CopyOf NumFATs len c i) → (l.foldl free v).fat i = v.fat i) := by
  induction l generalizing v with
  | nil => exact ⟨fun ⟨c, hc, _⟩ => absurd hc List.not_mem_nil, fun _ => rfl⟩
  | cons c l ih =>
    constructor
    · rintro ⟨d, hd, hcopy⟩
      by_cases hrest : ∃ e ∈ l, CopyOf NumFATs len e i
      · exact ih.1 hrest
      · rcases List.mem_cons.mp hd with rfl | hd
        · exact (ih.2 fun e he h => hrest ⟨e, he, h⟩).trans ((hfree v d i).1 hcopy)
        · exact absurd ⟨d, hd, hcopy⟩ hrest
    · intro hnone
      refine (ih.2 fun d hd => hnone d (List.mem_cons_of_mem _ hd)).trans ?_
      exact (hfree v c i).2 (hnone c List.mem_cons_self)

/-- Each of the loops ends within `eoc` turns, and frees what it reaches. -/
theorem ClearsEntry.exact (hN : 0 < NumFATs) (hlinks : LinksInRange eoc len v.fat) (hc : isCell eoc c → c < len) :
    ∃ v', (∀ n, eoc ≤ n → sweep eoc Vol.fat free n v c = some v') ∧ ExactlyFreed NumFATs len v v' c := by
  have hin := hlinks.inside
  obtain ⟨l, hl, hrun⟩ := sweep_frees (hfree.frees hN) hin hc
  have hmem : ∀ d ∈ l, d < len := by
    intro d hd
    have hreach := (hl d).mp hd
    exact hreach.inside hin (hc hreach.isCell_start)
  refine ⟨l.foldl free v, fun n hn => hrun n ?_, ?_, ?_⟩
  · have hcard : (inUse eoc (· < len) v.fat).card ≤ eoc - 2 := card_inUse_le v.fat
    have heoc : 2 ≤ eoc := by decide
    omega
  · intro f hf d hd hreach
    exact (hfree.foldl l).1 ⟨d, (hl d).mpr hreach, f, hf, rfl⟩
  · intro f hf d hd hreach
    refine (hfree.foldl l).2 fun e he hcopy => hreach ((hl d).mp ?_)
    obtain rfl := copyOf_inj hd (hmem e he) hcopy
    exact he

end Loop

/-- A turn of `freeChain`, which leaves out the copies of the table. -/
def freeInFirst (wipe : Bool) (v : Vol) (c : ℕ) : Vol := if wipe then (v.setFat c 0).zero c else v.setFat c 0

theorem fat_freeInFirst (wipe : Bool) (v : Vol) (c d : ℕ) :
    (freeInFirst wipe v c).fat d = if d = c then 0 else v.fat d := by
  cases wipe <;> exact Function.update_apply _ _ _ _

theorem freeChain_of_sweep {n : ℕ} {v' : Vol} (wipe : Bool)
    (h : sweep eoc Vol.fat (freeInFirst wipe) n v c = some v') : freeChain wipe n c v = v' := by
  induction n generalizing v c with
  | zero => cases h
  | succ n ih =>
    rw [sweep] at h
    rw [freeChain]
    split at h
    · next hcell =>
      rw [if_pos hcell]
      exact ih h
    · next hcell =>
      rw [if_neg hcell]
      exact Option.some.inj h

/-- The turns that `freeChain` is given suffice on every table. -/
theorem freeChain_exact (wipe : Bool) (v : Vol) (c : ℕ) :
    ∃ l : List ℕ, (∀ d, d ∈ l ↔ Reaches eoc v.fat c d) ∧ (freeChain wipe eoc c v).fat = clear v.fat l := by
  have hfree : Frees Vol.fat (freeInFirst wipe) fun _ => True := fun w e d _ _ => fat_freeInFirst wipe w e d
  have hin : Inside eoc (fun _ => True) v.fat := fun _ _ _ => trivial
  obtain ⟨l, hl, hrun⟩ := sweep_frees (c := c) hfree hin fun _ => trivial
  have hcard : (inUse eoc (fun _ => True) v.fat).card ≤ eoc - 2 := card_inUse_le v.fat
  have heoc : 2 ≤ eoc := by decide
  refine ⟨l, hl, ?_⟩
  rw [freeChain_of_sweep wipe (hrun eoc (by omega)), foldl_frees (fat_freeInFirst wipe)]

end Orion.Fat16

namespace Orion.Fat32

open Lib Fat

variable {v : Vol} {c d : ℕ}

theorem fat_freeRemoved : (freeRemoved v c).fat d = if d = c then 0 else v.fat d := Function.update_apply _ _ _ _

theorem freeRemoved_frees (D : ℕ → Prop) : Frees Vol.next freeRemoved D := by
  intro v c d _ _
  unfold Vol.next
  rw [fat_freeRemoved]
  split <;> rfl

theorem fat_foldl_freeRemoved (l : List ℕ) : (l.foldl freeRemoved v).fat = clear v.fat l :=
  @foldl_frees Vol (fun v => v.fat) freeRemoved v (fun _ _ _ => fat_freeRemoved) l

theorem mirror_foldl_freeRemoved (l : List ℕ) : (l.foldl freeRemoved v).mirror = v.mirror := by
  induction l generalizing v with
  | nil => rfl
  | cons c l ih => exact ih

theorem freeFile_exact (hlinks : LinksInRange eoc v.fatLen v.next) (hc : isCell eoc c → c < v.fatLen) :
    ∃ v', (∀ n, eoc ≤ n → freeFile n v c = some v') ∧ ExactlyFreed v v' c := by
  obtain ⟨l, hl, hrun⟩ := sweep_frees (freeRemoved_frees (· < v.fatLen)) hlinks.inside hc
  refine ⟨l.foldl freeRemoved v, fun n hn => hrun n ?_, ?_, ?_, mirror_foldl_freeRemoved l⟩
  · have hcard : (inUse eoc (· < v.fatLen) v.next).card ≤ eoc - 2 := card_inUse_le v.next
    have heoc : 2 ≤ eoc := by decide
    omega
  · intro d _ hreach
    rw [fat_foldl_freeRemoved, clear_of_mem ((hl d).mpr hreach)]
  · intro d _ hreach
    rw [fat_foldl_freeRemoved, clear_of_notMem fun hmem => hreach ((hl d).mp hmem)]

end Orion.Fat32

namespace Orion.Fat

open Lib

/-- On a table whose links stay inside it, all four loops end and clear exactly the entries that they reach. -/
theorem freeing_exact (NumFATs : ℕ) (v : Vol) (w : Fat32.Vol) (c d : ℕ) (hN : 0 < NumFATs)
    (hv : LinksInRange Fat16.eoc v.fatLen v.fat) (hw : LinksInRange Fat32.eoc w.fatLen w.next)
    (hc : isCell Fat16.eoc c → c < v.fatLen) (hd : isCell Fat32.eoc d → d < w.fatLen) :
    (∃ v', (∀ n, Fat16.eoc ≤ n → Fat16.freeOldContents NumFATs v.fatLen n v c = some v') ∧
      Fat16.ExactlyFreed NumFATs v.fatLen v v' c) ∧
    (∃ v', (∀ n, Fat16.eoc ≤ n → Fat16.freeFile NumFATs v.fatLen n v c = some v') ∧
      Fat16.ExactlyFreed NumFATs v.fatLen v v' c) ∧
    (∃ v', (∀ n, Fat16.eoc ≤ n → Fat16.free_cluster_chain NumFATs v.fatLen n v c = some v') ∧
      Fat16.ExactlyFreed NumFATs v.fatLen v v' c) ∧
    ∃ w', (∀ n, Fat32.eoc ≤ n → Fat32.freeFile n w d = some w') ∧ Fat32.ExactlyFreed w w' d :=
  ⟨Fat16.freeOverwritten_clears.exact hN hv hc, Fat16.freeRemoved_clears.exact hN hv hc,
    Fat16.freeEntry_clears.exact hN hv hc, Fat32.freeFile_exact hw hd⟩

/-- The clusters 2, 3 and 4 lead in a circle, and 5 leads into it. -/
def circle : Vol where
  spc := 1
  fatLen := 8
  rootLen := 16
  fat := fun c => [0xFFF8, 0xFFFF, 3, 4, 2, 3, 0xFFFF].getD c 0
  area := fun _ _ => 0
  hint := 2
  cwd := 0

/-- The same with the marks of FAT32. -/
def circle32 : Fat32.Vol where
  toVol := { circle with fat := fun c => [0x0FFFFFF8, 0x0FFFFFFF, 3, 4, 2, 3, 0x0FFFFFFF].getD c 0 }
  mirror := fun _ => 0
  root := 2

theorem freeing_exact_circle : (∃ v', (∀ n, Fat16.eoc ≤ n → Fat16.freeOldContents 2 8 n circle 5 = some v') ∧
      Fat16.ExactlyFreed 2 8 circle v' 5) ∧
    (∃ v', (∀ n, Fat16.eoc ≤ n → Fat16.freeFile 2 8 n circle 5 = some v') ∧ Fat16.ExactlyFreed 2 8 circle v' 5) ∧
    (∃ v', (∀ n, Fat16.eoc ≤ n → Fat16.free_cluster_chain 2 8 n circle 5 = some v') ∧
      Fat16.ExactlyFreed 2 8 circle v' 5) ∧
    ∃ w', (∀ n, Fat32.eoc ≤ n → Fat32.freeFile n circle32 4 = some w') ∧ Fat32.ExactlyFreed circle32 w' 4 :=
  freeing_exact 2 circle circle32 5 4 (by decide) (by decide) (by decide) (fun _ => by decide) (fun _ => by decide)

end Orion.Fat
