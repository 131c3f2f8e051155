import Orion.Pmm.Proofs.PagesProofs

/-!
# Proofs: the counter of free memory

`pmm_init` adds the lengths of the usable regions as they are, so `free_memory` need not be the size of the free pages.
What it is off by never changes later.
-/

namespace Orion.Pmm

open Lib Finset
open Option (bind_eq_some_iff map_eq_some_iff some.inj)

variable {s s' : State} {p : ℕ}

/-- The pages that the bitmap calls free. -/
def freePages (s : State) : Finset ℕ := {p ∈ range s.max_physical_page.toNat | s.pmm_bitmap.bitTest p = false}

/-- What `free_memory` is off by. -/
def drift (s : State) : UInt64 := s.free_memory - 4096 * UInt64.ofNat (freePages s).card

theorem mem_freePages : p ∈ freePages s ↔ Mapped s p ∧ s.pmm_bitmap.bitTest p = false := by
  simp [freePages, Mapped]

theorem freePages_bitSet (m : UInt64) :
    freePages { s with pmm_bitmap := s.pmm_bitmap.bitSet p, free_memory := m } = (freePages s).erase p := by
  ext j
  simp only [mem_freePages, Mapped, Bytes.bitTest_bitSet, mem_erase, Bool.or_eq_false_iff, decide_eq_false_iff_not]
  tauto

theorem drift_take (hp : p ∈ freePages s) :
    drift { s with pmm_bitmap := s.pmm_bitmap.bitSet p, free_memory := s.free_memory - 4096 } = drift s := by
  rw [drift, drift, freePages_bitSet, ← card_erase_add_one hp, UInt64.ofNat_add]
  grind

theorem drift_give (hmap : Mapped s p) (hp : p ∉ freePages s) :
    drift { s with pmm_bitmap := s.pmm_bitmap.bitClear p, free_memory := s.free_memory + 4096 } = drift s := by
  have hinsert : freePages { s with pmm_bitmap := s.pmm_bitmap.bitClear p, free_memory := s.free_memory + 4096 } =
      insert p (freePages s) := by
    ext j
    simp only [mem_freePages, Mapped, Bytes.bitTest_bitClear, mem_insert] at hmap ⊢
    grind
  rw [drift, drift, hinsert, card_insert_of_notMem hp, UInt64.ofNat_add]
  grind

theorem reservePage_drift (h : reservePage s p = some s') : drift s' = drift s := by
  simp only [reservePage, mark_used, BIT_TEST, BIT_SET] at h
  split at h
  · rename_i hmap
    by_cases hp : p < MAX_PAGES
    · cases hbit : s.pmm_bitmap.bitTest p with
      | true =>
        obtain rfl : { s with pmm_bitmap := s.pmm_bitmap.bitSet p } = s' := by simpa [hp, hmap, hbit] using h
        have hnot : p ∉ freePages s := by simp [mem_freePages, hbit]
        rw [drift, drift, freePages_bitSet s.free_memory, erase_eq_of_notMem hnot]
      | false =>
        obtain rfl : { s with pmm_bitmap := s.pmm_bitmap.bitSet p, free_memory := s.free_memory - 4096 } = s' := by
          simpa [hp, hmap, hbit] using h
        exact drift_take (mem_freePages.mpr ⟨hmap, hbit⟩)
    · simp [hp] at h
  · rw [some.inj h]

theorem reservePages_drift {l : List ℕ} (h : l.foldlM reservePage s = some s') : drift s' = drift s := by
  induction l generalizing s with
  | nil => rw [some.inj h]
  | cons p l ih =>
    obtain ⟨t, hp, hl⟩ := bind_eq_some_iff.mp h
    exact (ih hl).trans (reservePage_drift hp)

theorem alloc_drift {r : Option UInt32} (h : pmm_alloc_page s = some (s', r)) : drift s' = drift s := by
  obtain ⟨found, hfind, h⟩ := bind_eq_some_iff.mp h
  cases found with
  | none => cases h; rfl
  | some p =>
    obtain ⟨hmap, hp, hbit⟩ := scanFree_found hfind
    rw [Nat.zero_add] at hmap
    simp only [mark_used, BIT_SET, hmap, hp, if_true] at h
    cases h
    exact drift_take (mem_freePages.mpr ⟨hmap, hbit⟩)

theorem free_drift {addr : UInt32} (h : pmm_free_page s addr = some s') : drift s' = drift s := by
  simp only [pmm_free_page, mark_free, BIT_TEST, BIT_CLEAR] at h
  generalize (addr / 4096).toNat = p at h
  split at h
  · rw [some.inj h]
  rename_i hmap
  have hmap : p < s.max_physical_page.toNat := Nat.lt_of_not_le hmap
  by_cases hp : p < MAX_PAGES
  · cases hbit : s.pmm_bitmap.bitTest p with
    | true =>
      simp only [hmap, hp, hbit, if_true] at h
      cases h
      exact drift_give hmap (by simp [mem_freePages, hbit])
    | false =>
      simp only [hp, hbit, if_true] at h
      cases h
      rfl
  · simp [hp] at h

theorem call_drift {t u : Sys} {op : Op} (h : call t op = some u) : drift u.pmm = drift t.pmm := by
  cases op with
  | reserve start stop =>
    obtain ⟨s', hs, rfl⟩ := map_eq_some_iff.mp h
    exact reservePages_drift hs
  | alloc =>
    obtain ⟨⟨s', r⟩, hs, rfl⟩ := map_eq_some_iff.mp h
    cases r <;> exact alloc_drift hs
  | free page =>
    obtain ⟨s', hs, rfl⟩ := map_eq_some_iff.mp h
    exact free_drift hs

/-- From any state on, whatever is reserved, taken and given back. -/
theorem free_memory_drift (t : Sys) (ops : List Op) :
    Throughout step (fun u => ∀ v ∈ u, drift v.pmm = drift t.pmm) (some t) ops := by
  refine throughout_of_inv (J := fun u _ => ∀ v ∈ u, drift v.pmm = drift t.pmm) ?_ (fun _ _ h => h) ?_
    (eachStep_trivial _ ops)
  · intro u op _ hu _ w hw
    obtain ⟨v, rfl, hcall⟩ := bind_eq_some_iff.mp hw
    exact (call_drift hcall).trans (hu v rfl)
  · rintro v ⟨⟩
    rfl

end Orion.Pmm
