import Orion.Fat.Volume

/-!
# Proofs: the tables of a formatted volume

The first copy of the table starts with the reserved entries, the second one is all zeros.
-/

namespace Orion.Fat

open Lib

variable {dev : Device} {fat_start size : UInt32} {head : Bytes} {i : ℕ} {a lba : UInt32}

theorem add_add_ofNat (a b : UInt32) (i : ℕ) : a + b + UInt32.ofNat i = a + UInt32.ofNat (b.toNat + i) := by
  apply UInt32.toNat_inj.mp
  simp only [UInt32.toNat_add, UInt32.toNat_ofNat']
  omega

theorem add_ofNat_ne {j : ℕ} (hi : i < 2 ^ 32) (hj : j < 2 ^ 32) (h : i ≠ j) :
    a + UInt32.ofNat i ≠ a + UInt32.ofNat j := by
  intro heq
  have hnat := congrArg UInt32.toNat heq
  simp only [UInt32.toNat_add, UInt32.toNat_ofNat'] at hnat
  omega

theorem ne_add_ofNat {k : ℕ} (h : 0 < k) (hk : k < 2 ^ 32) : a ≠ a + UInt32.ofNat k := by
  have hne := add_ofNat_ne (a := a) (show 0 < 2 ^ 32 by omega) hk (by omega)
  rwa [show UInt32.ofNat 0 = 0 from rfl, UInt32.add_zero] at hne

theorem inRange_base {base total : UInt32} (hne : total ≠ 0) (hdisk : base.toNat + total.toNat ≤ dev.sectors) :
    dev.inRange base = true := by
  have hpos : total.toNat ≠ 0 := fun h => hne (UInt32.toNat_inj.mp h)
  rw [Device.inRange, decide_eq_true_eq]
  omega

@[simp] theorem writeFats_sectors : (writeFats dev fat_start size head).sectors = dev.sectors := by
  simp [writeFats]

@[simp] theorem writeFats_inRange : (writeFats dev fat_start size head).inRange lba = dev.inRange lba := by
  simp [writeFats]

theorem writeFats_data_of_ne (h : ∀ i < 2 * size.toNat, lba ≠ fat_start + UInt32.ofNat i) :
    (writeFats dev fat_start size head).data lba = dev.data lba := by
  unfold writeFats
  rw [Device.writeRun_data_of_ne, Device.writeRun_data_of_ne]
  · intro i hi
    exact h i (by omega)
  · intro i hi
    rw [add_add_ofNat]
    exact h (size.toNat + i) (by omega)

section InRange

variable (hwrap : fat_start.toNat + 2 * size.toNat ≤ 2 ^ 32) (hrange : fat_start.toNat + 2 * size.toNat ≤ dev.sectors)

include hwrap hrange

theorem writeFats_first (hi : i < size.toNat) : (writeFats dev fat_start size head).data (fat_start + UInt32.ofNat i) =
    if i = 0 then head else zeroSector := by
  unfold writeFats
  rw [Device.writeRun_data_of_ne, Device.writeRun_data (by omega) (by omega) hi]
  intro j hj
  rw [add_add_ofNat]
  exact add_ofNat_ne (by omega) (by omega) (by omega)

theorem writeFats_second (hi : i < size.toNat) :
    (writeFats dev fat_start size head).data (fat_start + UInt32.ofNat (size.toNat + i)) = zeroSector := by
  unfold writeFats
  have hsecond : (fat_start + size).toNat = fat_start.toNat + size.toNat := by
    rw [UInt32.toNat_add, Nat.mod_eq_of_lt (by omega)]
  rw [← add_add_ofNat]
  refine Device.writeRun_data ?_ ?_ hi
  · omega
  · rw [Device.writeRun_sectors]
    omega

/-- Where a device has the sectors of the two copies, the first starts with `head` and the second differs from it. -/
theorem tables_written {dev' : Device} (hpos : 0 < size.toNat) (hhead : head 0 ≠ 0)
    (heq : ∀ i < 2 * size.toNat, dev'.data (fat_start + UInt32.ofNat i) =
      (writeFats dev fat_start size head).data (fat_start + UInt32.ofNat i)) :
    dev'.data fat_start = head ∧ ¬ SameCopies dev' fat_start size.toNat := by
  have hfirst : dev'.data (fat_start + UInt32.ofNat 0) = head := by
    rw [heq 0 (by omega), writeFats_first hwrap hrange hpos, if_pos rfl]
  constructor
  · rwa [show UInt32.ofNat 0 = 0 from rfl, UInt32.add_zero] at hfirst
  intro hsame
  have hbyte := hsame 0 hpos 0 (le_refl 0) (by omega)
  rw [hfirst, heq _ (by omega), writeFats_second hwrap hrange hpos] at hbyte
  exact hhead hbyte

end InRange

theorem iterate_dir_zero {raw : Slot → Bytes} {blk : Option ℕ} {n : ℕ} (h : raw (blk, 0) 0 = 0) :
    iterate_dir raw lfn_reset ((List.range n).map fun i => (blk, i)) = [] := by
  cases n with
  | zero => rfl
  | succ n => rw [List.range_succ_eq_map, List.map_cons, iterate_dir, if_pos h]

end Orion.Fat
