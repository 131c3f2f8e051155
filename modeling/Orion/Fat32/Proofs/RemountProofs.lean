import Orion.Fat32.Remount

/-!
# Proofs: mounting over a mounted FAT32 volume

A call that fails after it has copied the fields of the boot sector leaves them together with the positions of the
mounted volume.
-/

namespace Orion.Fat32

open Lib

namespace Globals

variable {g : Globals} {disks : UInt8 → Device} {drive : UInt8} {base_lba : UInt32}

theorem Unharmed.refl (g : Globals) (disks : UInt8 → Device) : g.Unharmed disks g :=
  ⟨rfl, fun _ _ => rfl, fun _ _ => rfl⟩

theorem init_of_foreign
    (h : ¬ ((disks drive).inRange base_lba = true ∧ ((disks drive).data base_lba).slice 0x52 5 = typeName)) :
    g.init disks drive base_lba = (false, g) := by
  have hfail : fat32_init g.params (disks drive) base_lba = (false, g.params) := by
    unfold fat32_init
    by_cases hrange : (disks drive).inRange base_lba = true
    · have hname : ((disks drive).data base_lba).slice 0x52 5 ≠ typeName := fun hname => h ⟨hrange, hname⟩
      rw [hrange, if_neg (by decide)]
      exact if_pos hname
    · rw [Bool.not_eq_true] at hrange
      rw [hrange]
      rfl
  unfold init
  rw [hfail]

section Named

variable (hrange : (disks drive).inRange base_lba = true)
  (hname : ((disks drive).data base_lba).slice 0x52 5 = typeName)

include hrange hname

/-- A refused sector with the name of FAT32 leaves its fields in `bpb`. -/
theorem init_of_refused
    (hrefused : accepted (decodeBpb ((disks drive).data base_lba)) ((disks drive).data base_lba) = false) :
    g.init disks drive base_lba =
      (false, { g with params := { g.params with bpb := decodeBpb ((disks drive).data base_lba) } }) := by
  have hfail : fat32_init g.params (disks drive) base_lba =
      (false, { g.params with bpb := decodeBpb ((disks drive).data base_lba) }) := by
    unfold fat32_init
    simp only [hrange, hname, hrefused]
    rfl
  unfold init
  rw [hfail]

theorem init_of_accepted
    (haccepted : accepted (decodeBpb ((disks drive).data base_lba)) ((disks drive).data base_lba) = true) :
    (g.init disks drive base_lba).1 = true := by
  have hok : fat32_init g.params (disks drive) base_lba =
      (true, paramsAt base_lba (decodeBpb ((disks drive).data base_lba))) := by
    unfold fat32_init
    simp only [hrange, hname, haccepted]
    rfl
  unfold init
  rw [hok]

end Named

end Globals

/-- A failed `fat32_init` leaves the mounted volume as it was exactly if the sector has not the name of FAT32 with
refused fields that differ from those of the volume. -/
theorem failed_init_unharmed_iff (g : Globals) (disks : UInt8 → Device) (drive : UInt8) (base_lba : UInt32) :
    ((g.init disks drive base_lba).1 = false → g.Unharmed disks (g.init disks drive base_lba).2) ↔
      ¬ g.Overwrites disks drive base_lba := by
  by_cases hnamed : (disks drive).inRange base_lba = true ∧ ((disks drive).data base_lba).slice 0x52 5 = typeName
  · obtain ⟨hrange, hname⟩ := hnamed
    cases htest : accepted (decodeBpb ((disks drive).data base_lba)) ((disks drive).data base_lba) with
    | true =>
      have hok := Globals.init_of_accepted (g := g) hrange hname htest
      refine iff_of_true (fun hfail => ?_) fun hover => ?_
      · rw [hok] at hfail
        cases hfail
      · have hrefused := hover.2.2.1
        rw [htest] at hrefused
        cases hrefused
    | false =>
      rw [Globals.init_of_refused hrange hname htest]
      constructor
      · intro h hover
        exact hover.2.2.2 (congrArg (fun g : Globals => g.params.bpb) (h rfl).same)
      · intro hnot _
        -- the fields are those that were there before
        have hsame : decodeBpb ((disks drive).data base_lba) = g.params.bpb := by
          by_contra hdiff
          exact hnot ⟨hrange, hname, htest, hdiff⟩
        rw [hsame]
        exact Globals.Unharmed.refl g disks
  · rw [Globals.init_of_foreign hnamed]
    exact iff_of_true (fun _ => Globals.Unharmed.refl g disks) fun hover => hnamed ⟨hover.1, hover.2.1⟩

/-- A boot sector with `copies` tables of one sector and `spc` sectors in a cluster. -/
def bootWith (spc copies : UInt8) : Bytes :=
  (((Bytes.ofList (List.replicate 11 0 ++ [0, 2, spc, 1, 0, copies])).put32 36 1).put32 44 2).splice 0x52 430
    (Bytes.ofList (typeName ++ List.replicate 423 0 ++ [0x55, 0xAA]))

/-- The first drive holds a volume with clusters of one sector, filled with their numbers; the second a boot sector with
clusters of eight sectors and without a table. -/
def twoDrives (drive : UInt8) : Device where
  sectors := 64
  data lba := if lba = 0 then (if drive = 0 then bootWith 1 1 else bootWith 8 0) else fun _ => lba.toUInt8

def firstMounted : Globals := (Globals.init ⟨paramsAt 0 ⟨0, 0, 0, 0, 0, 0, 0, 0⟩, 0, 3, 0⟩ twoDrives 0 0).2

/-- The second drive is refused, and the first is read with its parameters. -/
theorem refused_drive_changes_reads :
    (Globals.init ⟨paramsAt 0 ⟨0, 0, 0, 0, 0, 0, 0, 0⟩, 0, 3, 0⟩ twoDrives 0 0).1 = true ∧
      (firstMounted.init twoDrives 1 0).1 = false ∧
      (firstMounted.read_cluster twoDrives 3 fun _ => 0) = [List.replicate 512 3] ∧
      ((firstMounted.init twoDrives 1 0).2.read_cluster twoDrives 3 fun _ => 0) =
        (List.range' 10 8).map fun i => List.replicate 512 (UInt8.ofNat i) := by
  decide +kernel

end Orion.Fat32
