import Orion.Lib.Runs
import Orion.Mount.Copy

/-!
# Runs of mount and copy commands

The drivers match the selected disk. A command breaks this when it gives the driver of the selected disk the
parameters of another volume, or when `fsbg_mount_disk` trusts its record of the mounted disk after somebody else has
moved the driver on.
-/

namespace Orion.Mount

open Lib Sys

variable {W : Type} (ops : FileOps W) (depth : Nat)

/-- The commands of a run. -/
inductive Op where
  | mDisk (cmd : List UInt8)
  | mountDisk (f : Fs) (disk : Int)
  | copy (src dst : Fs) (src_name dst_name : Path)
  | move (src dst : Fs) (src_name dst_name : Path)
  | copyDisk (src_arg dst_arg : Path)

/-- The state after one command; `none` when the command does not return in the model. -/
def step (s : Sys W) : Op → Option (Sys W)
  | .mDisk cmd => some (m_disk s cmd)
  | .mountDisk f disk => some (fsbg_mount_disk s f disk).2
  | .copy src dst src_name dst_name => some (fsbg_copy ops s src dst src_name dst_name).2
  | .move src dst src_name dst_name => (fsbg_move ops depth s src dst src_name dst_name).map Prod.snd
  | .copyDisk src_arg dst_arg => (fsbg_copy_disk ops depth s src_arg dst_arg).map Prod.snd

/-- The state that the next command finds. -/
def next (s : Sys W) (op : Op) : Sys W := (step ops depth s op).getD s

/-- The state before the first command, with the disks that were found. -/
def started (disks : Disk → DiskInfo) (boot : Disk → Device) (drivers : Drivers) (world : W) : Sys W where
  disks := disks
  boot := boot
  drivers := drivers
  ready := fun _ => false
  mounted := fun _ => none
  current_fs := none
  current_drive := none
  honest := true
  world := world

/-- The driver of the selected file system is on the selected disk, and every successful `fsbg_mount_disk` left its
driver on its disk. -/
def Matches (s : Sys W) : Prop :=
  (∀ f ∈ s.current_fs, ∃ d ∈ s.current_drive, Configured s f d) ∧ s.honest = true

/-! ## The condition on a command -/

/-- The kind of the disk has been found, so that `m_disk` does not probe it again. -/
def Known (s : Sys W) (d : Disk) : Prop := (s.disks d).fs_type ≠ .Unknown ∧ (s.disks d).fs_type ≠ .MBR
deriving Decidable

/-- The disk has a boot sector with the name of FAT32 whose other fields `fat32_init` rejects. -/
def Damaged (s : Sys W) (d : Disk) : Prop :=
  (s.boot d).inRange (s.disks d).base_lba = true ∧
    ((s.boot d).data (s.disks d).base_lba).slice 0x52 5 = Fat32.typeName ∧
    Fat32.accepted (Fat32.decodeBpb ((s.boot d).data (s.disks d).base_lba))
      ((s.boot d).data (s.disks d).base_lba) = false
deriving Decidable

/-- If a disk of the file system is selected, it is this one. -/
def SelectedOnly (s : Sys W) (f : Fs) (d : Disk) : Prop := s.current_fs = some f → s.current_drive = some d
deriving Decidable

/-- If `fsbg.c` has recorded a disk of the file system as mounted, it is this one. -/
def RecordedOnly (s : Sys W) (f : Fs) (d : Disk) : Prop := ∀ e ∈ s.mounted f, e = d
deriving Decidable

/-- The disk that `fsbg_auto_mount_if_needed` tries first. -/
def firstDisk (s : Sys W) (f : Fs) : Option Disk :=
  (List.finRange MAX_DISKS).find? fun i => (s.disks i).present && (s.disks i).fs_type = .fs f

/-- `fsbg_auto_mount_if_needed`: the disk of the file system that is in use is the first one. -/
def AutoFits (s : Sys W) (f : Fs) : Prop :=
  s.ready f = false → ∀ i ∈ firstDisk s f, SelectedOnly s f i ∧ RecordedOnly s f i
deriving Decidable

/-- `fsbg_mount_disk`: no other disk of the file system is selected, and the attempt does not fail half way. -/
def MountFits (s : Sys W) (f : Fs) (d : Disk) : Prop :=
  (s.disks d).present = true → SelectedOnly s f d ∧ Known s d ∧ (f = .FAT32 → ¬ Damaged s d)
deriving Decidable

/-- `m_disk`: no other disk of the file system is recorded, and a damaged disk is not tried while FAT32 is selected. -/
def SelectFits (s : Sys W) (d : Disk) : Prop :=
  ∀ f, (s.disks d).fs_type = .fs f →
    RecordedOnly s f d ∧ (f = .FAT32 → s.current_fs = some .FAT32 → ¬ Damaged s d)
deriving Decidable

/-- The command returns, and its disks are those that the state depends on. -/
def Fits (s : Sys W) (op : Op) : Prop :=
  (step ops depth s op).isSome = true ∧
    match op with
    | .mDisk cmd => ∀ d ∈ diskArg cmd, (s.disks d).present = true → SelectFits (refreshIfUnknown s d) d
    | .mountDisk f disk => ∀ d : Disk, disk = d.val → MountFits s f d
    | .copy src dst _ _ => AutoFits s src ∧ AutoFits s dst
    | .move src dst _ _ => AutoFits s src ∧ AutoFits s dst
    | .copyDisk src_arg dst_arg =>
      ∀ a ∈ splitArg src_arg, ∀ b ∈ splitArg dst_arg, ∀ src dst,
        (s.disks a.1).fs_type = .fs src → (s.disks b.1).fs_type = .fs dst →
          AutoFits s src ∧ AutoFits s dst ∧ MountFits s src a.1 ∧ MountFits s dst b.1

instance (s : Sys W) (op : Op) : Decidable (Fits ops depth s op) := by
  unfold Fits
  cases op <;> infer_instance

end Orion.Mount
