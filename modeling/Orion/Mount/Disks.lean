import Orion.Fat16.Boot
import Orion.Fat32.Boot
import Orion.Xvfs.Volume

/-!
# Disks and mounted drivers

Model of the mount state of the three file system drivers: `m_disk` of `kernel/cmd.c`, `fs_quick_probe` of
`fs/disk.c`, and `fsbg_auto_mount_if_needed` and `fsbg_mount_disk` of `fs/fsbg.c`.

`boot` holds what the init functions read from a disk; operations on files do not change it. What they do
change is the `world`, about which nothing is assumed.
-/

namespace Orion.Mount

open Lib

/-- The file systems with a driver. -/
inductive Fs where
  | FAT16
  | FAT32
  | XVFS
  deriving DecidableEq, Repr

instance : Fintype Fs := ⟨{.FAT16, .FAT32, .XVFS}, fun f => by cases f <;> decide⟩

/-- The texts in `fs_type`. -/
inductive Kind where
  | fs (f : Fs)
  | MBR
  | Unknown
  | None
  deriving DecidableEq, Repr

def MAX_DISKS : Nat := 8

abbrev Disk := Fin MAX_DISKS

/-- The fields of `DiskInfo` that mounting reads. -/
structure DiskInfo where
  present : Bool
  fs_type : Kind
  base_lba : UInt32
  deriving DecidableEq, Repr

/-- The drive and the volume parameters of each driver, without what operations on files change. -/
structure Drivers where
  fat16_drive : Int
  fat16 : Fat16.Params
  fat32_drive : UInt8
  fat32 : Fat32.Params
  xvfs_drive : UInt8
  xvfs_base_lba : UInt32
  sb : Xvfs.Superblock
  deriving DecidableEq, Repr

/-- The variables of the drivers at start-up. -/
def noDrivers : Drivers where
  fat16_drive := 0
  fat16 := ⟨⟨0, 0, 0, 0, 0, 0, 0, 0⟩, 0, 0, 0, 0⟩
  fat32_drive := 0
  fat32 := ⟨⟨0, 0, 0, 0, 0, 0, 0, 0⟩, 0, 0, 0⟩
  xvfs_drive := 0
  xvfs_base_lba := 0
  sb := ⟨0, 0, 0, 0, 0, 0, 0⟩

/-- The static variables of `fsbg.c`, the selection of the shell and the drivers. `honest`: every successful
`fsbg_mount_disk` left its driver on its disk. -/
structure Sys (W : Type) where
  disks : Disk → DiskInfo
  boot : Disk → Device
  drivers : Drivers
  ready : Fs → Bool
  mounted : Fs → Option Disk
  current_fs : Option Fs
  current_drive : Option Disk
  honest : Bool
  world : W

variable {W : Type}

namespace Sys

def setDrivers (s : Sys W) (drv : Drivers) : Sys W := { s with drivers := drv }

def setReady (s : Sys W) (f : Fs) : Sys W := { s with ready := Function.update s.ready f true }

def setMounted (s : Sys W) (f : Fs) (d : Disk) : Sys W :=
  { s with mounted := Function.update s.mounted f (some d) }

def select (s : Sys W) (f : Fs) (d : Disk) : Sys W := { s with current_fs := some f, current_drive := some d }

def setDisk (s : Sys W) (d : Disk) (info : DiskInfo) : Sys W :=
  { s with disks := Function.update s.disks d info }

def setWorld (s : Sys W) (w : W) : Sys W := { s with world := w }

end Sys

open Sys

/-! ## The init functions of the drivers -/

/-- What `probe_xvfs` reads: the superblock of a volume at `base_lba`, without its count of free blocks. -/
def probe_xvfs (dev : Device) (base_lba : UInt32) : Option Xvfs.Superblock :=
  (Xvfs.xvfs_init dev base_lba fun _ => 0).map fun v => { v.sb with free_blocks := 0 }

/-- `fat16_init`, `fat32_init` or `xvfs_init` for the disk `d`: whether it succeeds, and the drivers after it. -/
def initDriver (s : Sys W) (f : Fs) (d : Disk) : Bool × Drivers :=
  let dev := s.boot d
  let base := (s.disks d).base_lba
  match f with
  | .FAT16 =>
    match Fat16.fat16_init dev base with
    | some p => (true, { s.drivers with fat16_drive := d.val, fat16 := p })
    | none => (false, s.drivers)
  | .FAT32 =>
    match Fat32.fat32_init s.drivers.fat32 dev base with
    | (true, p) => (true, { s.drivers with fat32_drive := UInt8.ofNat d.val, fat32 := p })
    | (false, p) => (false, { s.drivers with fat32 := p })
  | .XVFS =>
    match probe_xvfs dev base with
    | some sb =>
      (true, { s.drivers with xvfs_drive := UInt8.ofNat d.val, xvfs_base_lba := base, sb := sb })
    | none => (false, s.drivers)

/-- The driver `f` has the drive and the parameters that mounting the disk `d` gives it. -/
def Configured (s : Sys W) (f : Fs) (d : Disk) : Prop := initDriver s f d = (true, s.drivers)
deriving Decidable

/-! ## Kinds of disks -/

/-- Type and first sector of an entry of the partition table. -/
def partition (sec : Bytes) (i : Nat) : UInt8 × UInt32 :=
  (sec (0x1BE + 16 * i + 4), sec.get32 (0x1BE + 16 * i + 8))

/-- The name of the file system stands in the boot sector. -/
def is_fat_sig (sec : Bytes) (sig8 : List UInt8) : Bool :=
  sec.slice 0x36 8 = sig8 || sec.slice 0x52 8 = sig8

def fat16Sig : List UInt8 := [0x46, 0x41, 0x54, 0x31, 0x36, 0x20, 0x20, 0x20]

def fat32Sig : List UInt8 := [0x46, 0x41, 0x54, 0x33, 0x32, 0x20, 0x20, 0x20]

/-- `is_xvfs_sig_at`, and `is_xvfs_sig` for sector 0 -/
def is_xvfs_sig_at (dev : Device) (base_lba : UInt32) : Bool :=
  dev.inRange base_lba && (dev.data base_lba).slice 0 5 = Xvfs.signature && dev.inRange (base_lba + 1) &&
    (dev.data (base_lba + 1)).get32 0 = Xvfs.XVFS_MAGIC

/-- `fs_quick_probe`: the kind of a disk and where its volume starts. -/
def fs_quick_probe (dev : Device) : Kind × UInt32 :=
  if !dev.inRange 0 then (.None, 0)
  else
    let sec := dev.data 0
    if !Fat16.has_sig55AA sec then (.Unknown, 0)
    else if is_xvfs_sig_at dev 0 then (.fs .XVFS, 0)
    else if is_fat_sig sec fat16Sig then (.fs .FAT16, 0)
    else if is_fat_sig sec fat32Sig then (.fs .FAT32, 0)
    else
      -- the loop over the partitions returns in its first turn with a type
      match (List.range 4).find? fun i => (partition sec i).1 ≠ 0 with
      | none => (.Unknown, 0)
      | some i =>
        let base := (partition sec i).2
        if dev.inRange base && Fat16.has_sig55AA (dev.data base) then
          if is_fat_sig (dev.data base) fat16Sig then (.fs .FAT16, base)
          else if is_fat_sig (dev.data base) fat32Sig then (.fs .FAT32, base)
          else if is_xvfs_sig_at dev base then (.fs .XVFS, base)
          else (.MBR, base)
        else (.MBR, base)

/-- The init function of the driver accepts the sector as the start of a volume, whatever its variables. -/
def Accepts (dev : Device) (base : UInt32) : Fs → Prop
  | .FAT16 => (Fat16.probe_fat16_pbr dev base).isSome = true
  | .FAT32 => (Fat32.fat32_init noDrivers.fat32 dev base).1 = true
  | .XVFS => (probe_xvfs dev base).isSome = true

/-- The first sector is a boot sector but no volume. -/
def IsMbr (dev : Device) : Prop :=
  dev.inRange 0 = true ∧ Fat16.has_sig55AA (dev.data 0) = true ∧ ∀ f, ¬ Accepts dev 0 f

/-- The partition `i` holds a volume that `f` accepts. -/
def HasVolume (dev : Device) (i : ℕ) (f : Fs) : Prop :=
  i < 4 ∧ (partition (dev.data 0) i).1 ≠ 0 ∧ Accepts dev (partition (dev.data 0) i).2 f

/-- If some partition holds a volume, the probe finds one of them, and what it finds is a volume. -/
structure FindsVolumes (dev : Device) : Prop where
  finds : IsMbr dev → (∃ i f, HasVolume dev i f) →
    ∃ i f, HasVolume dev i f ∧ fs_quick_probe dev = (.fs f, (partition (dev.data 0) i).2)
  sound : ∀ f base, fs_quick_probe dev = (.fs f, base) → Accepts dev base f

/-- What `fs_quick_probe` finds in the first sector. -/
def signature0 (dev : Device) : Option Fs :=
  if is_xvfs_sig_at dev 0 then some .XVFS
  else if is_fat_sig (dev.data 0) fat16Sig then some .FAT16
  else if is_fat_sig (dev.data 0) fat32Sig then some .FAT32
  else none

/-- What `fs_quick_probe` finds at the start of a partition. -/
def signatureAt (dev : Device) (base : UInt32) : Option Fs :=
  if dev.inRange base && Fat16.has_sig55AA (dev.data base) then
    if is_fat_sig (dev.data base) fat16Sig then some .FAT16
    else if is_fat_sig (dev.data base) fat32Sig then some .FAT32
    else if is_xvfs_sig_at dev base then some .XVFS
    else none
  else none

/-- The first entry of the table that is in use. -/
def firstPartition (dev : Device) : Option ℕ := (List.range 4).find? fun i => (partition (dev.data 0) i).1 ≠ 0

/-- The name in sector 0, or else in the first partition that is not empty, is that of a volume; without a name no
partition holds one. -/
def Labelled (dev : Device) : Prop :=
  dev.inRange 0 = true → Fat16.has_sig55AA (dev.data 0) = true →
    (∀ f, signature0 dev = some f → Accepts dev 0 f) ∧
    (signature0 dev = none → ∀ i, firstPartition dev = some i →
      (∀ f, signatureAt dev (partition (dev.data 0) i).2 = some f → Accepts dev (partition (dev.data 0) i).2 f) ∧
      (signatureAt dev (partition (dev.data 0) i).2 = none → IsMbr dev → ∀ j f, ¬ HasVolume dev j f))

/-- The disk is probed again. -/
def refresh_disk_kind (s : Sys W) (d : Disk) : Sys W :=
  let (kind, base) := fs_quick_probe (s.boot d)
  s.setDisk d ⟨(s.disks d).present, if kind = .None then .Unknown else kind, base⟩

/-! ## Selecting a disk -/

/-- The disk that the argument of `m_disk` names: a digit, and behind it nothing or "#". -/
def diskArg (cmd : List UInt8) : Option Disk :=
  match cmd.dropWhile (· = 0x20) with
  | [] => none
  | c :: rest =>
    if 0x30 ≤ c ∧ c ≤ 0x39 ∧ (rest.headD 0 = 0 ∨ rest.headD 0 = 0x23) then
      let d := (c - 0x30).toNat
      if h : d < MAX_DISKS then some ⟨d, h⟩ else none
    else none

/-- A disk of unknown kind is probed again. -/
def refreshIfUnknown (s : Sys W) (d : Disk) : Sys W :=
  if (s.disks d).fs_type = .Unknown ∨ (s.disks d).fs_type = .MBR then refresh_disk_kind s d else s

/-- The command `m_disk`: the disk is probed if need be, mounted and selected. -/
def m_disk (s : Sys W) (cmd : List UInt8) : Sys W :=
  match diskArg cmd with
  | none => s
  | some d =>
    if !(s.disks d).present then s
    else
      let s := refreshIfUnknown s d
      match (s.disks d).fs_type with
      | .fs f =>
        let (ok, drv) := initDriver s f d
        if ok then (s.setDrivers drv).select f d else s.setDrivers drv
      | _ => s

/-! ## Mounting in `fsbg.c` -/

/-- One turn of the loop of `fsbg_auto_mount_if_needed`. -/
def autoMountTurn (f : Fs) (s : Sys W) (i : Disk) : Sys W :=
  if (s.disks i).present && !s.ready f && (s.disks i).fs_type = .fs f then
    let (ok, drv) := initDriver s f i
    if ok then (s.setDrivers drv).setReady f else s.setDrivers drv
  else s

/-- The first disk of the file system is mounted, unless one is marked as ready. -/
def fsbg_auto_mount_if_needed (s : Sys W) (f : Fs) : Sys W :=
  (List.finRange MAX_DISKS).foldl (autoMountTurn f) s

/-- A call that said a disk is mounted is recorded. -/
def report (s : Sys W) (f : Fs) (d : Disk) : Sys W :=
  { s with honest := s.honest && decide (Configured s f d) }

/-- The part of `fsbg_mount_disk` behind the checks of its arguments. -/
def mountPresent (s : Sys W) (f : Fs) (d : Disk) : Bool × Sys W :=
  if s.mounted f = some d then (true, report s f d)
  else
    let (ok, drv) := initDriver s f d
    if ok then (true, report ((s.setDrivers drv).setMounted f d) f d) else (false, s.setDrivers drv)

/-- `fsbg_mount_disk`; a negative number stands for no particular disk. -/
def fsbg_mount_disk (s : Sys W) (f : Fs) (disk : Int) : Bool × Sys W :=
  if disk < 0 then (true, s)
  else if h : disk.toNat < MAX_DISKS then
    if !(s.disks ⟨disk.toNat, h⟩).present then (false, s) else mountPresent s f ⟨disk.toNat, h⟩
  else (false, s)

end Orion.Mount
