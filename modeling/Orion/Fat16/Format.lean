import Orion.Fat.Volume
import Orion.Fat16.Boot

/-!
# Formatting a FAT16 volume

Model of `fat16_format_at` of `src/fs/fat16.c`, and what a volume must be like after it.
-/

namespace Orion.Fat16

open Lib Fat

/-- `fatsz`: the data region is estimated with 250 sectors for each copy of the table. -/
def fatsz (total_sectors : UInt32) : UInt16 :=
  let root_dir_sectors : UInt32 := (512 * 32 + (512 - 1)) / 512
  let data_sectors := total_sectors - (1 + root_dir_sectors + 2 * 250)
  let clusters := data_sectors / 4
  let fatsz := ((clusters * 2 + (512 - 1)) / 512).toUInt16
  if fatsz < 1 then 1 else fatsz

/-- The boot sector up to its code, before sizes and label are entered. -/
def bootBytes : List UInt8 :=
  [0xEB, 0x3C, 0x90] ++ [0x4F, 0x52, 0x49, 0x4F, 0x4E, 0x4F, 0x53, 0x20] ++
  -- BytsPerSec, SecPerClus, RsvdSecCnt, NumFATs, RootEntCnt
  [0x00, 0x02, 4, 1, 0, 2, 0x00, 0x02] ++
  -- TotSec16, Media, FATSz16, SecPerTrk, NumHeads, HiddSec, TotSec32
  [0, 0, 0xF8, 0, 0, 32, 0, 64, 0, 0, 0, 0, 0, 0, 0, 0, 0] ++
  -- DrvNum, Reserved1, BootSig, VolID, VolLab, FilSysType
  [0x80, 0, 0x29, 0x78, 0x56, 0x34, 0x12] ++ List.replicate 11 0x20 ++
  [0x46, 0x41, 0x54, 0x31, 0x36, 0x20, 0x20, 0x20] ++ bootcode_stub

/-- The boot sector of a new volume. -/
def bootSector (base_lba total_sectors : UInt32) (label : List UInt8) : Bytes :=
  let TotSec16 : UInt16 := if total_sectors < 65536 then total_sectors.toUInt16 else 0
  let TotSec32 : UInt32 := if total_sectors < 65536 then 0 else total_sectors
  let sector := (((Bytes.ofList bootBytes).put16 19 TotSec16).put16 22 (fatsz total_sectors)).put32 28 base_lba
  let sector := (sector.put32 32 TotSec32).splice 43 (label.take 11).length (Bytes.ofList (label.take 11))
  sector.splice 510 2 (Bytes.ofList [0x55, 0xAA])

/-- The first sector of a new table. -/
def fatHead : Bytes := Bytes.ofList [0xF8, 0xFF, 0xFF, 0xFF]

/-- `fat16_format_at`; the results of `ata_write_sector` are not looked at. -/
def fat16_format_at (dev : Device) (base_lba total_sectors : UInt32) (label : List UInt8) : Bool × Device :=
  if total_sectors = 0 then (false, dev)
  else
    let dev := dev.write base_lba (bootSector base_lba total_sectors label)
    let fat_start := base_lba + 1
    let size := (fatsz total_sectors).toUInt32
    let dev := writeFats dev fat_start size fatHead
    let root_start := fat_start + 2 * size
    (true, dev.writeRun root_start (fun _ => zeroSector) 32)

/-! ## Sound volumes -/

/-- `CountOfClusters`, as `probe_fat16_pbr` counts them. -/
def Bpb.countOfClusters (bpb : Bpb) : ℕ := (bpb.dataSectors / bpb.SecPerClus.toUInt32).toNat

/-- The reserved sectors, the tables, the root directory and the data region of a mounted volume. -/
def Params.regions (p : Params) : List (ℕ × ℕ) :=
  [((p.fat_start_lba - p.fat16_bpb.RsvdSecCnt.toUInt32).toNat, p.fat16_bpb.RsvdSecCnt.toNat),
    (p.fat_start_lba.toNat, p.fat16_bpb.fatSectors.toNat),
    (p.root_dir_lba.toNat, p.root_dir_sectors.toNat),
    (p.data_region_lba.toNat, p.fat16_bpb.countOfClusters * p.fat16_bpb.SecPerClus.toNat)]

/-- The bytes of a place of the root directory. -/
def Params.rootSlot (p : Params) (dev : Device) (σ : Slot) : Bytes :=
  fun k => if k < 32 then dev.data (p.root_dir_lba + UInt32.ofNat (σ.2 / 16)) (32 * (σ.2 % 16) + k) else 0

def Params.rootPlaces (p : Params) : List Slot :=
  (List.range (p.root_dir_sectors.toNat * 16)).map fun i => (none, i)

/-- The variables of the driver for the volume at `base_lba`. -/
def volumeAt (dev : Device) (base_lba : UInt32) : Params := paramsAt base_lba (decodeBpb (dev.data base_lba))

/-- A new volume is sound apart from the second copy of its table. -/
structure SoundButCopies (dev : Device) (base_lba total_sectors : UInt32) : Prop where
  mounts : fat16_init dev base_lba = some (volumeAt dev base_lba)
  laidOut : LaidOut base_lba.toNat (base_lba.toNat + total_sectors.toNat) (volumeAt dev base_lba).regions
  covers : (volumeAt dev base_lba).fat16_bpb.countOfClusters + 2 ≤
    (volumeAt dev base_lba).fat16_bpb.FATSz16.toNat * 256
  reserved : (dev.data (volumeAt dev base_lba).fat_start_lba).get16 0 = 0xFFF8 ∧
    (dev.data (volumeAt dev base_lba).fat_start_lba).get16 2 = 0xFFFF
  root : iterate_dir ((volumeAt dev base_lba).rootSlot dev) lfn_reset (volumeAt dev base_lba).rootPlaces = []

/-- A new volume is sound. -/
structure SoundVolume (dev : Device) (base_lba total_sectors : UInt32) : Prop
    extends SoundButCopies dev base_lba total_sectors where
  copies : SameCopies dev (volumeAt dev base_lba).fat_start_lba (volumeAt dev base_lba).fat16_bpb.FATSz16.toNat

/-- The sizes for which a new volume is sound apart from the copies. -/
def SizeFits (total_sectors : UInt32) : Prop :=
  16405 ≤ total_sectors.toNat ∧ total_sectors.toNat ≤ 262644 ∧
    (total_sectors.toNat - 33 - 2 * (fatsz total_sectors).toNat) / 4 + 2 ≤ (fatsz total_sectors).toNat * 256
deriving Decidable

end Orion.Fat16
