import Orion.Fat.Volume
import Orion.Fat32.Files
import Orion.Fat32.Boot

/-!
# Formatting a FAT32 volume

Model of `fat32_format_at` of `src/fs/fat32.c`, and what a volume must be like after it.
-/

namespace Orion.Fat32

open Lib Fat

/-- `SecPerClus` and `FATSz32`: the first cluster size with at least 65525 clusters, or the defaults. -/
def geometry (total_sectors : UInt32) : UInt8 × UInt32 :=
  let data_sectors := total_sectors - (32 + 2 * 1)
  match ([1, 2, 4, 8, 16, 32, 64, 128] : List UInt32).find? fun sec_per_clus => data_sectors / sec_per_clus ≥ 65525 with
  | some sec_per_clus => (sec_per_clus.toUInt8, (data_sectors / sec_per_clus * 4 + (512 - 1)) / 512)
  | none => (8, 0)

def bootBytes : List UInt8 :=
  [0xEB, 0x58, 0x90] ++ [0x4F, 0x52, 0x49, 0x4F, 0x4E, 0x4F, 0x53, 0x20] ++
  -- BytsPerSec, SecPerClus, RsvdSecCnt, NumFATs, RootEntCnt, TotSec16, Media, FATSz16, SecPerTrk, NumHeads
  [0x00, 0x02, 0, 32, 0, 2, 0, 0, 0, 0, 0xF8, 0, 0, 63, 0, 255, 0] ++
  -- HiddSec, TotSec32, FATSz32, ExtFlags, FSVer
  List.replicate 16 0 ++
  -- RootClus, FSInfo, BkBootSec, Reserved
  [2, 0, 0, 0, 1, 0, 6, 0] ++ List.replicate 12 0 ++
  -- DrvNum, Reserved1, BootSig, VolID, VolLab, FilSysType
  [0x80, 0, 0x29, 0x78, 0x56, 0x34, 0x12] ++ List.replicate 11 0x20 ++
  [0x46, 0x41, 0x54, 0x33, 0x32, 0x20, 0x20, 0x20]

/-- The 90 bytes of `bpb`, and what follows them. -/
def bpbBytes (base_lba total_sectors : UInt32) (label : List UInt8) (rest : Bytes) : Bytes :=
  let sector := rest.splice 0 90 (Bytes.ofList bootBytes)
  let sector := ((sector.splice 13 1 fun _ => (geometry total_sectors).1).put32 28 base_lba).put32 32 total_sectors
  (sector.put32 36 (geometry total_sectors).2).splice 71 (label.take 11).length (Bytes.ofList (label.take 11))

/-- The boot sector of a new volume. -/
def bootSector (base_lba total_sectors : UInt32) (label : List UInt8) : Bytes :=
  let sector := (bpbBytes base_lba total_sectors label zeroSector).splice 90 bootcode_stub.length
    (Bytes.ofList bootcode_stub)
  sector.splice 510 2 (Bytes.ofList [0x55, 0xAA])

def fsInfoSector : Bytes :=
  let sector := (((zeroSector.put32 0 0x41615252).put32 484 0x61417272).put32 488 0xFFFFFFFF).put32 492 3
  (sector.put32 508 0xAA550000).splice 510 2 (Bytes.ofList [0x55, 0xAA])

/-- The first sector of a new table; the root's entry is not set. -/
def fatHead : Bytes := Bytes.ofList [0xF8, 0xFF, 0xFF, 0x0F, 0xFF, 0xFF, 0xFF, 0x0F]

/-- `fat32_format_at`; the copy of the boot sector is written from `bpb` and what is behind it on the stack. -/
def fat32_format_at (dev : Device) (base_lba total_sectors : UInt32) (label : List UInt8) (stack : Bytes) :
    Bool × Device :=
  if total_sectors = 0 then (false, dev)
  else
    let dev := dev.write base_lba (bootSector base_lba total_sectors label)
    let dev := dev.write (base_lba + 1) fsInfoSector
    let dev := dev.write (base_lba + 6) (bpbBytes base_lba total_sectors label stack)
    let size := (geometry total_sectors).2
    let dev := writeFats dev (base_lba + 32) size fatHead
    -- the root directory is cluster 2, and its first sector is cleared
    (true, dev.write (base_lba + (32 + 2 * size)) zeroSector)

/-! ## Sound volumes -/

/-- The variables of the driver for the volume at `base_lba`. -/
def volumeAt (dev : Device) (base_lba : UInt32) : Params := paramsAt base_lba (decodeBpb (dev.data base_lba))

/-- The number of clusters in a volume of `total_sectors` sectors. -/
def Bpb.clusterCount (bpb : Bpb) (total_sectors : UInt32) : ℕ :=
  (total_sectors.toNat - (bpb.RsvdSecCnt.toNat + bpb.NumFATs.toNat * bpb.FATSz32.toNat)) / bpb.SecPerClus.toNat

/-- Reserved sectors, tables and clusters. -/
def Params.regions (p : Params) (total_sectors : UInt32) : List (ℕ × ℕ) :=
  [((p.fat_start_lba - p.bpb.RsvdSecCnt.toUInt32).toNat, p.bpb.RsvdSecCnt.toNat),
    (p.fat_start_lba.toNat, p.bpb.NumFATs.toNat * p.bpb.FATSz32.toNat),
    (p.data_start_lba.toNat, p.bpb.clusterCount total_sectors * p.bpb.SecPerClus.toNat)]

/-- `fat32_next_cluster`: an entry of the table. -/
def Params.entry (p : Params) (dev : Device) (c : ℕ) : UInt32 :=
  (dev.data (p.fat_start_lba + UInt32.ofNat (c / 128))).get32 (4 * (c % 128)) &&& 0x0FFFFFFF

/-- The cluster that `fat32_alloc_cluster` finds. -/
def Params.freeCluster (p : Params) (dev : Device) (hint : ℕ) : Option ℕ :=
  findCluster (fun c => p.entry dev c = 0) hint p.bpb.FATSz32.toNat

def Params.rootSlot (p : Params) (dev : Device) (σ : Slot) : Bytes :=
  let lba := p.data_start_lba + (p.root_dir_cluster32 - 2) * p.bpb.SecPerClus.toUInt32
  fun k => if k < 32 then dev.data (lba + UInt32.ofNat (σ.2 / 16)) (32 * (σ.2 % 16) + k) else 0

def Params.rootPlaces (p : Params) : List Slot :=
  (List.range (p.bpb.SecPerClus.toNat * 16)).map fun i => (some p.root_dir_cluster32.toNat, i)

/-- A new volume is sound apart from its table. -/
structure SoundButTable (dev : Device) (base_lba total_sectors : UInt32) : Prop where
  mounts : ∀ p, fat32_init p dev base_lba = (true, volumeAt dev base_lba)
  laidOut : LaidOut base_lba.toNat (base_lba.toNat + total_sectors.toNat)
    ((volumeAt dev base_lba).regions total_sectors)
  covers : (volumeAt dev base_lba).bpb.clusterCount total_sectors + 2 ≤ (volumeAt dev base_lba).bpb.FATSz32.toNat * 128
  alloc : ∀ hint, (volumeAt dev base_lba).freeCluster dev hint ≠
    some (volumeAt dev base_lba).root_dir_cluster32.toNat
  root : iterate_dir ((volumeAt dev base_lba).rootSlot dev) lfn_reset (volumeAt dev base_lba).rootPlaces = []

/-- A new volume is sound. -/
structure SoundVolume (dev : Device) (base_lba total_sectors : UInt32) : Prop
    extends SoundButTable dev base_lba total_sectors where
  copies : SameCopies dev (volumeAt dev base_lba).fat_start_lba (volumeAt dev base_lba).bpb.FATSz32.toNat
  rootMark : (volumeAt dev base_lba).entry dev (volumeAt dev base_lba).root_dir_cluster32.toNat ≥ 0x0FFFFFF8

/-- The sizes for which a new volume is sound apart from its table. -/
def SizeFits (total_sectors : UInt32) : Prop := 65559 ≤ total_sectors.toNat ∧ total_sectors.toNat ≤ 1073741730
deriving Decidable

end Orion.Fat32
