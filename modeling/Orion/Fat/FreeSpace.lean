import Mathlib.Data.Finset.Card
import Mathlib.Order.Interval.Finset.Nat
import Orion.Fat16.Geometry
import Orion.Fat32.Boot

/-!
# The free space that the FAT drivers report

`fat16_free_clusters` and `fat32_free_clusters` look for the table `RsvdSecCnt` sectors behind its start, since
`fat_start_lba` is already the first sector of the table, and count every entry of as many sectors as the table has.
-/

namespace Orion.Fat

open Lib

/-- The loops over `sectors` sectors with `per` entries each; a sector that cannot be read is passed over. -/
def countFree (dev : Device) (per : ℕ) (zero : Bytes → ℕ → Bool) (fat_start : UInt32) (sectors : ℕ) : UInt32 :=
  (List.range sectors).foldl (fun free_count s =>
    if !dev.inRange (fat_start + UInt32.ofNat s) then free_count
    else (List.range per).foldl (fun n i => if zero (dev.data (fat_start + UInt32.ofNat s)) i then n + 1 else n)
      free_count) 0

/-- The entry `k` behind the start of a sector can be read and is zero. -/
def zeroAt (dev : Device) (per : ℕ) (zero : Bytes → ℕ → Bool) (start : UInt32) (k : ℕ) : Bool :=
  dev.inRange (start + UInt32.ofNat (k / per)) && zero (dev.data (start + UInt32.ofNat (k / per))) (k % per)

/-- The first table of a volume: its zero entries (also behind it), entries in a sector, reserved sectors, sectors of
the table, clusters. -/
structure Space where
  zero : ℕ → Bool
  per : ℕ
  reserved : ℕ
  sectors : ℕ
  clusters : ℕ

namespace Space

variable (t : Space)

/-- `c` is a cluster with an entry in the table. -/
def IsEntry (c : ℕ) : Prop := 2 ≤ c ∧ c < t.clusters + 2 ∧ c < t.per * t.sectors
deriving Decidable

/-- The free clusters. -/
def free : Finset ℕ := (Finset.range (t.per * t.sectors)).filter fun c => t.IsEntry c ∧ t.zero c = true

/-- The zero entries that the loops count, `reserved` sectors behind the start of the table. -/
def counted : Finset ℕ :=
  (Finset.Ico (t.per * t.reserved) (t.per * (t.reserved + t.sectors))).filter fun k => t.zero k = true

/-- As many zero entries of no cluster are counted as free clusters are passed over, in 32 bits. -/
def Balanced : Prop :=
  (t.counted.filter fun k => ¬ t.IsEntry k).card % 2 ^ 32 = (t.free.filter fun c => c < t.per * t.reserved).card

end Space

end Orion.Fat

namespace Orion.Fat16

open Lib Fat

/-- The number of clusters by the boot sector. -/
def fat16_total_clusters (p : Params) : UInt32 :=
  if p.fat16_bpb.SecPerClus = 0 || p.fat16_bpb.BytsPerSec = 0 then 0
  else if (if p.fat16_bpb.TotSec16 ≠ 0 then p.fat16_bpb.TotSec16.toUInt32 else p.fat16_bpb.TotSec32) = 0 then 0
  else if p.fat16_bpb.dataSectors = 0 then 0
  else p.fat16_bpb.dataSectors / p.fat16_bpb.SecPerClus.toUInt32

/-- The number of free entries in the table. -/
def fat16_free_clusters (p : Params) (dev : Device) : UInt32 :=
  if p.fat16_bpb.SecPerClus = 0 || p.fat16_bpb.BytsPerSec = 0 then 0
  else if p.fat16_bpb.FATSz16 = 0 || p.fat16_bpb.NumFATs = 0 then 0
  else countFree dev (p.fat16_bpb.BytsPerSec / 2).toNat (fun sec i => sec.get16 (2 * i) = 0)
    (p.fat_start_lba + p.fat16_bpb.RsvdSecCnt.toUInt32) p.fat16_bpb.FATSz16.toNat

/-- The first table of a FAT16 volume. -/
def Params.space (p : Params) (dev : Device) : Space where
  zero := zeroAt dev 256 (fun sec i => sec.get16 (2 * i) = 0) p.fat_start_lba
  per := 256
  reserved := p.fat16_bpb.RsvdSecCnt.toNat
  sectors := p.fat16_bpb.FATSz16.toNat
  clusters := (p.fat16_bpb.totalSectors - p.fat16_bpb.headSectors) / p.fat16_bpb.SecPerClus.toNat

/-- What the driver reports for a FAT16 volume is right. -/
def SpaceExact (p : Params) (dev : Device) : Prop :=
  (fat16_total_clusters p).toNat = (p.space dev).clusters ∧
    (fat16_free_clusters p dev).toNat = (p.space dev).free.card

end Orion.Fat16

namespace Orion.Fat32

open Lib Fat

def fat32_total_clusters (p : Params) : UInt32 :=
  if p.bpb.SecPerClus = 0 then 0
  else if p.bpb.FATSz32 = 0 || p.bpb.NumFATs = 0 then 0
  else if p.bpb.TotSec32 = 0 then 0
  else
    let data_sectors := p.bpb.TotSec32 - (p.bpb.RsvdSecCnt.toUInt32 + p.bpb.NumFATs.toUInt32 * p.bpb.FATSz32)
    if data_sectors = 0 then 0 else data_sectors / p.bpb.SecPerClus.toUInt32

def fat32_free_clusters (p : Params) (dev : Device) : UInt32 :=
  if p.bpb.SecPerClus = 0 || p.bpb.FATSz32 = 0 then 0
  else countFree dev 128 (fun sec i => sec.get32 (4 * i) &&& 0x0FFFFFFF = 0)
    (p.fat_start_lba + p.bpb.RsvdSecCnt.toUInt32) p.bpb.FATSz32.toNat

/-- The sectors in front of the data region. -/
def Bpb.headSectors (bpb : Bpb) : ℕ := bpb.RsvdSecCnt.toNat + bpb.NumFATs.toNat * bpb.FATSz32.toNat

/-- The first table of a FAT32 volume. -/
def Params.space (p : Params) (dev : Device) : Space where
  zero := zeroAt dev 128 (fun sec i => sec.get32 (4 * i) &&& 0x0FFFFFFF = 0) p.fat_start_lba
  per := 128
  reserved := p.bpb.RsvdSecCnt.toNat
  sectors := p.bpb.FATSz32.toNat
  clusters := (p.bpb.TotSec32.toNat - p.bpb.headSectors) / p.bpb.SecPerClus.toNat

/-- What the driver reports for a FAT32 volume is right. -/
def SpaceExact (p : Params) (dev : Device) : Prop :=
  (fat32_total_clusters p).toNat = (p.space dev).clusters ∧
    (fat32_free_clusters p dev).toNat = (p.space dev).free.card

/-- The volume has the sectors in front of its data region, or what is missing makes less than a cluster modulo `2 ^
32`. -/
def TotalFits (p : Params) : Prop :=
  p.bpb.TotSec32 = 0 ∨ p.bpb.headSectors ≤ p.bpb.TotSec32.toNat ∨
    ((p.bpb.TotSec32.toNat : ℤ) - p.bpb.headSectors) % 2 ^ 32 < p.bpb.SecPerClus.toNat

end Orion.Fat32
