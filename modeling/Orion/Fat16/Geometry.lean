import Orion.Fat16.Format

/-!
# The layout of a mounted FAT16 volume

`fat16_init` takes over the fields of a boot sector once they have passed the tests of `probe_fat16_pbr`. The search
of `_alloc_cluster` is bounded by the size of the table, and not by the number of clusters that the tests count.
-/

namespace Orion.Fat16

open Lib

namespace Bpb

variable (bpb : Bpb)

def totalSectors : ℕ := if bpb.TotSec16 ≠ 0 then bpb.TotSec16.toNat else bpb.TotSec32.toNat

/-- The sectors in front of the clusters. -/
def headSectors : ℕ :=
  bpb.RsvdSecCnt.toNat + bpb.NumFATs.toNat * bpb.FATSz16.toNat + (bpb.RootEntCnt.toNat * 32 + 511) / 512

/-- The entries in one copy of the table, as `_alloc_cluster` counts them. -/
def tableEntries : ℕ := bpb.FATSz16.toNat * bpb.BytsPerSec.toNat / 2

/-- The entries in the order in which the two passes of `_alloc_cluster` look at them. -/
def scanned (hint : UInt16) : List ℕ :=
  let start := if hint.toNat < 2 ∨ bpb.tableEntries ≤ hint.toNat then 2 else hint.toNat
  List.range' start (bpb.tableEntries - start) ++ List.range' 2 (start - 2)

/-- `_alloc_cluster` on a table: the cluster, or zero, the table and the hint. Numbers are cast to 16 bits where an
entry is read. -/
def alloc_cluster (table : UInt16 → UInt16) (hint : UInt16) : UInt16 × (UInt16 → UInt16) × UInt16 :=
  match (bpb.scanned hint).find? fun i => table (UInt16.ofNat i) = 0 with
  | some i => (UInt16.ofNat i, Function.update table (UInt16.ofNat i) 0xFFFF, UInt16.ofNat (i + 1))
  | none => (0, table, hint)

/-- No cluster is found exactly if all clusters of the volume are in use, and one that is found was free, with its
sectors in the data region. -/
structure Confined : Prop where
  none_iff : ∀ table hint, (bpb.alloc_cluster table hint).1 = 0 ↔
    ∀ c, 2 ≤ c → c < bpb.countOfClusters + 2 → table (UInt16.ofNat c) ≠ 0
  found : ∀ table hint, (bpb.alloc_cluster table hint).1 ≠ 0 →
    2 ≤ (bpb.alloc_cluster table hint).1.toNat ∧
      (bpb.alloc_cluster table hint).1.toNat < bpb.countOfClusters + 2 ∧
      table (bpb.alloc_cluster table hint).1 = 0 ∧
      ((bpb.alloc_cluster table hint).1.toNat - 2) * bpb.SecPerClus.toNat + bpb.SecPerClus.toNat ≤
        bpb.dataSectors.toNat

end Bpb

/-- The sector at which `fat16_init` finds the volume. -/
def mountedAt (dev : Device) (base_lba : UInt32) : UInt32 :=
  if (probe_fat16_pbr dev base_lba).isSome then base_lba else ((find_fat16_in_mbr dev).map Prod.fst).getD 0

/-- The data sectors are what is left of the volume, nothing is divided by zero, the regions follow each other, and
every cluster has an entry in the first table. -/
structure SoundLayout (base : ℕ) (p : Params) : Prop where
  noUnderflow : p.fat16_bpb.headSectors ≤ p.fat16_bpb.totalSectors
  divisors : p.fat16_bpb.BytsPerSec ≠ 0 ∧ p.fat16_bpb.SecPerClus ≠ 0
  tables : p.fat_start_lba.toNat = base + p.fat16_bpb.RsvdSecCnt.toNat
  root : p.root_dir_lba.toNat = p.fat_start_lba.toNat + p.fat16_bpb.NumFATs.toNat * p.fat16_bpb.FATSz16.toNat
  data : p.data_region_lba.toNat = p.root_dir_lba.toNat + (p.fat16_bpb.RootEntCnt.toNat * 32 + 511) / 512
  laidOut : LaidOut base (base + p.fat16_bpb.totalSectors) p.regions
  covers : p.fat16_bpb.countOfClusters + 2 ≤ p.fat16_bpb.FATSz16.toNat * 256

end Orion.Fat16
