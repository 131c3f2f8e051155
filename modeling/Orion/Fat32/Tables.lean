import Orion.Fat32.Files

/-!
# Taking a cluster of a FAT32 volume

`fat32_alloc_cluster` of `src/fs/fat32.c` over all copies of the table. The order of the search is the one of
`candidates`, here with the sums in 32 bits. The data of the cluster, which the function clears, are left out.
-/

namespace Orion.Fat32

open Lib Fat

/-- The copies of the table of a volume that `fat32_init` has accepted, and its size. -/
structure Tables where
  /-- `FATSz32` -/
  fat_sectors : UInt32
  /-- `NumFATs` -/
  copies : UInt8
  copies_pos : 0 < copies.toNat
  /-- The number of clusters; the sectors of a volume have numbers of 32 bits. -/
  count : ℕ
  count_lt : count + 2 < 2 ^ 32
  /-- The entries of each copy. -/
  entry : ℕ → ℕ → UInt32
  /-- `fat32_alloc_hint` -/
  hint : UInt32

namespace Tables

variable (t : Tables)

/-- The first copy says that the cluster is free. -/
def free (k : ℕ) : Bool := t.entry 0 k &&& 0x0FFFFFFF = 0

def size : ℕ := 128 * t.fat_sectors.toNat

/-- `start_cluster`; `total_entries` is a product of 32 bits. -/
def start : ℕ := if t.hint < 3 || t.hint ≥ 128 * t.fat_sectors then 3 else t.hint.toNat

/-- The entries in the order of the two passes. The second one ends in front of the sector in which the first has
started. -/
def scanned : List ℕ := List.range' t.start (t.size - t.start) ++ List.range' 3 (t.start / 128 * 128 - 3)

/-- The entry `k` is marked in the first copy, and its sector is written to all copies. -/
def mark (k f j : ℕ) : UInt32 :=
  if (f = 0 ∨ f < t.copies.toNat) ∧ j / 128 = k / 128 then
    if j = k then 0x0FFFFFFF else t.entry 0 j
  else t.entry f j

/-- `fat32_alloc_cluster`, which enters the mark into every copy. -/
def alloc_cluster : UInt32 × Tables :=
  match t.scanned.find? t.free with
  | none => (0, t)
  | some k => (UInt32.ofNat k, { t with entry := t.mark k, hint := UInt32.ofNat k + 1 })

/-- If no cluster is returned, none from 3 on is free and the tables are as before. One that is returned was free and of
the volume, and only its entry is marked, in every copy. -/
structure Allocates : Prop where
  exhausted : t.alloc_cluster.1 = 0 →
    (∀ k, 3 ≤ k → k < t.count + 2 → k < t.size → t.free k = false) ∧ t.alloc_cluster.2.entry = t.entry
  taken : t.alloc_cluster.1 ≠ 0 →
    t.free t.alloc_cluster.1.toNat = true ∧ t.alloc_cluster.1.toNat < t.count + 2 ∧
      ∀ f < t.copies.toNat, t.alloc_cluster.2.entry f t.alloc_cluster.1.toNat = 0x0FFFFFFF ∧
        ∀ j, j ≠ t.alloc_cluster.1.toNat → t.alloc_cluster.2.entry f j = t.entry f j

/-- The entries that no pass looks at, between the start of a sector and the hint in it, are in use. -/
def NoneSkipped : Prop := ∀ k, t.start / 128 * 128 ≤ k → 3 ≤ k → k < t.start → k < t.count + 2 → t.free k = false

/-- In the sector of the entry `k`, the copies differ at most in this entry. -/
def SameSector (k : ℕ) : Prop :=
  ∀ f < t.copies.toNat, ∀ j, j / 128 = k / 128 → j ≠ k → t.entry f j = t.entry 0 j

/-- The search leaves out no free entry if it finds none, and finds a cluster of the volume in a sector in which the
copies agree. -/
def Covered : Prop :=
  match t.scanned.find? t.free with
  | none => t.NoneSkipped
  | some k => k < t.count + 2 ∧ t.SameSector k

end Tables

end Orion.Fat32
