import Orion.Fat32.Boot

/-!
# Mounting over a mounted FAT32 volume

All static variables of `src/fs/fat32.c` that `fat32_init` writes, and how the sectors of a cluster and the entries of
the table are read through them.
-/

namespace Orion.Fat32

open Lib

/-- The static variables that `fat32_init` writes. -/
structure Globals where
  params : Params
  fat32_drive : UInt8
  fat32_alloc_hint : UInt32
  current_dir_cluster32 : UInt32
  deriving DecidableEq, Repr

namespace Globals

/-- `fat32_init`, for drives with the given contents -/
def init (g : Globals) (disks : UInt8 → Device) (drive : UInt8) (base_lba : UInt32) : Bool × Globals :=
  match fat32_init g.params (disks drive) base_lba with
  | (true, p) => (true, ⟨p, drive, 3, p.root_dir_cluster32⟩)
  | (false, p) => (false, { g with params := p })

variable (g : Globals) (disks : UInt8 → Device)

/-- `fat32_next_cluster` and `fat32_get_fat_entry`, with the buffer `buf`; a sector without bytes divides by zero. -/
def next_cluster (cluster : UInt32) (buf : Bytes) : Option UInt32 :=
  let bps := g.params.bpb.BytsPerSec.toUInt32
  if bps = 0 then none
  else
    let sector := (disks g.fat32_drive).read (g.params.fat_start_lba + cluster * 4 / bps) buf
    some (sector.get32 (cluster * 4 % bps).toNat &&& 0x0FFFFFFF)

/-- The sectors of a cluster as they are read. -/
def read_cluster (cluster : UInt32) (buf : Bytes) : List (List UInt8) :=
  let lba := g.params.data_start_lba + (cluster - 2) * g.params.bpb.SecPerClus.toUInt32
  (List.range g.params.bpb.SecPerClus.toNat).map fun s =>
    ((disks g.fat32_drive).read (lba + UInt32.ofNat s) buf).slice 0 512

/-- The variables, and what is read with them, are as before. -/
structure Unharmed (g' : Globals) : Prop where
  same : g' = g
  table : ∀ cluster buf, g'.next_cluster disks cluster buf = g.next_cluster disks cluster buf
  data : ∀ cluster buf, g'.read_cluster disks cluster buf = g.read_cluster disks cluster buf

/-- The sector has the name of FAT32, `fat32_init` refuses its other fields, and they are not those of the mounted
volume. -/
def Overwrites (drive : UInt8) (base_lba : UInt32) : Prop :=
  let sec := (disks drive).data base_lba
  (disks drive).inRange base_lba = true ∧ sec.slice 0x52 5 = typeName ∧ accepted (decodeBpb sec) sec = false ∧
    decodeBpb sec ≠ g.params.bpb

end Globals

end Orion.Fat32
