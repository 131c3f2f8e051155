import Orion.Fat.Aliases
import Orion.Fat16.Run

/-!
# What callers may expect

`fat16_write_file` releases the clusters of a file before it takes new ones, and `fat16_create_file` and `fat16_mkdir`
put a new entry into free places of a directory, one after the other, or into new clusters behind it. Here is what a
caller may expect of a write that fails and of a directory with a new entry.
-/

namespace Orion.Fat16

open Lib Fat

/-! ## Overwriting a file -/

/-- The directories and chains are sound, the working directory is one of them, the size of the clusters is allowed, and
no chain leaves the table. -/
structure WellFormed (v : Vol) : Prop where
  sound : Tree.Inv eoc (tree v) none []
  cwd : Tree.Dir eoc (tree v) none v.cwd
  spc : 0 < v.spc ∧ v.spc ≤ 128
  inTable : ∀ σ e, Live v σ e → ∀ c ∈ clusters v e, c < v.fatLen

/-- A path leads to the entry of a file, both for `fat16_read_file_by_name` and for `fat16_write_file`. -/
structure ExistingFile (v : Vol) (path : List UInt8) (item : Item) : Prop where
  read : find_file_path v path = some item
  dir : resolve_dir v (split_path path).1 ≠ 0xFFFF
  write : find_entry_slot v (resolve_dir v (split_path path).1) (split_path path).2 = some item
  file : isDirectory item.entry = false

/-- A failed call leaves the file and the free clusters as they were. -/
def Harmless (v : Vol) (path : List UInt8) (result : ℤ × Vol) : Prop :=
  result.1 = -1 →
    (∀ max_size, read_file_by_name result.2 path max_size = read_file_by_name v path max_size) ∧
      freeClusters result.2 = freeClusters v

/-- That many calls of `_alloc_cluster` in a row return a cluster that can be used. -/
def CanTake : ℕ → Vol → Prop
  | 0, _ => True
  | k + 1, v => ¬ noCluster (alloc_cluster v).1 ∧ CanTake k (alloc_cluster v).2

/-- Once the old chain of the file is released, the clusters for `n` bytes can be had. -/
def Enough (v : Vol) (item : Item) (n : ℕ) : Prop :=
  CanTake ((n + v.clusterSize - 1) / v.clusterSize) (freeChain true eoc (firstLow item.entry) v)

/-- No cluster is free, and the file has no clusters or no bytes. -/
def NothingToLose (v : Vol) (item : Item) : Prop :=
  freeClusters v = ∅ ∧ (noCluster (firstLow item.entry) ∨ fileSize item.entry = 0)

/-! ## Creating an entry -/

/-- A call that makes an entry. -/
inductive Creation where
  | file (mem : ℕ → Bool) (initial_size : ℕ)
  | directory

/-- `fat16_create_file` or `fat16_mkdir` -/
def Creation.run (v : Vol) (path : List UInt8) : Creation → Bool × Vol
  | .file mem initial_size => create_file mem v path initial_size
  | .directory => mkdir v path

/-- The directory `d` has got an entry at `σ` that is found under its name, and all others are read as before. -/
structure FoundAndKept (v w : Vol) (d : ℕ) (name : List UInt8) (σ : Slot) : Prop where
  found : ∃ item, find_entry_slot w d name = some item ∧ item.slot = σ
  kept : ∀ item ∈ entries v.raw (dirSlots v d), item ∈ entries w.raw (dirSlots w d)

/-- No end mark stands in front of the places `slots`. -/
def Reached (v : Vol) (d : ℕ) (slots : List Slot) : Prop :=
  ∀ σ ∈ (dirSlots v d).takeWhile (fun σ => σ ∉ slots), v.raw σ 0 ≠ 0
deriving Decidable

end Orion.Fat16
