import Orion.Fat16.Files
import Orion.Fat32.Files

/-!
# Removing files and directories

What `rm` and `rmdir` of both FAT drivers may remove: a regular file, and a directory in whose whole chain no entry is
left but those for itself and its parent.
-/

namespace Orion.Fat

open Lib

/-- The entry is neither a directory nor a volume label. -/
def isRegular (r : Bytes) : Prop := r 11 &&& 0x18 = 0
deriving Decidable

/-- The entry is in use and stands for another file or directory. -/
def isLiveOther (r : Bytes) : Prop := isFree r = false ∧ r 11 ≠ 0x0F ∧ ¬ isDotName (shortName r)
deriving Decidable

/-- A call succeeds only if `ok` holds, and a failed call leaves the volume as it was. -/
structure Guarded {V : Type*} (ok : Prop) (v : V) (result : Bool × V) : Prop where
  only : result.1 = true → ok
  unchanged : result.1 = false → result.2 = v

/-- What the removal of a directory takes for a dot entry. -/
def looksLikeDot (r : Bytes) : Prop := r 0 = dot ∧ (r 1 = blank ∨ r 1 = dot)
deriving Decidable

/-- In front of the first place never used, there is an entry that is neither long nor that of the directory itself or
its parent. -/
def SeenIn (isLong : Bytes → Prop) (rd : Slot → Bytes) (l : List Slot) : Prop :=
  ∃ σ ∈ l.takeWhile (fun σ => rd σ 0 ≠ 0), rd σ 0 ≠ 0xE5 ∧ ¬ isLong (rd σ) ∧ ¬ looksLikeDot (rd σ)

end Orion.Fat

namespace Orion.Fat16

open Lib Fat

/-- The entry that `fat16_rm` and `fat16_rmdir` remove. -/
def findTarget (v : Vol) (path : List UInt8) : Option Item :=
  let (dir, name) := split_path path
  if name = [] then none
  else
    let d := resolve_dir v dir
    if d = 0xFFFF then none else find_entry_slot v d name

/-- The path leads to a regular file. -/
def NamesFile (v : Vol) (path : List UInt8) : Prop := ∃ item, findTarget v path = some item ∧ isRegular item.entry

/-- The directory has no entries but its dot entries. -/
def EmptyDir (v : Vol) (dir : ℕ) : Prop := ∀ σ ∈ dirSlots v dir, ¬ isLiveOther (v.raw σ)

/-- The path leads to an empty directory. -/
def NamesEmptyDir (v : Vol) (path : List UInt8) : Prop :=
  ∃ item, findTarget v path = some item ∧ isDirectory item.entry = true ∧ EmptyDir v (firstLow item.entry)

/-- `is_dir_empty` meets an entry in the only cluster of the directory that it reads. -/
def SeenEntry (v : Vol) (item : Item) : Prop :=
  SeenIn (fun r => r 11 &&& 0x0F = 0x0F) v.raw (v.places [some (clusterOrFirst (firstLow item.entry))])

end Orion.Fat16

namespace Orion.Fat32

open Lib Fat

/-- The path leads to a regular file. -/
def NamesFile (v : Vol) (path : List UInt8) : Prop := ∃ item, findTarget v path = some item ∧ isRegular item.entry

/-- The directory that an entry stands for; the entry for the parent of a directory in the root may have no number. -/
def namedDir (v : Vol) (r : Bytes) : ℕ := if firstCluster r < 2 then v.root else firstCluster r

/-- The directory has no entries but its dot entries. -/
def EmptyDir (v : Vol) (dir : ℕ) : Prop := ∀ σ ∈ dirSlots v dir, ¬ isLiveOther (v.raw σ)

/-- The path leads to an empty directory. -/
def NamesEmptyDir (v : Vol) (path : List UInt8) : Prop :=
  ∃ item, findTarget v path = some item ∧ isDirectory item.entry = true ∧ EmptyDir v (namedDir v item.entry)

/-- `fat32_rmdir` meets an entry behind the first two in the first sector of the directory. -/
def SeenEntry (v : Vol) (item : Item) : Prop :=
  SeenIn (fun r => r 11 = 0x0F) v.raw ((List.range' 2 14).map fun j => (some (firstCluster item.entry), j))

end Orion.Fat32
