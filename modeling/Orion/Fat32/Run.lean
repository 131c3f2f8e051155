import Orion.Fat32.Files
import Orion.Lib.Runs

/-!
# Runs of the FAT32 driver and the copies of the table
-/

namespace Orion.Fat32

open Lib Fat

/-- An operation of the driver that changes the volume. -/
inductive Op where
  | create (path : List UInt8)
  | write (depth : ℕ) (path data : List UInt8)
  | rm (path : List UInt8)
  | mkdir (path : List UInt8)
  | rmdir (path : List UInt8)

/-- The volume after an operation, whether it failed or not. -/
def step (v : Vol) : Op → Vol
  | .create path => (create_file v path).2
  | .write depth path data => (write_file depth v path data).2
  | .rm path => (rm v path).2
  | .mkdir path => (mkdir v path).2
  | .rmdir path => (rmdir v path).2

/-- The two copies of the table agree. -/
def SameTables (v : Vol) : Prop := ∀ c < v.fatLen, v.mirror c = v.fat c

instance (v : Vol) : Decidable (SameTables v) := inferInstanceAs (Decidable (∀ c < v.fatLen, _))

/-- The entry whose clusters `fat32_write_file` writes to: the one it finds, or finds after it has created the file. -/
def writeTarget : ℕ → Vol → List UInt8 → Option Item
  | depth, v, path =>
    match findTarget v path with
    | some item => some item
    | none =>
      match depth with
      | 0 => none
      | depth + 1 => if (create_file v path).1 then writeTarget depth (create_file v path).2 path else none

/-- A volume of `fatLen` clusters with an empty root directory in cluster 2. -/
def emptyVol (spc fatLen : ℕ) : Vol where
  spc := spc
  fatLen := fatLen
  rootLen := 0
  fat c := if c = 0 then 0x0FFFFFF8 else if c = 1 ∨ c = 2 then 0x0FFFFFFF else 0
  mirror c := if c = 0 then 0x0FFFFFF8 else if c = 1 ∨ c = 2 then 0x0FFFFFFF else 0
  area _ := fun _ => 0
  hint := 3
  cwd := 2
  root := 2

end Orion.Fat32
