import Orion.Fat16.Files
import Orion.Fat32.Files
import Orion.Lib.Follow

/-!
# The loops that free a chain

The loops of `fat16_write_file`, `fat16_rm`, `free_cluster_chain` and `fat32_rm` on a table whose links are
arbitrary, so that chains may meet or lead in a circle. A loop for which the turns do not suffice answers `none`.
For FAT16 the copies of the table are modelled too: they follow each other, and the entry `c` of the copy `f` is
the entry `f * len + c` of `fat`, where `len` is the number of entries in a copy.
-/

namespace Orion.Fat16

open Lib Fat

variable (NumFATs len : ℕ)

/-- The entry is written to every copy of the table. -/
def set_fat_entry (v : Vol) (cluster value : ℕ) : Vol :=
  (List.range NumFATs).foldl (fun v f => v.setFat (f * len + cluster) value) v

/-- A turn of the loop of `fat16_write_file`. -/
def freeOverwritten (v : Vol) (cl : ℕ) : Vol := (set_fat_entry NumFATs len v cl 0).zero cl

/-- A turn of the loop of `fat16_rm`, which clears the sectors first. -/
def freeRemoved (v : Vol) (cl : ℕ) : Vol := set_fat_entry NumFATs len (v.zero cl) cl 0

/-- A turn of the loop of `free_cluster_chain`. -/
def freeEntry (v : Vol) (cl : ℕ) : Vol := set_fat_entry NumFATs len v cl 0

/-- The loop of `fat16_write_file` that frees the old contents. -/
def freeOldContents (turns : ℕ) (v : Vol) (cl : ℕ) : Option Vol :=
  sweep eoc Vol.fat (freeOverwritten NumFATs len) turns v cl

/-- The loop of `fat16_rm`. -/
def freeFile (turns : ℕ) (v : Vol) (cl : ℕ) : Option Vol := sweep eoc Vol.fat (freeRemoved NumFATs len) turns v cl

/-- The loop of `free_cluster_chain` with at most `turns` turns. -/
def free_cluster_chain (turns : ℕ) (v : Vol) (start : ℕ) : Option Vol :=
  sweep eoc Vol.fat (freeEntry NumFATs len) turns v start

/-- In every copy of the table the entries reached from `c` are zero, and the others as before. -/
structure ExactlyFreed (v v' : Vol) (c : ℕ) : Prop where
  reached : ∀ f < NumFATs, ∀ d < len, Reaches eoc v.fat c d → v'.fat (f * len + d) = 0
  others : ∀ f < NumFATs, ∀ d < len, ¬ Reaches eoc v.fat c d → v'.fat (f * len + d) = v.fat (f * len + d)

end Orion.Fat16

namespace Orion.Fat32

open Lib Fat

/-- A turn of the loop of `fat32_rm`, which writes to the first copy of the table. -/
def freeRemoved (v : Vol) (cl : ℕ) : Vol := (v.setFirst cl 0).onBase fun b => b.zero cl

/-- The loop of `fat32_rm`. -/
def freeFile (turns : ℕ) (v : Vol) (cl : ℕ) : Option Vol := sweep eoc Vol.next freeRemoved turns v cl

/-- In the first copy of the table the entries reached from `c` are zero, the others and the second copy as before. -/
structure ExactlyFreed (v v' : Vol) (c : ℕ) : Prop where
  reached : ∀ d < v.fatLen, Reaches eoc v.next c d → v'.fat d = 0
  others : ∀ d < v.fatLen, ¬ Reaches eoc v.next c d → v'.fat d = v.fat d
  mirror : v'.mirror = v.mirror

end Orion.Fat32

namespace Orion.Fat

/-- Every link is zero, ends a chain, or is the number of a cluster with an entry in the table. -/
def LinksInRange (eoc len : ℕ) (links : ℕ → ℕ) : Prop :=
  ∀ d < len, links d = 0 ∨ eoc ≤ links d ∨ 2 ≤ links d ∧ links d < len

instance (eoc len : ℕ) (links : ℕ → ℕ) : Decidable (LinksInRange eoc len links) :=
  inferInstanceAs (Decidable (∀ d < len, _))

end Orion.Fat
