import Orion.Fat32.Reading
import Orion.Lib.Runs

/-!
# The current directory of FAT32: its cluster and its text

`fat32_cd` follows `..` through the entries on the disk, and edits the text in `current_path` beside it. Here is what
makes the two agree over a session.
-/

namespace Orion.Fat32

open Lib Fat

/-- A C string. -/
abbrev Str : Type := { s : List UInt8 // 0 ∉ s }

/-- The volume with `cluster` as its current directory. -/
def Vol.at (v : Vol) (cluster : ℕ) : Vol := v.onBase fun b => { b with cwd := cluster }

/-- What the driver keeps of the current directory: `current_dir_cluster32` and `current_path`. -/
abbrev Cwd : Type := ℕ × List UInt8

/-- One call of `fat32_cd` on the volume `v` -/
def cdStep (v : Vol) (s : Cwd) (path : Str) : Cwd :=
  let r := fat32_cd (v.at s.1) s.2 path.val
  (r.2.1.cwd, r.2.2)

/-- The directory and its text after mounting. -/
def mountedCwd (v : Vol) : Cwd := (v.root, [slash])

/-- The entries of a directory. -/
def items (v : Vol) (d : ℕ) : List Item := iterate_dir v.raw lfn_reset (dirSlots v d)

/-- The entry stands for a directory below. -/
def IsSubdir (item : Item) : Prop :=
  isDirectory item.entry = true ∧ ¬ isDotName (shortName item.entry) ∧ isCell eoc (firstCluster item.entry)
deriving Decidable

/-- The directories that can be reached from the root. -/
inductive IsDir (v : Vol) : ℕ → Prop
  | root : IsDir v v.root
  | sub {d : ℕ} {item : Item} : IsDir v d → item ∈ items v d → IsSubdir item → IsDir v (firstCluster item.entry)

/-- The second entry of `c` names `d` as its parent; the root is written as zero. -/
def NamesParent (v : Vol) (c d : ℕ) : Prop :=
  let parent := firstCluster (v.raw (some c, 1))
  parent = d ∨ parent = 0 ∧ d = v.root
deriving Decidable

/-- The volume is a tree with proper dot entries. -/
structure WellFormed (v : Vol) : Prop where
  root : isCell eoc v.root
  /-- No directory is below itself in one step, and the root is below none. -/
  below : ∀ d item, IsDir v d → item ∈ items v d → IsSubdir item →
    firstCluster item.entry ≠ d ∧ firstCluster item.entry ≠ v.root
  parent : ∀ d item, IsDir v d → item ∈ items v d → IsSubdir item → NamesParent v (firstCluster item.entry) d
  /-- The entries for a directory itself and for its parent have no long name. -/
  dots : ∀ d item, IsDir v d → item ∈ items v d → isDotName (shortName item.entry) → item.long_name = none

/-- The text is an absolute path that `fat32_resolve_dir` resolves to the cluster, and this is a directory. -/
structure Agrees (v : Vol) (s : Cwd) : Prop where
  absolute : s.2.head? = some slash
  resolved : resolve_dir (v.at s.1) s.2 = s.1
  dir : IsDir v s.1

/-- A failed change leaves directory and text as they were. -/
def FailureKeeps (v : Vol) (s : Cwd) (path : Str) : Prop :=
  (fat32_cd (v.at s.1) s.2 path.val).1 = false → cdStep v s path = s

/-- As far as the components are found, `new_path` has room for them. -/
def roomFrom (v : Vol) : ℕ → List UInt8 → List (List UInt8) → Bool
  | _, _, [] => true
  | cluster, new_path, segment :: rest =>
    if segment = [dot] then roomFrom v cluster new_path rest
    else if segment = [dot, dot] then
      if cluster = v.root ∨ cluster < 2 then roomFrom v v.root [slash] rest
      else roomFrom v (parentOf v cluster) (cutText new_path) rest
    else
      let next := find_dir_cluster v cluster segment
      let longer := if new_path = [slash] then slash :: segment else new_path ++ slash :: segment
      if isCell eoc next then decide (longer.length ≤ 255) && roomFrom v next longer rest else true

/-- Where a change of directory starts. -/
def startOf (v : Vol) (s : Cwd) (clean : List UInt8) : Cwd := if clean.head? = some slash then mountedCwd v else s

/-- The text has room for every directory on the way. -/
def HasRoom (v : Vol) (s : Cwd) (path : Str) : Prop :=
  let clean := cleanPath path.val
  roomFrom v (startOf v s clean).1 (startOf v s clean).2 (partsFrom clean []) = true
deriving Decidable

end Orion.Fat32
