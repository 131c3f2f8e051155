import Orion.Fat16.Outcomes
import Orion.Syscall.Mounted

/-!
# The current directory: its cluster and its text

The drivers keep the current directory twice, as the number of a cluster and as the text in `current_path`.
-/

namespace Orion.Fat16

open Lib Fat

/-- From the directory `d` on, every component names a directory; the last one is `e`. -/
def Leads (v : Vol) : ℕ → List (List UInt8) → ℕ → Prop
  | d, [], e => d = e
  | d, name :: names, e =>
    ∃ item, find_entry_slot v d name = some item ∧ isDirectory item.entry = true ∧ Leads v (firstLow item.entry) names e

/-- From the directory `d` on, every component names a directory but the last one, which names a file. -/
def endsInFile (v : Vol) : ℕ → List (List UInt8) → Bool
  | _, [] => false
  | d, name :: names =>
    match find_entry_slot v d name with
    | none => false
    | some item => if isDirectory item.entry then endsInFile v (firstLow item.entry) names else names = []

/-- `fat16_resolve_dir` has room for its copy of the path, and if it succeeds, every component names a directory, the
result being the last one. -/
structure ResolvesSoundly (v : Vol) (path : List UInt8) : Prop where
  room : path.length ≤ 255
  sound : resolve_dir v path ≠ 0xFFFF → Leads v (startDir v path) (tokens slash path) (resolve_dir v path)

end Orion.Fat16

namespace Orion.Syscall

open Lib Fat

/-! ## FAT16 -/

/-- The volume and the text of the current directory; `none` after the stack was overrun. -/
abbrev Fat16Cwd : Type := Option (Fat.Vol × Path)

/-- One call of `fat16_cd` -/
def fat16Step (s : Fat16Cwd) (path : Path) : Fat16Cwd :=
  s.bind fun (v, current_path) => (fat16_cd v current_path path).map Prod.snd

/-- The text is an absolute path, and `fat16_resolve_dir` resolves it to the cluster. -/
def Fat16Agrees : Fat16Cwd → Prop
  | none => False
  | some (v, current_path) => current_path.head? = some slash ∧ Fat16.resolve_dir v current_path = v.cwd

/-- `normalize_path` stays within its buffers. -/
def Fat16Fits : Fat16Cwd → Path → Prop
  | none, _ => False
  | some (_, current_path), path => path = [] ∨ (normalize_path current_path path).isSome = true

def fat16Mounted (v : Fat.Vol) : Fat16Cwd := some ({ v with cwd := 0 }, [slash])

end Orion.Syscall
