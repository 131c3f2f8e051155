import Orion.Fat16.Files
import Orion.Lib.Runs

/-!
# Runs of the FAT16 driver

The volume as a tree of directories, what it means that its chains are owned, and runs of the operations
that change it.
-/

namespace Orion.Fat16

open Lib Fat

/-- The directories and files of a volume, for the general theory of such trees. -/
def tree (v : Vol) : Tree where
  next := v.fat
  content σ := if σ.2 < v.width σ.1 then decode firstLow (σ.1 = none) (v.raw σ) else .empty
  dots c :=
    isDotEntry (padTo 11 [dot]) (v.raw (some c, 0)) ∧ isDotEntry (padTo 11 [dot, dot]) (v.raw (some c, 1))

/-- `σ` is the place of the entry `e` in a directory that can be reached from the root; dot entries are left out. -/
abbrev Live (v : Vol) (σ : Slot) (e : Entry) : Prop := ∃ h, Tree.Owner eoc (tree v) none h σ e

/-- The chain of an entry. -/
abbrev clusters (v : Vol) (e : Entry) : List ℕ := chain eoc v.fat e.first

/-- The chain of every live entry has distinct clusters, none free, and ends in a mark; no two entries share one. -/
structure Owned (v : Vol) : Prop where
  nonempty : ∀ σ e, Live v σ e → e.first ≠ 0 → clusters v e ≠ []
  distinct : ∀ σ e, Live v σ e → (clusters v e).Nodup
  used : ∀ σ e, Live v σ e → ∀ c ∈ clusters v e, v.fat c ≠ 0
  ends : ∀ σ e, Live v σ e → ∀ c, (clusters v e).getLast? = some c → eoc ≤ v.fat c
  apart : ∀ σ e σ' e', Live v σ e → Live v σ' e' → σ ≠ σ' → (clusters v e).Disjoint (clusters v e')

/-- The volume that `fat16_format_at` leaves: two reserved entries in the table and an empty root directory. -/
def formatted (spc fatLen rootLen : ℕ) (data : ℕ → Bytes) : Vol where
  spc := spc
  fatLen := fatLen
  rootLen := rootLen
  fat c := if c = 0 then 0xFFF8 else if c = 1 then 0xFFFF else 0
  area b := b.elim (fun _ => 0) data
  hint := 2
  cwd := 0

/-- An operation of the driver that changes the volume. -/
inductive Op where
  | create (mem : ℕ → Bool) (path : List UInt8) (initial_size : ℕ)
  | write (mem : ℕ → Bool) (depth : ℕ) (path data : List UInt8)
  | rm (path : List UInt8)
  | mkdir (path : List UInt8)
  | rmdir (path : List UInt8)
  | cp (mem : ℕ → Bool) (buf : Option Bytes) (depth : ℕ) (src dst : List UInt8)
  | mv (mem : ℕ → Bool) (buf : Option Bytes) (depth : ℕ) (src dst : List UInt8)

/-- The volume after an operation, whether it failed or not. -/
def step (v : Vol) : Op → Vol
  | .create mem path initial_size => (create_file mem v path initial_size).2
  | .write mem depth path data => (write_file mem depth v path data).2
  | .rm path => (rm v path).2
  | .mkdir path => (mkdir v path).2
  | .rmdir path => (rmdir v path).2
  | .cp mem buf depth src dst => (cp mem buf depth v src dst).2
  | .mv mem buf depth src dst => (mv mem buf depth v src dst).2

/-! ## What an operation has to avoid -/

/-- The clusters that `_alloc_cluster` can still hand out. -/
def freeClusters (v : Vol) : Finset ℕ := (Finset.range v.fatLen).filter fun c => 2 ≤ c ∧ v.fat c = 0

/-- There are enough free clusters, none with a number that the callers of `_alloc_cluster` refuse. -/
def Room (v : Vol) (data : List UInt8) : Prop :=
  (data.length + v.clusterSize - 1) / v.clusterSize ≤ (freeClusters v).card ∧ ∀ c ∈ freeClusters v, c < eoc
deriving Decidable

/-- Once `fat16_write_file` has released the old chain of the entry, there is room for the data. -/
def roomFor (v : Vol) (item : Item) (data : List UInt8) : Prop :=
  Room (freeChain true eoc (firstLow item.entry) v) data
deriving Decidable

/-- `fat16_write_file` has room for the data when it comes to write them, if it does. -/
def WriteRoom (mem : ℕ → Bool) : ℕ → Vol → List UInt8 → List UInt8 → Prop
  | depth, v, path, data =>
    let (dir, fname) := split_path path
    match find_entry_slot v (resolve_dir v dir) fname with
    | some item => isDirectory item.entry = false → roomFor v item data
    | none =>
      match depth with
      | 0 => True
      | depth + 1 => WriteRoom mem depth (create_file mem v path 0).2 path data

instance decidableWriteRoom (mem : ℕ → Bool) : ∀ depth v path data, Decidable (WriteRoom mem depth v path data)
  | 0, v, path, data =>
    match h : find_entry_slot v (resolve_dir v (split_path path).1) (split_path path).2 with
    | some item => decidable_of_iff (isDirectory item.entry = false → roomFor v item data) (by simp [WriteRoom, h])
    | none => isTrue (by simp [WriteRoom, h])
  | depth + 1, v, path, data =>
    match h : find_entry_slot v (resolve_dir v (split_path path).1) (split_path path).2 with
    | some item => decidable_of_iff (isDirectory item.entry = false → roomFor v item data) (by simp [WriteRoom, h])
    | none =>
      have := decidableWriteRoom mem depth (create_file mem v path 0).2 path data
      decidable_of_iff (WriteRoom mem depth (create_file mem v path 0).2 path data) (by simp [WriteRoom, h])

/-- What the path leads to is not a dot entry. -/
def NotDot (v : Vol) (path : List UInt8) : Prop :=
  ∀ item, find_entry_slot v (resolve_dir v (split_path path).1) (split_path path).2 = some item →
    item.slot.1 ≠ none → ¬ isDotName (shortName item.entry)
deriving Decidable

/-- `fat16_cp` has room for the data when it comes to write them. -/
def CpRoom (mem : ℕ → Bool) (buf : Option Bytes) (depth : ℕ) (v : Vol) (src dst : List UInt8) : Prop :=
  ∀ b item, buf = some b → find_file_path v src = some item →
    WriteRoom mem depth v (cpTarget v src dst) (cpBuffer v src (fileSize item.entry) b)

/-- A write has room for its data, and a removal does not name the entry of a directory for itself or its parent. -/
def Careful (v : Vol) : Op → Prop
  | .write mem depth path data => WriteRoom mem depth v path data
  | .rm path | .rmdir path => NotDot v path
  | .cp mem buf depth src dst => CpRoom mem buf depth v src dst
  | .mv mem buf depth src dst =>
    CpRoom mem buf depth v src (mvTarget v src dst) ∧
      NotDot (cp mem buf depth v src (mvTarget v src dst)).2 src
  | _ => True

end Orion.Fat16
