import Orion.Lib.Forest
import Orion.Lib.Runs
import Orion.Xvfs.Files

/-!
# Runs of XVFS and the ownership of blocks

The directories of a volume form a forest whose nodes own the blocks of their files. The entries "." and
".." of a directory that is not the root are links and own nothing.
-/

namespace Orion.Xvfs

open Lib Vol

def Vol.root (v : Vol) : UInt32 := v.sb.data_start

/-- The number of blocks, at least one. -/
def FileEntry.blockCount (e : FileEntry) : Nat := max 1 ((e.size.toNat + 511) / 512)

def FileEntry.blocks (e : FileEntry) : List UInt32 :=
  (List.range e.blockCount).map fun k => e.start + UInt32.ofNat k

/-- The links of the directory `d` to itself and to its parent. -/
def dotLink (v : Vol) (d : UInt32) (e : FileEntry) : Bool :=
  d ≠ v.root && e.live && e.isDir && (e.named dotName || e.named dotdotName)

/-- The node that an entry of the directory `d` is. -/
def nodeOf (v : Vol) (d : UInt32) (e : FileEntry) : Option (Node UInt32) :=
  if e.live && !dotLink v d e then some ⟨if e.isDir then some e.start else none, e.blocks⟩ else none

/-- The volume as a forest of directories. -/
def view (v : Vol) : View UInt32 Nat := fun d i =>
  if i < XVFS_MAX_FILES then nodeOf v d (entryAt (v.read_block d) i) else none

/-- The bitmap says that the block is in use. -/
def used (v : Vol) (block : UInt32) : Bool :=
  (v.read_block (bitmapBlock v block)) (byteIndex block) &&& bitMask block ≠ 0

/-- The blocks of every live entry lie in the data region and are marked, and no two live entries share
a block. -/
structure BlocksOwned (v : Vol) : Prop where
  inside : ∀ {d i n}, Reach (view v) v.root d → view v d i = some n →
    ∀ b ∈ n.owned, v.sb.data_start ≤ b ∧ b < v.sb.total_blocks ∧ used v b = true
  disjoint : ∀ {d i n d' i' n'}, Reach (view v) v.root d → view v d i = some n →
    Reach (view v) v.root d' → view v d' i' = some n' → (d, i) ≠ (d', i') →
      n.owned.Disjoint n'.owned

/-! ## Operations -/

/-- An operation of the driver that changes the volume. -/
inductive Op where
  | createFile (path : Path) (data : Bytes) (size : UInt32)
  | writeFile (path : Path) (data : Bytes) (size : UInt32)
  | rm (path : Path)
  | mkdir (name : Path)
  | mkdirPath (path : Path)
  | rmdir (path : Path)

/-- What an operation reports and the volume after it; `none` when it overruns a buffer. -/
def step (v : Vol) : Op → Option (Bool × Vol)
  | .createFile path data size => xvfs_create_file v path data size
  | .writeFile path data size => xvfs_write_file v path data size
  | .rm path => xvfs_rm v path
  | .mkdir name => some (xvfs_mkdir v name)
  | .mkdirPath path => xvfs_mkdir_path v path
  | .rmdir path => xvfs_rmdir v path

/-- One operation, if the state before it is there. -/
def next (v : Option Vol) (op : Op) : Option Vol := v.bind fun v => (step v op).map Prod.snd

/-- A volume of `total_sectors` sectors that `xvfs_format_at` has made and `xvfs_init` has mounted. -/
def formatted (dev : Device) (base_lba total_sectors : UInt32) (stack : Bytes) : Option Vol :=
  xvfs_init (xvfs_format_at dev base_lba total_sectors stack).2 base_lba stack

/-! ## The condition on single operations -/

def bitmapBits : UInt32 := 32768

/-- The next block that is handed out lies on the volume, and its bit in the bitmap. -/
def AllocFits (v : Vol) : Prop :=
  let b := (xvfs_find_free_block v).1
  b < v.sb.total_blocks ∧ b < bitmapBits
deriving Decidable

/-- The entry that `xvfs_write_file` overwrites, if the path names one. -/
def writeTarget (v : Vol) (path : Path) : Option FileEntry := do
  let (dir_block, name) ← xvfs_resolve_path v path false
  let buf := v.read_block dir_block
  (findSlot buf fun e => e.live && e.named name).map (entryAt buf)

/-- The directory and the entry that `xvfs_rmdir` removes, if the path names one. -/
def rmdirTarget (v : Vol) (path : Path) : Option (UInt32 × FileEntry) := do
  let (dir_block, name) ← xvfs_resolve_path v path false
  let buf := v.read_block dir_block
  (findSlot buf fun e => e.live && (e.named name && e.isDir)).map fun i => (dir_block, entryAt buf i)

/-- `xvfs_find_free_block` finds a block. -/
def hasFree (v : Vol) : Bool := (xvfs_find_free_block v).1 ≠ 0

/-- A new file gets a slot and a block. -/
def createTakes (v : Vol) (path : Path) : Bool :=
  match xvfs_resolve_path v path false with
  | none => false
  | some (d, _) =>
    d ≠ 0 && (findSlot (v.read_block d) fun e => e.first = 0 || e.first = 0xFF).isSome && hasFree v

/-- A new directory in `d` gets a slot and a block. -/
def dirTakes (v : Vol) (d : UInt32) (name : Path) : Bool :=
  cstr name ≠ [] && v.readable d && (findSlot (v.read_block d) fun e => e.live && e.named name).isNone &&
    (findSlot (v.read_block d) fun e => e.first = 0 || e.first = 0xE5).isSome && hasFree v

/-- The operation allocates a block. -/
def takesBlock (v : Vol) : Op → Bool
  | .createFile path _ _ => createTakes v path
  | .writeFile path _ _ => (writeTarget v path).isNone && createTakes v path
  | .rm _ => false
  | .mkdir name => dirTakes v v.current_dir_block name
  | .mkdirPath path =>
    let trimmed := trimSlashes ((cstr path).take 255)
    match xvfs_resolve_path v trimmed false with
    | none => false
    | some (parent_block, name) =>
      trimmed ≠ [] && parent_block ≠ 0 && name ≠ [] && dirTakes v parent_block name
  | .rmdir _ => false

/-- Data of at most one block, no write over a directory, no removal of the links "." and "..", no path component that
overruns its buffer, and allocations inside the volume and its bitmap. Sizes and allocations matter only to a call that
comes to them. -/
def Fits (v : Vol) : Op → Prop
  | .createFile path _ size =>
    (xvfs_resolve_path v path false).isSome ∧ (createTakes v path = true → size ≤ 512 ∧ AllocFits v)
  | .writeFile path _ size =>
    (xvfs_resolve_path v path false).isSome ∧ (∀ e ∈ writeTarget v path, size ≤ 512 ∧ e.isDir = false) ∧
      (writeTarget v path = none → createTakes v path = true → size ≤ 512 ∧ AllocFits v)
  | .rm path => (xvfs_resolve_path v path false).isSome
  | .mkdir name => dirTakes v v.current_dir_block name = true → AllocFits v
  | .mkdirPath path =>
    (xvfs_resolve_path v (trimSlashes ((cstr path).take 255)) false).isSome ∧
      (takesBlock v (.mkdirPath path) = true → AllocFits v)
  | .rmdir path =>
    (xvfs_resolve_path v path false).isSome ∧
      ∀ t ∈ rmdirTarget v path, dotLink v t.1 t.2 = false

instance (v : Vol) (op : Op) : Decidable (Fits v op) := by
  cases op <;> unfold Fits <;> infer_instance

/-! ## One write -/

/-- Neither the name nor the entry whose slot a new file would get is one that the driver takes for an unused entry. -/
def NamesFile (v : Vol) (path : Path) : Prop :=
  ∀ t ∈ xvfs_resolve_path v path false, (newEntry t.2 0 0 0).live = true ∧
    ∀ i ∈ findSlot (v.read_block t.1) fun e => e.first = 0 || e.first = 0xFF,
      (entryAt (v.read_block t.1) i).live = false
deriving Decidable

/-- The data written to a path is read from it, every path to another file leads to the same entry and content, and the
other directories are unchanged. -/
structure WritesOnly (v v' : Vol) (path : Path) (data : Bytes) (size : UInt32) : Prop where
  read_back : ∃ e, xvfs_find_file v' path = some (some e) ∧ e.size = size ∧
    ∀ n ≥ size, xvfs_read_file v' e 0 n = some (data.slice 0 size.toNat)
  others : ∀ q, xvfs_resolve_path v q false ≠ xvfs_resolve_path v path false →
    xvfs_find_file v' q = xvfs_find_file v q ∧
      ∀ e, xvfs_find_file v q = some (some e) → ∀ offset n : UInt32, offset.toNat + n.toNat < 2 ^ 32 →
        xvfs_read_file v' e offset n = xvfs_read_file v e offset n
  dirs : ∀ d, Reach (view v) v.root d → (∀ name, xvfs_resolve_path v path false ≠ some (d, name)) →
    v'.read_block d = v.read_block d

/-! ## Formatted volumes -/

/-- The superblock, the bitmap, the root directory and the blocks for data: first block and length. -/
def Vol.regions (v : Vol) : List (ℕ × ℕ) :=
  [(1, 1), (v.sb.bitmap_start.toNat, v.sb.data_start.toNat - v.sb.bitmap_start.toNat), (v.sb.root_dir_block.toNat, 1),
    (v.sb.root_dir_block.toNat + 1, v.sb.total_blocks.toNat - (v.sb.root_dir_block.toNat + 1))]

/-- The block is one for files and directories. -/
def Vol.IsData (v : Vol) (b : UInt32) : Prop := v.sb.root_dir_block < b ∧ b < v.sb.total_blocks

/-- A new volume is sound. -/
structure SoundVolume (v : Vol) : Prop where
  laidOut : LaidOut 0 v.sb.total_blocks.toNat v.regions
  covers : v.sb.total_blocks.toNat ≤ (v.sb.data_start.toNat - v.sb.bitmap_start.toNat) * 4096
  marked : ∀ b < v.sb.total_blocks, used v b = true ↔ b ≤ v.sb.root_dir_block
  findFree : (∃ b, v.IsData b) → v.IsData (xvfs_find_free_block v).1

/-- The sizes that one bitmap of 8 blocks covers. -/
def SizeFits (total_sectors : UInt32) : Prop := 11 ≤ total_sectors.toNat ∧ total_sectors.toNat ≤ 32768
deriving Decidable

end Orion.Xvfs
