import Mathlib.Data.Finset.Card
import Orion.Xvfs.Run

/-!
# The count of free blocks

The driver counts the free blocks in its copy of the superblock. `xvfs_mark_block` keeps the count beside the bitmap;
the superblock on the disk is written by `xvfs_format_at` only, and a mount reads it back.
-/

namespace Orion.Xvfs

open Lib Vol

/-- The data blocks that the bitmap calls free. -/
def clearBlocks (v : Vol) : ℕ :=
  ((Finset.range v.sb.total_blocks.toNat).filter fun b =>
    v.sb.data_start.toNat ≤ b ∧ used v (UInt32.ofNat b) = false).card

/-- The count in the superblock on the disk. -/
def diskFree (v : Vol) : UInt32 := (decodeSuper (v.read_block 1)).free_blocks

/-- The count in memory is right. -/
def Counted (v : Vol) : Prop := v.sb.free_blocks.toNat = clearBlocks v

/-- The count on the disk is right. -/
def CountedOnDisk (v : Vol) : Prop := (diskFree v).toNat = clearBlocks v

/-- The root directory has no entries. -/
def Emptied (v : Vol) : Prop := ∀ i, view v v.root i = none

/-! ## Runs with remounts -/

/-- An operation, or mounting again. -/
inductive Action where
  | op (op : Op)
  | remount

/-- The volume after an action. -/
def act (s : Option Vol) : Action → Option Vol
  | .op op => next s op
  | .remount => s.bind fun v => xvfs_init v.dev v.xvfs_base_lba v.stack

def FitsAction (s : Option Vol) : Action → Prop
  | .op op => ∀ u ∈ s, Fits u op
  | .remount => True

instance (s : Option Vol) (a : Action) : Decidable (FitsAction s a) := by
  cases a <;> unfold FitsAction <;> infer_instance

/-- The volume is mounted again only when it is empty. -/
def CleanRemount (s : Option Vol) : Action → Prop
  | .op _ => True
  | .remount => ∀ u ∈ s, clearBlocks u = u.sb.total_blocks.toNat - 11

instance (s : Option Vol) (a : Action) : Decidable (CleanRemount s a) := by
  cases a <;> unfold CleanRemount <;> infer_instance

/-! ## Operations that take no block -/

/-- The action takes no block. -/
def TakesNone (s : Option Vol) : Action → Prop
  | .op op => ∀ u ∈ s, takesBlock u op = false
  | .remount => True

instance (s : Option Vol) (a : Action) : Decidable (TakesNone s a) := by
  cases a <;> unfold TakesNone <;> infer_instance

/-! ## Operations that lose a block -/

/-- The file that `xvfs_rm` removes, if the path names one. -/
def rmTarget (v : Vol) (path : Path) : Option FileEntry := do
  let (dir_block, name) ← xvfs_resolve_path v path false
  let buf := v.read_block dir_block
  (findSlot buf fun e => e.live && (e.named name && !e.isDir)).map (entryAt buf)

/-- No file of the directory has the name of a link; `xvfs_rmdir` would not see it. -/
def NoDotFiles (buf : Bytes) : Prop :=
  findSlot buf (fun e => e.live && !e.isDir && (e.named dotName || e.named dotdotName)) = none
deriving Decidable

/-- A new entry is not taken for an unused one and takes no slot of a live entry, a file that is removed is not empty,
and a directory that is removed has no files. -/
def Reclaims (v : Vol) : Op → Prop
  | .createFile path _ _ => NamesFile v path
  | .writeFile path _ _ => writeTarget v path = none → NamesFile v path
  | .rm path => ∀ e ∈ rmTarget v path, e.size ≠ 0
  | .mkdir name => (newEntry name 0 0 1).live = true
  | .mkdirPath path =>
    ∀ t ∈ xvfs_resolve_path v (trimSlashes ((cstr path).take 255)) false, (newEntry t.2 0 0 1).live = true
  | .rmdir path => ∀ t ∈ rmdirTarget v path, NoDotFiles (v.read_block t.2.start)

instance (v : Vol) : (op : Op) → Decidable (Reclaims v op)
  | .createFile .. | .writeFile .. | .rm _ | .mkdir _ | .mkdirPath _ | .rmdir _ => by unfold Reclaims; infer_instance

def ReclaimsAction (s : Option Vol) : Action → Prop
  | .op op => ∀ u ∈ s, Reclaims u op
  | .remount => True

instance (s : Option Vol) (a : Action) : Decidable (ReclaimsAction s a) := by
  cases a <;> unfold ReclaimsAction <;> infer_instance

end Orion.Xvfs
