import Orion.Mount.Proofs.CopyProofs

/-!
# Runs of commands keep the drivers matched

A copy between two disks mounts each of them any number of times. These mounts change no disk and no selection, so that
its condition holds at each of them: `Sides` is the invariant together with the condition on both disks.
-/

namespace Orion.Mount

open Lib Sys
open Option (some.inj isSome_map)

variable {W : Type} (ops : FileOps W) (depth : Nat) {s t : Sys W} {res : Bool × Sys W} {src dst : Fs}
  {f g : Fs} {a b d : Disk}

/-- What mounts leave as it is: the disks and the selection. -/
structure SameDisks (s t : Sys W) : Prop where
  disks : t.disks = s.disks
  boot : t.boot = s.boot
  current_fs : t.current_fs = s.current_fs
  current_drive : t.current_drive = s.current_drive

theorem MountFits.congr (h : MountFits s f d) (hsame : SameDisks s t) : MountFits t f d := by
  unfold MountFits SelectedOnly Known Damaged
  rw [hsame.disks, hsame.boot, hsame.current_fs, hsame.current_drive]
  exact h

theorem sameDisks_mountPresent (s : Sys W) (f : Fs) (d : Disk) : SameDisks s (mountPresent s f d).2 := by
  unfold mountPresent
  dsimp only
  split
  · exact ⟨rfl, rfl, rfl, rfl⟩
  split
  · exact ⟨rfl, rfl, rfl, rfl⟩
  · exact ⟨rfl, rfl, rfl, rfl⟩

/-- What auto-mounts leave as it is; a driver that is not ready after them was not ready before. -/
structure SameRecords (s t : Sys W) : Prop extends SameDisks s t where
  mounted : t.mounted = s.mounted
  ready : ∀ g, t.ready g = false → s.ready g = false

theorem SameRecords.refl (s : Sys W) : SameRecords s s := ⟨⟨rfl, rfl, rfl, rfl⟩, rfl, fun _ hg => hg⟩

theorem sameRecords_autoMountTurn (f : Fs) (s : Sys W) (i : Disk) : SameRecords s (autoMountTurn f s i) := by
  unfold autoMountTurn
  dsimp only
  split
  · split
    · refine ⟨⟨rfl, rfl, rfl, rfl⟩, rfl, fun g hg => ?_⟩
      have hg : Function.update s.ready f true g = false := hg
      by_cases hgf : g = f
      · rw [hgf, Function.update_self] at hg
        cases hg
      · rw [Function.update_of_ne hgf] at hg
        exact hg
    · exact ⟨⟨rfl, rfl, rfl, rfl⟩, rfl, fun _ hg => hg⟩
  · exact SameRecords.refl s

theorem sameRecords_autoMount (s : Sys W) (f : Fs) : SameRecords s (fsbg_auto_mount_if_needed s f) := by
  unfold fsbg_auto_mount_if_needed
  induction List.finRange MAX_DISKS generalizing s with
  | nil => exact SameRecords.refl s
  | cons i is ih =>
    have hturn := sameRecords_autoMountTurn f s i
    have hrest := ih (autoMountTurn f s i)
    rw [List.foldl_cons]
    exact ⟨⟨hrest.disks.trans hturn.disks, hrest.boot.trans hturn.boot, hrest.current_fs.trans hturn.current_fs,
      hrest.current_drive.trans hturn.current_drive⟩, hrest.mounted.trans hturn.mounted,
      fun g hg => hturn.ready g (hrest.ready g hg)⟩

theorem AutoFits.congr (h : AutoFits s f) (hsame : SameRecords s t) : AutoFits t f := by
  intro hready
  have hfirst := h (hsame.ready f hready)
  unfold firstDisk SelectedOnly RecordedOnly at hfirst ⊢
  rw [hsame.disks, hsame.current_fs, hsame.current_drive, hsame.mounted]
  exact hfirst

/-- The invariant after the two auto-mounts of a copy, and the conditions that a second copy or the mounts then need. -/
structure Started (src dst : Fs) (s t : Sys W) : Prop where
  inv : Inv t
  src : AutoFits t src
  dst : AutoFits t dst
  mount : ∀ f d, MountFits s f d → MountFits t f d

theorem started_copy (h : Inv s) (hsrc : AutoFits s src) (hdst : AutoFits s dst) :
    Started src dst s (fsbg_auto_mount_if_needed (fsbg_auto_mount_if_needed s src) dst) := by
  have hone := sameRecords_autoMount s src
  have htwo := sameRecords_autoMount (fsbg_auto_mount_if_needed s src) dst
  exact ⟨inv_autoMount (inv_autoMount h hsrc) (hdst.congr hone), (hsrc.congr hone).congr htwo,
    (hdst.congr hone).congr htwo, fun f d hfits => (hfits.congr hone.toSameDisks).congr htwo.toSameDisks⟩

/-- The invariant in the middle of a copy from disk `a` to disk `b`. -/
structure Sides (src dst : Fs) (a b : Disk) (s : Sys W) : Prop where
  inv : Inv s
  src : MountFits s src a
  dst : MountFits s dst b

theorem Sides.mountPresent (h : Sides src dst a b s) (hfits : MountFits s f d) (hpresent : (s.disks d).present = true) :
    Sides src dst a b (mountPresent s f d).2 := by
  have hsame := sameDisks_mountPresent s f d
  exact ⟨inv_mountPresent h.inv hfits hpresent, h.src.congr hsame, h.dst.congr hsame⟩

theorem sides_kept (remove_src : Bool) :
    Kept (W := W) (Sides src dst a b) ⟨src, dst, a.val, b.val, remove_src⟩ where
  world _ w h := ⟨h.inv.setWorld w, h.src, h.dst⟩
  src s h := by
    refine mount_disk_rule h fun d hd hpresent => ?_
    obtain rfl : a = d := Fin.ext (Int.ofNat.inj hd)
    exact h.mountPresent h.src hpresent
  dst s h := by
    refine mount_disk_rule h fun d hd hpresent => ?_
    obtain rfl : b = d := Fin.ext (Int.ofNat.inj hd)
    exact h.mountPresent h.dst hpresent

theorem inv_kept (src dst : Fs) (remove_src : Bool) : Kept (W := W) Inv ⟨src, dst, -1, -1, remove_src⟩ where
  world _ w h := h.setWorld w
  src _ h := mount_disk_rule h fun d hd _ => by
    have hd : (-1 : Int) = d.val := hd
    omega
  dst _ h := mount_disk_rule h fun d hd _ => by
    have hd : (-1 : Int) = d.val := hd
    omega

theorem inv_copy (h : Inv s) (hsrc : AutoFits s src) (hdst : AutoFits s dst) (src_name dst_name : Path) :
    Inv (fsbg_copy ops s src dst src_name dst_name).2 := by
  have hm := (started_copy h hsrc hdst).inv
  have hworld : ∀ (s : Sys W) w, Inv s → Inv (s.setWorld w) := fun _ w h => h.setWorld w
  unfold fsbg_copy
  generalize fsbg_auto_mount_if_needed (fsbg_auto_mount_if_needed s src) dst = m at hm ⊢
  dsimp only
  split
  · exact hm
  split
  · exact keeps_replaceFile ops hworld hm dst_name [0] 0
  split
  · exact hm
  split
  · exact hm
  · exact keeps_replaceFile ops hworld hm dst_name _ _

theorem inv_move (h : Inv s) (hsrc : AutoFits s src) (hdst : AutoFits s dst) {src_name dst_name : Path}
    (hres : fsbg_move ops depth s src dst src_name dst_name = some res) : Inv res.2 := by
  have hm := started_copy h hsrc hdst
  unfold fsbg_move at hres
  generalize fsbg_auto_mount_if_needed (fsbg_auto_mount_if_needed s src) dst = m at hm hres
  -- without a disk, `fsbg_is_dir_by_fs` leaves the state as it is
  have hdir : (fsbg_is_dir_by_fs ops m src (-1) src_name).2 = m := by
    unfold fsbg_is_dir_by_fs
    simp only [Int.reduceNeg, ge_iff_le, Int.reduceLE, if_false, Bool.not_true, Bool.false_eq_true]
    split <;> rfl
  dsimp only at hres
  rw [hdir] at hres
  split at hres
  · exact keeps_copy_dir ops (inv_kept src dst true) hm.inv hres
  have hc := inv_copy ops hm.inv hm.src hm.dst src_name dst_name
  generalize fsbg_copy ops m src dst src_name dst_name = c at hc hres
  split at hres
  · obtain rfl := some.inj hres
    exact hc
  · obtain rfl := some.inj hres
    exact hc.setWorld _

theorem inv_copyDiskTo (h : Inv s) (hauto : AutoFits s src ∧ AutoFits s dst) (ha : MountFits s src a)
    (hb : MountFits s dst b) {src_fixed dst_fixed : Path}
    (hres : copyDiskTo ops depth s src dst a b src_fixed dst_fixed = some res) : Inv res.2 := by
  have hstart := started_copy h hauto.1 hauto.2
  have hm : Sides src dst a b _ := ⟨hstart.inv, hstart.mount src a ha, hstart.mount dst b hb⟩
  have hkept : Kept (W := W) (Sides src dst a b) ⟨src, dst, a.val, b.val, false⟩ := sides_kept false
  unfold copyDiskTo at hres
  generalize fsbg_auto_mount_if_needed (fsbg_auto_mount_if_needed s src) dst = m at hm hres
  have hq := keeps_is_dir ops hkept.src hm src_fixed
  dsimp only at hq hres
  generalize fsbg_is_dir_by_fs ops m src a.val src_fixed = q at hq hres
  suffices hside : Sides src dst a b res.2 from hside.inv
  split at hres
  · split at hres
    · obtain rfl := some.inj hres
      exact hq
    · exact keeps_copy_dir ops hkept hq hres
  split at hres
  · obtain rfl := some.inj hres
    exact hq
  split at hres
  · cases hres
  split at hres
  · obtain rfl := some.inj hres
    exact hq
  · obtain rfl := some.inj hres
    exact keeps_copy_file_disk ops hkept hq src_fixed _

theorem inv_copy_disk (h : Inv s) {src_arg dst_arg : Path}
    (hfits : ∀ a ∈ splitArg src_arg, ∀ b ∈ splitArg dst_arg, ∀ src dst,
      (s.disks a.1).fs_type = .fs src → (s.disks b.1).fs_type = .fs dst →
        AutoFits s src ∧ AutoFits s dst ∧ MountFits s src a.1 ∧ MountFits s dst b.1)
    (hres : fsbg_copy_disk ops depth s src_arg dst_arg = some res) : Inv res.2 := by
  unfold fsbg_copy_disk at hres
  split at hres
  · rename_i a src_path b dst_path ha hb
    split at hres
    · rename_i src dst hsrc hdst
      obtain ⟨hauto, hauto', hmount, hmount'⟩ := hfits _ ha _ hb src dst hsrc hdst
      exact inv_copyDiskTo ops depth h ⟨hauto, hauto'⟩ hmount hmount' hres
    · obtain rfl := some.inj hres
      exact h
  · obtain rfl := some.inj hres
    exact h

theorem inv_next (h : Inv s) {op : Op} (hfits : Fits ops depth s op) : Inv (next ops depth s op) := by
  obtain ⟨hret, hfits⟩ := hfits
  unfold next
  cases op with
  | mDisk cmd => exact inv_m_disk h hfits
  | mountDisk f disk =>
    exact mount_disk_rule h fun d hd hpresent => inv_mountPresent h (hfits d hd) hpresent
  | copy src dst src_name dst_name => exact inv_copy ops h hfits.1 hfits.2 src_name dst_name
  | move src dst src_name dst_name =>
    simp only [step, isSome_map] at hret ⊢
    obtain ⟨res, hres⟩ := Option.isSome_iff_exists.mp hret
    rw [hres]
    exact inv_move ops depth h hfits.1 hfits.2 hres
  | copyDisk src_arg dst_arg =>
    simp only [step, isSome_map] at hret ⊢
    obtain ⟨res, hres⟩ := Option.isSome_iff_exists.mp hret
    rw [hres]
    exact inv_copy_disk ops depth h hfits hres

/-- In a run whose commands meet the condition, the driver of the selected file system stays on the selected disk, and
`fsbg_mount_disk` returns true only for disks its driver is on. -/
theorem drivers_match_throughout (disks : Disk → DiskInfo) (boot : Disk → Device) (drivers : Drivers)
    (world : W) (cmds : List Op)
    (hfits : EachStep (next ops depth) (Fits ops depth) (started disks boot drivers world) cmds) :
    Throughout (next ops depth) Matches (started disks boot drivers world) cmds := by
  have hstart : Inv (started disks boot drivers world) := ⟨fun f hf => (by cases hf), fun f d hd => (by cases hd), rfl⟩
  exact throughout_of_inv (J := fun s _ => Inv s) (fun s op _ h hq => inv_next ops depth h hq)
    (fun _ _ h => h.matches) hstart hfits

/-- A superblock for 64 blocks, with the bitmap in block 2 and the data from block 10 on. -/
def superSector : Bytes :=
  ((((Bytes.ofList []).put32 0 Xvfs.XVFS_MAGIC).put32 4 512).put32 8 64).put32 12 2 |>.put32 16 10

/-- The first sectors of an XVFS volume: the signature and the superblock. -/
def xvfsBoot : Device :=
  ⟨64, fun lba => if lba = 0 then Bytes.ofList Xvfs.signature else if lba = 1 then superSector else Bytes.ofList []⟩

/-- Two disks with an XVFS volume each. -/
def twoDisks (d : Disk) : DiskInfo := ⟨d.val < 2, .fs .XVFS, 0⟩

/-- Drivers whose operations on files all fail. -/
def noFiles : FileOps Unit where
  file_exists _ _ _ _ := false
  get_size _ _ _ _ := 0
  read_file _ _ _ _ _ := (-1, [])
  create _ w _ _ _ _ := (false, w)
  remove _ w _ _ := (false, w)
  is_dir _ _ _ _ := false
  mkdir _ w _ _ := (false, w)
  rmdir _ w _ _ := (false, w)
  list_dir _ _ _ _ _ := none
  kmalloc _ _ := true

def twoDisksStarted : Sys Unit := started twoDisks (fun _ => xvfsBoot) noDrivers ()

/-- "disk 0", then a copy of "0#/a" to "0#/b" and of one XVFS path to another. -/
def sameDiskCmds : List Op :=
  [.mDisk [0x30], .copyDisk [0x30, 0x23, slash, 0x61] [0x30, 0x23, slash, 0x62],
    .copy .XVFS .XVFS [slash, 0x61] [slash, 0x62], .mountDisk .XVFS 0]

/-- Copies from and to the selected disk, which is the first of its file system. -/
theorem drivers_match_sameDisk : Throughout (next noFiles 4) Matches twoDisksStarted sameDiskCmds :=
  drivers_match_throughout noFiles 4 twoDisks (fun _ => xvfsBoot) noDrivers () sameDiskCmds (by decide +kernel)

/-- With disk 0 selected, a copy from disk 1 leaves the driver on disk 1. -/
theorem copy_from_other_disk_unmatched : ¬ Throughout (next noFiles 4) Matches twoDisksStarted
      [.mDisk [0x30], .copyDisk [0x31, 0x23, slash, 0x61] [0x30, 0x23, slash]] := by
  intro h
  obtain ⟨hend, -⟩ := throughout_iff_prefix.mp h _ List.prefix_rfl
  obtain ⟨d, hd, hconf⟩ := hend .XVFS (by decide +kernel)
  revert hd hconf
  revert d
  decide +kernel

end Orion.Mount
