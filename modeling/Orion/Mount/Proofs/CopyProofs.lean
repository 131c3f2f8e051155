import Orion.Mount.Proofs.MountProofs

/-!
# Copies keep what their mounts keep

A predicate that the mounts of the two disks and the operations on files keep is therefore kept by every copy, however
the directories nest.
-/

namespace Orion.Mount

open Lib Sys
open Option (some.inj)

variable {W : Type} (ops : FileOps W) {J : Sys W → Prop} {s : Sys W} {f : Fs} {disk : Int} {r : Route}

/-- `fsbg_mount_disk` keeps the property. -/
def MountKeeps (J : Sys W → Prop) (f : Fs) (disk : Int) : Prop := ∀ s, J s → J (fsbg_mount_disk s f disk).2

/-- The property is kept by all that a copy along the route does. -/
structure Kept (J : Sys W → Prop) (r : Route) : Prop where
  world : ∀ s w, J s → J (s.setWorld w)
  src : MountKeeps J r.src r.src_disk
  dst : MountKeeps J r.dst r.dst_disk

theorem keeps_replaceFile (hworld : ∀ s w, J s → J (s.setWorld w)) (h : J s) (path : Path)
    (buf : List UInt8) (size : UInt32) : J (replaceFile ops s f path buf size).2 := by
  unfold replaceFile callCreate callRemove
  dsimp only
  split
  · exact hworld _ _ (hworld _ _ h)
  · exact hworld _ _ h

theorem keeps_mountIf (hmount : MountKeeps J f disk) (h : J s) :
    J (if disk ≥ 0 then fsbg_mount_disk s f disk else (true, s)).2 := by
  split
  · exact hmount s h
  · exact h

theorem keeps_is_dir (hmount : MountKeeps J f disk) (h : J s) (path : Path) :
    J (fsbg_is_dir_by_fs ops s f disk path).2 := by
  have hm := keeps_mountIf hmount h
  unfold fsbg_is_dir_by_fs
  generalize (if disk ≥ 0 then fsbg_mount_disk s f disk else (true, s)) = m at hm ⊢
  dsimp only
  split
  · exact hm
  · split
    · exact hm
    · exact hm

theorem keeps_mkdir (hworld : ∀ s w, J s → J (s.setWorld w)) (hmount : MountKeeps J f disk) (h : J s)
    (path : Path) : J (fsbg_mkdir_by_fs ops s f disk path).2 := by
  have hm := keeps_mountIf hmount h
  unfold fsbg_mkdir_by_fs
  generalize (if disk ≥ 0 then fsbg_mount_disk s f disk else (true, s)) = m at hm ⊢
  dsimp only
  split
  · exact hm
  · exact hworld _ _ hm

theorem keeps_rmdir (hworld : ∀ s w, J s → J (s.setWorld w)) (hmount : MountKeeps J f disk) (h : J s)
    (path : Path) : J (fsbg_rmdir_by_fs ops s f disk path).2 := by
  have hm := keeps_mountIf hmount h
  unfold fsbg_rmdir_by_fs
  generalize (if disk ≥ 0 then fsbg_mount_disk s f disk else (true, s)) = m at hm ⊢
  split
  · exact h
  dsimp only
  split
  · exact hm
  · exact hworld _ _ hm

theorem keeps_list_dir (hmount : MountKeeps J f disk) (h : J s) (path : Path) :
    J (fsbg_list_dir_entries ops s f disk path).2 := by
  have hm := keeps_mountIf hmount h
  unfold fsbg_list_dir_entries
  generalize (if disk ≥ 0 then fsbg_mount_disk s f disk else (true, s)) = m at hm ⊢
  dsimp only
  split
  · exact hm
  · exact hm

section Route

variable (hk : Kept J r) {src_dir dst_dir : Path} {res : Bool × Sys W}
include hk

theorem keeps_copyTo (h : J s) (name : Path) (buf : List UInt8) (size : UInt32) :
    J (copyTo ops s r.dst r.dst_disk name buf size).2 := by
  have hm := hk.dst s h
  unfold copyTo
  generalize fsbg_mount_disk s r.dst r.dst_disk = m at hm ⊢
  dsimp only
  split
  · exact hm
  · exact keeps_replaceFile ops hk.world hm name buf size

theorem keeps_copy_file_disk (h : J s) (src_name dst_name : Path) :
    J (fsbg_copy_file_disk ops s r.src r.dst r.src_disk r.dst_disk src_name dst_name).2 := by
  have hm := hk.src s h
  unfold fsbg_copy_file_disk
  generalize fsbg_mount_disk s r.src r.src_disk = m at hm ⊢
  dsimp only
  split
  · exact hm
  split
  · exact hm
  split
  · exact keeps_copyTo ops hk hm dst_name [0] 0
  split
  · exact hm
  split
  · exact hm
  · exact keeps_copyTo ops hk hm dst_name _ _

theorem keeps_enterDir (h : J s) (dst_dir : Path) : J (enterDir ops s r dst_dir).2 := by
  have hm := hk.dst s h
  unfold enterDir
  generalize fsbg_mount_disk s r.dst r.dst_disk = m at hm ⊢
  split
  · exact h
  dsimp only
  split
  · exact hm
  split
  · exact keeps_is_dir ops hk.dst hm dst_dir
  · exact keeps_mkdir ops hk.world hk.dst hm dst_dir

theorem keeps_copyChild (h : J s) (src_child dst_child : Path) : J (copyChild ops s r src_child dst_child).2 := by
  have hc := keeps_copy_file_disk ops hk h src_child dst_child
  unfold copyChild
  generalize fsbg_copy_file_disk ops s r.src r.dst r.src_disk r.dst_disk src_child dst_child = c at hc ⊢
  dsimp only
  split
  · exact hc
  split
  · have hm := hk.src c.2 hc
    generalize fsbg_mount_disk c.2 r.src r.src_disk = m at hm ⊢
    split
    · exact hm
    · exact hk.world _ _ hm
  · exact hc

/-- The loop over the entries, by induction on them; `copyDir` is the copy of a directory one level down. -/
theorem keeps_copyEntries {copyDir : Sys W → Path → Path → Option (Bool × Sys W)}
    (hdir : ∀ s src_dir dst_dir, J s → ∀ res ∈ copyDir s src_dir dst_dir, J res.2)
    {entries : List (Path × Bool)} (h : J s)
    (hres : copyEntries ops copyDir r src_dir dst_dir s entries = some res) : J res.2 := by
  induction entries generalizing s with
  | nil =>
    obtain rfl := some.inj hres
    exact h
  | cons entry rest ih =>
    obtain ⟨name, is_dir⟩ := entry
    unfold copyEntries at hres
    split at hres
    · rename_i src_child dst_child _ _
      split at hres
      · cases hres
      rename_i ok t hone
      have ht : J t := by
        split at hone
        · exact hdir s src_child dst_child h (ok, t) hone
        · have hc := keeps_copyChild ops hk h src_child dst_child
          rw [some.inj hone] at hc
          exact hc
      split at hres
      · obtain rfl := some.inj hres
        exact ht
      · exact ih ht hres
    · obtain rfl := some.inj hres
      exact h

theorem keeps_copy_dir {depth : Nat} (h : J s)
    (hres : fsbg_copy_dir_recursive ops r depth s src_dir dst_dir = some res) : J res.2 := by
  induction depth generalizing s src_dir dst_dir res with
  | zero => cases hres
  | succ depth ih =>
    have he := keeps_enterDir ops hk h dst_dir
    unfold fsbg_copy_dir_recursive at hres
    generalize enterDir ops s r dst_dir = e at he hres
    dsimp only at hres
    split at hres
    · obtain rfl := some.inj hres
      exact he
    have hl := keeps_list_dir ops hk.src he src_dir
    split at hres
    · rename_i t hlist
      obtain rfl := some.inj hres
      rw [hlist] at hl
      exact hl
    · rename_i entries t hlist
      rw [hlist] at hl
      split at hres
      · cases hres
      rename_i ok u hentries
      have hu : J u := keeps_copyEntries ops hk (fun _ _ _ h _ hres => ih h hres) hl hentries
      split at hres
      · obtain rfl := some.inj hres
        exact keeps_rmdir ops hk.world hk.src hu src_dir
      · obtain rfl := some.inj hres
        exact hu

end Route

end Orion.Mount
