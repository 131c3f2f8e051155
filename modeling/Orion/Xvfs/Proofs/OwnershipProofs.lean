import Orion.Xvfs.Proofs.ChangeProofs
import Orion.Xvfs.Proofs.FormatProofs

/-!
# Every block has one owner

From a formatted volume on, operations that fit keep the ownership of blocks. Data of more than one block
breaks it, because one block is allocated whatever the size.
-/

namespace Orion.Xvfs

open Lib Vol

variable {v : Vol} {d : UInt32} {path : Path} {data : Bytes} {size : UInt32}

section Format

variable {dev : Device} {base_lba total_sectors : UInt32}

theorem reach_of_empty_root (hempty : ∀ j, view v 10 j = none) (hd : Dir v d) : d = 10 := by
  induction hd with
  | root => rfl
  | sub _ hn _ ih =>
    rw [ih, hempty] at hn
    cases hn

theorem formatted_inv (ho : OnDevice dev base_lba total_sectors) (stack : Bytes) :
    ∃ v, formatted dev base_lba total_sectors stack = some v ∧ Inv v := by
  have hsec : (xvfs_format_at dev base_lba total_sectors stack).2.sectors = dev.sectors := format_sectors ho.ne_zero stack
  have hroot : (xvfs_format_at dev base_lba total_sectors stack).2.read (base_lba + 10) stack = _ :=
    format_root ho.ne_zero stack stack (ho.inRange (by decide))
  obtain ⟨v, hv⟩ : ∃ v : Vol, v =
    ⟨(xvfs_format_at dev base_lba total_sectors stack).2, base_lba, formatSuper total_sectors, 10, stack⟩ := ⟨_, rfl⟩
  refine ⟨v, ?_, ?_⟩
  · rw [hv]
    exact ho.formatted_eq stack
  have hgeom : Geometry v := by
    rw [hv]
    exact ⟨rfl, rfl, rfl, rfl, ho.root, ho.no_wrap, hsec ▸ ho.fits⟩
  have hempty : ∀ j, view v 10 j = none := by
    intro j
    by_cases hj : j < XVFS_MAX_FILES
    · rw [view_eq hj]
      have hblock : v.read_block 10 = stack.splice 0 500 fun _ => 0 := by
        rw [hv]
        exact hroot
      unfold nodeOf
      rw [hblock, entryAt_zeros hj]
      simp
    · exact if_neg hj
  have hnone : ∀ {d i n}, Dir v d → view v d i ≠ some n := by
    intro d i n hd hn
    rw [reach_of_empty_root hempty hd, hempty] at hn
    cases hn
  have hused : used v 10 = true := by
    rw [fresh_used ho stack hv (by decide)]
    rfl
  refine ⟨hgeom, ⟨by simp, fun hd hn => absurd hn (hnone hd), fun hd hn => absurd hn (hnone hd)⟩,
    fun hd hn => absurd hn (hnone hd), hused, ⟨?_, fun hd hn => absurd hn (hnone hd)⟩,
    fun hd hn => absurd hn (hnone hd)⟩
  rintro b ⟨j, hj, hlink, -⟩
  unfold dotLink at hlink
  rw [hgeom.root] at hlink
  simp at hlink

end Format

theorem Inv.blocksOwned (hi : Inv v) : BlocksOwned v := by
  have hroot := hi.geom.root
  refine ⟨?_, ?_⟩
  · intro d i n hd hn b hb
    rw [hroot] at hd
    obtain ⟨c, hc, hgood⟩ := hi.single hd hn
    rw [hc] at hb
    obtain rfl := List.mem_singleton.mp hb
    rw [hi.geom.data_start, UInt32.le_iff_toNat_le, UInt32.lt_iff_toNat_lt]
    exact ⟨hgood.low.le, hgood.high, hgood.used⟩
  · intro d i n d' i' n' hd hn hd' hn' hne
    rw [hroot] at hd hd'
    exact (hi.owned.separate hd hn).others hd' hn' hne.symm

/-- Paths lead to directories of the tree, on used blocks, or nowhere; links lead to the directory or to its parent. -/
structure TreeSound (v : Vol) : Prop where
  paths : ∀ {path want_dir d name}, xvfs_resolve_path v path want_dir = some (d, name) → d ≠ 0 →
    Reach (view v) v.root d ∧ d < v.sb.total_blocks ∧ used v d = true
  links : ∀ {p i n c}, Reach (view v) v.root p → view v p i = some n → n.sub = some c →
    c ≠ v.root ∧ HasLink v c dotName ∧ HasLink v c dotdotName ∧ ∀ b, up v c b → b = c ∨ b = p

theorem Inv.treeSound (hi : Inv v) : TreeSound v := by
  refine ⟨?_, ?_⟩ <;> rw [hi.geom.root]
  · intro path want_dir d name hres hd
    have hdir : Dir v d := (resolve_spec hi hres).1.resolve_left hd
    obtain ⟨-, hblock, -, hused⟩ := hi.reach_bounds hdir
    exact ⟨hdir, UInt32.lt_iff_toNat_lt.mpr hblock, hused⟩
  · intro p i n c hp hn hc
    obtain ⟨hdot, hdotdot⟩ := hi.dots hp hn hc
    refine ⟨?_, hdot, hdotdot, fun b hb => hi.links.2 hp hn hc hb⟩
    rintro rfl
    exact (hi.owned.separate hp hn).root hi.owned.root_mem (hi.owned.head hp hn hc)

theorem inv_step (hi : Inv v) {op : Op} (hfits : Fits v op) : ∃ r, step v op = some r ∧ Inv r.2 := by
  obtain ⟨r, hr, hchange⟩ := step_change hi hfits
  exact ⟨r, hr, hchange.inv hi⟩

section Run

variable (dev : Device) (base_lba total_sectors : UInt32) (stack : Bytes)
  (ho : OnDevice dev base_lba total_sectors) (ops : List Op)
  (hfits : EachStep next (fun v op => ∀ u ∈ v, Fits u op) (formatted dev base_lba total_sectors stack) ops)

include ho hfits

theorem inv_throughout :
    Throughout next (fun v => ∃ u ∈ v, Inv u) (formatted dev base_lba total_sectors stack) ops := by
  obtain ⟨v, hv, hi⟩ := formatted_inv ho stack
  refine throughout_of_inv (J := fun v _ => ∃ u ∈ v, Inv u) ?_ (fun _ _ h => h) ⟨v, hv, hi⟩ hfits
  rintro w op ops ⟨u, rfl, hu⟩ hop
  obtain ⟨r, hr, hinv⟩ := inv_step hu (hop u rfl)
  refine ⟨r.2, ?_, hinv⟩
  unfold next
  rw [Option.bind_some, hr]
  rfl

/-- In a run whose operations all fit, no block belongs to two files or directories, and every one in use is marked. -/
theorem blocks_owned_throughout :
    Throughout next (fun v => ∃ u ∈ v, BlocksOwned u) (formatted dev base_lba total_sectors stack) ops := by
  refine (inv_throughout dev base_lba total_sectors stack ho ops hfits).mono ?_
  rintro w ⟨u, hw, hu⟩
  exact ⟨u, hw, hu.blocksOwned⟩

/-- In such a run paths lead into the tree, and dot entries lead to the directory or to its parent. -/
theorem tree_sound_throughout :
    Throughout next (fun v => ∃ u ∈ v, TreeSound u) (formatted dev base_lba total_sectors stack) ops := by
  refine (inv_throughout dev base_lba total_sectors stack ho ops hfits).mono ?_
  rintro w ⟨u, hw, hu⟩
  exact ⟨u, hw, hu.treeSound⟩

end Run

def smallDevice : Device := ⟨64, fun _ _ => 0⟩

def smallVolume : Option Vol := formatted smallDevice 0 64 fun _ => 0

/-- A file is made in the root, a directory beside it, a file in that directory, and the first one is removed. -/
def smallOps : List Op :=
  [.createFile [slash, 0x61] (fun k => UInt8.ofNat k) 3, .mkdir [0x64],
    .writeFile [slash, 0x64, slash, 0x62] (fun _ => 7) 100, .rm [slash, 0x61]]

theorem blocks_owned_small : Throughout next (fun v => ∃ u ∈ v, BlocksOwned u) smallVolume smallOps :=
  blocks_owned_throughout smallDevice 0 64 (fun _ => 0) ⟨by decide, by decide, by decide⟩ smallOps (by decide +kernel)

theorem tree_sound_small : Throughout next (fun v => ∃ u ∈ v, TreeSound u) smallVolume smallOps :=
  tree_sound_throughout smallDevice 0 64 (fun _ => 0) ⟨by decide, by decide, by decide⟩ smallOps (by decide +kernel)

/-- A file of two blocks "/a" and one of one byte "/b". -/
def sharingOps : List Op :=
  [.createFile [slash, 0x61] (fun _ => 1) 1024, .createFile [slash, 0x62] (fun _ => 2) 1]

/-- A file of two blocks takes one, and the next file gets the other. -/
theorem large_file_shares_block : ¬Throughout next (fun v => ∃ u ∈ v, BlocksOwned u) smallVolume sharingOps := by
  intro h
  obtain ⟨u, hu, howned⟩ := throughout_iff_prefix.mp h sharingOps List.prefix_rfl
  have hentries : ∀ u ∈ exec next smallVolume sharingOps, u.root = 10 ∧ (view u 10 0).map Node.owned = some [11, 12] ∧
        (view u 10 1).map Node.owned = some [12] := by
    decide +kernel
  obtain ⟨hroot, hfirst, hsecond⟩ := hentries u hu
  obtain ⟨n, hn, hblocks⟩ := Option.map_eq_some_iff.mp hfirst
  obtain ⟨n', hn', hblocks'⟩ := Option.map_eq_some_iff.mp hsecond
  have hreach : Reach (view u) u.root 10 := hroot ▸ .root
  have hdisj := howned.disjoint hreach hn hreach hn' (by decide)
  rw [hblocks, hblocks'] at hdisj
  exact hdisj (a := 12) (by decide) (by decide)

end Orion.Xvfs
