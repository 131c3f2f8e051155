import Orion.Xvfs.Proofs.OpProofs

/-!
# What the operations change

Every operation leaves the volume as it is, or puts one entry into one slot and changes at most one mark. `Change` lists
the kinds; what the operations keep is read off from it.
-/

namespace Orion.Xvfs

open Lib Vol

variable {v v' v1 : Vol} {b c d : UInt32} {u : Bool} {i : Nat} {path name : Path} {data : Bytes} {size : UInt32}
  {takes : Bool} {keeps : Prop}

/-- No mark is changed, and neither are the first two blocks. -/
structure Same (v v' : Vol) : Prop where
  alike : Alike v v'
  head : ∀ {c : UInt32}, c.toNat < 2 → v'.read_block c = v.read_block c
  marks : ∀ {c : UInt32}, c.toNat < 32768 → used v' c = used v c
  free : v'.sb.free_blocks = v.sb.free_blocks

/-- The mark of the block `b` is changed to `u` and counted. -/
structure Marks (v v' : Vol) (b : UInt32) (u : Bool) : Prop where
  alike : Alike v v'
  head : ∀ {c : UInt32}, c.toNat < 2 → v'.read_block c = v.read_block c
  low : 10 ≤ b.toNat
  high : b.toNat < v.sb.total_blocks.toNat
  was : used v b = !u
  marks : ∀ {c : UInt32}, c.toNat < 32768 → used v' c = if c = b then u else used v c
  free : v'.sb.free_blocks = countFree v u

theorem Same.refl (v : Vol) : Same v v := ⟨Alike.refl v, fun _ => rfl, fun _ => rfl, rfl⟩

theorem same_write (hg : Geometry v) (hb : 10 ≤ b.toNat) (buf : Bytes) : Same v (v.write_block b buf) where
  alike := alike_write_block v b buf
  head hc := read_write_of_ne (by rintro rfl; omega)
  marks hc := used_write hg hb hc
  free := rfl

theorem Same.trans (h : Same v v1) (h' : Same v1 v') : Same v v' where
  alike := h.alike.trans h'.alike
  head hc := (h'.head hc).trans (h.head hc)
  marks hc := (h'.marks hc).trans (h.marks hc)
  free := h'.free.trans h.free

theorem Marks.trans_same (h : Marks v v1 b u) (h' : Same v1 v') : Marks v v' b u where
  alike := h.alike.trans h'.alike
  head hc := (h'.head hc).trans (h.head hc)
  low := h.low
  high := h.high
  was := h.was
  marks hc := (h'.marks hc).trans (h.marks hc)
  free := h'.free.trans h.free

theorem Same.trans_marks (hbit : b.toNat < 32768) (h : Same v v1) (h' : Marks v1 v' b u) : Marks v v' b u where
  alike := h.alike.trans h'.alike
  head hc := (h'.head hc).trans (h.head hc)
  low := h'.low
  high := by
    rw [← h.alike.total]
    exact h'.high
  was := (h.marks hbit).symm.trans h'.was
  marks hc := by rw [h'.marks hc, h.marks hc]
  free := by
    rw [h'.free]
    unfold countFree
    rw [h.free]

theorem free_mark (v : Vol) (hwas : used v b = !u) : (xvfs_mark_block v b u).sb.free_blocks = countFree v u := by
  have hbit : ¬ u = decide ((v.read_block (bitmapBlock v b)) (byteIndex b) &&& bitMask b ≠ 0) := by
    intro hsame
    have hnot : u = !u := hsame.trans hwas
    cases u <;> cases hnot
  unfold xvfs_mark_block
  rw [if_neg hbit]
  rfl

theorem marks_mark (hg : Geometry v) (hlow : 10 ≤ b.toNat) (hhigh : b.toNat < v.sb.total_blocks.toNat)
    (hbit : b.toNat < 32768) (hwas : used v b = !u) : Marks v (xvfs_mark_block v b u) b u where
  alike := alike_mark v b u
  head hc := by
    refine mark_read_of_ne fun heq => ?_
    have hblock := congrArg UInt32.toNat heq
    rw [toNat_bitmapBlock hg] at hblock
    omega
  low := hlow
  high := hhigh
  was := hwas
  marks _ := used_mark hg hbit u _
  free := free_mark v hwas

theorem same_writeData (hg : Geometry v) (data : Bytes) (hb : 10 ≤ b.toNat)
    (hsize : size.toNat ≤ 512) : Same v (writeData v b data size) := by
  rcases writeData_small v b data hsize with ⟨-, heq⟩ | ⟨buf, heq, -⟩
  · rw [heq]
    exact Same.refl v
  · rw [heq]
    exact same_write hg hb buf

/-- `takes` says whether a block is taken, and `keeps` is what is asked for so that no block is lost. -/
inductive Change (v : Vol) (takes : Bool) (keeps : Prop) : Vol → Prop where
  | none (htakes : takes = false) : Change v takes keeps v
  | new {v' : Vol} {d : UInt32} {i : ℕ} {e : FileEntry} (hs : SlotChange v v' d i e)
      (hnode : NewNode v v' d i e) (hmarks : Marks v v' e.start true)
      (htakes : takes = true) (hkeeps : keeps → (v.slot d i).live = false ∧ e.live = true) :
      Change v takes keeps v'
  | overwrite {v' : Vol} {d : UInt32} {i : ℕ} {e : FileEntry} (hs : SlotChange v v' d i e)
      (hnode : NewNode v v' d i e) (hsame : Same v v') (htakes : takes = false) (hlive : (v.slot d i).live = true ∧ e.live = true)
      (hfile : (v.slot d i).isDir = false) (hstart : e.start = (v.slot d i).start) :
      Change v takes keeps v'
  | delete {v' : Vol} {d : UInt32} {i : ℕ} (hs : SlotChange v v' d i deletedEntry) (htakes : takes = false)
      (hlive : (v.slot d i).live = true)
      (hmarks : (Same v v' ∧ ¬keeps) ∨ Marks v v' (v.slot d i).start false)
      (hempty : keeps → (v.slot d i).isDir = true →
        ∀ j, view v (v.slot d i).start j = none) : Change v takes keeps v'

theorem Change.inv (hi : Inv v) (h : Change v takes keeps v') : Inv v' := by
  cases h with
  | none => exact hi
  | new hs hnode => exact hi.put hs fun _ => hnode
  | overwrite hs hnode => exact hi.put hs fun _ => hnode
  | delete hs =>
    refine hi.put hs fun hlive => ?_
    rw [live_deletedEntry] at hlive
    cases hlive

theorem Change.effect (h : Change v takes keeps v') :
    (takes = false ∧ (Same v v' ∨ ∃ b, Marks v v' b false)) ∨ (takes = true ∧ ∃ b, Marks v v' b true) := by
  cases h with
  | none htakes => exact .inl ⟨htakes, .inl (Same.refl v)⟩
  | new _ _ hmarks htakes => exact .inr ⟨htakes, _, hmarks⟩
  | overwrite _ _ hsame htakes => exact .inl ⟨htakes, .inl hsame⟩
  | delete _ htakes _ hmarks =>
    rcases hmarks with ⟨hsame, -⟩ | hmarks
    · exact .inl ⟨htakes, .inl hsame⟩
    · exact .inl ⟨htakes, .inr ⟨_, hmarks⟩⟩

theorem Same.dir (hi : Inv v) (hd : Dir v d) (h : Same v v1) (buf : Bytes) : Same v (v1.write_block d buf) :=
  h.trans (same_write (hi.geom.alike h.alike) (hi.reach_bounds hd).1 buf)

theorem Marks.dir (hi : Inv v) (hd : Dir v d) (h : Marks v v1 b u) (buf : Bytes) : Marks v (v1.write_block d buf) b u :=
  h.trans_same (same_write (hi.geom.alike h.alike) (hi.reach_bounds hd).1 buf)

theorem Taken.marks (hb : Taken v b) (hi : Inv v) (halloc : AllocFits v) : Marks v (xvfs_mark_block v b true) b true := by
  obtain ⟨hhigh, hbit⟩ := allocFits_of_eq halloc hb.found
  exact marks_mark hi.geom hb.low hhigh hbit hb.unused

theorem create_change (hi : Inv v) (hres : xvfs_resolve_path v path false = some (d, name))
    (hfits : createTakes v path = true → size ≤ 512 ∧ AllocFits v) (data : Bytes) :
    ∃ r, xvfs_create_file v path data size = some r ∧ Change v (createTakes v path) (NamesFile v path) r.2 := by
  rcases create_cases hres hi.geom data size with
    ⟨hno, heq⟩ | ⟨htakes, hd0, slot, b, hslot, hb, heq⟩
  · exact ⟨_, heq, .none hno⟩
  obtain ⟨hle, halloc⟩ := hfits htakes
  have hsize := UInt32.le_iff_toNat_le.mp hle
  have hd := (resolve_spec hi hres).1.resolve_left hd0
  have hs : Stored v _ d slot (newEntry name b size 0) data := stored_new hi hsize halloc hd hslot hb
  have hmark := hb.marks hi halloc
  have hdata := same_writeData (hi.geom.alike hmark.alike) data hb.low hsize
  refine ⟨_, heq, .new hs.change hs.node ((hmark.trans_same hdata).dir hi hd _) htakes fun hnames => ?_⟩
  obtain ⟨hlive, hdead⟩ := hnames _ hres
  exact ⟨hdead slot hslot, hlive⟩

theorem write_change (hi : Inv v) (hres : xvfs_resolve_path v path false = some (d, name))
    (hfile : ∀ e ∈ writeTarget v path, size ≤ 512 ∧ e.isDir = false)
    (halloc : writeTarget v path = none → createTakes v path = true → size ≤ 512 ∧ AllocFits v) (data : Bytes) : ∃ r, xvfs_write_file v path data size = some r ∧
      Change v ((writeTarget v path).isNone && createTakes v path) (writeTarget v path = none → NamesFile v path) r.2 := by
  rcases write_cases hres data size with ⟨rfl, heq⟩ | ⟨hd0, ⟨hnone, heq⟩ | ⟨i, hsome, heq⟩⟩
  · refine ⟨_, heq, .none ?_⟩
    rw [createTakes, hres]
    simp
  · have htarget : writeTarget v path = none := by rw [writeTarget_eq hres, hnone]; rfl
    obtain ⟨r, hr, hchange⟩ := create_change hi hres (halloc htarget) data
    refine ⟨r, heq.trans hr, ?_⟩
    simpa [htarget] using hchange
  · have htarget : writeTarget v path = some (v.slot d i) := by
      rw [writeTarget_eq hres, hsome]; rfl
    have hd := (resolve_spec hi hres).1.resolve_left hd0
    obtain ⟨hidx, hp⟩ := findSlot_some hsome
    have hlive := (Bool.and_eq_true_iff.mp hp).1
    obtain ⟨hle, hdir⟩ := hfile _ htarget
    have hsize := UInt32.le_iff_toNat_le.mp hle
    have hs : Stored v _ d i { v.slot d i with size := size } data :=
      overwrite_stored hi hsize hd hidx hlive hdir
    obtain ⟨hgood, -, -⟩ := hi.node hd hidx hlive (dotLink_file hdir)
    have hdata := same_writeData hi.geom data hgood.low.le hsize
    exact ⟨_, heq, .overwrite hs.change hs.node (hdata.dir hi hd _) (by rw [htarget]; rfl) ⟨hlive, hlive⟩ hdir rfl⟩

theorem freeBlocks_effect (hg : Geometry v) (hgood : Good v b) {k : ℕ} (hk : k ≤ 1) :
    (k = 0 ∧ Same v (freeBlocks v k b)) ∨ (k = 1 ∧ Marks v (freeBlocks v k b) b false) := by
  rcases freeBlocks_cases hg hgood hk with ⟨hk0, heq⟩ | ⟨hk1, heq⟩
  · rw [heq]
    exact .inl ⟨hk0, Same.refl v⟩
  rw [heq]
  refine .inr ⟨hk1, ?_⟩
  have hwrite := same_write hg hgood.low.le fun _ => 0
  refine hwrite.trans_marks hgood.bitmap (marks_mark (hg.alike hwrite.alike) hgood.low.le hgood.high hgood.bitmap ?_)
  rw [hwrite.marks hgood.bitmap]
  exact hgood.used

theorem rm_marks (hi : Inv v) (hd : Dir v d) (hidx : i < XVFS_MAX_FILES)
    (hlive : (v.slot d i).live = true) (hfile : (v.slot d i).isDir = false)
    (hv' : v' = (freeBlocks v (((v.slot d i).size + 511) / 512).toNat
      (v.slot d i).start).put v d i deletedEntry) :
    ((v.slot d i).size = 0 ∧ Same v v') ∨ Marks v v' (v.slot d i).start false := by
  obtain ⟨hgood, hsmall, -⟩ := hi.node hd hidx hlive (dotLink_file hfile)
  have hcount := file_blocks_eq hsmall
  rw [hv']
  rcases freeBlocks_effect hi.geom hgood (k := ((_ + 511) / 512 : UInt32).toNat) (by rw [hcount]; omega) with
    ⟨hnone, hsame⟩ | ⟨-, hmarks⟩
  · refine .inl ⟨UInt32.toNat_inj.mp ?_, hsame.dir hi hd _⟩
    show (v.slot d i).size.toNat = 0
    omega
  · exact .inr (hmarks.dir hi hd _)

theorem rmTarget_eq (hres : xvfs_resolve_path v path false = some (d, name))
    (hsome : findSlot (v.read_block d) (fun e => e.live && (e.named name && !e.isDir)) = some i) :
    rmTarget v path = some (v.slot d i) := by
  unfold rmTarget
  rw [hres]
  change (findSlot _ _).map _ = _
  rw [hsome]
  rfl

theorem rm_change (hi : Inv v) (hres : xvfs_resolve_path v path false = some (d, name)) :
    ∃ r, xvfs_rm v path = some r ∧ Change v false (∀ e ∈ rmTarget v path, e.size ≠ 0) r.2 := by
  rcases rm_cases hres with heq | ⟨hd0, i, hsome, heq⟩
  · exact ⟨_, heq, .none rfl⟩
  have hd := (resolve_spec hi hres).1.resolve_left hd0
  obtain ⟨hidx, hlive, hfile⟩ := rm_entry hsome
  refine ⟨_, heq, .delete (slotChange_rm hi hd hidx hlive hfile) rfl hlive ?_ fun _ hdir => ?_⟩
  · refine (rm_marks hi hd hidx hlive hfile rfl).imp_left fun ⟨hzero, hsame⟩ => ⟨hsame, fun hsizes => ?_⟩
    exact hsizes _ (rmTarget_eq hres hsome) hzero
  · rw [hfile] at hdir
    cases hdir

/-- A directory that `xvfs_rmdir` takes for an empty one is empty, if it has no files with the names of its links. -/
theorem view_none_of_dirEmpty (hroot : c ≠ v.root) (hempty : dirEmpty (v.read_block c) = true)
    (hdots : NoDotFiles (v.read_block c)) (j : ℕ) : view v c j = none := by
  by_cases hj : j < XVFS_MAX_FILES
  · rw [view_eq hj]
    have hlinks := findSlot_none (Option.isNone_iff_eq_none.mp hempty) hj
    have hfiles := findSlot_none hdots hj
    generalize entryAt (v.read_block c) j = e at hlinks hfiles
    unfold nodeOf dotLink
    rcases hl : e.live with _ | _
    · simp
    rw [hl] at hlinks hfiles
    rcases hdir : e.isDir with _ | _
    · rw [hdir] at hfiles
      simp_all
    have hnamed : (e.named dotName || e.named dotdotName) = true := by
      rw [Bool.true_and, Bool.not_eq_false'] at hlinks
      exact hlinks
    rw [hnamed, decide_eq_true hroot]
    simp
  · exact if_neg hj

theorem rmdir_change (hi : Inv v) (hres : xvfs_resolve_path v path false = some (d, name))
    (hlinks : ∀ t ∈ rmdirTarget v path, dotLink v t.1 t.2 = false) : ∃ r, xvfs_rmdir v path = some r ∧
      Change v false (∀ t ∈ rmdirTarget v path, NoDotFiles (v.read_block t.2.start)) r.2 := by
  rcases rmdir_cases hres with heq | ⟨hd0, i, hsome, hempty, heq⟩
  · exact ⟨_, heq, .none rfl⟩
  have hd := (resolve_spec hi hres).1.resolve_left hd0
  have htarget := rmdirTarget_eq hres hsome
  obtain ⟨hidx, hp⟩ := findSlot_some hsome
  have hlive := (Bool.and_eq_true_iff.mp hp).1
  obtain ⟨hgood, -, -⟩ := hi.node hd hidx hlive (hlinks _ htarget)
  have hroot : (v.slot d i).start ≠ v.root := by
    intro hroot
    have hlow := hgood.low
    rw [hroot, hi.geom.root] at hlow
    exact absurd hlow (by decide)
  have hmarks := marks_mark (u := false) hi.geom hgood.low.le hgood.high hgood.bitmap hgood.used
  refine ⟨_, heq, .delete (slotChange_rmdir hi hd hidx hlive (hlinks _ htarget)) rfl hlive
    (.inr (hmarks.dir hi hd _)) fun hdots _ => ?_⟩
  have hfiles := hdots _ htarget
  exact view_none_of_dirEmpty hroot hempty hfiles

theorem create_dir_change (hi : Inv v) (hd : Dir v d) (name : Path)
    (halloc : dirTakes v d name = true → AllocFits v) :
    Change v (dirTakes v d name) ((newEntry name 0 0 1).live = true) (xvfs_create_dir_at v d name).2 := by
  rcases create_dir_cases hi.geom (hi.reach_readable hd) name halloc with
    ⟨hno, heq⟩ | ⟨htakes, slot, b, hdup, hslot, hb, heq⟩
  · rw [heq]
    exact .none hno
  have halloc := halloc htakes
  obtain ⟨hs, hnew⟩ := slotChange_new_dir hi hd halloc hdup hslot hb rfl
  have hmark := hb.marks hi halloc
  have hdir := same_write (hi.geom.alike hmark.alike) hb.low (newDir v b d)
  have hdead : (v.slot d slot).live = false := by
    have hfirst := (findSlot_some hslot).2
    simp only [Bool.or_eq_true, decide_eq_true_eq] at hfirst
    unfold FileEntry.live
    rcases hfirst with h | h <;> rw [h] <;> decide
  rw [heq]
  exact .new hs hnew ((hmark.trans_same hdir).dir hi hd _) htakes fun hlive => ⟨hdead, hlive⟩

theorem step_change (hi : Inv v) {op : Op} (hfits : Fits v op) :
    ∃ r, step v op = some r ∧ Change v (takesBlock v op) (Reclaims v op) r.2 := by
  cases op with
  | createFile path data size =>
    obtain ⟨hpath, halloc⟩ := hfits
    obtain ⟨dn, hres⟩ := Option.isSome_iff_exists.mp hpath
    exact create_change hi hres halloc data
  | writeFile path data size =>
    obtain ⟨hpath, hfile, halloc⟩ := hfits
    obtain ⟨dn, hres⟩ := Option.isSome_iff_exists.mp hpath
    exact write_change hi hres hfile halloc data
  | rm path =>
    obtain ⟨dn, hres⟩ := Option.isSome_iff_exists.mp hfits
    exact rm_change hi hres
  | mkdir name =>
    have hcurrent : Dir v v.current_dir_block := by
      rw [hi.geom.current]
      exact .root
    exact ⟨_, rfl, create_dir_change hi hcurrent name hfits⟩
  | mkdirPath path =>
    obtain ⟨⟨d, name⟩, hres⟩ := Option.isSome_iff_exists.mp hfits.1
    rcases mkdir_path_cases hres with ⟨hno, heq⟩ | ⟨hd0, htakes, heq⟩
    · exact ⟨_, heq, .none hno⟩
    refine ⟨_, heq, ?_⟩
    have hkeeps : Reclaims v (.mkdirPath path) ↔ (newEntry name 0 0 1).live = true := by simp [Reclaims, hres]
    have halloc := hfits.2
    rw [htakes] at halloc ⊢
    rw [hkeeps]
    exact create_dir_change hi ((resolve_spec hi hres).1.resolve_left hd0) name halloc
  | rmdir path =>
    obtain ⟨dn, hres⟩ := Option.isSome_iff_exists.mp hfits.1
    exact rmdir_change hi hres hfits.2

end Orion.Xvfs
