import Orion.Xvfs.Account
import Orion.Xvfs.Proofs.TreeProofs

/-!
# The operations keep the ownership of blocks

A path resolves to a reachable directory. Each operation then changes one slot of it, and at most one
block beside it.
-/

namespace Orion.Xvfs

open Lib Vol List
open Option (some.inj bind_eq_bind bind_some)

abbrev Vol.slot (v : Vol) (d : UInt32) (i : ℕ) : FileEntry := entryAt (v.read_block d) i

/-- The slot that has the name. -/
abbrev Vol.byName (v : Vol) (d : UInt32) (name : Path) : Option ℕ :=
  findSlot (v.read_block d) fun e => e.live && e.named name

/-- The first slot that was never used, or whose entry starts with the mark `m`. -/
abbrev Vol.unused (v : Vol) (d : UInt32) (m : UInt8) : Option ℕ :=
  findSlot (v.read_block d) fun e => e.first = 0 || e.first = m

/-- The directory `d` of `v`, with another entry in the slot `i`, is written to `w`. -/
abbrev Vol.put (w v : Vol) (d : UInt32) (i : ℕ) (e : FileEntry) : Vol := w.write_block d (putEntry (v.read_block d) i e)

variable {v v' : Vol} {b c d : UInt32} {i : Nat} {e : FileEntry} {n : Node UInt32} {size : UInt32}
  {want_dir : Bool} {name : Path}

theorem Inv.start_reach (hi : Inv v) (hd : Dir v d) (hidx : i < XVFS_MAX_FILES) (hlive : (v.slot d i).live = true)
    (hdir : (v.slot d i).isDir = true) : Dir v (v.slot d i).start := by
  by_cases hlink : dotLink v d (v.slot d i) = true
  · exact hi.links.reach hd ⟨i, hidx, hlink, rfl⟩
  have hnode := nodeOf_live hlive (Bool.eq_false_iff.mpr hlink)
  rw [if_pos hdir] at hnode
  rw [← view_eq hidx] at hnode
  exact hd.sub hnode rfl

/-- A name that `xvfs_resolve_path` leaves in `out_name`. -/
def TokenName (name : Path) : Prop := (0 : UInt8) ∉ name ∧ name.length < 16

theorem tokenName_nil : TokenName [] := ⟨not_mem_nil, by decide⟩

theorem resolveTokens_spec (hi : Inv v) {toks : List Path}
    (htoks : ∀ t ∈ toks, (0 : UInt8) ∉ t) {dir : UInt32} {last : Path} (hdir : Dir v dir) (hlast : TokenName last)
    (h : resolveTokens v want_dir dir last toks = some (d, name)) : (d = 0 ∨ Dir v d) ∧ TokenName name := by
  induction toks generalizing dir last with
  | nil =>
    obtain ⟨rfl, rfl⟩ := Prod.mk.injEq .. ▸ some.inj h
    exact ⟨.inr hdir, hlast⟩
  | cons token rest ih =>
    unfold resolveTokens at h
    split at h
    · cases h
    rename_i hlen
    have htoken : TokenName token := ⟨htoks token mem_cons_self, by omega⟩
    have hrest : ∀ t ∈ rest, (0 : UInt8) ∉ t := fun t ht => htoks t (mem_cons_of_mem token ht)
    dsimp only at h
    -- the three ways to stop: failure, and the last token in this directory
    have hfail : some ((0 : UInt32), ([] : Path)) = some (d, name) →
        (d = 0 ∨ Dir v d) ∧ TokenName name := by
      intro heq
      obtain ⟨rfl, rfl⟩ := Prod.mk.injEq .. ▸ some.inj heq
      exact ⟨.inl rfl, tokenName_nil⟩
    have hstop : some (dir, token) = some (d, name) → (d = 0 ∨ Dir v d) ∧ TokenName name := by
      intro heq
      obtain ⟨rfl, rfl⟩ := Prod.mk.injEq .. ▸ some.inj heq
      exact ⟨.inr hdir, htoken⟩
    split at h
    · rename_i i hfind
      obtain ⟨hidx, hp⟩ := findSlot_some hfind
      have hlive := (Bool.and_eq_true_iff.mp hp).1
      split at h
      · split at h
        · rename_i hisdir
          exact ih hrest (hi.start_reach hdir hidx hlive hisdir) htoken h
        · exact hfail h
      · exact hstop h
    · split at h
      · exact hstop h
      · exact hfail h

theorem resolve_spec (hi : Inv v) {path : Path} (h : xvfs_resolve_path v path want_dir = some (d, name)) :
    (d = 0 ∨ Dir v d) ∧ TokenName name := by
  have hstart : Dir v (if path.headD 0 = slash then v.sb.data_start else
      v.current_dir_block) := by
    rw [hi.geom.data_start, hi.geom.current, ite_self]
    exact .root
  exact resolveTokens_spec hi (fun t ht => (mem_tokens ht).2) hstart tokenName_nil h

theorem allocFits_of_eq {w : Vol} (ha : AllocFits v) (hfree : xvfs_find_free_block v = (b, w)) :
    b.toNat < v.sb.total_blocks.toNat ∧ b.toNat < 32768 := by
  unfold AllocFits at ha
  rw [hfree] at ha
  dsimp only at ha
  rw [UInt32.lt_iff_toNat_lt, UInt32.lt_iff_toNat_lt] at ha
  exact ha

section Cases

variable {path name : Path}

theorem ne_zero_of_data (hlow : 10 ≤ b.toNat) : b ≠ 0 := by
  rintro rfl
  exact absurd hlow (by decide)

theorem create_dir_cases (hg : Geometry v) (hd : v.readable d = true) (name : Path)
    (halloc : dirTakes v d name = true → AllocFits v) :
    (dirTakes v d name = false ∧ xvfs_create_dir_at v d name = (false, v)) ∨ dirTakes v d name = true ∧ ∃ slot b,
      v.byName d name = none ∧
      v.unused d 0xE5 = some slot ∧
      Taken v b ∧ xvfs_create_dir_at v d name = (true, ((xvfs_mark_block v b true).write_block b (newDir v b d)).put v d slot (newEntry name b 0 1)) := by
  unfold dirTakes hasFree at halloc ⊢
  unfold xvfs_create_dir_at
  by_cases hname : cstr name = []
  · exact .inl ⟨by simp [hname], by simp [hname]⟩
  have hpre : (decide (cstr name = []) || !v.readable d) = false := by simp [hname, hd]
  rw [if_neg (by rw [hpre]; simp)]
  dsimp only
  cases hdup : findSlot (v.read_block d) fun e => e.live && e.named name with
  | some j => exact .inl ⟨by simp, rfl⟩
  | none =>
    rw [if_neg (by simp)]
    rcases hslot : findSlot (v.read_block d) fun e => e.first = 0 || e.first = 0xE5 with _ | slot
    · exact .inl ⟨by simp, rfl⟩
    rcases find_free_block_cases hg with hfree | ⟨b, hb⟩
    · rw [hfree]
      exact .inl ⟨by simp, rfl⟩
    have hb0 := ne_zero_of_data hb.low
    have halloc' : AllocFits v := halloc (by simp [hname, hd, hdup, hslot, hb.found, hb0])
    have ha := alike_mark v b true
    have hb1 : (xvfs_mark_block v b true).readable b = true := by
      rw [ha.readable]
      exact hg.readable (allocFits_of_eq halloc' hb.found).1
    have hd1 : ((xvfs_mark_block v b true).write_block b (newDir (xvfs_mark_block v b true) b d)).readable
        d = true := by
      rw [(alike_write_block _ _ _).readable, ha.readable]
      exact hd
    have hnew : newDir (xvfs_mark_block v b true) b d = newDir v b d := by
      unfold newDir
      rw [ha.stack]
    refine .inr ⟨by simp [hname, hd, hb.found, hb0], slot, b, hdup, hslot, hb, ?_⟩
    rw [hb.found]
    dsimp only
    rw [if_neg hb0, hb1, if_neg (by simp), hd1, if_neg (by simp), hnew]

theorem mkdir_path_cases (hres : xvfs_resolve_path v (trimSlashes ((cstr path).take 255)) false = some (d, name)) :
    (takesBlock v (.mkdirPath path) = false ∧ xvfs_mkdir_path v path = some (false, v)) ∨
      d ≠ 0 ∧ takesBlock v (.mkdirPath path) = dirTakes v d name ∧
        xvfs_mkdir_path v path = some (xvfs_create_dir_at v d name) := by
  unfold takesBlock xvfs_mkdir_path
  dsimp only
  rw [hres, bind_eq_bind, bind_some]
  dsimp only
  by_cases hempty : trimSlashes ((cstr path).take 255) = []
  · exact .inl ⟨by simp [hempty], if_pos hempty⟩
  rw [if_neg hempty]
  by_cases hbad : d = 0 ∨ name = []
  · refine .inl ⟨?_, if_pos (by simpa using hbad)⟩
    rcases hbad with hd | hname
    · simp [hd]
    · simp [hname]
  · obtain ⟨hd, hname⟩ := not_or.mp hbad
    exact .inr ⟨hd, by simp [hempty, hd, hname], if_neg (by simpa using hbad)⟩

variable (hres : xvfs_resolve_path v path false = some (d, name))

include hres

/-- `xvfs_create_file` fails and changes nothing, or it allocates a block, writes the data and puts the
entry. -/
theorem create_cases (hg : Geometry v) (data : Bytes) (size : UInt32) :
    (createTakes v path = false ∧ xvfs_create_file v path data size = some (false, v)) ∨
      createTakes v path = true ∧ d ≠ 0 ∧ ∃ slot b,
        v.unused d 0xFF = some slot ∧
        Taken v b ∧ xvfs_create_file v path data size = some (true, (writeData (xvfs_mark_block v b true) b data size).put v d slot (newEntry name b size 0)) := by
  unfold createTakes hasFree xvfs_create_file
  rw [hres, bind_eq_bind, bind_some]
  dsimp only
  by_cases hd : d = 0
  · exact .inl ⟨by simp [hd], if_pos hd⟩
  rw [if_neg hd]
  rcases hslot : findSlot (v.read_block d) fun e => e.first = 0 || e.first = 0xFF with _ | slot
  · exact .inl ⟨by simp, rfl⟩
  rcases find_free_block_cases hg with hfree | ⟨b, hb⟩
  · rw [hfree]
    exact .inl ⟨by simp, rfl⟩
  · have hb0 := ne_zero_of_data hb.low
    rw [hb.found]
    exact .inr ⟨by simp [hd, hb0], hd, slot, b, hslot, hb, if_neg hb0⟩

/-- `xvfs_write_file` fails, creates the file, or writes over the entry that it finds. -/
theorem write_cases (data : Bytes) (size : UInt32) :
    (d = 0 ∧ xvfs_write_file v path data size = some (false, v)) ∨ d ≠ 0 ∧
      ((v.byName d name = none ∧
          xvfs_write_file v path data size = xvfs_create_file v path data size) ∨
        ∃ i, v.byName d name = some i ∧ xvfs_write_file v path data size =
            some (true, (writeData v (v.slot d i).start data size).put v d i { v.slot d i with size := size })) := by
  unfold xvfs_write_file
  rw [hres, bind_eq_bind, bind_some]
  dsimp only
  by_cases hd : d = 0
  · exact .inl ⟨hd, if_pos hd⟩
  rw [if_neg hd]
  refine .inr ⟨hd, ?_⟩
  cases hslot : findSlot (v.read_block d) fun e => e.live && e.named name with
  | none => exact .inl ⟨hslot, rfl⟩
  | some i => exact .inr ⟨i, hslot, rfl⟩

/-- `xvfs_rm` fails, or frees the blocks of a regular file and deletes its entry. -/
theorem rm_cases : xvfs_rm v path = some (false, v) ∨ d ≠ 0 ∧ ∃ i,
      findSlot (v.read_block d) (fun e => e.live && (e.named name && !e.isDir)) = some i ∧
      xvfs_rm v path = some (true, (freeBlocks v (((v.slot d i).size + 511) / 512).toNat
        (v.slot d i).start).put v d i deletedEntry) := by
  unfold xvfs_rm
  rw [hres, bind_eq_bind, bind_some]
  dsimp only
  by_cases hd : d = 0
  · exact .inl (if_pos hd)
  rw [if_neg hd]
  cases hslot : findSlot (v.read_block d) fun e => e.live && (e.named name && !e.isDir) with
  | none => exact .inl rfl
  | some i => exact .inr ⟨hd, i, rfl, rfl⟩

theorem rmdir_cases : xvfs_rmdir v path = some (false, v) ∨ d ≠ 0 ∧ ∃ i,
      findSlot (v.read_block d) (fun e => e.live && (e.named name && e.isDir)) = some i ∧
      dirEmpty (v.read_block (v.slot d i).start) = true ∧
      xvfs_rmdir v path = some (true, (xvfs_mark_block v (v.slot d i).start false).put v d i deletedEntry) := by
  unfold xvfs_rmdir
  rw [hres, bind_eq_bind, bind_some]
  dsimp only
  by_cases hd : d = 0
  · exact .inl (if_pos hd)
  rw [if_neg hd]
  rcases hslot : findSlot (v.read_block d) fun e => e.live && (e.named name && e.isDir) with _ | i
  · exact .inl rfl
  cases hempty : dirEmpty (v.read_block (v.slot d i).start) with
  | false => exact .inl (by simp [hempty])
  | true => exact .inr ⟨hd, i, rfl, hempty, by simp [hempty]⟩

end Cases

theorem writeData_small (v : Vol) (start : UInt32) (data : Bytes) (hsize : size.toNat ≤ 512) :
    (size.toNat = 0 ∧ writeData v start data size = v) ∨
      ∃ buf : Bytes, writeData v start data size = v.write_block start buf ∧ ∀ k < size.toNat, buf k = data k := by
  have h512 : (512 : UInt32).toNat = 512 := rfl
  have hdiv : (size / 512).toNat = size.toNat / 512 := by rw [UInt32.toNat_div, h512]
  have hmul : (size / 512 * 512).toNat = size.toNat / 512 * 512 := by
    rw [UInt32.toNat_mul, hdiv, h512]
    omega
  unfold writeData
  dsimp only
  rw [hmul, hdiv]
  by_cases hfull : size.toNat = 512
  · right
    rw [hfull]
    exact ⟨fun k => data (0 + k), rfl, fun k _ => congrArg data (Nat.zero_add k)⟩
  · have hzero : size.toNat / 512 = 0 := by omega
    have hword : size / 512 = 0 := by
      apply UInt32.toNat_inj.mp
      rw [hdiv]
      exact hzero
    rw [hzero, hword]
    by_cases hnone : size.toNat = 0
    · left
      rw [if_neg (by omega)]
      exact ⟨hnone, rfl⟩
    · right
      rw [if_pos (by omega), UInt32.add_zero]
      refine ⟨_, rfl, fun k hk => ?_⟩
      change (if k < _ then data (0 * 512 + k) else 0) = data k
      rw [if_pos (by omega), Nat.zero_mul, Nat.zero_add]

theorem near_writeData (hg : Geometry v) (data : Bytes) (hb : 10 ≤ b.toNat)
    (hsize : size.toNat ≤ 512) : Near v (writeData v b data size) b := by
  rcases writeData_small v b data hsize with ⟨-, heq⟩ | ⟨buf, heq, -⟩
  · rw [heq]
    exact Near.refl v b
  · rw [heq]
    exact near_write hg hb buf

/-- `xvfs_rm` of a file of at most one sector frees its block, unless the file is empty. -/
theorem freeBlocks_cases (hg : Geometry v) (hgood : Good v b) {k : Nat} (hk : k ≤ 1) :
    (k = 0 ∧ freeBlocks v k b = v) ∨
      k = 1 ∧ freeBlocks v k b = xvfs_mark_block (v.write_block b fun _ => 0) b false := by
  have hres : xvfs_is_reserved v b = false := by
    have hlow := hgood.low
    unfold xvfs_is_reserved
    rw [hg.data_start, decide_eq_false_iff_not, UInt32.lt_iff_toNat_lt]
    change ¬b.toNat < 10
    omega
  rcases Nat.le_one_iff_eq_zero_or_eq_one.mp hk with rfl | rfl
  · exact .inl ⟨rfl, rfl⟩
  unfold freeBlocks
  rw [hres, if_neg (by simp)]
  exact .inr ⟨rfl, rfl⟩

theorem near_freeBlocks (hg : Geometry v) (hgood : Good v b) {k : Nat} (hk : k ≤ 1) : Near v (freeBlocks v k b) b := by
  rcases freeBlocks_cases hg hgood hk with ⟨-, heq⟩ | ⟨-, heq⟩
  · rw [heq]
    exact Near.refl v b
  · have hw := near_write hg hgood.low.le fun _ => 0
    rw [heq]
    exact hw.trans (near_mark (hg.alike hw.alike) hgood.bitmap false)

theorem first_of_dotLink (h : dotLink v d e = true) : e.first = 0x2E := by
  unfold dotLink at h
  simp only [Bool.and_eq_true, Bool.or_eq_true] at h
  have hnamed : ∀ {t : Path}, t.headD 0 = 0x2E → e.named t = true → e.first = 0x2E := by
    intro t ht hn
    unfold FileEntry.named XVFS_MAX_NAME strncmpEq at hn
    split at hn
    · cases hn
    · rename_i heq
      rw [ne_eq, not_not] at heq
      exact heq.trans ht
  rcases h.2 with hn | hn
  · exact hnamed rfl hn
  · exact hnamed rfl hn

theorem dotLink_false_of_first (h : e.first ≠ 0x2E) : dotLink v d e = false :=
  Bool.eq_false_iff.mpr fun hl => h (first_of_dotLink hl)

theorem dotLink_unused {m : UInt8} (hm : m ≠ 0x2E) (h : (decide (e.first = 0) || decide (e.first = m)) = true) :
    dotLink v d e = false := by
  apply dotLink_false_of_first
  simp only [Bool.or_eq_true, decide_eq_true_eq] at h
  rcases h with h | h <;> rw [h]
  · decide
  · exact hm

theorem dotLink_file (h : e.isDir = false) : dotLink v d e = false := by
  unfold dotLink
  rw [h]
  simp

theorem isDir_newFile (name : Path) (start size : UInt32) : (newEntry name start size 0).isDir = false := by
  change decide ((0 : UInt8) &&& 1 ≠ 0) = false
  decide

theorem length_newEntry (name : Path) (start size : UInt32) (attr : UInt8) :
    (newEntry name start size attr).name.length = 16 := by
  simp [newEntry]

theorem live_deletedEntry : deletedEntry.live = false := by decide

section Ops

variable {path name : Path} {data : Bytes} {size : UInt32} {v1 : Vol}

theorem Inv.node (hi : Inv v) (hd : Dir v d) (hidx : i < XVFS_MAX_FILES) (hlive : (v.slot d i).live = true)
    (hlink : dotLink v d (v.slot d i) = false) :
    Good v (v.slot d i).start ∧ (v.slot d i).size.toNat ≤ 512 ∧
      view v d i = some ⟨if (v.slot d i).isDir then
        some (v.slot d i).start else none, [(v.slot d i).start]⟩ := by
  have hn : view v d i = _ := (view_eq hidx d).trans (nodeOf_live hlive hlink)
  obtain ⟨b, hb, hgood⟩ := hi.single hd hn
  obtain ⟨rest, hrest⟩ := blocks_eq_cons (v.slot d i)
  have hcount : (v.slot d i).blocks.length = 1 := by
    have hlen := congrArg List.length hb
    exact hlen
  dsimp only at hb
  rw [hrest] at hb
  obtain ⟨rfl, rfl⟩ := cons_eq_cons.mp hb
  rw [hrest] at hn
  refine ⟨hgood, ?_, hn⟩
  unfold FileEntry.blocks FileEntry.blockCount at hcount
  rw [length_map, length_range] at hcount
  omega

theorem Inv.not_owned_by_others (hi : Inv v) (hd : Dir v d) (hn : view v d i = some n)
    (hb : b ∈ n.owned) {d' : UInt32} {i' : Nat} {n' : Node UInt32} (hd' : Dir v d')
    (hn' : view v d' i' = some n') (hne : (d', i') ≠ (d, i)) : b ∉ n'.owned :=
  fun hb' => hne (hi.owned.slot_unique hd' hd hn' hn hb' hb)

theorem Inv.fresh_block (hi : Inv v) (hfree : used v b = false) (hlow : 10 ≤ b.toNat) :
    10 < b.toNat ∧ b ≠ 10 ∧ ¬Dir v b := by
  have hne : b ≠ 10 := by
    rintro rfl
    rw [hi.root_used] at hfree
    cases hfree
  refine ⟨?_, hne, fun hr => ?_⟩
  · have : b.toNat ≠ 10 := fun h => hne (UInt32.toNat_inj.mp h)
    omega
  · rw [(hi.reach_bounds hr).2.2.2] at hfree
    cases hfree

/-- The entry of a file was put into a slot and its data into its block; nothing else changed but the bitmap. -/
structure Stored (v v' : Vol) (d : UInt32) (i : Nat) (e : FileEntry) (data : Bytes) : Prop where
  change : SlotChange v v' d i e
  node : NewNode v v' d i e
  content : ∀ k < e.size.toNat, v'.read_block e.start k = data k
  frame : ∀ {c}, 10 ≤ c.toNat → c ≠ e.start → c ≠ d → v'.read_block c = v.read_block c

/-- Writing the data of a file into its block `b` and then its entry into a slot. -/
theorem stored_of_near (hi : Inv v) (hnear : Near v v1 b) (hbr : ¬Dir v b)
    (hlow : 10 < b.toNat) (hhigh : b.toNat < v.sb.total_blocks.toNat) (hbit : b.toNat < 32768)
    (hused : used v1 b = true) (hsize : size.toNat ≤ 512) (hd : Dir v d) (hidx : i < XVFS_MAX_FILES)
    (hothers : ∀ {d' i' n}, Dir v d' → view v d' i' = some n → (d', i') ≠ (d, i) → b ∉ n.owned)
    (hold : dotLink v d (v.slot d i) = false) (he : e.start = b ∧ e.size = size)
    (hname : e.name.length = 16) (hfile : e.isDir = false) :
    Stored v ((writeData v1 b data size).put v d i e) d i e data := by
  obtain ⟨rfl, rfl⟩ := he
  have hg1 := hi.geom.alike hnear.alike
  have hw := near_writeData hg1 data hlow.le hsize
  have hall := hnear.trans hw
  have hb10 : e.start ≠ 10 := fun h => hbr (h ▸ .root)
  have hbd : e.start ≠ d := fun h => hbr (h ▸ hd)
  have hs := slotChange_of_near hi hall
    (fun hc _ => hall.read (hi.reach_bounds hc).1 fun heq => hbr (heq ▸ hc)) hb10 hothers hd hidx hname hold
    (dotLink_file hfile)
  refine ⟨hs, ⟨⟨hlow, ?_, hbit, ?_⟩, hsize, hothers, fun hdir => ?_⟩, fun k hk => ?_, fun hc hne hcd => ?_⟩
  · rw [hs.alike.total]
    exact hhigh
  · rw [used_write (hi.geom.alike hall.alike) (hi.reach_bounds hd).1 hbit]
    rcases writeData_small v1 e.start data hsize with ⟨-, heq⟩ | ⟨buf, heq, -⟩
    · rw [heq]
      exact hused
    · rw [heq, used_write hg1 hlow.le hbit]
      exact hused
  · rw [hfile] at hdir
    cases hdir
  · rw [read_write_of_ne hbd]
    rcases writeData_small v1 e.start data hsize with ⟨hnone, -⟩ | ⟨buf, heq, hbuf⟩
    · omega
    rw [heq, read_write_self]
    · exact hbuf k hk
    · rw [hnear.alike.readable]
      exact hi.geom.readable hhigh
  · rw [read_write_of_ne hcd]
    exact hall.read hc hne

theorem stored_new (hi : Inv v) (hsize : size.toNat ≤ 512) (halloc : AllocFits v) (hd : Dir v d)
    (hslot : v.unused d 0xFF = some i)
    (hb : Taken v b) : Stored v ((writeData (xvfs_mark_block v b true) b data size).put v d i (newEntry name b size 0)) d i (newEntry name b size 0) data := by
  obtain ⟨hhigh, hbit⟩ := allocFits_of_eq halloc hb.found
  obtain ⟨hlow, -, hbr⟩ := hi.fresh_block hb.unused hb.low
  obtain ⟨hidx, hfirst⟩ := findSlot_some hslot
  have hused : used (xvfs_mark_block v b true) b = true := by
    rw [used_mark hi.geom hbit, if_pos rfl]
  exact stored_of_near hi (near_mark hi.geom hbit true) hbr hlow hhigh hbit hused hsize hd hidx
    (fun hd' hn _ => hi.not_owned hb.unused hd' hn) (dotLink_unused (by decide) hfirst) ⟨rfl, rfl⟩ (length_newEntry ..) (isDir_newFile ..)

theorem overwrite_stored (hi : Inv v) (hsize : size.toNat ≤ 512) (hd : Dir v d)
    (hidx : i < XVFS_MAX_FILES) (hlive : (v.slot d i).live = true) (hfile : (v.slot d i).isDir = false) :
    Stored v ((writeData v (v.slot d i).start data size).put v d i { v.slot d i with size := size }) d i
      { v.slot d i with size := size } data := by
  have hlink : dotLink v d (v.slot d i) = false := dotLink_file hfile
  obtain ⟨hgood, -, hn⟩ := hi.node hd hidx hlive hlink
  have hbr := hi.start_not_reach hd hn (by rw [hfile]; rfl) (mem_singleton_self _)
  exact stored_of_near hi (Near.refl v _) hbr hgood.low hgood.high hgood.bitmap hgood.used hsize hd hidx
    (fun hd' hn' hne => hi.not_owned_by_others hd hn (mem_singleton_self _) hd' hn' hne) hlink
    ⟨rfl, rfl⟩ (length_entryAt_name ..) hfile

theorem writeTarget_eq (hres : xvfs_resolve_path v path false = some (d, name)) : writeTarget v path =
      (v.byName d name).map (entryAt (v.read_block d)) := by
  unfold writeTarget
  rw [hres]
  rfl

/-- A successful `xvfs_write_file` stores the data, in the slot of the entry with the name or in a new one. -/
theorem write_stored (hi : Inv v) (hres : xvfs_resolve_path v path false = some (d, name))
    (hfile : ∀ e ∈ writeTarget v path, size ≤ 512 ∧ e.isDir = false)
    (halloc : writeTarget v path = none → createTakes v path = true → size ≤ 512 ∧ AllocFits v) (data : Bytes) :
    xvfs_write_file v path data size = some (false, v) ∨ d ≠ 0 ∧ ∃ v' i e,
      xvfs_write_file v path data size = some (true, v') ∧ Stored v v' d i e data ∧ e.size = size ∧ e.isDir = false ∧
      ((v.byName d name = some i ∧
          e = { v.slot d i with size := size }) ∨
        (v.byName d name = none ∧
          v.unused d 0xFF = some i ∧
          ∃ b, e = newEntry name b size 0)) := by
  rcases write_cases hres data size with ⟨-, heq⟩ | ⟨hd0, ⟨hnone, heq⟩ | ⟨i, hsome, heq⟩⟩
  · exact .inl heq
  · have htarget : writeTarget v path = none := by rw [writeTarget_eq hres, hnone]; rfl
    rcases create_cases hres hi.geom data size with
      ⟨-, hfail⟩ | ⟨htakes, -, i, b, hslot, hb, hcreate⟩
    · exact .inl (heq.trans hfail)
    · obtain ⟨hsize, hfits⟩ := halloc htarget htakes
      exact .inr ⟨hd0, _, i, _, heq.trans hcreate, stored_new hi (UInt32.le_iff_toNat_le.mp hsize) hfits
        ((resolve_spec hi hres).1.resolve_left hd0) hslot hb, rfl, isDir_newFile ..,
        .inr ⟨hnone, hslot, b, rfl⟩⟩
  · have htarget : writeTarget v path = some (v.slot d i) := by
      rw [writeTarget_eq hres, hsome]; rfl
    obtain ⟨hidx, hp⟩ := findSlot_some hsome
    obtain ⟨hsize, hdir⟩ := hfile _ htarget
    exact .inr ⟨hd0, _, i, _, heq, overwrite_stored hi (UInt32.le_iff_toNat_le.mp hsize) ((resolve_spec hi hres).1.resolve_left hd0)
      hidx (Bool.and_eq_true_iff.mp hp).1 hdir, rfl, hdir, .inl ⟨hsome, rfl⟩⟩

theorem slotChange_delete (hi : Inv v) (hd : Dir v d) (hidx : i < XVFS_MAX_FILES)
    (hlink : dotLink v d (v.slot d i) = false) (hn : view v d i = some n)
    (hb : n.owned = [b]) (hb10 : b ≠ 10) (hnear : Near v v1 b)
    (hread : ∀ {c}, Dir v c → c ≠ d → v1.read_block c = v.read_block c) :
    SlotChange v (v1.put v d i deletedEntry) d i deletedEntry :=
  slotChange_of_near hi hnear hread hb10
    (fun hd' hn' hne => hi.not_owned_by_others hd hn (by rw [hb]; simp) hd' hn' hne) hd hidx rfl
    hlink (dotLink_file (by decide))

theorem file_blocks_eq (hsmall : size.toNat ≤ 512) : ((size + 511) / 512).toNat = (size.toNat + 511) / 512 := by
  have h511 : (511 : UInt32).toNat = 511 := rfl
  have h512 : (512 : UInt32).toNat = 512 := rfl
  rw [UInt32.toNat_div, UInt32.toNat_add, h511, h512]
  omega

theorem slotChange_rm (hi : Inv v) (hd : Dir v d) (hidx : i < XVFS_MAX_FILES)
    (hlive : (v.slot d i).live = true) (hfile : (v.slot d i).isDir = false) :
    SlotChange v ((freeBlocks v (((v.slot d i).size + 511) / 512).toNat
      (v.slot d i).start).put v d i deletedEntry) d i
        deletedEntry := by
  have hlink : dotLink v d (v.slot d i) = false := dotLink_file hfile
  obtain ⟨hgood, hsmall, hn⟩ := hi.node hd hidx hlive hlink
  have hcount : (((v.slot d i).size + 511) / 512).toNat ≤ 1 := by
    rw [file_blocks_eq hsmall]
    omega
  have hbr := hi.start_not_reach hd hn (by rw [hfile]; rfl) (mem_singleton_self _)
  have hnear := near_freeBlocks hi.geom hgood hcount
  exact slotChange_delete hi hd hidx hlink hn rfl (fun h => hbr (h ▸ .root)) hnear fun hc _ =>
    hnear.read (hi.reach_bounds hc).1 fun heq => hbr (heq ▸ hc)

theorem rm_entry (h : findSlot (v.read_block d) (fun e => e.live && (e.named name && !e.isDir)) = some i) :
    i < XVFS_MAX_FILES ∧ (v.slot d i).live = true ∧ (v.slot d i).isDir = false := by
  obtain ⟨hidx, hp⟩ := findSlot_some h
  simp only [Bool.and_eq_true, Bool.not_eq_eq_eq_not, Bool.not_true] at hp
  exact ⟨hidx, hp.1, hp.2.2⟩

theorem rmdirTarget_eq (hres : xvfs_resolve_path v path false = some (d, name))
    (hsome : findSlot (v.read_block d) (fun e => e.live && (e.named name && e.isDir)) = some i) :
    rmdirTarget v path = some (d, v.slot d i) := by
  unfold rmdirTarget
  rw [hres]
  change (findSlot _ _).map _ = _
  rw [hsome]
  rfl

theorem slotChange_rmdir (hi : Inv v) (hd : Dir v d) (hidx : i < XVFS_MAX_FILES) (hlive : (v.slot d i).live = true)
    (hlink : dotLink v d (v.slot d i) = false) :
    SlotChange v ((xvfs_mark_block v (v.slot d i).start false).put v d i deletedEntry) d i deletedEntry := by
  obtain ⟨hgood, -, hn⟩ := hi.node hd hidx hlive hlink
  have hnear := near_mark hi.geom hgood.bitmap false
  have hb10 : (v.slot d i).start ≠ 10 := by
    intro h
    have hlow := hgood.low
    rw [h] at hlow
    exact absurd hlow (by decide)
  exact slotChange_delete hi hd hidx hlink hn rfl hb10 hnear fun hc _ =>
    mark_read_of_ne (hi.geom.ne_bitmap hgood.bitmap (hi.reach_bounds hc).1)

theorem cstr_newEntry (name : Path) (start size : UInt32) (attr : UInt8) :
    cstr (newEntry name start size attr).name = (cstr name).take 15 := by
  have hz : (0 : UInt8) ∉ (cstr name).take 15 := fun h => zero_notMem_cstr name (mem_of_mem_take h)
  change cstr (strncpy 15 name ++ [0]) = _
  unfold strncpy
  rw [append_assoc, ← replicate_succ']
  exact cstr_append_zeros hz _

theorem cstr_of_named_newEntry {t : Path} {start : UInt32} {attr : UInt8} (ht : (0 : UInt8) ∉ t)
    (hlen : t.length < 15) (h : (newEntry name start size attr).named t = true) : cstr name = t := by
  have hcmp := strncmpEq_iff.mp h
  rw [cstr_newEntry, cstr_of_notMem ht] at hcmp
  have htake : (cstr name).take 15 = t := by
    rw [take_take, take_of_length_le (l := t) (by unfold XVFS_MAX_NAME; omega)] at hcmp
    exact hcmp
  have hshort : (cstr name).length ≤ 15 := by
    have := congrArg List.length htake
    rw [length_take] at this
    omega
  rwa [take_of_length_le hshort] at htake

theorem Inv.hasLinks (hi : Inv v) (hd : Dir v d) (hroot : d ≠ 10) : HasLink v d dotName ∧ HasLink v d dotdotName := by
  cases hd with
  | root => exact absurd rfl hroot
  | sub hp hn hc => exact hi.dots hp hn hc

theorem dotLink_newDir (hi : Inv v) (hd : Dir v d) (hdup : v.byName d name = none) (b : UInt32) :
    dotLink v d (newEntry name b 0 1) = false := by
  by_cases hroot : d = 10
  · unfold dotLink
    rw [hroot, hi.geom.root]
    simp
  obtain ⟨hdot, hdotdot⟩ := hi.hasLinks hd hroot
  have hno : ∀ {t : Path}, (0 : UInt8) ∉ t → t.length < 15 → HasLink v d t → (newEntry name b 0 1).named t = false := by
    rintro t hz hlen ⟨k, hk, hlink, hnamed⟩
    refine Bool.eq_false_iff.mpr fun hn => ?_
    have hname := cstr_of_named_newEntry hz hlen hn
    have hlive : (v.slot d k).live = true := by
      unfold dotLink at hlink
      simp only [Bool.and_eq_true] at hlink
      exact hlink.1.1.2
    -- the link has the name that was looked for
    have hsame : (v.slot d k).named name = true := by
      have hcmp := strncmpEq_iff.mp hnamed
      refine strncmpEq_iff.mpr ?_
      rw [hcmp, hname, cstr_of_notMem hz]
    have hfree := findSlot_none hdup hk
    rw [hlive, hsame] at hfree
    cases hfree
  unfold dotLink
  rw [hno (by decide) (by decide) hdot, hno (by decide) (by decide) hdotdot]
  simp

theorem entryAt_zeros {buf : Bytes} {j : Nat} (hj : j < XVFS_MAX_FILES) :
    (entryAt (buf.splice 0 500 fun _ => 0) j).live = false := by
  have hidx : j < 20 := hj
  have hfirst : (entryAt (buf.splice 0 500 fun _ => 0) j).first = 0 := by
    change ((List.range 16).map fun k => buf.splice 0 500 (fun _ => 0) (25 * j + k)).headD 0 = 0
    rw [range_succ_eq_map, map_cons, headD_cons]
    exact Bytes.splice_inside (by omega) (by omega)
  unfold FileEntry.live
  rw [hfirst]
  decide

theorem freshDir_of_read (hread : v'.read_block b = newDir v b d) : FreshDir v' b d := by
  refine ⟨?_, ?_, fun {j} h2 hj => ?_⟩
  all_goals rw [hread]; unfold newDir
  · rw [entryAt_putEntry_of_ne (by decide)]
    exact entryAt_putEntry_self rfl
  · exact entryAt_putEntry_self rfl
  · rw [entryAt_putEntry_of_ne (by omega), entryAt_putEntry_of_ne (by omega)]
    exact entryAt_zeros hj

theorem slotChange_new_dir (hi : Inv v) (hd : Dir v d) (halloc : AllocFits v) (hdup : v.byName d name = none)
    (hslot : v.unused d 0xE5 = some i) (hb : Taken v b)
    (hv' : v' = ((xvfs_mark_block v b true).write_block b (newDir v b d)).put v d i (newEntry name b 0 1)) :
    SlotChange v v' d i (newEntry name b 0 1) ∧ NewNode v v' d i (newEntry name b 0 1) := by
  obtain ⟨hhigh, hbit⟩ := allocFits_of_eq halloc hb.found
  obtain ⟨hlow, hb10, hbr⟩ := hi.fresh_block hb.unused hb.low
  obtain ⟨hidx, hfirst⟩ := findSlot_some hslot
  have hm := near_mark hi.geom hbit true
  have hg1 := hi.geom.alike hm.alike
  have hnear := hm.trans (near_write hg1 hb.low (newDir v b d))
  have hs := slotChange_of_near (e := newEntry name b 0 1) hi hnear
    (fun hc _ => hnear.read (hi.reach_bounds hc).1 fun heq => hbr (heq ▸ hc)) hb10
    (fun hd' hn _ => hi.not_owned hb.unused hd' hn) hd hidx (length_newEntry ..) (dotLink_unused (by decide) hfirst)
    (dotLink_newDir hi hd hdup b)
  rw [hv']
  refine ⟨hs, ⟨hlow, ?_, hbit, ?_⟩, Nat.zero_le _,
    fun hd' hn _ => hi.not_owned hb.unused hd' hn, fun _ => freshDir_of_read (v := v) ?_⟩
  · rw [hs.alike.total]
    exact hhigh
  · change used _ b = true
    rw [used_write (hi.geom.alike hnear.alike) (hi.reach_bounds hd).1 hbit, used_write hg1 hb.low hbit,
      used_mark hi.geom hbit, if_pos rfl]
  · change Vol.read_block _ b = newDir v b d
    have hbd : b ≠ d := fun heq => hbr (heq ▸ hd)
    rw [read_write_of_ne hbd]
    refine read_write_self ?_
    rw [hm.alike.readable]
    exact hi.geom.readable hhigh

end Ops

end Orion.Xvfs
