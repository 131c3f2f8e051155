import Orion.Xvfs.Proofs.OwnershipProofs

/-!
# A write touches only its own file

After a write that fits, every path resolves as before. The data is read back, and the block of every
other file holds what it held.
-/

namespace Orion.Xvfs

open Lib Vol List
open Option (bind_eq_bind bind_some some.inj map_some isSome_iff_exists)

variable {v v' : Vol} {b c d : UInt32} {i j : Nat} {e : FileEntry} {buf : Bytes} {name : Path} {p : FileEntry → Bool}
  {offset n : UInt32} {t : Path}

/-- The loop of `xvfs_read_file` for bytes that lie in one block. -/
theorem readBlocks_one (hg : Geometry v) {n intra : Nat} (hn : n ≠ 0) (hfit : intra + n ≤ 512) :
    readBlocks v n b intra n = if v.readable b then ((v.read_block b).slice intra n, true) else ([], false) := by
  obtain ⟨m, rfl⟩ := Nat.exists_eq_succ_of_ne_zero hn
  have hcopy : min (m + 1) (v.sb.block_size.toNat - intra) = m + 1 := by
    rw [hg.block_size]
    change min (m + 1) (512 - intra) = m + 1
    omega
  have hdone : readBlocks v m (b + 1) 0 0 = ([], true) := by
    cases m with
    | zero => rfl
    | succ m => exact if_pos rfl
  unfold readBlocks
  rw [if_neg (Nat.succ_ne_zero m)]
  dsimp only
  rw [hcopy, Nat.sub_self, hdone, append_nil]

theorem read_file_small (hg : Geometry v) (hsmall : e.size.toNat ≤ 512) (hwrap : offset.toNat + n.toNat < 2 ^ 32) :
    xvfs_read_file v e offset n = if min n.toNat (e.size.toNat - offset.toNat) = 0 then some []
      else if v.readable e.start then
        some ((v.read_block e.start).slice offset.toNat (min n.toNat (e.size.toNat - offset.toNat)))
      else none := by
  unfold xvfs_read_file
  by_cases hend : offset ≥ e.size
  · have hle : e.size.toNat ≤ offset.toNat := UInt32.le_iff_toNat_le.mp hend
    rw [if_pos hend, if_pos (by omega)]
  rw [if_neg hend]
  have hlt : offset.toNat < e.size.toNat := by
    rw [ge_iff_le, UInt32.le_iff_toNat_le] at hend
    omega
  have h512 : v.sb.block_size.toNat = 512 := by rw [hg.block_size]; rfl
  -- the request is cut to the end of the file
  have hsize : (if offset + n > e.size then e.size - offset else n).toNat =
      min n.toNat (e.size.toNat - offset.toNat) := by
    have hadd : (offset + n).toNat = offset.toNat + n.toNat := by
      rw [UInt32.toNat_add, Nat.mod_eq_of_lt hwrap]
    split
    · rename_i hgt
      rw [gt_iff_lt, UInt32.lt_iff_toNat_lt, hadd] at hgt
      rw [UInt32.toNat_sub_of_le _ _ (UInt32.le_iff_toNat_le.mpr hlt.le)]
      omega
    · rename_i hgt
      rw [gt_iff_lt, UInt32.lt_iff_toNat_lt, hadd] at hgt
      omega
  have hblock : e.start + offset / v.sb.block_size = e.start := by
    have hzero : offset / v.sb.block_size = 0 := by
      apply UInt32.toNat_inj.mp
      rw [UInt32.toNat_div, h512]
      exact Nat.div_eq_of_lt (by omega)
    rw [hzero, UInt32.add_zero]
  have hintra : (offset % v.sb.block_size).toNat = offset.toNat := by
    rw [UInt32.toNat_mod, h512, Nat.mod_eq_of_lt (by omega)]
  dsimp only
  rw [hsize, hblock, hintra]
  by_cases hzero : min n.toNat (e.size.toNat - offset.toNat) = 0
  · rw [hzero, if_pos rfl]
    rfl
  rw [if_neg hzero, readBlocks_one hg hzero (by omega)]
  split
  · rfl
  · rfl

theorem read_file_congr (hg : Geometry v) (ha : Alike v v') (hsmall : e.size.toNat ≤ 512)
    (hblock : v'.read_block e.start = v.read_block e.start) (hwrap : offset.toNat + n.toNat < 2 ^ 32) :
    xvfs_read_file v' e offset n = xvfs_read_file v e offset n := by
  rw [read_file_small hg hsmall hwrap, read_file_small (hg.alike ha) hsmall hwrap, ha.readable, hblock]

theorem findSlot_eq_some_iff : findSlot buf p = some i ↔
    i < XVFS_MAX_FILES ∧ p (entryAt buf i) = true ∧ ∀ j < i, p (entryAt buf j) = false := by
  unfold findSlot
  rw [find?_range_eq_some]
  simp only [mem_range, Bool.not_eq_true']
  constructor
  · rintro ⟨hp, hidx, hfirst⟩
    exact ⟨hidx, hp, hfirst⟩
  · rintro ⟨hidx, hp, hfirst⟩
    exact ⟨hp, hidx, hfirst⟩

theorem findSlot_congr {buf' : Bytes}
    (h : ∀ j < XVFS_MAX_FILES, p (entryAt buf' j) = p (entryAt buf j)) : findSlot buf' p = findSlot buf p := by
  unfold findSlot
  apply find?_congr
  intro j hj
  exact h j (mem_range.mp hj)

theorem named_iff (ht : TokenName t) : e.named t = true ↔ (cstr e.name).take 16 = t := by
  unfold FileEntry.named XVFS_MAX_NAME
  rw [strncmpEq_iff, cstr_of_notMem ht.1, take_of_length_le (l := t) ht.2.le]

theorem named_unique {t' : Path} (ht : TokenName t) (ht' : TokenName t') (h : e.named t = true)
    (h' : e.named t' = true) : t = t' :=
  ((named_iff ht).mp h).symm.trans ((named_iff ht').mp h')

theorem named_newEntry (ht : TokenName t) (start size : UInt32) (attr : UInt8) :
    (newEntry t start size attr).named t = true := by
  rw [named_iff ht, cstr_newEntry, cstr_of_notMem ht.1, take_take]
  exact take_of_length_le (by have := ht.2; omega)

/-- The slot `(d, i)` answers for the name afterwards, and before it answered for the same name or for none. -/
structure Answers (v v' : Vol) (d : UInt32) (i : Nat) (e : FileEntry) (name : Path) : Prop where
  token : TokenName name
  named : e.named name = true
  old : ∀ {t}, TokenName t → t ≠ name → ((v.slot d i).live && (v.slot d i).named t) = false
  before : v.byName d name = none ∨ v.byName d name = some i ∧ (v.slot d i).isDir = false
  after : v'.byName d name = some i

section Stored

variable {data : Bytes} (hi : Inv v) (hs : Stored v v' d i e data) (ha : Answers v v' d i e name)
  (hfile : e.isDir = false)

include hs ha

/-- A lookup of another name, or in another directory, finds the same slot as before, and not the file's. -/
theorem Answers.lookup_elsewhere {t : Path} (hc : Dir v c) (ht : TokenName t) (hne : ¬(c = d ∧ t = name))
    (hp : ∀ x, p x = true → x.live = true ∧ x.named t = true) :
    findSlot (v'.read_block c) p = findSlot (v.read_block c) p ∧
      ∀ {j}, findSlot (v.read_block c) p = some j → (c, j) ≠ (d, i) := by
  by_cases hd : c = d
  · subst hd
    have hname : t ≠ name := fun h => hne ⟨rfl, h⟩
    have hnew : p e = false := Bool.eq_false_iff.mpr fun h => hname (named_unique ht ha.token (hp e h).2 ha.named)
    have hold : p (v.slot c i) = false := by
      refine Bool.eq_false_iff.mpr fun h => ?_
      have hlookup := ha.old ht hname
      rw [(hp _ h).1, (hp _ h).2] at hlookup
      cases hlookup
    constructor
    · apply findSlot_congr
      intro j _
      by_cases hj : j = i
      · rw [hj, hs.change.entry_self, hnew, hold]
      · rw [hs.change.entry_of_ne hc fun h => hj (Prod.mk.inj h).2]
    · intro j hj heq
      obtain rfl := (Prod.mk.inj heq).2
      rw [(findSlot_some hj).2] at hold
      cases hold
  · exact ⟨by rw [hs.change.others hc hd], fun _ h => hd (Prod.mk.inj h).1⟩

include hi hfile

theorem Answers.resolveTokens_eq (want_dir : Bool) {toks : List Path} (htoks : ∀ t ∈ toks, (0 : UInt8) ∉ t)
    {dir : UInt32} (hdir : Dir v dir) (last : Path) :
    resolveTokens v' want_dir dir last toks = resolveTokens v want_dir dir last toks := by
  induction toks generalizing dir last with
  | nil => rfl
  | cons token rest ih =>
    have hrest : ∀ t ∈ rest, (0 : UInt8) ∉ t := fun t ht => htoks t (mem_cons_of_mem token ht)
    unfold resolveTokens
    by_cases hlen : token.length ≥ 16
    · rw [if_pos hlen, if_pos hlen]
    have htoken : TokenName token := ⟨htoks token mem_cons_self, by omega⟩
    rw [if_neg hlen, if_neg hlen]
    dsimp only
    by_cases hname : dir = d ∧ token = name
    · -- the name of the file: a regular file and a missing one stop the walk in the same way
      obtain ⟨rfl, rfl⟩ := hname
      rw [show findSlot _ _ = _ from ha.after]
      dsimp only
      rw [hs.change.entry_self, hfile]
      rcases ha.before with hnone | ⟨hsome, hold⟩
      · rw [show findSlot _ _ = _ from hnone]
        cases rest <;> cases want_dir <;> rfl
      rw [show findSlot _ _ = _ from hsome]
      dsimp only
      rw [hold]
      rfl
    · have hfind := ha.lookup_elsewhere hs hdir htoken hname (p := fun e => e.live && e.named token)
        fun x hx => Bool.and_eq_true_iff.mp hx
      rw [hfind.1]
      rcases hslot : findSlot (v.read_block dir) fun e => e.live && e.named token with _ | j
      · rfl
      dsimp only
      rw [hs.change.entry_of_ne hdir (hfind.2 hslot)]
      obtain ⟨hidx, hp⟩ := findSlot_some hslot
      split
      · split
        · rename_i hisdir
          exact ih hrest (hi.start_reach hdir hidx (Bool.and_eq_true_iff.mp hp).1 hisdir) token
        · rfl
      · rfl

theorem Answers.resolve_eq (q : Path) (want_dir : Bool) :
    xvfs_resolve_path v' q want_dir = xvfs_resolve_path v q want_dir := by
  unfold xvfs_resolve_path
  rw [hs.change.alike.data_start, hs.change.alike.current]
  refine ha.resolveTokens_eq hi hs hfile want_dir (fun t ht => (mem_tokens ht).2) ?_ []
  rw [hi.geom.data_start, hi.geom.current, ite_self]
  exact .root

omit ha hfile in
theorem Stored.other_block (hc : Dir v c) (hidx : j < XVFS_MAX_FILES) (hlive : (v.slot c j).live = true)
    (hreg : (v.slot c j).isDir = false) (hne : (c, j) ≠ (d, i)) :
    (v.slot c j).size.toNat ≤ 512 ∧
      v'.read_block (v.slot c j).start = v.read_block (v.slot c j).start := by
  obtain ⟨hgood, hsmall, hn⟩ := hi.node hc hidx hlive (dotLink_file hreg)
  have hnr := hi.start_not_reach hc hn (by rw [hreg]; rfl) (mem_singleton_self _)
  have hfresh := hs.node.fresh hc hn hne
  refine ⟨hsmall, hs.frame hgood.low.le (fun h => hfresh ?_) fun h => hnr (h ▸ hs.change.dir)⟩
  exact mem_singleton.mpr h.symm

theorem Answers.find_file_other {q : Path} (hq : xvfs_resolve_path v q false ≠ some (d, name)) :
    xvfs_find_file v' q = xvfs_find_file v q ∧ ∀ x, xvfs_find_file v q = some (some x) →
        x.size.toNat ≤ 512 ∧ v'.read_block x.start = v.read_block x.start := by
  unfold xvfs_find_file
  rw [ha.resolve_eq hi hs hfile]
  rcases hres : xvfs_resolve_path v q false with _ | cn
  · exact ⟨rfl, fun x hx => by cases hx⟩
  obtain ⟨c, nm⟩ := cn
  obtain ⟨hreach, htoken⟩ := resolve_spec hi hres
  rw [bind_eq_bind, bind_some, bind_some]
  dsimp only
  rw [hs.change.alike.readable]
  split
  · exact ⟨rfl, fun x hx => by cases some.inj hx⟩
  rename_i hstop
  have hc0 : c ≠ 0 := fun h => hstop (by simp [h])
  have hc := hreach.resolve_left hc0
  have hother : ¬(c = d ∧ nm = name) := by
    rintro ⟨rfl, rfl⟩
    exact hq hres
  have hfind := ha.lookup_elsewhere hs hc htoken hother (p := fun e => e.live && !e.isDir && e.named nm)
    fun x hx => by
      simp only [Bool.and_eq_true] at hx
      exact ⟨hx.1.1, hx.2⟩
  rw [hfind.1]
  rcases hslot : findSlot (v.read_block c) fun e => e.live && !e.isDir && e.named nm with _ | j
  · exact ⟨rfl, fun x hx => by cases some.inj hx⟩
  have hne := hfind.2 hslot
  obtain ⟨hidx, hp⟩ := findSlot_some hslot
  simp only [Bool.and_eq_true, Bool.not_eq_true'] at hp
  refine ⟨?_, fun x hx => ?_⟩
  · rw [map_some, map_some, hs.change.entry_of_ne hc hne]
  · obtain rfl := some.inj (some.inj hx)
    exact hs.other_block hi hc hidx hp.1.1 hp.1.2 hne

theorem Answers.find_file_self {path : Path} (hres : xvfs_resolve_path v path false = some (d, name))
    (hd0 : d ≠ 0) : xvfs_find_file v' path = some (some e) := by
  have hread : v'.readable d = true := by
    rw [hs.change.alike.readable]
    exact hi.reach_readable hs.change.dir
  obtain ⟨hidx, hp, hfirst⟩ := findSlot_eq_some_iff.mp ha.after
  have hfind : findSlot (v'.read_block d) (fun e => e.live && !e.isDir && e.named name) = some i := by
    rw [findSlot_eq_some_iff]
    refine ⟨hidx, ?_, fun j hj => ?_⟩
    · rw [hs.change.entry_self] at hp ⊢
      rw [hfile]
      simpa using hp
    · rcases Bool.and_eq_false_iff.mp (hfirst j hj) with h | h <;> rw [h] <;> simp
  unfold xvfs_find_file
  rw [ha.resolve_eq hi hs hfile, hres, bind_eq_bind, bind_some]
  dsimp only
  rw [hread, hfind, if_neg (by simp [hd0]), map_some, hs.change.entry_self]

end Stored

section Write

variable {data : Bytes} {size : UInt32} {path : Path}

theorem answers_overwrite (hs : Stored v v' d i e data) (ht : TokenName name) (hfile : e.isDir = false)
    (hsome : v.byName d name = some i) (he : e = { v.slot d i with size := size }) : Answers v v' d i e name := by
  obtain ⟨hidx, hp, hfirst⟩ := findSlot_eq_some_iff.mp hsome
  have hlive : e.live = true ∧ e.named name = true := by
    rw [he]
    exact Bool.and_eq_true_iff.mp hp
  have hreg : (v.slot d i).isDir = false := by
    rw [he] at hfile
    exact hfile
  refine ⟨ht, hlive.2, fun ht' hne => ?_, .inr ⟨hsome, hreg⟩, findSlot_eq_some_iff.mpr ⟨hidx, ?_, ?_⟩⟩
  · refine Bool.eq_false_iff.mpr fun h => hne ?_
    exact named_unique ht' ht (Bool.and_eq_true_iff.mp h).2 (Bool.and_eq_true_iff.mp hp).2
  · rw [hs.change.entry_self, hlive.1, hlive.2]
    rfl
  · intro j hj
    rw [hs.change.entry_of_ne hs.change.dir fun h => hj.ne (Prod.mk.inj h).2]
    exact hfirst j hj

theorem answers_create {start : UInt32} (hs : Stored v v' d i (newEntry name start size 0) data) (ht : TokenName name)
    (hnone : v.byName d name = none) (hlive : (newEntry name start size 0).live = true)
    (hold : (v.slot d i).live = false) : Answers v v' d i (newEntry name start size 0) name := by
  have hnamed := named_newEntry ht start size 0
  refine ⟨ht, hnamed, fun _ _ => by rw [hold]; rfl, .inl hnone,
    findSlot_eq_some_iff.mpr ⟨hs.change.idx, ?_, ?_⟩⟩
  · rw [hs.change.entry_self, hlive, hnamed]
    rfl
  · intro j hj
    rw [hs.change.entry_of_ne hs.change.dir fun h => hj.ne (Prod.mk.inj h).2]
    exact findSlot_none hnone (hj.trans hs.change.idx)

theorem writesOnly_of_stored (hi : Inv v) (hs : Stored v v' d i e data) (ha : Answers v v' d i e name)
    (hfile : e.isDir = false) (hsize : e.size = size) (hd0 : d ≠ 0)
    (hres : xvfs_resolve_path v path false = some (d, name)) : WritesOnly v v' path data size := by
  have hg' := hi.geom.alike hs.change.alike
  refine ⟨⟨e, ha.find_file_self hi hs hfile hres hd0, hsize, fun n hn => ?_⟩, fun q hq => ?_, ?_⟩
  · have hle : e.size.toNat ≤ n.toNat := by
      rw [hsize]
      exact UInt32.le_iff_toNat_le.mp hn
    have hmin : min n.toNat (e.size.toNat - (0 : UInt32).toNat) = e.size.toNat := by
      change min n.toNat (e.size.toNat - 0) = _
      omega
    have hlt := n.toNat_lt
    rw [read_file_small hg' hs.node.small (by change 0 + n.toNat < 2 ^ 32; omega), hmin, ← hsize]
    split
    · rename_i hzero
      rw [hzero]
      rfl
    · have hhigh := hs.node.good.high
      rw [hg'.readable hhigh, if_pos rfl]
      refine congrArg some (Bytes.slice_congr fun k _ hk => ?_)
      exact hs.content k (by simpa using hk)
  · rw [hres] at hq
    obtain ⟨hfind, hblock⟩ := ha.find_file_other hi hs hfile hq
    refine ⟨hfind, fun x hx offset n hwrap => ?_⟩
    obtain ⟨hsmall, hread⟩ := hblock x hx
    exact read_file_congr hi.geom hs.change.alike hsmall hread hwrap
  · intro c hc hne
    rw [hi.geom.root] at hc
    refine hs.change.others hc fun h => hne name ?_
    rw [h, hres]

/-- A successful write of at most one block, in a state reached by fitting operations, changes its own file and nothing
else. -/
theorem write_touches_own_file (dev : Device) (base_lba total_sectors : UInt32) (stack : Bytes)
    (ho : OnDevice dev base_lba total_sectors) (ops : List Op)
    (hfits : EachStep next (fun v op => ∀ u ∈ v, Fits u op) (formatted dev base_lba total_sectors stack) ops)
    (v : Vol) (hv : exec next (formatted dev base_lba total_sectors stack) ops = some v)
    (path : Path) (data : Bytes) (size : UInt32) (hwrite : Fits v (.writeFile path data size))
    (hname : writeTarget v path = none → NamesFile v path) (v' : Vol)
    (hok : xvfs_write_file v path data size = some (true, v')) : WritesOnly v v' path data size := by
  obtain ⟨u, hu, hi⟩ := throughout_iff_prefix.mp
    (inv_throughout dev base_lba total_sectors stack ho ops hfits) ops prefix_rfl
  obtain rfl := some.inj (hv.symm.trans hu)
  obtain ⟨hpath, hfile, halloc⟩ := hwrite
  obtain ⟨⟨d, name⟩, hres⟩ := isSome_iff_exists.mp hpath
  rcases write_stored hi hres hfile halloc data with
    hfail | ⟨hd0, w, i, e, heq, hs, hes, hreg, hcase⟩
  · cases hfail.symm.trans hok
  cases heq.symm.trans hok
  have ht := (resolve_spec hi hres).2
  refine writesOnly_of_stored hi hs ?_ hreg hes hd0 hres
  rcases hcase with ⟨hsome, he⟩ | ⟨hnone, hslot, b, rfl⟩
  · exact answers_overwrite hs ht hreg hsome he
  · obtain ⟨hlive, hfree⟩ := hname (by rw [writeTarget_eq hres, hnone]; rfl) _ hres
    exact answers_create hs ht hnone hlive (hfree i hslot)

def fileAndDir : List Op := [.createFile [slash, 0x61] (fun k => UInt8.ofNat k) 3, .mkdir [0x64]]

theorem write_touches_own_file_in_dir : ∃ v v', exec next smallVolume fileAndDir = some v ∧
    xvfs_write_file v [slash, 0x64, slash, 0x62] (fun _ => 7) 100 = some (true, v') ∧
    WritesOnly v v' [slash, 0x64, slash, 0x62] (fun _ => 7) 100 := by
  obtain ⟨v, hv⟩ := isSome_iff_exists.mp (by decide +kernel : (exec next smallVolume fileAndDir).isSome = true)
  have hwrite : ∀ v ∈ exec next smallVolume fileAndDir,
      (Fits v (.writeFile [slash, 0x64, slash, 0x62] (fun _ => 7) 100) ∧ NamesFile v [slash, 0x64, slash, 0x62]) ∧
      (xvfs_write_file v [slash, 0x64, slash, 0x62] (fun _ => 7) 100).map Prod.fst = some true := by
    decide +kernel
  obtain ⟨⟨hfits, hname⟩, hok⟩ := hwrite v hv
  obtain ⟨⟨ok, v'⟩, hv', rfl⟩ := Option.map_eq_some_iff.mp hok
  exact ⟨v, v', hv, hv', write_touches_own_file smallDevice 0 64 (fun _ => 0)
    ⟨by decide, by decide, by decide⟩ fileAndDir (by decide +kernel) v hv _ _ _ hfits (fun _ => hname) v' hv'⟩

/-- The file "/a" of two blocks; only its first block is marked. -/
def largeFile : List Op := [.createFile [slash, 0x61] (fun _ => 1) 1024]

theorem write_over_large_file : ∃ v v', exec next smallVolume largeFile = some v ∧
    xvfs_write_file v [slash, 0x62] (fun _ => 2) 1 = some (true, v') ∧
    ¬WritesOnly v v' [slash, 0x62] (fun _ => 2) 1 := by
  obtain ⟨v, hv⟩ := isSome_iff_exists.mp (by decide +kernel : (exec next smallVolume largeFile).isSome = true)
  have hread : ∀ v ∈ exec next smallVolume largeFile,
      xvfs_resolve_path v [slash, 0x61] false ≠ xvfs_resolve_path v [slash, 0x62] false ∧
        ∃ e ∈ (xvfs_find_file v [slash, 0x61]).join, xvfs_read_file v e 512 1 = some [1] ∧
          ∃ r ∈ xvfs_write_file v [slash, 0x62] (fun _ => 2) 1, r.1 = true ∧ xvfs_read_file r.2 e 512 1 = some [2] := by
    decide +kernel
  obtain ⟨hne, e, he, hbefore, ⟨ok, v'⟩, hr, rfl, hafter⟩ := hread v hv
  refine ⟨v, v', hv, hr, fun hw => ?_⟩
  have hsame := (hw.others _ hne).2 e (Option.join_eq_some_iff.mp he) 512 1 (by decide)
  rw [hbefore] at hsame
  exact absurd (hafter.symm.trans hsame) (by decide)

end Write

end Orion.Xvfs
