import Orion.Lib.Words
import Orion.Xvfs.Run

/-!
# Entries and bits of an XVFS volume

The entries of a directory block are separate records, and the bits of the bitmap are separate bits: each
write changes the one it is for.
-/

namespace Orion.Xvfs

open Lib Vol List Function Bytes
open UInt32 (toNat_add toNat_div toNat_mod toNat_inj)

section Entries

variable {buf buf' : Bytes} {i j : Nat} {e : FileEntry} {buf : Bytes} {p : FileEntry → Bool}

theorem entryAt_congr (h : Bytes.Agree buf buf' (25 * i) 25) : entryAt buf i = entryAt buf' i := by
  unfold entryAt
  rw [slice_congr (h.mono le_rfl (by omega)), get32_congr (h.mono (by omega) (by omega)),
    get32_congr (o := 25 * i + 20) (h.mono (by omega) (by omega)),
    h (25 * i + 24) (by omega) (by omega)]

theorem entryAt_putEntry_self (hname : e.name.length = 16) : entryAt (putEntry buf i e) i = e := by
  unfold entryAt putEntry
  set b1 := buf.splice (25 * i) 16 (Bytes.ofList e.name) with hb1
  set b2 := b1.put32 (25 * i + 16) e.start with hb2
  set b3 := b2.put32 (25 * i + 20) e.size with hb3
  set b4 := b3.splice (25 * i + 24) 1 fun _ => e.attr with hb4
  have h43 : ∀ {o n : Nat}, o + n ≤ 25 * i + 24 → Bytes.Agree b4 b3 o n := fun h => agree_splice (.inl h)
  have h32 : ∀ {o n : Nat}, o + n ≤ 25 * i + 20 → Bytes.Agree b3 b2 o n := fun h => agree_splice (.inl h)
  have h21 : ∀ {o n : Nat}, o + n ≤ 25 * i + 16 → Bytes.Agree b2 b1 o n := fun h => agree_splice (.inl h)
  have hnm : b4.slice (25 * i) 16 = e.name := by
    have hagree : Bytes.Agree b4 b1 (25 * i) 16 := ((h43 (by omega)).trans (h32 (by omega))).trans (h21 (by omega))
    rw [slice_congr hagree, hb1, ← hname]
    exact slice_splice_ofList buf (25 * i) e.name
  have hstart : b4.get32 (25 * i + 16) = e.start := by
    rw [get32_congr ((h43 (by omega)).trans (h32 (by omega)))]
    exact get32_put32 b1 _ _
  have hsize : b4.get32 (25 * i + 20) = e.size := by
    rw [get32_congr (h43 (by omega))]
    exact get32_put32 b2 _ _
  have hattr : b4 (25 * i + 24) = e.attr := splice_inside (by omega) (by omega)
  rw [hnm, hstart, hsize, hattr]

theorem entryAt_putEntry_of_ne (h : j ≠ i) : entryAt (putEntry buf i e) j = entryAt buf j := by
  apply entryAt_congr
  have hout : ∀ {o n : Nat} {b src : Bytes}, 25 * i ≤ o → o + n ≤ 25 * i + 25 →
      Bytes.Agree (b.splice o n src) b (25 * j) 25 := by
    intro o n b src h1 h2
    exact agree_splice (by omega)
  unfold putEntry Bytes.put32
  exact (((hout (by omega) (by omega)).trans (hout (by omega) (by omega))).trans
    (hout (by omega) (by omega))).trans (hout (by omega) (by omega))

theorem length_entryAt_name (buf : Bytes) (i : Nat) : (entryAt buf i).name.length = 16 := length_slice ..

theorem findSlot_some (h : findSlot buf p = some i) : i < XVFS_MAX_FILES ∧ p (entryAt buf i) = true := by
  have hp := find?_some h
  exact ⟨mem_range.mp (mem_of_find?_eq_some h), hp⟩

theorem findSlot_none (h : findSlot buf p = none) (hi : i < XVFS_MAX_FILES) : p (entryAt buf i) = false := by
  have := find?_eq_none.mp h i (mem_range.mpr hi)
  simpa using this

end Entries

/-- The static variables that no operation changes, apart from the count of free blocks. -/
structure Alike (v v' : Vol) : Prop where
  base : v'.xvfs_base_lba = v.xvfs_base_lba
  sectors : v'.dev.sectors = v.dev.sectors
  bitmap_start : v'.sb.bitmap_start = v.sb.bitmap_start
  data_start : v'.sb.data_start = v.sb.data_start
  block_size : v'.sb.block_size = v.sb.block_size
  total : v'.sb.total_blocks = v.sb.total_blocks
  current : v'.current_dir_block = v.current_dir_block
  stack : v'.stack = v.stack

theorem Alike.refl (v : Vol) : Alike v v := ⟨rfl, rfl, rfl, rfl, rfl, rfl, rfl, rfl⟩

variable {u v w : Vol} {blk : UInt32}

theorem Alike.trans (h : Alike u v) (h' : Alike v w) : Alike u w :=
  ⟨h'.base.trans h.base, h'.sectors.trans h.sectors, h'.bitmap_start.trans h.bitmap_start,
    h'.data_start.trans h.data_start, h'.block_size.trans h.block_size, h'.total.trans h.total,
    h'.current.trans h.current, h'.stack.trans h.stack⟩

theorem alike_write_block (v : Vol) (b : UInt32) (buf : Bytes) : Alike v (v.write_block b buf) :=
  ⟨rfl, Device.write_sectors, rfl, rfl, rfl, rfl, rfl, rfl⟩

theorem alike_setFreeBlocks (v : Vol) (n : UInt32) : Alike v (v.setFreeBlocks n) :=
  ⟨rfl, rfl, rfl, rfl, rfl, rfl, rfl, rfl⟩

theorem alike_mark (v : Vol) (b : UInt32) (u : Bool) : Alike v (xvfs_mark_block v b u) := by
  unfold xvfs_mark_block
  dsimp only
  split
  · exact alike_write_block v _ _
  · exact (alike_setFreeBlocks v _).trans (alike_write_block _ _ _)

variable {v v' : Vol} {b c d : UInt32}

theorem Alike.readable (h : Alike v v') (b : UInt32) : v'.readable b = v.readable b := by
  unfold Vol.readable Device.inRange
  rw [h.base, h.sectors]

/-- A formatted volume that lies on its device. -/
structure Geometry (v : Vol) : Prop where
  bitmap_start : v.sb.bitmap_start = 2
  data_start : v.sb.data_start = 10
  block_size : v.sb.block_size = 512
  current : v.current_dir_block = 10
  total : 10 < v.sb.total_blocks.toNat
  no_wrap : v.xvfs_base_lba.toNat + v.sb.total_blocks.toNat ≤ 2 ^ 32
  on_device : v.xvfs_base_lba.toNat + v.sb.total_blocks.toNat ≤ v.dev.sectors

theorem Geometry.alike (hg : Geometry v) (h : Alike v v') : Geometry v' where
  bitmap_start := h.bitmap_start.trans hg.bitmap_start
  data_start := h.data_start.trans hg.data_start
  block_size := h.block_size.trans hg.block_size
  current := h.current.trans hg.current
  total := by rw [h.total]; exact hg.total
  no_wrap := by rw [h.base, h.total]; exact hg.no_wrap
  on_device := by rw [h.base, h.total, h.sectors]; exact hg.on_device

theorem Geometry.readable (hg : Geometry v) (hb : b.toNat < v.sb.total_blocks.toNat) : v.readable b = true := by
  have hwrap := hg.no_wrap
  have hdev := hg.on_device
  unfold Vol.readable Device.inRange
  rw [toNat_add, Nat.mod_eq_of_lt (by omega)]
  simp only [decide_eq_true_eq]
  omega

theorem read_write_self (hb : v.readable b = true) : (v.write_block b buf).read_block b = buf :=
  Device.read_write_self hb

theorem read_write_of_ne (h : c ≠ b) : (v.write_block b buf).read_block c = v.read_block c :=
  Device.read_write_of_ne fun heq => h ((UInt32.add_right_inj _).mp heq)

theorem toNat_byteIndex (b : UInt32) : byteIndex b = b.toNat % 4096 / 8 := by
  unfold byteIndex bits_per_block
  rw [toNat_div, toNat_mod]
  rfl

theorem bitMask_eq (b : UInt32) : bitMask b = bit (b.toNat % 8) := by
  have hnat : (b % bits_per_block % 8).toNat = b.toNat % 8 := by
    rw [toNat_mod, toNat_mod]
    change b.toNat % 4096 % 8 = b.toNat % 8
    omega
  have hword : (b % bits_per_block % 8).toUInt8 = UInt8.ofNat (b.toNat % 8) := by
    rw [← hnat]
    rfl
  unfold bitMask bit
  rw [hword]

theorem toNat_bitmapBlock (hg : Geometry v) (b : UInt32) : (bitmapBlock v b).toNat = 2 + b.toNat / 4096 := by
  have hlt := b.toNat_lt
  unfold bitmapBlock bits_per_block
  rw [hg.bitmap_start, toNat_add, toNat_div]
  change (2 + b.toNat / 4096) % 2 ^ 32 = _
  omega

theorem used_eq (v : Vol) (b : UInt32) :
    used v b = ((v.read_block (bitmapBlock v b)) (byteIndex b)).toNat.testBit (b.toNat % 8) := by
  have h := and_bit_ne_zero (k := b.toNat % 8) (by omega) ((v.read_block (bitmapBlock v b)) (byteIndex b))
  unfold used
  rw [bitMask_eq, Bool.eq_iff_iff, decide_eq_true_eq]
  exact h

theorem mark_read (v : Vol) (b : UInt32) (u : Bool) (hL : v.readable (bitmapBlock v b) = true) :
    ∃ byte : UInt8, (xvfs_mark_block v b u).read_block (bitmapBlock v b) =
        update (v.read_block (bitmapBlock v b)) (byteIndex b) byte ∧
      ∀ l < 8, byte.toNat.testBit l =
        if l = b.toNat % 8 then u else ((v.read_block (bitmapBlock v b)) (byteIndex b)).toNat.testBit l := by
  have hk : b.toNat % 8 < 8 := by omega
  have htest := and_bit_ne_zero hk ((v.read_block (bitmapBlock v b)) (byteIndex b))
  unfold xvfs_mark_block
  dsimp only
  rw [bitMask_eq]
  generalize hbyte : (v.read_block (bitmapBlock v b)) (byteIndex b) = old at htest ⊢
  split
  · -- the bit has the value already
    rename_i hsame
    refine ⟨old, ?_, fun l _ => ?_⟩
    · rw [read_write_self hL, ← hbyte, update_eq_self]
    split
    · rename_i hl
      rw [hl, hsame, Bool.eq_iff_iff, decide_eq_true_eq]
      exact htest.symm
    · rfl
  · refine ⟨if u then old ||| bit (b.toNat % 8) else old &&& ~~~bit (b.toNat % 8), ?_, fun l hl => ?_⟩
    · exact read_write_self hL
    · cases u with
      | true =>
        rw [if_pos rfl, testBit_or_bit hk]
        split
        · rename_i heq
          simp [heq]
        · rename_i hne
          simp [Ne.symm hne]
      | false =>
        rw [if_neg (by simp), testBit_and_not_bit hk hl]
        split
        · rename_i heq
          simp [heq]
        · rename_i hne
          simp [Ne.symm hne]

theorem mark_read_of_ne {u : Bool} (h : c ≠ bitmapBlock v b) :
    (xvfs_mark_block v b u).read_block c = v.read_block c := by
  unfold xvfs_mark_block
  dsimp only
  split
  · exact read_write_of_ne h
  · exact read_write_of_ne h

section

variable (hg : Geometry v) (hb : b.toNat < 32768)

include hg hb

theorem Geometry.bitmap_readable : v.readable (bitmapBlock v b) = true := by
  have htotal := hg.total
  apply hg.readable
  rw [toNat_bitmapBlock hg]
  omega

theorem used_mark (u : Bool) (c : UInt32) : used (xvfs_mark_block v b u) c = if c = b then u else used v c := by
  obtain ⟨byte, hread, hbits⟩ := mark_read v b u (hg.bitmap_readable hb)
  have hblock : bitmapBlock (xvfs_mark_block v b u) c = bitmapBlock v c := by
    unfold bitmapBlock
    rw [(alike_mark v b u).bitmap_start]
  have hlb := toNat_bitmapBlock hg b
  have hlc := toNat_bitmapBlock hg c
  rw [used_eq, used_eq, hblock]
  by_cases hL : bitmapBlock v c = bitmapBlock v b
  · rw [hL, hread]
    have hdiv : c.toNat / 4096 = b.toNat / 4096 := by
      have := congrArg UInt32.toNat hL
      omega
    by_cases hbyte : byteIndex c = byteIndex b
    · rw [hbyte, update_self, hbits _ (by omega)]
      rw [toNat_byteIndex, toNat_byteIndex] at hbyte
      by_cases hcb : c = b
      · rw [if_pos hcb, if_pos (by rw [hcb])]
      rw [if_neg hcb, if_neg]
      intro hmod
      apply hcb
      apply toNat_inj.mp
      omega
    · have hne : c ≠ b := fun h => hbyte (by rw [h])
      rw [update_of_ne hbyte, if_neg hne]
  · have hne : c ≠ b := fun h => hL (by rw [h])
    rw [mark_read_of_ne hL, if_neg hne]

theorem Geometry.ne_bitmap (hc : 10 ≤ c.toNat) : c ≠ bitmapBlock v b := by
  intro h
  have := congrArg UInt32.toNat h
  rw [toNat_bitmapBlock hg] at this
  omega

end

theorem used_write (hg : Geometry v) (hb : 10 ≤ b.toNat) (hc : c.toNat < 32768) :
    used (v.write_block b buf) c = used v c := by
  have hblock : bitmapBlock (v.write_block b buf) c = bitmapBlock v c := rfl
  rw [used_eq, used_eq, hblock, read_write_of_ne (hg.ne_bitmap hc hb).symm]

theorem freeIn_some (h : freeIn v blk buf = some b) (hblk : blk.toNat < 2 ^ 20) :
    b.toNat / 4096 = blk.toNat ∧ (buf (b.toNat % 4096 / 8)).toNat.testBit (b.toNat % 8) = false ∧
      xvfs_is_reserved v b = false := by
  obtain ⟨byte, hbyte, hin⟩ := exists_of_findSome?_eq_some h
  have hbyte' := mem_range.mp hbyte
  split at hin
  · cases hin
  obtain ⟨k, hk, hfound⟩ := exists_of_findSome?_eq_some hin
  have hk' := mem_range.mp hk
  dsimp only at hfound
  split at hfound
  · rename_i htest
    obtain rfl := Option.some.inj hfound
    simp only [Bool.and_eq_true, decide_eq_true_eq, Bool.not_eq_eq_eq_not, Bool.not_true] at htest
    obtain ⟨hzero, hres⟩ := htest
    have hnat : (blk * bits_per_block + UInt32.ofNat (byte * 8 + k)).toNat = blk.toNat * 4096 + (byte * 8 + k) := by
      rw [toNat_add, UInt32.toNat_mul, UInt32.toNat_ofNat']
      change (blk.toNat * 4096 % 2 ^ 32 + _) % 2 ^ 32 = _
      omega
    rw [hnat]
    refine ⟨by omega, ?_, hres⟩
    have hbit := (and_bit_ne_zero hk' (buf byte)).not
    rw [not_not] at hbit
    have hclear := hbit.mp hzero
    rw [show (blk.toNat * 4096 + (byte * 8 + k)) % 4096 / 8 = byte by omega,
      show (blk.toNat * 4096 + (byte * 8 + k)) % 8 = k by omega]
    simpa using hclear
  · cases hfound

theorem scanBitmap_some {n : Nat} (h : scanBitmap v n blk = some b)
    (hn : blk.toNat + n ≤ 2 ^ 20) : used v b = false ∧ xvfs_is_reserved v b = false := by
  have hone : (1 : UInt32).toNat = 1 := rfl
  have h4096 : bits_per_block.toNat = 4096 := rfl
  induction n generalizing blk with
  | zero => cases h
  | succ n ih =>
    unfold scanBitmap at h
    by_cases hread : v.readable (v.sb.bitmap_start + blk) = true
    · rw [if_pos hread] at h
      rcases Option.or_eq_some_iff.mp h with hfree | ⟨-, hrest⟩
      · obtain ⟨hdiv, hclear, hres⟩ := freeIn_some hfree (by omega)
        have hblk : b / bits_per_block = blk := by
          apply toNat_inj.mp
          rw [toNat_div, h4096]
          exact hdiv
        refine ⟨?_, hres⟩
        rw [used_eq, toNat_byteIndex]
        unfold bitmapBlock
        rw [hblk]
        exact hclear
      · refine ih hrest ?_
        rw [toNat_add, hone]
        omega
    · rw [if_neg hread] at h
      cases h

/-- `xvfs_find_free_block` takes the block `b`, which was free. -/
structure Taken (v : Vol) (b : UInt32) : Prop where
  found : xvfs_find_free_block v = (b, xvfs_mark_block v b true)
  unused : used v b = false
  low : 10 ≤ b.toNat

theorem find_free_block_cases (hg : Geometry v) : xvfs_find_free_block v = (0, v) ∨ ∃ b, Taken v b := by
  rcases hscan : scanBitmap v ((v.sb.total_blocks + bits_per_block - 1) / bits_per_block).toNat 0 with _ | block
  · exact .inl (by rw [xvfs_find_free_block, hscan])
  have hbound : ((v.sb.total_blocks + bits_per_block - 1) / bits_per_block).toNat ≤ 2 ^ 20 := by
    have h4096 : bits_per_block.toNat = 4096 := rfl
    rw [toNat_div, h4096]
    have := (v.sb.total_blocks + bits_per_block - 1).toNat_lt
    omega
  obtain ⟨hfree, hres⟩ := scanBitmap_some hscan (by simpa using hbound)
  refine .inr ⟨block, by rw [xvfs_find_free_block, hscan], hfree, ?_⟩
  unfold xvfs_is_reserved at hres
  rw [hg.data_start, decide_eq_false_iff_not, UInt32.lt_iff_toNat_lt] at hres
  change ¬block.toNat < 10 at hres
  omega

/-- Between `v` and `v'` only the block `b` and its mark may differ. -/
structure Near (v v' : Vol) (b : UInt32) : Prop where
  alike : Alike v v'
  read : ∀ {c : UInt32}, 10 ≤ c.toNat → c ≠ b → v'.read_block c = v.read_block c
  marks : ∀ {c : UInt32}, c.toNat < 32768 → c ≠ b → used v' c = used v c

theorem Near.refl (v : Vol) (b : UInt32) : Near v v b := ⟨Alike.refl v, fun _ _ => rfl, fun _ _ => rfl⟩

theorem Near.trans (h : Near u v b) (h' : Near v w b) : Near u w b :=
  ⟨h.alike.trans h'.alike, fun hc hne => (h'.read hc hne).trans (h.read hc hne),
    fun hc hne => (h'.marks hc hne).trans (h.marks hc hne)⟩

theorem near_mark (hg : Geometry v) (hb : b.toNat < 32768) (u : Bool) : Near v (xvfs_mark_block v b u) b where
  alike := alike_mark v b u
  read hc _ := mark_read_of_ne (hg.ne_bitmap hb hc)
  marks _ hne := by rw [used_mark hg hb, if_neg hne]

theorem near_write (hg : Geometry v) (hb : 10 ≤ b.toNat) (buf : Bytes) : Near v (v.write_block b buf) b where
  alike := alike_write_block v b buf
  read _ hne := read_write_of_ne hne
  marks hc _ := used_write hg hb hc

end Orion.Xvfs
