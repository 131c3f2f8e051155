import Mathlib.Data.Bool.AllAny
import Orion.Lib.Bitmap
import Orion.Xvfs.Run
import Orion.Xvfs.Proofs.BlockProofs

/-!
# Proofs: what `xvfs_format_at` leaves

The sectors of a formatted volume are known, one by one. The bitmap has room for 32768 blocks whatever the size
of the volume.
-/

namespace Orion.Xvfs

open Lib Vol List Bytes
open Device (write_sectors write_inRange)

variable {v : Vol} {dev : Device} {base_lba total_sectors : UInt32} {k : UInt32}

theorem add_ne {a b : UInt32} (h : a ≠ b) : base_lba + a ≠ base_lba + b :=
  fun heq => h ((UInt32.add_right_inj _).mp heq)

theorem decode_encode (sb : Superblock) : decodeSuper (encodeSuper sb) = sb := by
  unfold decodeSuper encodeSuper
  simp (disch := decide) only [get32_put32, get32_put32_of_disjoint]

theorem formatMark_eq (s : Device × Bytes) {b : UInt32} (hb : b.toNat < 4096) :
    formatMark base_lba s b = (s.1.write (base_lba + 2) ((s.1.read (base_lba + 2) s.2).bitSet b.toNat),
      (s.1.read (base_lba + 2) s.2).bitSet b.toNat) := by
  have hblock : b / bits_per_block = 0 := by
    apply UInt32.toNat_inj.mp
    rw [UInt32.toNat_div]
    exact Nat.div_eq_of_lt hb
  have hbyte : byteIndex b = b.toNat / 8 := by
    rw [toNat_byteIndex, Nat.mod_eq_of_lt hb]
  unfold formatMark
  rw [hblock, UInt32.add_zero, hbyte, bitMask_eq]
  rfl

theorem foldl_formatMark (base_lba : UInt32) (bs : List UInt32) (hbs : ∀ b ∈ bs, b.toNat < 4096) (s : Device × Bytes) (buf : Bytes) :
    (bs.foldl (formatMark base_lba) s).1.sectors = s.1.sectors ∧
      (∀ lba, lba ≠ base_lba + 2 → (bs.foldl (formatMark base_lba) s).1.read lba buf = s.1.read lba buf) ∧
      (s.1.inRange (base_lba + 2) = true → (bs.foldl (formatMark base_lba) s).1.read (base_lba + 2) buf =
        (bs.map UInt32.toNat).foldl Bytes.bitSet (s.1.read (base_lba + 2) buf)) := by
  induction bs generalizing s with
  | nil => exact ⟨rfl, fun _ _ => rfl, fun _ => rfl⟩
  | cons b bs ih =>
    have hmark : formatMark base_lba s b = _ := formatMark_eq s (hbs b mem_cons_self)
    obtain ⟨hsec, hother, hbits⟩ := ih (fun c hc => hbs c (mem_cons_of_mem b hc)) (formatMark base_lba s b)
    rw [foldl_cons, map_cons, foldl_cons]
    rw [hmark] at hsec hother hbits ⊢
    refine ⟨hsec.trans write_sectors, ?_, ?_⟩
    · intro lba hne
      rw [hother lba hne]
      exact Device.read_write_of_ne hne
    · intro hin
      -- the buffer of the loop plays no part, since the sector can be read
      have hread : s.1.read (base_lba + 2) s.2 = s.1.read (base_lba + 2) buf := by
        rw [Device.read, Device.read, if_pos hin, if_pos hin]
      rw [hbits (by rw [write_inRange]; exact hin), Device.read_write_self hin, hread]

theorem foldl_clear (base_lba : UInt32) (is : List UInt32) (dev : Device) (buf : Bytes) :
    (is.foldl (fun dev i => dev.write (base_lba + 2 + i) fun _ => 0) dev).sectors = dev.sectors ∧
      (∀ lba, (∀ i ∈ is, lba ≠ base_lba + 2 + i) →
        (is.foldl (fun dev i => dev.write (base_lba + 2 + i) fun _ => 0) dev).read lba buf = dev.read lba buf) ∧
      ∀ i ∈ is, dev.inRange (base_lba + 2 + i) = true →
        (is.foldl (fun dev i => dev.write (base_lba + 2 + i) fun _ => 0) dev).read (base_lba + 2 + i) buf =
          fun _ => 0 := by
  induction is generalizing dev with
  | nil => exact ⟨rfl, fun _ _ => rfl, fun i hi => absurd hi not_mem_nil⟩
  | cons i is ih =>
    obtain ⟨hsec, hread, hzero⟩ := ih (dev.write (base_lba + 2 + i) fun _ => 0)
    rw [foldl_cons]
    refine ⟨hsec.trans write_sectors, ?_, ?_⟩
    · intro lba hne
      rw [hread lba fun j hj => hne j (mem_cons_of_mem i hj)]
      exact Device.read_write_of_ne (hne i mem_cons_self)
    · intro j hj hin
      by_cases hmem : j ∈ is
      · exact hzero j hmem (by rw [write_inRange]; exact hin)
      obtain rfl : j = i := (mem_cons.mp hj).resolve_right hmem
      rw [hread (base_lba + 2 + j)]
      · exact Device.read_write_self hin
      intro l hl
      apply add_ne
      rintro rfl
      exact hmem hl

theorem formatHead_spec (h0 : dev.inRange base_lba = true) (h1 : dev.inRange (base_lba + 1) = true)
    (total_sectors : UInt32) (buf : Bytes) :
    (formatHead dev base_lba total_sectors).read base_lba buf = signatureSector ∧
      (formatHead dev base_lba total_sectors).read (base_lba + 1) buf = encodeSuper (formatSuper total_sectors) := by
  have hzero : base_lba = base_lba + 0 := (UInt32.add_zero _).symm
  have hfar : ∀ i ∈ (List.range 8).map UInt32.ofNat, (0 : UInt32) ≠ 2 + i ∧ (1 : UInt32) ≠ 2 + i :=
    all_iff_forall_prop.mp (by decide)
  unfold formatHead
  dsimp only
  obtain ⟨-, hread, -⟩ := foldl_clear base_lba ((List.range 8).map UInt32.ofNat)
    ((dev.write base_lba signatureSector).write (base_lba + 1) (encodeSuper (formatSuper total_sectors))) buf
  constructor
  · rw [hread base_lba fun i hi => ?_]
    · rw [Device.read_write_of_ne, Device.read_write_self h0]
      nth_rewrite 1 [hzero]
      exact add_ne (by decide)
    · nth_rewrite 1 [hzero]
      rw [UInt32.add_assoc]
      exact add_ne (hfar i hi).1
  · rw [hread (base_lba + 1) fun i hi => ?_]
    · rw [Device.read_write_self]
      rw [write_inRange]
      exact h1
    · rw [UInt32.add_assoc]
      exact add_ne (hfar i hi).2

theorem formatHead_sectors : (formatHead dev base_lba total_sectors).sectors = dev.sectors := by
  unfold formatHead
  rw [(foldl_clear base_lba _ _ fun _ => 0).1, write_sectors, write_sectors]

theorem formatHead_bitmap (hk : k.toNat < 8) (hin : dev.inRange (base_lba + 2 + k) = true) (buf : Bytes) :
    (formatHead dev base_lba total_sectors).read (base_lba + 2 + k) buf = fun _ => 0 := by
  have hmem : k ∈ (List.range 8).map UInt32.ofNat := mem_map.mpr ⟨k.toNat, mem_range.mpr hk, UInt32.ofNat_toNat⟩
  unfold formatHead
  exact (foldl_clear base_lba _ _ buf).2.2 k hmem (by rw [write_inRange, write_inRange]; exact hin)

/-- The first sector of the bitmap: the bits of the blocks 0 to 10. -/
def freshBitmap : Bytes := (List.range 11).foldl Bytes.bitSet fun _ => 0

theorem bitTest_freshBitmap (j : ℕ) : freshBitmap.bitTest j = decide (j ≤ 10) := by
  have hzero : Bytes.bitTest (fun _ => 0) j = false := by simp [Bytes.bitTest]
  rw [freshBitmap, bitTest_foldl_bitSet, hzero, Bool.false_or, decide_eq_decide, mem_range]
  omega

section Format

variable (hne : total_sectors ≠ 0) (stack buf : Bytes)

include hne

theorem format_marked (dev : Device) (base_lba : UInt32) : ∃ marked : Device,
    (xvfs_format_at dev base_lba total_sectors stack).2 = marked.write (base_lba + 10) (stack.splice 0 500 fun _ => 0) ∧
      marked.sectors = dev.sectors ∧
      (∀ lba, lba ≠ base_lba + 2 → marked.read lba buf = (formatHead dev base_lba total_sectors).read lba buf) ∧
      (dev.inRange (base_lba + 2) = true → marked.read (base_lba + 2) buf =
        (List.range 11).foldl Bytes.bitSet ((formatHead dev base_lba total_sectors).read (base_lba + 2) buf)) := by
  have hsmall : ∀ b ∈ (List.range 11).map UInt32.ofNat, b.toNat < 4096 := all_iff_forall_prop.mp (by decide)
  have hback : ((List.range 11).map UInt32.ofNat).map UInt32.toNat = List.range 11 := by decide
  have hhead : (formatHead dev base_lba total_sectors).sectors = dev.sectors := formatHead_sectors
  unfold xvfs_format_at
  rw [if_neg hne]
  dsimp only
  generalize (List.range 11).map UInt32.ofNat = bs at hsmall hback ⊢
  generalize formatHead dev base_lba total_sectors = head at hhead ⊢
  obtain ⟨hsec, hother, hbits⟩ := foldl_formatMark base_lba bs hsmall (head, fun _ => 0) buf
  refine ⟨_, rfl, hsec.trans hhead, hother, ?_⟩
  intro hin
  rw [← hback]
  apply hbits
  rw [Device.inRange, hhead]
  exact hin

theorem format_read (h2 : k ≠ 2) (h10 : k ≠ 10) :
    (xvfs_format_at dev base_lba total_sectors stack).2.read (base_lba + k) buf =
      (formatHead dev base_lba total_sectors).read (base_lba + k) buf := by
  obtain ⟨marked, heq, -, hother, -⟩ := format_marked hne stack buf dev base_lba
  rw [heq, Device.read_write_of_ne (add_ne h10)]
  exact hother _ (add_ne h2)

theorem format_sectors : (xvfs_format_at dev base_lba total_sectors stack).2.sectors = dev.sectors := by
  obtain ⟨marked, heq, hsec, -, -⟩ := format_marked hne stack stack dev base_lba
  rw [heq, write_sectors]
  exact hsec

theorem format_inRange (lba : UInt32) :
    (xvfs_format_at dev base_lba total_sectors stack).2.inRange lba = dev.inRange lba := by
  rw [Device.inRange, format_sectors hne, Device.inRange]

theorem format_root (hin : dev.inRange (base_lba + 10) = true) :
    (xvfs_format_at dev base_lba total_sectors stack).2.read (base_lba + 10) buf = stack.splice 0 500 fun _ => 0 := by
  obtain ⟨marked, heq, hsec, -, -⟩ := format_marked hne stack buf dev base_lba
  rw [heq]
  apply Device.read_write_self
  rw [Device.inRange, hsec]
  exact hin

theorem format_bitmap (hk : k.toNat < 8) (hin : dev.inRange (base_lba + 2 + k) = true) :
    (xvfs_format_at dev base_lba total_sectors stack).2.read (base_lba + 2 + k) buf =
      if k = 0 then freshBitmap else fun _ => 0 := by
  have hclear : (formatHead dev base_lba total_sectors).read (base_lba + 2 + k) buf = _ := formatHead_bitmap hk hin buf
  split
  · rename_i hzero
    rw [hzero, UInt32.add_zero] at hin hclear ⊢
    obtain ⟨marked, heq, -, -, hbits⟩ := format_marked hne stack buf dev base_lba
    rw [heq, Device.read_write_of_ne (add_ne (by decide)), hbits hin, hclear]
    rfl
  · rename_i hpos
    have htwo : 2 + k ≠ 2 := fun h => hpos (by simpa using h)
    have hten : 2 + k ≠ 10 := by
      intro h
      have hnat := congrArg UInt32.toNat h
      simp only [UInt32.toNat_add, UInt32.reduceToNat] at hnat
      omega
    rw [UInt32.add_assoc] at hclear ⊢
    rw [format_read hne stack buf htwo hten]
    exact hclear

/-- A formatted volume is mounted with the superblock that was written, if its first two sectors are there. -/
theorem formatted_eq (h0 : dev.inRange base_lba = true) (h1 : dev.inRange (base_lba + 1) = true) :
    formatted dev base_lba total_sectors stack =
      some ⟨(xvfs_format_at dev base_lba total_sectors stack).2, base_lba, formatSuper total_sectors, 10, stack⟩ := by
  have hsig : signatureSector.slice 0 5 = signature := by decide
  obtain ⟨hread0, hread1⟩ := formatHead_spec h0 h1 total_sectors stack
  have hfirst : (xvfs_format_at dev base_lba total_sectors stack).2.read base_lba stack = signatureSector := by
    have hread : (xvfs_format_at dev base_lba total_sectors stack).2.read (base_lba + 0) stack = _ :=
      format_read hne stack stack (by decide) (by decide)
    rw [UInt32.add_zero] at hread
    exact hread.trans hread0
  have hsecond := (format_read hne stack stack (by decide) (by decide)).trans hread1
  rw [formatted, xvfs_init, format_inRange hne, format_inRange hne, h0, h1, if_neg (by decide), hfirst, hsig,
    if_neg (by simp), hsecond, decode_encode]
  rw [if_neg (by simp [formatSuper])]
  rfl

end Format

/-- The volume has room for its root directory and lies on the device. -/
structure OnDevice (dev : Device) (base_lba total_sectors : UInt32) : Prop where
  root : 10 < total_sectors.toNat
  no_wrap : base_lba.toNat + total_sectors.toNat ≤ 2 ^ 32
  fits : base_lba.toNat + total_sectors.toNat ≤ dev.sectors

theorem OnDevice.inRange (ho : OnDevice dev base_lba total_sectors) (hk : k.toNat ≤ 10) :
    dev.inRange (base_lba + k) = true := by
  have hroot := ho.root
  have hwrap := ho.no_wrap
  have hfits := ho.fits
  unfold Device.inRange
  rw [UInt32.toNat_add, Nat.mod_eq_of_lt (by omega), decide_eq_true_eq]
  omega

theorem used_eq_bitTest (v : Vol) (b : UInt32) :
    used v b = (v.read_block (bitmapBlock v b)).bitTest (b.toNat % 4096) := by
  have hmod : b.toNat % 4096 % 8 = b.toNat % 8 := by omega
  rw [used_eq, bitTest_eq_testBit, toNat_byteIndex, hmod]

section Mounted

variable (ho : OnDevice dev base_lba total_sectors) (stack : Bytes)

include ho

theorem OnDevice.ne_zero : total_sectors ≠ 0 := by
  rintro rfl
  exact absurd ho.root (by decide)

theorem OnDevice.formatted_eq : formatted dev base_lba total_sectors stack =
    some ⟨(xvfs_format_at dev base_lba total_sectors stack).2, base_lba, formatSuper total_sectors, 10, stack⟩ := by
  have h0 : dev.inRange (base_lba + 0) = true := ho.inRange (by decide)
  rw [UInt32.add_zero] at h0
  exact Xvfs.formatted_eq ho.ne_zero stack h0 (ho.inRange (by decide))

variable (hv : v = ⟨(xvfs_format_at dev base_lba total_sectors stack).2, base_lba, formatSuper total_sectors, 10, stack⟩)

include hv

theorem fresh_bitmap (hk : k.toNat < 8) : v.read_block (2 + k) = if k = 0 then freshBitmap else fun _ => 0 := by
  have hin : dev.inRange (base_lba + (2 + k)) = true := by
    apply ho.inRange
    simp only [UInt32.toNat_add, UInt32.reduceToNat]
    omega
  rw [← UInt32.add_assoc] at hin
  rw [hv, Vol.read_block, ← UInt32.add_assoc]
  exact format_bitmap ho.ne_zero stack stack hk hin

theorem fresh_used {b : UInt32} (hb : b.toNat < 32768) : used v b = decide (b.toNat ≤ 10) := by
  have hdiv : (b / bits_per_block).toNat = b.toNat / 4096 := UInt32.toNat_div b bits_per_block
  have hblock : bitmapBlock v b = 2 + b / bits_per_block := by
    rw [hv]
    rfl
  rw [used_eq_bitTest, hblock, fresh_bitmap ho stack hv (by omega)]
  by_cases hzero : b / bits_per_block = 0
  · have hsmall : b.toNat / 4096 = 0 := by
      rw [← hdiv, hzero]
      rfl
    rw [if_pos hzero, bitTest_freshBitmap, decide_eq_decide]
    omega
  · have hlarge : b.toNat / 4096 ≠ 0 := fun h => hzero (UInt32.toNat_inj.mp (hdiv.trans h))
    rw [if_neg hzero]
    have hclear : Bytes.bitTest (fun _ => 0) (b.toNat % 4096) = false := by simp [Bytes.bitTest]
    rw [hclear, eq_comm, decide_eq_false_iff_not]
    omega

theorem fresh_find (hsize : total_sectors.toNat ≤ 32768) : (xvfs_find_free_block v).1 = 11 := by
  have hsb : v.sb = formatSuper total_sectors := by rw [hv]
  have hread : v.readable (v.sb.bitmap_start + 0) = true := by
    rw [hv, Vol.readable]
    show ((xvfs_format_at dev base_lba total_sectors stack).2).inRange (base_lba + 2) = true
    rw [format_inRange ho.ne_zero]
    exact ho.inRange (by decide)
  have hbuf : v.read_block (v.sb.bitmap_start + 0) = freshBitmap := by
    rw [hsb]
    exact fresh_bitmap ho stack hv (k := 0) (by decide)
  have hfree : freeIn v 0 freshBitmap = some 11 := by
    have hfull : freshBitmap 0 = 0xFF := by decide
    have hnext : freshBitmap 1 = 7 := by decide
    have hbits : (List.range 8).findSome? (fun bit => if (7 : UInt8) &&& 1 <<< UInt8.ofNat bit = 0 &&
        !decide (0 * bits_per_block + UInt32.ofNat (1 * 8 + bit) < 10) then
        some (0 * bits_per_block + UInt32.ofNat (1 * 8 + bit)) else none) = some 11 := by decide
    have hrange : List.range 512 = 0 :: 1 :: List.range' 2 510 := by
      rw [range_eq_range', List.range'_succ, List.range'_succ]
    unfold freeIn xvfs_is_reserved
    rw [hrange, hsb, findSome?_cons, hfull, if_pos rfl]
    rw [findSome?_cons, hnext, if_neg (by decide)]
    rw [show (formatSuper total_sectors).data_start = 10 from rfl, hbits]
  obtain ⟨n, hn⟩ : ∃ n, ((v.sb.total_blocks + bits_per_block - 1) / bits_per_block).toNat = n + 1 := by
    apply Nat.exists_eq_add_one.mpr
    have hroot := ho.root
    have htotal : v.sb.total_blocks = total_sectors := by
      rw [hsb]
      rfl
    have hbits : bits_per_block.toNat = 4096 := rfl
    rw [htotal, UInt32.toNat_div, UInt32.toNat_sub, UInt32.toNat_add, hbits]
    simp only [UInt32.reduceToNat]
    omega
  unfold xvfs_find_free_block
  dsimp only
  rw [hn, scanBitmap, if_pos hread, hbuf, hfree]
  rfl

end Mounted

section Sound

variable (hne : total_sectors ≠ 0) (hbase : base_lba.toNat + total_sectors.toNat ≤ 2 ^ 32)
  (hdisk : base_lba.toNat + total_sectors.toNat ≤ dev.sectors) (stack : Bytes)

include hne

theorem sb_of_formatted (h : formatted dev base_lba total_sectors stack = some v) :
    v.sb = formatSuper total_sectors := by
  by_cases hin : dev.inRange base_lba = true ∧ dev.inRange (base_lba + 1) = true
  · rw [formatted_eq hne stack hin.1 hin.2] at h
    rw [← Option.some.inj h]
  have hnone : formatted dev base_lba total_sectors stack = none := by
    rw [formatted, xvfs_init, format_inRange hne, format_inRange hne, if_pos]
    rw [Bool.or_eq_true, Bool.not_eq_true', Bool.not_eq_true', ← Bool.not_eq_true, ← Bool.not_eq_true, ← not_and_or]
    exact hin
  rw [hnone] at h
  cases h

theorem sizeFits_of_sound (h : formatted dev base_lba total_sectors stack = some v) (hsound : SoundVolume v) :
    SizeFits total_sectors := by
  have hlaid := hsound.laidOut
  have hcovers := hsound.covers
  unfold Vol.regions at hlaid
  rw [sb_of_formatted hne stack h] at hlaid hcovers
  -- the root directory is block 10, and the bitmap has eight blocks
  have hroot : 0 ≤ 10 ∧ 10 + 1 ≤ total_sectors.toNat := hlaid.inside (10, 1) (by simp [formatSuper])
  have hbits : total_sectors.toNat ≤ (10 - 2) * 4096 := hcovers
  exact ⟨by omega, by omega⟩

omit hne

include hbase hdisk

theorem sound_of_sizeFits (hfits : SizeFits total_sectors) :
    ∃ v, formatted dev base_lba total_sectors stack = some v ∧ SoundVolume v := by
  obtain ⟨hlow, hhigh⟩ := hfits
  have ho : OnDevice dev base_lba total_sectors := ⟨hlow, hbase, hdisk⟩
  obtain ⟨v, hv⟩ : ∃ v : Vol, v =
    ⟨(xvfs_format_at dev base_lba total_sectors stack).2, base_lba, formatSuper total_sectors, 10, stack⟩ := ⟨_, rfl⟩
  have hsb : v.sb = formatSuper total_sectors := by rw [hv]
  refine ⟨v, by rw [hv]; exact ho.formatted_eq stack, ?_, ?_, ?_, ?_⟩
  · unfold Vol.regions
    rw [hsb]
    show LaidOut 0 total_sectors.toNat [(1, 1), (2, 8), (10, 1), (10 + 1, total_sectors.toNat - (10 + 1))]
    refine .cons ?_ ?_ (.cons ?_ ?_ (.cons ?_ ?_ (.cons ?_ ?_ .nil)))
    all_goals omega
  · have hdata : (formatSuper total_sectors).data_start.toNat = 10 := rfl
    have hbitmap : (formatSuper total_sectors).bitmap_start.toNat = 2 := rfl
    rw [hsb, hdata, hbitmap]
    exact hhigh
  · intro b hb
    rw [hsb] at hb ⊢
    have hb' : b.toNat < total_sectors.toNat := hb
    rw [fresh_used ho stack hv (by omega), decide_eq_true_eq]
    rfl
  · rintro ⟨b, hb1, hb2⟩
    rw [hsb] at hb1 hb2
    have hb1' : 10 < b.toNat := hb1
    have hb2' : b.toNat < total_sectors.toNat := hb2
    rw [fresh_find ho stack hv hhigh, Vol.IsData, hsb]
    refine ⟨(by decide : (10 : UInt32) < 11), ?_⟩
    show 11 < total_sectors.toNat
    omega

include hne

/-- A formatted volume is sound exactly if it has from 11 to 32768 blocks. With 11 there is none for data, and the
search returns the block behind the volume. -/
theorem format_sound_iff_size : (xvfs_format_at dev base_lba total_sectors stack).1 = true ∧
      ((∃ v, formatted dev base_lba total_sectors stack = some v ∧ SoundVolume v) ↔ SizeFits total_sectors) ∧
      (total_sectors = 11 → ∃ v, formatted dev base_lba total_sectors stack = some v ∧
        (xvfs_find_free_block v).1 = v.sb.total_blocks) := by
  refine ⟨by rw [xvfs_format_at, if_neg hne], ⟨?_, ?_⟩, ?_⟩
  · rintro ⟨v, hv, hsound⟩
    exact sizeFits_of_sound hne stack hv hsound
  · exact sound_of_sizeFits hbase hdisk stack
  · rintro rfl
    have ho : OnDevice dev base_lba 11 := ⟨by decide, hbase, hdisk⟩
    exact ⟨_, ho.formatted_eq stack, fresh_find ho stack rfl (by decide)⟩

end Sound

def blankDisk : Device := ⟨40000, fun _ _ => 0⟩

theorem format_sound_32768 : (∃ v, formatted blankDisk 0 32768 (fun _ => 0) = some v ∧ SoundVolume v) ∧
      ¬ ∃ v, formatted blankDisk 0 10 (fun _ => 0) = some v ∧ SoundVolume v := by
  constructor
  · exact (format_sound_iff_size (by decide) (by decide) (by decide) fun _ => 0).2.1.mpr (by decide)
  · intro h
    exact absurd ((format_sound_iff_size (by decide) (by decide) (by decide) fun _ => 0).2.1.mp h) (by decide)

theorem format_lacks_a_bit : (xvfs_format_at blankDisk 0 32769 fun _ => 0).1 = true ∧
      ∃ v, formatted blankDisk 0 32769 (fun _ => 0) = some v ∧
        (v.sb.data_start.toNat - v.sb.bitmap_start.toNat) * 4096 < v.sb.total_blocks.toNat ∧ ¬ SoundVolume v := by
  have hne : (32769 : UInt32) ≠ 0 := by decide
  have hv : formatted blankDisk 0 32769 (fun _ => 0) = some _ := formatted_eq hne (fun _ => 0) (by decide) (by decide)
  refine ⟨by rw [xvfs_format_at, if_neg hne], _, hv, (by decide : (10 - 2) * 4096 < (32769 : UInt32).toNat), ?_⟩
  intro hsound
  exact absurd (sizeFits_of_sound hne _ hv hsound) (by decide)

end Orion.Xvfs
