import Orion.Fat16.Proofs.FailureProofs
import Orion.Syscall.Proofs.ReadProofs
import Orion.Syscall.Ranges

/-!
# Proofs: the readers of a part of a file

The loops of the readers give the segment that they are asked for. Where the sum of the offset and the size wraps, the
size is not cut at the end of the file.
-/

namespace Orion.Syscall

open Lib Fat List
open UInt32 (toNat_lt le_iff_toNat_le)

variable {mem : Bool} {data : List UInt8} {eoc csize first s o n : ℕ} {next : ℕ → ℕ} {area : ℕ → Bytes}
  {v : Fat.Vol} {r : Bytes}

/-- `size` after the check against the end of the file. -/
def clipped (s o n : ℕ) : ℕ := if (o + n) % 2 ^ 32 > s then s - o else n

theorem clipped_of_lt (hsum : o + n < 2 ^ 32) (ho : o < s) : clipped s o n = min n (s - o) := by
  unfold clipped
  rw [Nat.mod_eq_of_lt hsum]
  split_ifs
  · omega
  · omega

theorem clipped_of_wrap (hsum : ¬ o + n < 2 ^ 32) (ho : o < s) (hs : s < 2 ^ 32) (hn : n < 2 ^ 32) :
    clipped s o n = n ∧ s - o < n := by
  have hmod : (o + n) % 2 ^ 32 = o + n - 2 ^ 32 := by omega
  unfold clipped
  rw [hmod, if_neg (by omega)]
  exact ⟨rfl, by omega⟩

/-- With the clipped size, the bytes are those of the file exactly if the sum does not wrap or there are no other bytes.
-/
theorem take_clipped_iff {bytes : List UInt8} (hlen : s ≤ bytes.length) (ho : o < s) (hs : s < 2 ^ 32)
    (hn : n < 2 ^ 32) :
    (bytes.drop o).take (clipped s o n) = ((bytes.take s).drop o).take n ↔ o + n < 2 ^ 32 ∨ bytes.length = s := by
  have hslice : ((bytes.take s).drop o).take n = (bytes.drop o).take (min n (s - o)) := by
    rw [drop_take, take_take]
  rw [hslice]
  by_cases hsum : o + n < 2 ^ 32
  · rw [clipped_of_lt hsum ho]
    exact iff_of_true rfl (Or.inl hsum)
  obtain ⟨hclip, hmore⟩ := clipped_of_wrap hsum ho hs hn
  rw [hclip, min_eq_right (le_of_lt hmore)]
  constructor
  · intro heq
    have hcount := congrArg List.length heq
    simp only [length_take, length_drop] at hcount
    exact Or.inr (by omega)
  · rintro (hlt | hall)
    · exact absurd hlt hsum
    · have hrest : (bytes.drop o).length = s - o := by rw [length_drop, hall]
      rw [take_of_length_le (by omega), take_of_length_le (by omega)]

/-- What the range readers of both FAT drivers do. -/
def rangeCells (mem : Bool) (eoc : ℕ) (next : ℕ → ℕ) (area : ℕ → Bytes) (csize first s o n : ℕ) :
    Option (List UInt8) :=
  if s ≤ o then none
  else if !mem then none
  else (skipCells eoc next (o / csize) first).map fun c =>
    readCells eoc next area csize (clipped s o n) c (o % csize) (clipped s o n)

theorem fat16_read_file_range_eq (mem : Bool) (v : Fat.Vol) (r : Bytes) (o n : ℕ) : Fat16.read_file_range mem v r o n =
      rangeCells mem Fat16.eoc v.fat (fun c => v.area (some c)) v.clusterSize (firstLow r) (fileSize r) o n := by
  unfold Fat16.read_file_range rangeCells
  by_cases hend : fileSize r ≤ o
  · rw [if_pos hend, if_pos hend]
  rw [if_neg hend, if_neg hend]
  rcases mem with _ | _
  · rfl
  cases skipCells Fat16.eoc v.fat (o / v.clusterSize) (firstLow r) with
  | none => rfl
  | some c => rfl

theorem fat32_read_file_range_eq (mem : Bool) (v : Fat32.Vol) (r : Bytes) (o n : ℕ) :
    Fat32.read_file_range mem v r o n =
      rangeCells mem Fat32.eoc v.next v.cluster v.clusterSize (Fat32.firstCluster r) (fileSize r) o n := by
  unfold Fat32.read_file_range rangeCells
  by_cases hend : fileSize r ≤ o
  · rw [if_pos hend, if_pos hend]
  rw [if_neg hend, if_neg hend]
  rcases mem with _ | _
  · rfl
  cases skipCells Fat32.eoc v.next (o / v.clusterSize) (Fat32.firstCluster r) with
  | none => rfl
  | some c => rfl

theorem ChainFile.data_eq (h : ChainFile eoc next area csize first s data) :
    s ≤ (cellBytes eoc next area csize first).length ∧ data = (cellBytes eoc next area csize first).take s := by
  have hcontents := h.contents
  unfold firstBytes at hcontents
  split_ifs at hcontents with hle
  exact ⟨hle, (Option.some.inj hcontents).symm⟩

theorem slice_behind (hlen : data.length ≤ o) (n : ℕ) : (data.drop o).take n = [] := by
  rw [drop_of_length_le hlen, take_nil]

theorem rangeCells_iff (h : ChainFile eoc next area csize first s data) (hs : s < 2 ^ 32) (hn : n < 2 ^ 32) :
    (rangeCells mem eoc next area csize first s o n).getD [] = (data.drop o).take n ↔
      ClustersReadable mem eoc next csize first s o n := by
  obtain ⟨hle, rfl⟩ := h.data_eq
  unfold ClustersReadable rangeCells
  by_cases hend : s ≤ o
  · rw [if_pos hend, slice_behind (by rw [length_take]; omega)]
    exact iff_of_true rfl (Or.inl hend)
  have ho : o < s := not_le.mp hend
  by_cases hzero : n = 0
  · refine iff_of_true ?_ (Or.inr (Or.inl hzero))
    have hclip : clipped s o n = 0 := by rw [clipped_of_lt (by omega) ho, hzero, Nat.zero_min]
    rw [hclip, hzero, take_zero, if_neg hend]
    split_ifs
    · rfl
    · cases skipCells eoc next (o / csize) first with
      | none => rfl
      | some c => rfl
  rw [if_neg hend]
  cases mem with
  | false =>
    refine iff_of_false ?_ (by simp [hend, hzero])
    intro hnil
    have hlen : 0 = _ := congrArg List.length hnil
    simp only [length_take, length_drop] at hlen
    omega
  | true =>
    obtain ⟨d, hskip, hread⟩ := cells_read_sound (n := clipped s o n) h.sound.linked (lt_of_lt_of_le ho hle) le_rfl
    rw [if_neg (by decide), hskip, Option.map_some, Option.getD_some, hread,
      take_clipped_iff hle ho hs hn, length_cellBytes]
    simp [hend, hzero]

theorem length_walk_le (eoc : ℕ) (next : ℕ → ℕ) (k c : ℕ) : (walk eoc next k c).length ≤ k := by
  induction k generalizing c with
  | zero => exact le_rfl
  | succ k ih =>
    unfold walk
    split
    · exact Nat.succ_le_succ (ih (next c))
    · exact Nat.zero_le _

theorem fat16_read_file_eq
    (h : ChainFile Fat16.eoc v.fat (fun c => v.area (some c)) v.clusterSize (firstLow r) (fileSize r) data)
    (hfirst : firstLow r ≠ 0) (o n : ℕ) : Fat16.read_file v r o n = some ((data.drop o).take n) := by
  obtain ⟨hlen, -, -⟩ := firstBytes_some h.contents
  by_cases hend : fileSize r ≤ o
  · rw [Fat16.read_file, if_neg hfirst, if_pos hend, slice_behind (by omega)]
  by_cases hzero : n = 0
  · rw [Fat16.read_file, if_neg hfirst, if_neg hend, hzero, Nat.zero_min, take_zero]
    cases Fat16.skipClusters v (o / v.clusterSize) (firstLow r) with
    | none => rfl
    | some c => rfl
  have hsame : Fat16.read_file v r o n = Fat16.read_file v r o (min n (fileSize r - o)) := by
    simp only [Fat16.read_file, min_assoc, min_self]
  have htake : (data.drop o).take n = (data.drop o).take (min n (fileSize r - o)) := by
    rw [← hlen, ← length_drop, ← take_take, take_length]
  rw [hsame, htake]
  exact fat16_read_eq h.contents (by omega) (by omega)

theorem asInt_of_lt {k : ℕ} (h : k < 2 ^ 31) : Fat16.asInt k = k := if_pos h

theorem asInt_eq_iff (k : ℕ) : Fat16.asInt k = k ↔ k < 2 ^ 31 := by
  unfold Fat16.asInt
  split_ifs with h
  · exact iff_of_true rfl h
  · exact iff_of_false (by omega) h

theorem fat16_read_file_iff (o n : UInt32)
    (h : ChainFile Fat16.eoc v.fat (fun c => v.area (some c)) v.clusterSize (firstLow r) (fileSize r) data) :
    IsSlice data o.toNat n.toNat ((Reader.fat16_read_file v r).run mem o n) ↔
      (Reader.fat16_read_file v r).Readable mem o n := by
  by_cases hfirst : firstLow r = 0
  · -- the result is -1, but an empty file has no other than this number
    refine iff_of_false (fun hslice => ?_) (fun hreadable => hreadable.1 hfirst)
    have hnone : Fat16.read_file v r o.toNat n.toNat = none := if_pos hfirst
    have hcount := hslice.count (-1) (by simp only [Reader.run, hnone]; rfl)
    omega
  have hread := fat16_read_file_eq h hfirst o.toNat n.toNat
  constructor
  · intro hslice
    exact ⟨hfirst, hslice.inBounds⟩
  rintro ⟨-, hroom⟩
  have hbytes : ((Reader.fat16_read_file v r).run mem o n).bytes = (data.drop o.toNat).take n.toNat := by
    simp only [Reader.run, hread]
    rfl
  refine ⟨hbytes, fun k hk => ?_, hroom⟩
  have hint : Fat16.asInt ((data.drop o.toNat).take n.toNat).length = k := by
    simp only [Reader.run, hread] at hk
    exact Option.some.inj hk
  have hsmall : ((data.drop o.toNat).take n.toNat).length < 2 ^ 31 := by
    obtain ⟨hle, hdata⟩ := h.data_eq
    rw [length_cellBytes] at hle
    have hcells : (chain Fat16.eoc v.fat (firstLow r)).length ≤ 0xFFF8 := length_walk_le _ _ _ _
    have hlen := congrArg List.length hdata
    simp only [length_take, length_cellBytes] at hlen
    simp only [staticRoom, Bool.or_eq_true, decide_eq_true_eq] at hroom
    rw [length_take, length_drop]
    rcases hroom with (hbuffer | hend) | hzero
    · have hmul := Nat.mul_le_mul hcells hbuffer
      omega
    · omega
    · omega
  rw [hbytes, ← hint, asInt_of_lt hsmall]

variable {v : Xvfs.Vol} {e : Xvfs.FileEntry}

theorem xvfs_contents (h : contentsOf (.xvfs v []) (.xvfs e) = some data) :
    v.sb.block_size = 512 ∧ (∀ k < (e.size.toNat + 511) / 512, v.readable (xvfsBlock e k) = true) ∧
      data = (List.range e.size.toNat).map (xvfsByte v e) := by
  simp only [contentsOf] at h
  split_ifs at h with hfile
  exact ⟨hfile.1, hfile.2, (Option.some.inj h).symm⟩

theorem slice_bytes (s o n : ℕ) : (((List.range s).map (xvfsByte v e)).drop o).take n =
      (List.range (min n (s - o))).map fun i => xvfsByte v e (o + i) := by
  rw [← map_drop, ← map_take]
  have hrange : ((List.range s).drop o).take n = (List.range (min n (s - o))).map (o + ·) := by
    apply ext_getElem
    · simp
    · intro i hi hi'
      simp
  rw [hrange, map_map]
  rfl

theorem BlocksRead.len_iff {len : ℕ} {result : List UInt8 × Bool}
    (h : BlocksRead v e o (clipped e.size.toNat o n) len result)
    (hread : ∀ k < (e.size.toNat + 511) / 512, v.readable (xvfsBlock e k) = true) (ho : o < e.size.toNat)
    (hn : n < 2 ^ 32) : len = min n (e.size.toNat - o) ↔ BlocksReadable v e o n := by
  have hs : e.size.toNat < 2 ^ 32 := toNat_lt e.size
  have hle := h.le
  unfold BlocksReadable
  by_cases hsum : o + n < 2 ^ 32
  · rw [clipped_of_lt hsum ho] at h hle
    refine iff_of_true ?_ (Or.inr (Or.inl hsum))
    by_contra hne
    exact hne (h.complete hread (by omega))
  · obtain ⟨hclip, hmore⟩ := clipped_of_wrap hsum ho hs hn
    rw [hclip] at h hle
    rw [min_eq_right (le_of_lt hmore)]
    constructor
    · intro hlen
      obtain ⟨hblock, hedge⟩ := h.stopped (by omega)
      rw [show o + len = e.size.toNat by omega] at hblock hedge
      exact Or.inr (Or.inr ⟨hedge.resolve_left (by omega), hblock⟩)
    · rintro (hend | hlt | ⟨hedge, hblock⟩)
      · omega
      · exact absurd hlt hsum
      · -- the block behind the file stops the loop, and none of the file's blocks does
        have hnot : len ≤ e.size.toNat - o := by
          by_contra hgt
          have hbehind := h.readable (e.size.toNat - o) (by omega)
          rw [show o + (e.size.toNat - o) = e.size.toNat by omega, hblock] at hbehind
          cases hbehind
        by_contra hne
        have hall := h.complete hread (by omega)
        omega

theorem toNat_clipped {s o n : UInt32} (ho : o.toNat < s.toNat) :
    (if o + n > s then s - o else n).toNat = clipped s.toNat o.toNat n.toNat := by
  have hs := toNat_lt s
  have hsum : o + n > s ↔ (o.toNat + n.toNat) % 2 ^ 32 > s.toNat := by
    rw [gt_iff_lt, UInt32.lt_iff_toNat_lt, UInt32.toNat_add]
  unfold clipped
  by_cases hgt : (o.toNat + n.toNat) % 2 ^ 32 > s.toNat
  · rw [if_pos hgt, if_pos (hsum.mpr hgt), UInt32.toNat_sub]
    omega
  · rw [if_neg hgt, if_neg fun h => hgt (hsum.mp h)]

/-- Both readers of XVFS behind the check of the offset: the bytes of the loop, which is not stopped at once. -/
theorem xvfs_loop {o n : UInt32} (hblock : v.sb.block_size = 512)
    (hread : ∀ k < (e.size.toNat + 511) / 512, v.readable (xvfsBlock e k) = true) (ho : o.toNat < e.size.toNat) :
    ∃ len result, BlocksRead v e o.toNat (clipped e.size.toNat o.toNat n.toNat) len result ∧
      Xvfs.xvfs_read_file_range v e o n = (result.2, result.1) ∧ Xvfs.xvfs_read_file v e o n = some result.1 := by
  obtain ⟨len, h⟩ := readBlocks_spec (v := v) e hblock (p := o.toNat) (le_refl (clipped e.size.toNat o.toNat n.toNat))
  have hlt : ¬ o ≥ e.size := by
    rw [ge_iff_le, le_iff_toNat_le]
    omega
  refine ⟨len, _, h, ?_, ?_⟩
  · unfold Xvfs.xvfs_read_file_range
    rw [if_neg hlt]
    dsimp only
    rw [toNat_clipped ho, xvfs_start_block e hblock, xvfs_intra_offset hblock]
  · unfold Xvfs.xvfs_read_file
    rw [if_neg hlt]
    dsimp only
    rw [toNat_clipped ho, xvfs_start_block e hblock, xvfs_intra_offset hblock, if_pos]
    by_cases hlen : len = 0
    · have hcount : len = _ := h.complete hread (by omega)
      rw [h.ok, decide_eq_true hcount]
      rfl
    · rw [h.bytes]
      simp [hlen]

theorem xvfs_bytes_iff {o n : UInt32} (h : contentsOf (.xvfs v []) (.xvfs e) = some data) :
    (Xvfs.xvfs_read_file_range v e o n).2 = (data.drop o.toNat).take n.toNat ↔ BlocksReadable v e o.toNat n.toNat := by
  obtain ⟨hblock, hread, rfl⟩ := xvfs_contents h
  by_cases hend : e.size.toNat ≤ o.toNat
  · have hge : o ≥ e.size := le_iff_toNat_le.mpr hend
    rw [Xvfs.xvfs_read_file_range, if_pos hge, slice_behind (by simpa using hend)]
    exact iff_of_true rfl (Or.inl hend)
  · have ho := not_le.mp hend
    obtain ⟨len, result, hloop, hrange, -⟩ := xvfs_loop (n := n) hblock hread ho
    rw [hrange, slice_bytes, ← hloop.len_iff hread ho (toNat_lt n), hloop.bytes]
    constructor
    · intro heq
      simpa using congrArg List.length heq
    · intro hlen
      rw [hlen]

theorem xvfs_read_file_eq {o n : UInt32} (h : contentsOf (.xvfs v []) (.xvfs e) = some data) :
    Xvfs.xvfs_read_file v e o n = some (Xvfs.xvfs_read_file_range v e o n).2 := by
  obtain ⟨hblock, hread, -⟩ := xvfs_contents h
  by_cases hend : e.size.toNat ≤ o.toNat
  · have hge : o ≥ e.size := le_iff_toNat_le.mpr hend
    rw [Xvfs.xvfs_read_file, Xvfs.xvfs_read_file_range, if_pos hge, if_pos hge]
  · obtain ⟨len, result, -, hrange, hfile⟩ := xvfs_loop (n := n) hblock hread (not_le.mp hend)
    rw [hrange, hfile]

theorem xvfs_read_file_iff (o n : UInt32) (h : contentsOf (.xvfs v []) (.xvfs e) = some data) :
    IsSlice data o.toNat n.toNat ((Reader.xvfs_read_file v e).run mem o n) ↔
      (Reader.xvfs_read_file v e).Readable mem o n := by
  have hrun : (Reader.xvfs_read_file v e).run mem o n =
      ⟨(Xvfs.xvfs_read_file_range v e o n).2, some (Fat16.asInt (Xvfs.xvfs_read_file_range v e o n).2.length), true⟩ := by
    simp only [Reader.run, xvfs_read_file_eq h]
    rfl
  have hlen : ((data.drop o.toNat).take n.toNat).length = min n.toNat (e.size.toNat - o.toNat) := by
    obtain ⟨-, -, rfl⟩ := xvfs_contents h
    simp
  rw [hrun]
  constructor
  · intro hslice
    have hbytes : (Xvfs.xvfs_read_file_range v e o n).2 = (data.drop o.toNat).take n.toNat := hslice.bytes
    have hcount := (asInt_eq_iff _).mp (hslice.count _ rfl)
    rw [hbytes, hlen] at hcount
    exact ⟨(xvfs_bytes_iff h).mp hbytes, hcount⟩
  · rintro ⟨hreadable, hsmall⟩
    have hbytes := (xvfs_bytes_iff h).mpr hreadable
    refine ⟨hbytes, fun k hk => ?_, rfl⟩
    rw [← Option.some.inj hk]
    refine (asInt_eq_iff _).mpr ?_
    rw [hbytes, hlen]
    exact hsmall

theorem isSlice_uncounted (bytes : List UInt8) :
    IsSlice data o n ⟨bytes, none, true⟩ ↔ bytes = (data.drop o).take n := by
  constructor
  · exact fun h => h.bytes
  · intro h
    refine ⟨h, fun k hk => ?_, rfl⟩
    cases hk

/-- A reader delivers the asked-for part of the file exactly if it gets at it. -/
theorem readers_slice_iff (mem : Bool) (reader : Reader) (data : List UInt8) (h : reader.Holds data)
    (offset size : UInt32) :
    IsSlice data offset.toNat size.toNat (reader.run mem offset size) ↔ reader.Readable mem offset size := by
  have hsize := toNat_lt size
  cases reader with
  | fat16_read_file v entry => exact fat16_read_file_iff offset size h
  | fat16_read_file_range v entry =>
    rw [Reader.run, isSlice_uncounted, fat16_read_file_range_eq]
    exact rangeCells_iff h (toNat_lt _) hsize
  | fat32_read_file_range v entry =>
    rw [Reader.run, isSlice_uncounted, fat32_read_file_range_eq]
    exact rangeCells_iff h (toNat_lt _) hsize
  | xvfs_read_file v entry => exact xvfs_read_file_iff offset size h
  | xvfs_read_file_range v entry =>
    rw [Reader.run, isSlice_uncounted]
    exact xvfs_bytes_iff h

theorem oneFile_holds :
    ChainFile Fat16.eoc Fat16.oneFile.fat (fun c => Fat16.oneFile.area (some c)) Fat16.oneFile.clusterSize
      (firstLow Fat16.oneFileItem.entry) (fileSize Fat16.oneFileItem.entry) [0x61, 0x62, 0x63] := by
  have hfirst : firstLow Fat16.oneFileItem.entry = 2 := by decide +kernel
  have hchain : chain Fat16.eoc Fat16.oneFile.fat 2 = [2] := by decide +kernel
  rw [hfirst]
  refine ⟨?_, by decide +kernel⟩
  rw [hchain]
  exact ⟨⟨by decide, by decide⟩, nodup_singleton 2⟩

theorem readers_slice_oneFile :
    IsSlice [0x61, 0x62, 0x63] 1 5 ((Reader.fat16_read_file Fat16.oneFile Fat16.oneFileItem.entry).run true 1 5) := by
  have hroom : (Reader.fat16_read_file Fat16.oneFile Fat16.oneFileItem.entry).Readable true 1 5 :=
    ⟨by decide +kernel, by decide +kernel⟩
  exact (readers_slice_iff true (.fat16_read_file Fat16.oneFile Fat16.oneFileItem.entry) _ oneFile_holds 1 5).mpr hroom

/-- A size of 2^32 - 1 makes the sum zero: instead of two bytes, all of the cluster behind the offset is copied. -/
theorem range_behind_end :
    (Reader.fat16_read_file_range Fat16.oneFile Fat16.oneFileItem.entry).Holds [0x61, 0x62, 0x63] ∧
      ((Reader.fat16_read_file_range Fat16.oneFile Fat16.oneFileItem.entry).run true 1 0xFFFFFFFF).bytes.length = 511 ∧
      ¬ IsSlice [0x61, 0x62, 0x63] 1 0xFFFFFFFF
        ((Reader.fat16_read_file_range Fat16.oneFile Fat16.oneFileItem.entry).run true 1 0xFFFFFFFF) := by
  have hlen : ((Reader.fat16_read_file_range Fat16.oneFile Fat16.oneFileItem.entry).run true 1
      0xFFFFFFFF).bytes.length = 511 := by
    decide +kernel
  refine ⟨oneFile_holds, hlen, fun hslice => ?_⟩
  have htwo := congrArg List.length hslice.bytes
  rw [hlen] at htwo
  simp at htwo

end Orion.Syscall
