import Orion.Syscall.Mounted

/-!
# What the drivers read is what the file holds

Each driver reads a part of a file in two loops over its clusters or blocks. They give the segment of the file's
contents that was asked for.
-/

namespace Orion.Syscall

open Lib Fat List

variable {v : Xvfs.Vol} {e : Xvfs.FileEntry} {data : List UInt8} {o n p copy count len : ℕ}

theorem firstBytes_some {size : ℕ} {bytes : List UInt8} (h : firstBytes size bytes = some data) :
    data.length = size ∧ size ≤ bytes.length ∧ ∀ o n, o + n ≤ size → (data.drop o).take n = (bytes.drop o).take n := by
  unfold firstBytes at h
  split_ifs at h with hle
  obtain rfl := Option.some.inj h
  refine ⟨by simpa using hle, hle, fun o n hon => ?_⟩
  rw [drop_take, take_take, min_eq_left (by omega)]

theorem fat16_read_eq {v : Fat.Vol} {r : Bytes} (h : firstBytes (fileSize r)
      (cellBytes Fat16.eoc v.fat (fun c => v.area (some c)) v.clusterSize (firstLow r)) = some data)
    (hn : 0 < n) (hon : o + n ≤ data.length) : Fat16.read_file v r o n = some ((data.drop o).take n) := by
  obtain ⟨hlen, hle, hseg⟩ := firstBytes_some h
  obtain ⟨d, hskip, hread⟩ := cells_read (n := n) hn (hlen ▸ hon |>.trans hle) le_rfl
  have hfirst : firstLow r ≠ 0 := by
    intro hzero
    have hnil : cellBytes Fat16.eoc v.fat (fun c => v.area (some c)) v.clusterSize (firstLow r) = [] :=
      walkBytes_of_not_isCell (by simp [isCell, hzero])
    rw [hnil, length_nil] at hle
    omega
  unfold Fat16.read_file
  rw [if_neg hfirst, if_neg (by omega), Fat16.skipClusters, hskip]
  dsimp only
  rw [Fat16.readLoop, min_eq_left (by omega), hread, hseg o n (by omega)]

theorem fat32_read_eq {mem : Bool} {v : Fat32.Vol} {path : Path} {item : Item}
    (hfind : Fat32.find_file v path = some item) (h : firstBytes (fileSize item.entry)
      (cellBytes Fat32.eoc v.next v.cluster v.clusterSize (Fat32.firstCluster item.entry)) = some data)
    (hn : 0 < n) (hon : o + n ≤ data.length) :
    Fat32.read_file mem v path o n = if mem then (n, (data.drop o).take n) else (0, []) := by
  obtain ⟨hlen, hle, hseg⟩ := firstBytes_some h
  have hsize : fileSize item.entry < 2 ^ 32 := UInt32.toNat_lt _
  have hsum : ¬(o + n) % 2 ^ 32 > fileSize item.entry := by
    rw [Nat.mod_eq_of_lt (by omega)]
    omega
  obtain ⟨d, hskip, hread⟩ := cells_read (n := n) hn (hlen ▸ hon |>.trans hle) le_rfl
  unfold Fat32.read_file
  rw [hfind]
  dsimp only
  rw [if_neg (by omega), if_neg hsum, if_neg (by omega)]
  unfold Fat32.read_file_range
  rw [if_neg (by omega)]
  rcases mem with _ | _
  · rfl
  rw [if_neg (by decide)]
  rw [if_neg hsum, hskip]
  dsimp only
  rw [hread, hseg o n (by omega)]
  rfl

def xvfsByte (v : Xvfs.Vol) (e : Xvfs.FileEntry) (p : ℕ) : UInt8 := v.read_block (xvfsBlock e (p / 512)) (p % 512)

/-- The loop from the position `p` on copies `len` of the `count` bytes, and if not all, it was stopped by a block that
cannot be read. -/
structure BlocksRead (v : Xvfs.Vol) (e : Xvfs.FileEntry) (p count len : ℕ) (result : List UInt8 × Bool) : Prop where
  bytes : result.1 = (List.range len).map fun i => xvfsByte v e (p + i)
  ok : result.2 = decide (len = count)
  le : len ≤ count
  readable : ∀ i < len, v.readable (xvfsBlock e ((p + i) / 512)) = true
  stopped : len < count → v.readable (xvfsBlock e ((p + len) / 512)) = false ∧ (len = 0 ∨ (p + len) % 512 = 0)

theorem xvfsBlock_succ (e : Xvfs.FileEntry) (k : ℕ) : xvfsBlock e k + 1 = xvfsBlock e (k + 1) := by
  unfold xvfsBlock
  rw [UInt32.ofNat_add, ← UInt32.add_assoc]
  rfl

theorem slice_block (v : Xvfs.Vol) (e : Xvfs.FileEntry) (hcopy : copy ≤ 512 - p % 512) :
    (v.read_block (xvfsBlock e (p / 512))).slice (p % 512) copy =
      (List.range copy).map fun i => xvfsByte v e (p + i) := by
  unfold Bytes.slice
  refine map_congr_left fun i hi => ?_
  have hi := mem_range.mp hi
  unfold xvfsByte
  rw [show (p + i) / 512 = p / 512 by omega, show (p + i) % 512 = p % 512 + i by omega]

theorem BlocksRead.cons {rest : List UInt8 × Bool}
    (h : BlocksRead v e (p + copy) (count - copy) len rest) (hread : v.readable (xvfsBlock e (p / 512)) = true)
    (hcopy : copy ≤ 512 - p % 512) (hle : copy ≤ count) (hend : copy = count ∨ (p + copy) % 512 = 0) :
    BlocksRead v e p count (copy + len)
      ((v.read_block (xvfsBlock e (p / 512))).slice (p % 512) copy ++ rest.1, rest.2) where
  bytes := by
    rw [slice_block v e hcopy, h.bytes, range_add, map_append, map_map]
    simp only [Function.comp_def, Nat.add_assoc]
  ok := by
    rw [h.ok, decide_eq_decide]
    omega
  le := by
    have := h.le
    omega
  readable := by
    intro i hi
    by_cases hlt : i < copy
    · rw [show (p + i) / 512 = p / 512 by omega]
      exact hread
    · have hrest := h.readable (i - copy) (by omega)
      rwa [show p + copy + (i - copy) = p + i by omega] at hrest
  stopped := by
    intro hlt
    obtain ⟨hblock, hedge⟩ := h.stopped (by omega)
    rw [Nat.add_assoc] at hblock hedge
    refine ⟨hblock, Or.inr ?_⟩
    rcases hedge with hzero | hedge
    · rw [hzero, Nat.add_zero]
      exact hend.resolve_left (by omega)
    · exact hedge

theorem readBlocks_spec (e : Xvfs.FileEntry) (hblock : v.sb.block_size = 512) (hcount : count ≤ n) :
    ∃ len, BlocksRead v e p count len (Xvfs.readBlocks v n (xvfsBlock e (p / 512)) (p % 512) count) := by
  have hnone : ∀ {p count : ℕ}, count = 0 → BlocksRead v e p count 0 ([], true) := by
    rintro p _ rfl
    exact ⟨rfl, rfl, le_rfl, fun i hi => absurd hi (Nat.not_lt_zero i), fun h => absurd h (lt_irrefl 0)⟩
  induction n generalizing p count with
  | zero => exact ⟨0, hnone (Nat.le_zero.mp hcount)⟩
  | succ n ih =>
    rw [Xvfs.readBlocks]
    by_cases hzero : count = 0
    · rw [if_pos hzero]
      exact ⟨0, hnone hzero⟩
    have hsize : v.sb.block_size.toNat = 512 := by rw [hblock]; rfl
    rw [if_neg hzero, hsize]
    rcases hread : v.readable (xvfsBlock e (p / 512)) with _ | _
    · refine ⟨0, rfl, ?_, Nat.zero_le count, fun i hi => absurd hi (Nat.not_lt_zero i), fun _ => ⟨hread, Or.inl rfl⟩⟩
      exact (decide_eq_false (Ne.symm hzero)).symm
    rw [if_pos rfl]
    dsimp only
    obtain ⟨copy, hcopy⟩ : ∃ copy, copy = min count (512 - p % 512) := ⟨_, rfl⟩
    rw [← hcopy]
    by_cases hdone : copy = count
    · -- all that is wanted lies in this block
      have hrest : Xvfs.readBlocks v n (xvfsBlock e (p / 512) + 1) 0 (count - copy) = ([], true) := by
        rw [hdone, Nat.sub_self]
        cases n <;> simp [Xvfs.readBlocks]
      rw [hrest]
      exact ⟨_, (hnone (by omega)).cons hread (by omega) (by omega) (Or.inl hdone)⟩
    · have hdiv : (p + copy) / 512 = p / 512 + 1 := by omega
      have hmod : (p + copy) % 512 = 0 := by omega
      have hleft : count - copy ≤ n := by omega
      obtain ⟨len, hlen⟩ := ih (p := p + copy) hleft
      rw [hdiv, hmod, ← xvfsBlock_succ] at hlen
      exact ⟨_, hlen.cons hread (by omega) (by omega) (Or.inr hmod)⟩

theorem BlocksRead.complete {result : List UInt8 × Bool} (h : BlocksRead v e p count len result)
    (hread : ∀ k < (e.size.toNat + 511) / 512, v.readable (xvfsBlock e k) = true) (hp : p + len < e.size.toNat) :
    len = count := by
  by_contra hne
  have hlt : len < count := lt_of_le_of_ne h.le hne
  have hblock := hread ((p + len) / 512) (by omega)
  rw [(h.stopped hlt).1] at hblock
  cases hblock

theorem readBlocks_eq (hblock : v.sb.block_size = 512)
    (hread : ∀ k < (e.size.toNat + 511) / 512, v.readable (xvfsBlock e k) = true)
    (hcount : count ≤ n) (hp : p + count ≤ e.size.toNat) :
    Xvfs.readBlocks v n (xvfsBlock e (p / 512)) (p % 512) count =
      ((List.range count).map fun i => xvfsByte v e (p + i), true) := by
  obtain ⟨len, h⟩ := readBlocks_spec e hblock (p := p) hcount
  have hlen : len = count := by
    rcases Nat.lt_or_ge len count with hlt | hge
    · exact h.complete hread (by omega)
    · exact le_antisymm h.le hge
  subst hlen
  exact Prod.ext h.bytes (h.ok.trans (decide_eq_true rfl))

theorem xvfs_start_block (e : Xvfs.FileEntry) (hblock : v.sb.block_size = 512) (o : UInt32) :
    e.start + o / v.sb.block_size = xvfsBlock e (o.toNat / 512) := by
  unfold xvfsBlock
  congr 1
  rw [← UInt32.toNat_inj, hblock, UInt32.toNat_div, UInt32.toNat_ofNat']
  have := UInt32.toNat_lt o
  rw [Nat.mod_eq_of_lt (by omega)]
  rfl

theorem xvfs_intra_offset (hblock : v.sb.block_size = 512) (o : UInt32) :
    (o % v.sb.block_size).toNat = o.toNat % 512 := by
  rw [hblock, UInt32.toNat_mod]
  rfl

theorem xvfs_read_eq {o n : UInt32} (hblock : v.sb.block_size = 512)
    (hread : ∀ k < (e.size.toNat + 511) / 512, v.readable (xvfsBlock e k) = true) (hn : 0 < n.toNat)
    (hon : o.toNat + n.toNat ≤ e.size.toNat) :
    Xvfs.xvfs_read_file v e o n =
      some ((((List.range e.size.toNat).map (xvfsByte v e)).drop o.toNat).take n.toNat) := by
  have hlt : ¬o ≥ e.size := by
    rw [ge_iff_le, UInt32.le_iff_toNat_le]
    omega
  have hsum : ¬o + n > e.size := by
    have hsize := UInt32.toNat_lt e.size
    rw [gt_iff_lt, UInt32.lt_iff_toNat_lt, UInt32.toNat_add, Nat.mod_eq_of_lt (by omega)]
    omega
  have hloop := readBlocks_eq hblock hread (le_refl n.toNat) hon
  unfold Xvfs.xvfs_read_file
  rw [if_neg hlt, if_neg hsum]
  dsimp only
  rw [xvfs_start_block e hblock, xvfs_intra_offset hblock, hloop]
  rw [Bool.true_or, if_pos rfl, ← map_drop, ← map_take]
  congr 1
  have hseg : ((List.range e.size.toNat).drop o.toNat).take n.toNat = (List.range n.toNat).map (o.toNat + ·) := by
    apply ext_getElem
    · simp
      omega
    · intro i hi hi'
      simp
  rw [hseg, map_map]
  rfl

end Orion.Syscall
