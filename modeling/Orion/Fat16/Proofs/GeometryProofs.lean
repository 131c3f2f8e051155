import Orion.Fat16.Geometry
import Orion.Fat16.Files
import Orion.Fat16.Proofs.FormatProofs

/-!
# Proofs: the layout of a mounted FAT16 volume

A count of data sectors that has wrapped is too large for every size of the clusters. The tests do not compare the size
of the table with the number of clusters.
-/

namespace Orion.Fat16

open Lib Fat List
open UInt32 (toNat_mul toNat_div toNat_add)
open UInt16 (toNat_toUInt32 toNat_inj)

variable {bpb : Bpb} {dev : Device} {i : ℕ} {hint : UInt16}

theorem accepted_fields (h : bpb.accepted = true) :
    bpb.BytsPerSec = 512 ∧ bpb.SecPerClus ≠ 0 ∧ bpb.SecPerClus.toNat ≤ 128 ∧
      4085 ≤ bpb.countOfClusters ∧ bpb.countOfClusters < 65525 ∧ bpb.FATSz16 ≠ 0 := by
  unfold Bpb.accepted at h
  simp only [Bool.and_eq_true, Bool.not_eq_true', Bool.or_eq_false_iff, decide_eq_true_eq, decide_eq_false_iff_not,
    ge_iff_le, gt_iff_lt, UInt32.le_iff_toNat_le, UInt32.lt_iff_toNat_lt, UInt8.lt_iff_toNat_lt, not_lt] at h
  obtain ⟨⟨⟨⟨⟨hbytes, ⟨hzero, -⟩, hmax⟩, -⟩, hfat⟩, -⟩, hlow, hhigh⟩ := h
  exact ⟨hbytes, hzero, hmax, hlow, hhigh, hfat⟩

theorem secPerClus_pos (h : bpb.accepted = true) : 0 < bpb.SecPerClus.toNat := by
  have hne := (accepted_fields h).2.1
  have hnat : bpb.SecPerClus.toNat ≠ 0 := fun heq => hne (UInt8.toNat_inj.mp heq)
  omega

theorem toNat_fatSectors (bpb : Bpb) : bpb.fatSectors.toNat = bpb.NumFATs.toNat * bpb.FATSz16.toNat := by
  have hnum := bpb.NumFATs.toNat_lt
  have hsize := bpb.FATSz16.toNat_lt
  unfold Bpb.fatSectors
  rw [toNat_mul, UInt8.toNat_toUInt32, toNat_toUInt32]
  apply Nat.mod_eq_of_lt
  calc bpb.NumFATs.toNat * bpb.FATSz16.toNat ≤ 2 ^ 8 * 2 ^ 16 := Nat.mul_le_mul hnum.le hsize.le
    _ < 2 ^ 32 := by norm_num

theorem fatSectors_le (bpb : Bpb) : bpb.NumFATs.toNat * bpb.FATSz16.toNat ≤ 255 * 65535 := by
  have hnum := bpb.NumFATs.toNat_lt
  have hsize := bpb.FATSz16.toNat_lt
  exact Nat.mul_le_mul (by omega) (by omega)

theorem toNat_rootDirSectors (hbytes : bpb.BytsPerSec = 512) :
    bpb.rootDirSectors.toNat = (bpb.RootEntCnt.toNat * 32 + 511) / 512 := by
  have hroot := bpb.RootEntCnt.toNat_lt
  have hsub : ((512 : UInt16).toUInt32 - 1).toNat = 511 := rfl
  have hdiv : (512 : UInt16).toUInt32.toNat = 512 := rfl
  have h32 : UInt32.toNat 32 = 32 := rfl
  unfold Bpb.rootDirSectors
  rw [hbytes, toNat_div, toNat_add, toNat_mul, hsub, hdiv, toNat_toUInt32, h32]
  omega

theorem headSectors_lt (bpb : Bpb) : bpb.headSectors < 2 ^ 25 := by
  have hres := bpb.RsvdSecCnt.toNat_lt
  have hroot := bpb.RootEntCnt.toNat_lt
  have hfats := fatSectors_le bpb
  unfold Bpb.headSectors
  omega

theorem toNat_head (hbytes : bpb.BytsPerSec = 512) :
    (bpb.RsvdSecCnt.toUInt32 + bpb.fatSectors + bpb.rootDirSectors).toNat = bpb.headSectors := by
  have hlt := headSectors_lt bpb
  rw [toNat_add, toNat_add, toNat_toUInt32, toNat_fatSectors, toNat_rootDirSectors hbytes]
  unfold Bpb.headSectors at hlt ⊢
  omega

theorem toNat_total (bpb : Bpb) :
    (if bpb.TotSec16 ≠ 0 then bpb.TotSec16.toUInt32 else bpb.TotSec32).toNat = bpb.totalSectors := by
  unfold Bpb.totalSectors
  split
  · exact toNat_toUInt32 _
  · rfl

theorem accepted_noUnderflow (h : bpb.accepted = true) :
    bpb.headSectors ≤ bpb.totalSectors ∧ bpb.dataSectors.toNat = bpb.totalSectors - bpb.headSectors := by
  obtain ⟨hbytes, -, hmax, -, hhigh, -⟩ := accepted_fields h
  have hlt := headSectors_lt bpb
  have htotal : bpb.totalSectors < 2 ^ 32 := by
    rw [← toNat_total]
    exact UInt32.toNat_lt _
  have hdata : bpb.dataSectors.toNat = (2 ^ 32 - bpb.headSectors + bpb.totalSectors) % 2 ^ 32 := by
    unfold Bpb.dataSectors
    rw [UInt32.toNat_sub, toNat_head hbytes, toNat_total]
  have hcount : bpb.countOfClusters = bpb.dataSectors.toNat / bpb.SecPerClus.toNat := by
    unfold Bpb.countOfClusters
    rw [toNat_div, UInt8.toNat_toUInt32]
  rw [hcount] at hhigh
  have hsmall : bpb.dataSectors.toNat < 65525 * 128 := by
    have hpos := secPerClus_pos h
    calc bpb.dataSectors.toNat < 65525 * bpb.SecPerClus.toNat := (Nat.div_lt_iff_lt_mul hpos).mp hhigh
      _ ≤ 65525 * 128 := Nat.mul_le_mul_left _ hmax
  omega

theorem clusters_le_data (bpb : Bpb) : bpb.countOfClusters * bpb.SecPerClus.toNat ≤ bpb.dataSectors.toNat := by
  unfold Bpb.countOfClusters
  rw [toNat_div, UInt8.toNat_toUInt32]
  exact Nat.div_mul_le_self _ _

theorem tableEntries_eq (hbytes : bpb.BytsPerSec = 512) : bpb.tableEntries = bpb.FATSz16.toNat * 256 := by
  have h512 : (512 : UInt16).toNat = 512 := rfl
  unfold Bpb.tableEntries
  rw [hbytes, h512]
  omega

theorem find_fat16_in_mbr_accepted {lba : UInt32} (h : find_fat16_in_mbr dev = some (lba, bpb)) :
    bpb.accepted = true := by
  unfold find_fat16_in_mbr at h
  split at h
  · cases h
  obtain ⟨i, -, hi⟩ := exists_of_findSome?_eq_some h
  dsimp only at hi
  split at hi
  · obtain ⟨found, hfound, heq⟩ := Option.map_eq_some_iff.mp hi
    obtain ⟨-, rfl⟩ := Prod.mk.inj heq
    exact probe_eq_some hfound
  · cases hi

/-- What `fat16_init` takes over has passed the tests, and stands at `mountedAt`. -/
theorem fat16_init_cases {base_lba : UInt32} {p : Params} (h : fat16_init dev base_lba = some p) :
    p.fat16_bpb.accepted = true ∧ p = paramsAt (mountedAt dev base_lba) p.fat16_bpb := by
  unfold fat16_init at h
  unfold mountedAt
  cases hprobe : probe_fat16_pbr dev base_lba with
  | some bpb =>
    rw [hprobe] at h
    obtain rfl := Option.some.inj h
    exact ⟨probe_eq_some hprobe, rfl⟩
  | none =>
    rw [hprobe] at h
    cases hmbr : find_fat16_in_mbr dev with
    | some found =>
      obtain ⟨lba, bpb⟩ := found
      rw [hmbr] at h
      obtain rfl := Option.some.inj h
      exact ⟨find_fat16_in_mbr_accepted hmbr, rfl⟩
    | none =>
      rw [hmbr] at h
      obtain ⟨bpb, hzero, rfl⟩ := Option.map_eq_some_iff.mp h
      exact ⟨probe_eq_some hzero, rfl⟩

section Layout

variable {base : UInt32}

theorem paramsAt_toNat (hbytes : bpb.BytsPerSec = 512) (hwrap : base.toNat + bpb.headSectors < 2 ^ 32) :
    (paramsAt base bpb).fat_start_lba.toNat = base.toNat + bpb.RsvdSecCnt.toNat ∧
      (paramsAt base bpb).root_dir_lba.toNat =
        base.toNat + bpb.RsvdSecCnt.toNat + bpb.NumFATs.toNat * bpb.FATSz16.toNat ∧
      (paramsAt base bpb).data_region_lba.toNat = base.toNat + bpb.headSectors := by
  unfold Bpb.headSectors at hwrap ⊢
  have hfat : (base + bpb.RsvdSecCnt.toUInt32).toNat = base.toNat + bpb.RsvdSecCnt.toNat := by
    rw [toNat_add, toNat_toUInt32]
    omega
  have hroot : (base + bpb.RsvdSecCnt.toUInt32 + bpb.fatSectors).toNat =
      base.toNat + bpb.RsvdSecCnt.toNat + bpb.NumFATs.toNat * bpb.FATSz16.toNat := by
    rw [toNat_add, hfat, toNat_fatSectors]
    omega
  refine ⟨hfat, hroot, ?_⟩
  show (base + bpb.RsvdSecCnt.toUInt32 + bpb.fatSectors + bpb.rootDirSectors).toNat = _
  rw [toNat_add, hroot, toNat_rootDirSectors hbytes]
  omega

theorem soundLayout_paramsAt (h : bpb.accepted = true) (hwrap : base.toNat + bpb.headSectors < 2 ^ 32)
    (hcovers : bpb.countOfClusters + 2 ≤ bpb.FATSz16.toNat * 256) : SoundLayout base.toNat (paramsAt base bpb) := by
  obtain ⟨hbytes, hclus, -⟩ := accepted_fields h
  obtain ⟨hroom, hdata⟩ := accepted_noUnderflow h
  obtain ⟨hfat, hroot, hstart⟩ := paramsAt_toNat hbytes hwrap
  have hfilled := clusters_le_data bpb
  have hreserved : ((paramsAt base bpb).fat_start_lba - bpb.RsvdSecCnt.toUInt32).toNat = base.toNat := by
    rw [UInt32.toNat_sub_of_le]
    · rw [hfat, toNat_toUInt32]
      omega
    · rw [UInt32.le_iff_toNat_le, hfat, toNat_toUInt32]
      omega
  have hroots : (paramsAt base bpb).root_dir_sectors.toNat = (bpb.RootEntCnt.toNat * 32 + 511) / 512 :=
    toNat_rootDirSectors hbytes
  have hregions : (paramsAt base bpb).regions = [(base.toNat, bpb.RsvdSecCnt.toNat),
        (base.toNat + bpb.RsvdSecCnt.toNat, bpb.NumFATs.toNat * bpb.FATSz16.toNat),
        (base.toNat + bpb.RsvdSecCnt.toNat + bpb.NumFATs.toNat * bpb.FATSz16.toNat,
          (bpb.RootEntCnt.toNat * 32 + 511) / 512),
        (base.toNat + bpb.headSectors, bpb.countOfClusters * bpb.SecPerClus.toNat)] := by
    unfold Params.regions
    rw [show (paramsAt base bpb).fat16_bpb = bpb from rfl, hreserved, hfat, hroot, hstart, hroots, toNat_fatSectors]
  have hhead : bpb.headSectors = bpb.RsvdSecCnt.toNat + bpb.NumFATs.toNat * bpb.FATSz16.toNat +
    (bpb.RootEntCnt.toNat * 32 + 511) / 512 := rfl
  refine ⟨hroom, ⟨?_, hclus⟩, hfat, ?_, ?_, ⟨?_, ?_⟩, hcovers⟩
  · rw [show (paramsAt base bpb).fat16_bpb = bpb from rfl, hbytes]
    decide
  · rw [hroot, hfat]
    rfl
  · rw [hstart, hroot, hhead, show (paramsAt base bpb).fat16_bpb = bpb from rfl]
    omega
  · rw [hregions]
    simp only [pairwise_cons, mem_cons, not_mem_nil, or_false, forall_eq_or_imp, forall_eq,
      List.Pairwise.nil, and_true, IsEmpty.forall_iff, implies_true]
    omega
  · rw [hregions, show (paramsAt base bpb).fat16_bpb = bpb from rfl]
    simp only [mem_cons, not_mem_nil, or_false, forall_eq_or_imp, forall_eq]
    omega

theorem soundLayout_iff (h : bpb.accepted = true) : SoundLayout base.toNat (paramsAt base bpb) ↔
    base.toNat + bpb.headSectors < 2 ^ 32 ∧ bpb.countOfClusters + 2 ≤ bpb.FATSz16.toNat * 256 := by
  constructor
  · intro hsound
    have hlt := (paramsAt base bpb).data_region_lba.toNat_lt
    have htables := hsound.tables
    have hroot := hsound.root
    have hdata := hsound.data
    rw [show (paramsAt base bpb).fat16_bpb = bpb from rfl] at htables hroot hdata
    refine ⟨?_, hsound.covers⟩
    unfold Bpb.headSectors
    omega
  · rintro ⟨hwrap, hcovers⟩
    exact soundLayout_paramsAt h hwrap hcovers

end Layout

/-- The layout of a mounted volume is sound exactly if its positions do not wrap and the table has an entry for every
cluster. -/
theorem mounted_layout_iff (dev : Device) (base_lba : UInt32) (p : Params) (h : fat16_init dev base_lba = some p) :
    SoundLayout (mountedAt dev base_lba).toNat p ↔ (mountedAt dev base_lba).toNat + p.fat16_bpb.headSectors < 2 ^ 32 ∧
        p.fat16_bpb.countOfClusters + 2 ≤ p.fat16_bpb.FATSz16.toNat * 256 := by
  obtain ⟨hok, hp⟩ := fat16_init_cases h
  have hiff : SoundLayout (mountedAt dev base_lba).toNat (paramsAt (mountedAt dev base_lba) p.fat16_bpb) ↔ _ :=
    soundLayout_iff hok
  rw [← hp] at hiff
  exact hiff

/-- Every sector is a boot sector for clusters of one sector, one reserved sector, one table and no root directory. -/
def plainDisk (size total : UInt16) : Device where
  sectors := total.toNat
  data _ := (((Bytes.ofList ([0xE9] ++ List.replicate 11 0 ++ [2, 1, 1, 0, 1])).put16 19 total).put16 22 size).put16 510
    0xAA55

def plainParams (size total : UInt16) : Params := paramsAt 0 ⟨512, 1, 1, 1, 0, total, size, 0⟩

theorem mounted_layout_plain : fat16_init (plainDisk 20 5021) 0 = some (plainParams 20 5021) ∧
      SoundLayout (mountedAt (plainDisk 20 5021) 0).toNat (plainParams 20 5021) := by
  have hinit : fat16_init (plainDisk 20 5021) 0 = some (plainParams 20 5021) := by decide +kernel
  exact ⟨hinit, (mounted_layout_iff _ 0 _ hinit).mpr (by decide +kernel)⟩

theorem short_table_mounted : fat16_init (plainDisk 1 5002) 0 = some (plainParams 1 5002) ∧
      ¬ SoundLayout (mountedAt (plainDisk 1 5002) 0).toNat (plainParams 1 5002) := by
  refine ⟨by decide +kernel, fun h => absurd h.covers ?_⟩
  decide +kernel

theorem toNat_small (h : i < 65536) : (UInt16.ofNat i).toNat = i := UInt16.toNat_ofNat_of_lt' h

theorem mem_scanned (htable : 2 ≤ bpb.tableEntries) : i ∈ bpb.scanned hint ↔ 2 ≤ i ∧ i < bpb.tableEntries := by
  unfold Bpb.scanned
  rw [mem_append, mem_range'_1, mem_range'_1]
  split_ifs <;> omega

theorem alloc_cases (htable : 2 ≤ bpb.tableEntries) (table : UInt16 → UInt16) (hint : UInt16) :
    (∃ i, 2 ≤ i ∧ i < bpb.tableEntries ∧ table (UInt16.ofNat i) = 0 ∧
        (bpb.alloc_cluster table hint).1 = UInt16.ofNat i) ∨
      (bpb.alloc_cluster table hint).1 = 0 ∧ ∀ i, 2 ≤ i → i < bpb.tableEntries → table (UInt16.ofNat i) ≠ 0 := by
  unfold Bpb.alloc_cluster
  cases hfind : (bpb.scanned hint).find? fun i => table (UInt16.ofNat i) = 0 with
  | some i =>
    obtain ⟨hlow, hhigh⟩ := (mem_scanned htable).mp (mem_of_find?_eq_some hfind)
    have hfree : table (UInt16.ofNat i) = 0 := by simpa using find?_some hfind
    exact .inl ⟨i, hlow, hhigh, hfree, rfl⟩
  | none =>
    refine .inr ⟨rfl, fun i hlow hhigh => ?_⟩
    simpa using find?_eq_none.mp hfind i ((mem_scanned htable).mpr ⟨hlow, hhigh⟩)

/-- The search on the model of a volume is the one on its table, if the numbers of the clusters have 16 bits. -/
theorem alloc_cluster_eq {v : Vol} {table : UInt16 → UInt16} (htable : 2 ≤ bpb.tableEntries)
    (hsmall : bpb.tableEntries ≤ 65536) (hlen : v.fatLen = bpb.tableEntries) (hhint : v.hint = hint.toNat)
    (hfat : ∀ i < 65536, v.fat i = (table (UInt16.ofNat i)).toNat) :
    (alloc_cluster v).1 = (bpb.alloc_cluster table hint).1.toNat := by
  have hlt : ∀ i ∈ bpb.scanned hint, i < 65536 := fun i hi => ((mem_scanned htable).mp hi).2.trans_le hsmall
  have hsame : (bpb.scanned hint).find? (fun i => v.fat i = 0) =
      (bpb.scanned hint).find? fun i => table (UInt16.ofNat i) = 0 := by
    apply find?_congr
    intro i hi
    rw [decide_eq_decide, hfat i (hlt i hi), ← toNat_inj]
    rfl
  unfold Bpb.alloc_cluster
  cases hfind : (bpb.scanned hint).find? fun i => table (UInt16.ofNat i) = 0 with
  | none =>
    rw [hfind, Bpb.scanned, ← hlen, ← hhint] at hsame
    simp only [alloc_cluster, hsame]
    rfl
  | some i =>
    rw [hfind, Bpb.scanned, ← hlen, ← hhint] at hsame
    simp only [alloc_cluster, hsame]
    exact (toNat_small (hlt i (mem_of_find?_eq_some hfind))).symm

section Confined

variable (haccepted : bpb.accepted = true)

include haccepted

theorem two_le_tableEntries : 2 ≤ bpb.tableEntries := by
  obtain ⟨hbytes, -, -, -, -, hfat⟩ := accepted_fields haccepted
  have hne : bpb.FATSz16.toNat ≠ 0 := fun heq => hfat (toNat_inj.mp heq)
  rw [tableEntries_eq hbytes]
  omega

theorem confined_of_eq (heq : bpb.tableEntries = bpb.countOfClusters + 2) : bpb.Confined := by
  obtain ⟨-, -, -, -, hcount, -⟩ := accepted_fields haccepted
  have htable := two_le_tableEntries haccepted
  have hsmall : ∀ i, i < bpb.tableEntries → (UInt16.ofNat i).toNat = i := fun i hi => toNat_small (by omega)
  constructor
  · intro table hint
    rcases alloc_cases htable table hint with ⟨i, hlow, hhigh, hfree, hres⟩ | ⟨hres, hused⟩
    · rw [hres]
      constructor
      · intro hzero
        have hnat := congrArg UInt16.toNat hzero
        rw [hsmall i hhigh] at hnat
        change i = 0 at hnat
        omega
      · intro hall
        exact absurd hfree (hall i hlow (by omega))
    · refine iff_of_true hres fun c hlow hhigh => ?_
      exact hused c hlow (by omega)
  · intro table hint hne
    rcases alloc_cases htable table hint with ⟨i, hlow, hhigh, hfree, hres⟩ | ⟨hres, -⟩
    · have hfilled := clusters_le_data bpb
      have hlast : (i - 2 + 1) * bpb.SecPerClus.toNat ≤ bpb.countOfClusters * bpb.SecPerClus.toNat :=
        Nat.mul_le_mul_right _ (by omega)
      rw [hres, hsmall i hhigh]
      refine ⟨hlow, by omega, hfree, ?_⟩
      rw [Nat.succ_mul] at hlast
      omega
    · exact absurd hres hne

/-- A table that is too large hands out a number too many; one that is too small never hands out the last cluster. -/
theorem eq_of_confined (h : bpb.Confined) : bpb.tableEntries = bpb.countOfClusters + 2 := by
  obtain ⟨-, -, -, -, hcount, -⟩ := accepted_fields haccepted
  have htable := two_le_tableEntries haccepted
  rcases Nat.lt_trichotomy bpb.tableEntries (bpb.countOfClusters + 2) with hlt | heq | hgt
  · exfalso
    -- all entries of the table are in use
    have hzero := (h.none_iff (fun c => if c.toNat < bpb.tableEntries then 1 else 0) 2).mp (by
      rcases alloc_cases htable (fun c => if c.toNat < bpb.tableEntries then 1 else 0) 2 with
        ⟨i, -, hhigh, hfree, -⟩ | ⟨hres, -⟩
      · rw [toNat_small (by omega), if_pos hhigh] at hfree
        exact absurd hfree (by decide)
      · exact hres)
    apply hzero bpb.tableEntries htable hlt
    rw [toNat_small (by omega), if_neg (lt_irrefl _)]
  · exact heq
  · exfalso
    -- only the entry behind the last cluster is free
    rcases alloc_cases htable (fun c => if c.toNat = bpb.countOfClusters + 2 then 0 else 1) 2 with
      ⟨i, -, -, hfree, hres⟩ | ⟨-, hused⟩
    · have hi : (UInt16.ofNat i).toNat = bpb.countOfClusters + 2 := by
        by_contra hne
        rw [if_neg hne] at hfree
        exact absurd hfree (by decide)
      have hne : (bpb.alloc_cluster (fun c => if c.toNat = bpb.countOfClusters + 2 then 0 else 1) 2).1 ≠ 0 := by
        rw [hres]
        intro hzero
        rw [hzero] at hi
        change 0 = _ at hi
        omega
      have hbound := (h.found _ 2 hne).2.1
      rw [hres, hi] at hbound
      omega
    · have hlast := hused (bpb.countOfClusters + 2) (by omega) hgt
      rw [toNat_small (by omega), if_pos rfl] at hlast
      exact hlast rfl

end Confined

/-- `_alloc_cluster` stays in the data region, whatever the table holds, exactly if it has an entry for every cluster
and no more. -/
theorem alloc_confined_iff (dev : Device) (base_lba : UInt32) (p : Params) (h : fat16_init dev base_lba = some p) :
    p.fat16_bpb.Confined ↔ p.fat16_bpb.FATSz16.toNat * 256 = p.fat16_bpb.countOfClusters + 2 := by
  have haccepted := (fat16_init_cases h).1
  rw [← tableEntries_eq (accepted_fields haccepted).1]
  exact ⟨eq_of_confined haccepted, confined_of_eq haccepted⟩

theorem alloc_confined_plain :
    fat16_init (plainDisk 20 5139) 0 = some (plainParams 20 5139) ∧ (plainParams 20 5139).fat16_bpb.Confined := by
  have hinit : fat16_init (plainDisk 20 5139) 0 = some (plainParams 20 5139) := by decide +kernel
  exact ⟨hinit, (alloc_confined_iff _ 0 _ hinit).mpr (by decide +kernel)⟩

/-- On a volume of 5000 clusters the cluster 5002 is handed out when all are in use. -/
theorem cluster_behind_volume : fat16_init (plainDisk 20 5021) 0 = some (plainParams 20 5021) ∧
      (plainParams 20 5021).fat16_bpb.countOfClusters = 5000 ∧
      ((plainParams 20 5021).fat16_bpb.alloc_cluster (fun c => if c.toNat < 5002 then 0xFFFF else 0) 5002).1 = 5002 := by
  decide +kernel

end Orion.Fat16
