import Mathlib.Algebra.BigOperators.Intervals
import Orion.Fat.FreeSpace
import Orion.Fat.Proofs.FormatProofs
import Orion.Fat16.Proofs.GeometryProofs

/-!
# Proofs: the free space that the FAT drivers report

The loops count the zero entries of the table moved by the reserved sectors.
-/

namespace Orion.Fat

open Lib

variable {dev : Device} {per : ℕ} {zero : Bytes → ℕ → Bool} {t : Space}

theorem foldl_count (q : ℕ → Bool) (m : ℕ) (n : UInt32) :
    ((List.range m).foldl (fun n i => if q i then n + 1 else n) n).toNat =
      (n.toNat + ∑ i ∈ Finset.range m, if q i then 1 else 0) % 2 ^ 32 := by
  have hn := n.toNat_lt
  induction m with
  | zero => simp [Nat.mod_eq_of_lt hn]
  | succ m ih =>
    rw [List.range_succ, List.foldl_append, List.foldl_cons, List.foldl_nil, Finset.sum_range_succ]
    split
    · have hone : UInt32.toNat 1 = 1 := rfl
      rw [UInt32.toNat_add, ih, hone]
      omega
    · rw [ih, Nat.add_zero]

theorem sum_sector (hper : 0 < per) (start : UInt32) (s : ℕ) :
    (∑ k ∈ Finset.Ico (per * s) (per * (s + 1)), if zeroAt dev per zero start k then 1 else 0) =
      if dev.inRange (start + UInt32.ofNat s) then
        ∑ i ∈ Finset.range per, if zero (dev.data (start + UInt32.ofNat s)) i then 1 else 0 else 0 := by
  have hlen : per * (s + 1) - per * s = per := by rw [Nat.mul_succ]; omega
  have hentry : ∀ i ∈ Finset.range per, zeroAt dev per zero start (per * s + i) =
      (dev.inRange (start + UInt32.ofNat s) && zero (dev.data (start + UInt32.ofNat s)) i) := by
    intro i hi
    rw [Finset.mem_range] at hi
    have hdiv : (per * s + i) / per = s := by
      rw [Nat.mul_add_div hper, Nat.div_eq_of_lt hi, Nat.add_zero]
    have hmod : (per * s + i) % per = i := by rw [Nat.mul_add_mod, Nat.mod_eq_of_lt hi]
    rw [zeroAt, hdiv, hmod]
  rw [Finset.sum_Ico_eq_sum_range, hlen, Finset.sum_congr rfl fun i hi => by rw [hentry i hi]]
  cases dev.inRange (start + UInt32.ofNat s) with
  | true => simp
  | false => simp

theorem toNat_countFree (hper : 0 < per) (start r : UInt32) (sectors : ℕ) :
    (countFree dev per zero (start + r) sectors).toNat =
      ((Finset.Ico (per * r.toNat) (per * (r.toNat + sectors))).filter
        fun k => zeroAt dev per zero start k = true).card % 2 ^ 32 := by
  rw [Finset.card_filter]
  induction sectors with
  | zero => simp [countFree]
  | succ s ih =>
    have hstep : countFree dev per zero (start + r) (s + 1) =
        if !dev.inRange (start + UInt32.ofNat (r.toNat + s)) then countFree dev per zero (start + r) s
        else (List.range per).foldl
          (fun n i => if zero (dev.data (start + UInt32.ofNat (r.toNat + s))) i then n + 1 else n)
          (countFree dev per zero (start + r) s) := by
      simp only [countFree, List.range_succ, List.foldl_append, List.foldl_cons, List.foldl_nil, add_add_ofNat]
    have hlow : per * r.toNat ≤ per * (r.toNat + s) := Nat.mul_le_mul_left per (Nat.le_add_right _ _)
    have hhigh : per * (r.toNat + s) ≤ per * (r.toNat + s + 1) := Nat.mul_le_mul_left per (Nat.le_add_right _ _)
    rw [hstep, ← Nat.add_assoc, ← Finset.sum_Ico_consecutive _ hlow hhigh, sum_sector hper]
    cases dev.inRange (start + UInt32.ofNat (r.toNat + s)) with
    | true => simp only [Bool.not_true, Bool.false_eq_true, if_false, if_true, foldl_count, ih, Nat.mod_add_mod]
    | false => simpa using ih

theorem counted_entries : (t.counted.filter fun k => t.IsEntry k) = t.free.filter fun c => ¬ c < t.per * t.reserved := by
  ext k
  simp only [Space.counted, Space.free, Finset.mem_filter, Finset.mem_Ico, Finset.mem_range, Nat.mul_add, not_lt]
  constructor
  · rintro ⟨⟨⟨hlow, -⟩, hzero⟩, hentry⟩
    exact ⟨⟨hentry.2.2, hentry, hzero⟩, hlow⟩
  · rintro ⟨⟨hlt, hentry, hzero⟩, hlow⟩
    exact ⟨⟨⟨hlow, by omega⟩, hzero⟩, hentry⟩

theorem card_free_le (t : Space) : t.free.card ≤ t.clusters := by
  have hsub : t.free ⊆ Finset.Ico 2 (t.clusters + 2) := by
    intro c hc
    obtain ⟨-, hentry, -⟩ := Finset.mem_filter.mp hc
    exact Finset.mem_Ico.mpr ⟨hentry.1, hentry.2.1⟩
  simpa using Finset.card_le_card hsub

theorem counted_iff_balanced (h : t.clusters < 2 ^ 32) : t.counted.card % 2 ^ 32 = t.free.card ↔ t.Balanced := by
  have hcounted : (t.counted.filter fun k => t.IsEntry k).card + (t.counted.filter fun k => ¬ t.IsEntry k).card =
      t.counted.card := Finset.card_filter_add_card_filter_not _
  have hfree : (t.free.filter fun c => c < t.per * t.reserved).card +
      (t.free.filter fun c => ¬ c < t.per * t.reserved).card = t.free.card := Finset.card_filter_add_card_filter_not _
  have hle := card_free_le t
  rw [counted_entries] at hcounted
  unfold Space.Balanced
  omega

theorem zero_of_zeroAt {dev : Device} {per k : ℕ} {zero : Bytes → ℕ → Bool} {start : UInt32}
    (h : zeroAt dev per zero start k = true) : zero (dev.data (start + UInt32.ofNat (k / per))) (k % per) = true :=
  (Bool.and_eq_true_iff.mp h).2

/-- The count is right when every zero entry is that of a cluster and behind the sectors that are passed over. -/
theorem balanced_of_entries
    (h : ∀ k < t.per * (t.reserved + t.sectors), t.zero k = true → t.IsEntry k ∧ t.per * t.reserved ≤ k) :
    t.Balanced := by
  have hcounted : (t.counted.filter fun k => ¬ t.IsEntry k) = ∅ := by
    rw [Finset.filter_eq_empty_iff]
    intro k hk hnot
    obtain ⟨hrange, hzero⟩ := Finset.mem_filter.mp hk
    exact hnot (h k (Finset.mem_Ico.mp hrange).2 hzero).1
  have hfree : (t.free.filter fun c => c < t.per * t.reserved) = ∅ := by
    rw [Finset.filter_eq_empty_iff]
    intro c hc hlt
    obtain ⟨hrange, -, hzero⟩ := Finset.mem_filter.mp hc
    have hle : t.per * t.sectors ≤ t.per * (t.reserved + t.sectors) := Nat.mul_le_mul_left _ (Nat.le_add_left _ _)
    have hbehind := (h c (lt_of_lt_of_le (Finset.mem_range.mp hrange) hle) hzero).2
    omega
  rw [Space.Balanced, hcounted, hfree]
  rfl

end Orion.Fat

namespace Orion.Fat16

open Lib Fat

variable {dev : Device} {p : Params}

theorem spaceExact_iff (h : p.fat16_bpb.accepted = true) : SpaceExact p dev ↔ (p.space dev).Balanced := by
  obtain ⟨hbytes, hspc, -, hmin, hmax, hfat⟩ := accepted_fields h
  obtain ⟨-, hdata⟩ := accepted_noUnderflow h
  have hcount : p.fat16_bpb.countOfClusters = (p.space dev).clusters := by
    unfold Bpb.countOfClusters Params.space
    rw [UInt32.toNat_div, UInt8.toNat_toUInt32, hdata]
  have hnum : p.fat16_bpb.NumFATs ≠ 0 := by
    unfold Bpb.accepted at h
    simp only [Bool.and_eq_true, decide_eq_true_eq] at h
    exact h.1.1.1.2
  have hpos : p.fat16_bpb.dataSectors ≠ 0 := by
    intro hzero
    rw [Bpb.countOfClusters, hzero] at hmin
    simp at hmin
  have hsectors : (if p.fat16_bpb.TotSec16 ≠ 0 then p.fat16_bpb.TotSec16.toUInt32 else p.fat16_bpb.TotSec32) ≠ 0 := by
    intro hzero
    have htotal := toNat_total p.fat16_bpb
    rw [hzero] at htotal
    have hnone : p.fat16_bpb.dataSectors.toNat = 0 := by
      rw [hdata, ← htotal]
      exact Nat.zero_sub _
    exact hpos (UInt32.toNat_inj.mp hnone)
  have htotal : (fat16_total_clusters p).toNat = (p.space dev).clusters := by
    have hword : ¬ (512 : UInt16) = 0 := by decide
    rw [← hcount]
    unfold fat16_total_clusters Bpb.countOfClusters
    rw [if_neg (by simp [hspc, hbytes, hword]), if_neg hsectors, if_neg hpos]
  have hfree : (fat16_free_clusters p dev).toNat = (p.space dev).counted.card % 2 ^ 32 := by
    have hword : ¬ (512 : UInt16) = 0 := by decide
    have hper : ((512 : UInt16) / 2).toNat = 256 := rfl
    unfold fat16_free_clusters
    rw [if_neg (by simp [hspc, hbytes, hword]), if_neg (by simp [hfat, hnum]), hbytes, hper,
      toNat_countFree (by omega), UInt16.toNat_toUInt32]
    rfl
  unfold SpaceExact
  rw [htotal, hfree, counted_iff_balanced (by omega)]
  simp

end Orion.Fat16

namespace Orion.Fat32

open Lib Fat

variable {dev : Device} {p p' : Params} {base_lba : UInt32}

theorem fat32_init_fields (h : fat32_init p dev base_lba = (true, p')) :
    p'.bpb.SecPerClus ≠ 0 ∧ p'.bpb.NumFATs ≠ 0 ∧ p'.bpb.FATSz32 ≠ 0 := by
  unfold fat32_init at h
  dsimp only at h
  split at h
  · cases h
  split at h
  · cases h
  split at h
  · rename_i hok
    obtain ⟨-, rfl⟩ := Prod.mk.inj h
    unfold accepted at hok
    simp only [Bool.and_eq_true, Bool.not_eq_true', Bool.or_eq_false_iff, decide_eq_false_iff_not] at hok
    obtain ⟨⟨⟨⟨⟨-, ⟨hspc, -⟩, -⟩, ⟨hnum, -⟩, hfat⟩, -⟩, -⟩, -⟩ := hok
    exact ⟨hspc, hnum, hfat⟩
  · cases h

theorem total_clusters_iff (hspc : p.bpb.SecPerClus ≠ 0) (hnum : p.bpb.NumFATs ≠ 0) (hfat : p.bpb.FATSz32 ≠ 0) :
    (fat32_total_clusters p).toNat = (p.space dev).clusters ↔ TotalFits p := by
  have hpos : 0 < p.bpb.SecPerClus.toNat := Nat.pos_of_ne_zero fun h => hspc (UInt8.toNat_inj.mp h)
  have hT := p.bpb.TotSec32.toNat_lt
  have hdata : (p.bpb.TotSec32 - (p.bpb.RsvdSecCnt.toUInt32 + p.bpb.NumFATs.toUInt32 * p.bpb.FATSz32)).toNat =
      (((p.bpb.TotSec32.toNat : ℤ) - p.bpb.headSectors) % 2 ^ 32).toNat := by
    rw [UInt32.toNat_sub, UInt32.toNat_add, UInt32.toNat_mul, UInt16.toNat_toUInt32, UInt8.toNat_toUInt32,
      Bpb.headSectors]
    generalize p.bpb.NumFATs.toNat * p.bpb.FATSz32.toNat = tables
    omega
  have hvalue : (fat32_total_clusters p).toNat = if p.bpb.TotSec32 = 0 then 0 else
      (((p.bpb.TotSec32.toNat : ℤ) - p.bpb.headSectors) % 2 ^ 32).toNat / p.bpb.SecPerClus.toNat := by
    rw [← hdata]
    simp only [fat32_total_clusters, hspc, hfat, hnum, decide_false, Bool.or_false, Bool.false_eq_true, if_false]
    split
    · rfl
    split
    · rename_i hzero
      rw [hzero]
      exact (Nat.zero_div _).symm
    · rw [UInt32.toNat_div, UInt8.toNat_toUInt32]
  rw [hvalue]
  unfold TotalFits Params.space
  by_cases hzero : p.bpb.TotSec32 = 0
  · simp [hzero]
  have hne : p.bpb.TotSec32.toNat ≠ 0 := fun h => hzero (UInt32.toNat_inj.mp h)
  rw [if_neg hzero]
  by_cases hle : p.bpb.headSectors ≤ p.bpb.TotSec32.toNat
  · have hexact : (((p.bpb.TotSec32.toNat : ℤ) - p.bpb.headSectors) % 2 ^ 32).toNat = p.bpb.TotSec32.toNat - p.bpb.headSectors := by omega
    rw [hexact]
    simp [hle]
  · have hnone : p.bpb.TotSec32.toNat - p.bpb.headSectors = 0 := by omega
    rw [hnone, Nat.zero_div, Nat.div_eq_zero_iff]
    simp only [hzero, hle, false_or]
    omega

theorem spaceExact_iff (h : fat32_init p dev base_lba = (true, p')) :
    SpaceExact p' dev ↔ TotalFits p' ∧ (p'.space dev).Balanced := by
  obtain ⟨hspc, hnum, hfat⟩ := fat32_init_fields h
  have hfree : (fat32_free_clusters p' dev).toNat = (p'.space dev).counted.card % 2 ^ 32 := by
    unfold fat32_free_clusters
    rw [if_neg (by simp [hspc, hfat]), toNat_countFree (by omega), UInt16.toNat_toUInt32]
    rfl
  have hclusters : (p'.space dev).clusters < 2 ^ 32 := by
    have hT := p'.bpb.TotSec32.toNat_lt
    calc (p'.space dev).clusters ≤ p'.bpb.TotSec32.toNat - p'.bpb.headSectors := Nat.div_le_self _ _
      _ < 2 ^ 32 := by omega
  unfold SpaceExact
  rw [total_clusters_iff hspc hnum hfat, hfree, counted_iff_balanced hclusters]

end Orion.Fat32

namespace Orion.Fat

open Lib

/-- What the drivers report is right exactly if the count gains what it loses and, for FAT32, the number of clusters
does not wrap. -/
theorem free_space_exact_iff (dev : Device) (base_lba : UInt32) :
    (∀ p, Fat16.fat16_init dev base_lba = some p → (Fat16.SpaceExact p dev ↔ (p.space dev).Balanced)) ∧
    (∀ p p', Fat32.fat32_init p dev base_lba = (true, p') →
      (Fat32.SpaceExact p' dev ↔ Fat32.TotalFits p' ∧ (p'.space dev).Balanced)) := by
  constructor
  · intro p h
    exact Fat16.spaceExact_iff (Fat16.fat16_init_cases h).1
  · intro p p' h
    exact Fat32.spaceExact_iff h

/-- A boot sector that both drivers accept: one reserved sector and one table. -/
def fullBoot : Bytes :=
  ((((Bytes.splice (fun _ => 0xFF) 0 1 fun _ => 0xE9).splice 11 13
    (Bytes.ofList [0, 2, 1, 1, 0, 1, 0, 0, 6, 16, 0xF8, 16, 0])).splice 32 16
    (Bytes.ofList [1, 1, 1, 1, 1, 0, 1, 0, 0xFF, 0xFF, 0xFF, 0xFF, 2, 0, 1, 0])).splice 82 5
    (Bytes.ofList Fat32.typeName)).put16 510 0xAA55

/-- The variables of the drivers for such a volume at sector 0. -/
def fullParams16 : Fat16.Params := Fat16.paramsAt 0 ⟨512, 1, 1, 1, 0, 4102, 16, 0x01010101⟩

/-- A FAT32 volume that is larger than its table. -/
def fullParams32 : Fat32.Params := Fat32.paramsAt 0 ⟨512, 1, 1, 1, 16, 0x01010101, 0x10001, 0x10002⟩

theorem fullBoot_get16 {i : ℕ} (h : i < 256) : fullBoot.get16 (2 * i) ≠ 0 := by
  have hall : ∀ i < 256, fullBoot.get16 (2 * i) ≠ 0 := by decide +kernel
  exact hall i h

theorem fullBoot_get32 {i : ℕ} (h : i < 128) : fullBoot.get32 (4 * i) &&& 0x0FFFFFFF ≠ 0 := by
  have hall : ∀ i < 128, fullBoot.get32 (4 * i) &&& 0x0FFFFFFF ≠ 0 := by decide +kernel
  exact hall i h

/-- The second sector of the table has four zero bytes: the clusters 300 and 301 of FAT16 or 150 of FAT32 are free. -/
def fewFree : Device := ⟨5000, fun lba => if lba = 2 then fullBoot.put32 88 0 else fullBoot⟩

theorem fewFree_data {j : ℕ} (hj : j < 0x10002) :
    fewFree.data (1 + UInt32.ofNat j) = if j = 1 then fullBoot.put32 88 0 else fullBoot := by
  have hlba : (1 + UInt32.ofNat j = 2) ↔ j = 1 := by
    rw [← UInt32.toNat_inj]
    simp only [UInt32.toNat_add, UInt32.toNat_ofNat', UInt32.reduceToNat]
    omega
  simp only [fewFree, hlba]

theorem fewFree_zero16 {k : ℕ} (hk : k < 256 * (1 + 16)) (h : (fullParams16.space fewFree).zero k = true) :
    k = 300 ∨ k = 301 := by
  have hall : ∀ i < 256, (fullBoot.put32 88 0).get16 (2 * i) = 0 → i = 44 ∨ i = 45 := by decide +kernel
  have hmod := Nat.mod_lt k (by omega : 0 < 256)
  have hsec : ((fewFree.data (1 + UInt32.ofNat (k / 256))).get16 (2 * (k % 256))) = 0 := by
    have hzero : zeroAt fewFree 256 (fun sec i => sec.get16 (2 * i) = 0) 1 k = true := h
    exact of_decide_eq_true (zero_of_zeroAt hzero)
  rw [fewFree_data (by omega)] at hsec
  split at hsec
  · have hentry := hall (k % 256) hmod hsec
    omega
  · exact absurd hsec (fullBoot_get16 hmod)

theorem fewFree_zero32 {k : ℕ} (hk : k < 128 * (1 + 0x10001)) (h : (fullParams32.space fewFree).zero k = true) :
    k = 150 := by
  have hall : ∀ i < 128, (fullBoot.put32 88 0).get32 (4 * i) &&& 0x0FFFFFFF = 0 → i = 22 := by decide +kernel
  have hmod := Nat.mod_lt k (by omega : 0 < 128)
  have hsec : ((fewFree.data (1 + UInt32.ofNat (k / 128))).get32 (4 * (k % 128))) &&& 0x0FFFFFFF = 0 := by
    have hzero : zeroAt fewFree 128 (fun sec i => sec.get32 (4 * i) &&& 0x0FFFFFFF = 0) 1 k = true := h
    exact of_decide_eq_true (zero_of_zeroAt hzero)
  rw [fewFree_data (by omega)] at hsec
  split at hsec
  · have hentry := hall (k % 128) hmod hsec
    omega
  · exact absurd hsec (fullBoot_get32 hmod)

/-- Volumes with free clusters whose count is right. -/
theorem free_space_exact_few : Fat16.SpaceExact fullParams16 fewFree ∧ 300 ∈ (fullParams16.space fewFree).free ∧
      Fat32.SpaceExact fullParams32 fewFree ∧ 150 ∈ (fullParams32.space fewFree).free := by
  have hinit16 : Fat16.fat16_init fewFree 0 = some fullParams16 := by decide +kernel
  have hinit32 : Fat32.fat32_init fullParams32 fewFree 0 = (true, fullParams32) := by decide +kernel
  have hentry16 : ∀ k, k = 300 ∨ k = 301 → (fullParams16.space fewFree).IsEntry k ∧ 256 * 1 ≤ k := by
    rintro k (rfl | rfl)
    · decide +kernel
    · decide +kernel
  have hentry32 : (fullParams32.space fewFree).IsEntry 150 ∧ 128 * 1 ≤ 150 := by decide +kernel
  obtain ⟨h16, h32⟩ := free_space_exact_iff fewFree 0
  refine ⟨(h16 _ hinit16).mpr (balanced_of_entries fun k hk hzero => ?_), ?_,
    (h32 _ _ hinit32).mpr ⟨.inr (.inl (by decide)), balanced_of_entries fun k hk hzero => ?_⟩, ?_⟩
  · exact hentry16 k (fewFree_zero16 hk hzero)
  · refine Finset.mem_filter.mpr ⟨Finset.mem_range.mpr ?_, (hentry16 300 (.inl rfl)).1, ?_⟩
    · decide +kernel
    · decide +kernel
  · rw [fewFree_zero32 hk hzero]
    exact hentry32
  · refine Finset.mem_filter.mpr ⟨Finset.mem_range.mpr ?_, hentry32.1, ?_⟩
    · decide +kernel
    · decide +kernel

/-- The sectors behind the first table are empty. -/
def fullTable : Device := ⟨5000, fun lba => if lba < 17 then fullBoot else fun _ => 0⟩

theorem full_volume_reports_free :
    Fat16.fat16_init fullTable 0 = some fullParams16 ∧ (fullParams16.space fullTable).free.card = 0 ∧
      (Fat16.fat16_free_clusters fullParams16 fullTable).toNat ≠ 0 := by
  have hinit : Fat16.fat16_init fullTable 0 = some fullParams16 := by decide +kernel
  have hzero : ∀ c < 4096, (fullParams16.space fullTable).zero c = false := by
    intro c hc
    have hlba : ∀ j < 16, fullParams16.fat_start_lba + UInt32.ofNat j < 17 := by decide
    have hdata : fullTable.data (fullParams16.fat_start_lba + UInt32.ofNat (c / 256)) = fullBoot :=
      if_pos (hlba (c / 256) (by omega))
    simp [Fat16.Params.space, zeroAt, hdata, fullBoot_get16 (Nat.mod_lt c (by omega : 0 < 256))]
  have hfree : (fullParams16.space fullTable).free.card = 0 := by
    rw [Finset.card_eq_zero, Space.free, Finset.filter_eq_empty_iff]
    rintro c hc ⟨-, hc0⟩
    rw [hzero c (Finset.mem_range.mp hc)] at hc0
    cases hc0
  refine ⟨hinit, hfree, fun hcount => ?_⟩
  have hbalanced := (Fat16.spaceExact_iff (Fat16.fat16_init_cases hinit).1).mp ⟨by decide +kernel, hcount.trans hfree.symm⟩
  have hbehind : 4096 ∈ (fullParams16.space fullTable).counted.filter
      fun k => ¬ (fullParams16.space fullTable).IsEntry k := by decide +kernel
  have hsmall : ((fullParams16.space fullTable).counted.filter
      fun k => ¬ (fullParams16.space fullTable).IsEntry k).card ≤ 4096 := by
    refine (Finset.card_filter_le _ _).trans ((Finset.card_filter_le _ _).trans ?_)
    rw [Nat.card_Ico]
    decide
  have hpos := Finset.card_pos.mpr ⟨_, hbehind⟩
  have hnone := Finset.card_filter_le (fullParams16.space fullTable).free
    fun c => c < (fullParams16.space fullTable).per * (fullParams16.space fullTable).reserved
  unfold Space.Balanced at hbalanced
  omega

end Orion.Fat
