import Orion.Fat.Proofs.FormatProofs
import Orion.Fat32.Format

/-!
# Proofs: what `fat32_format_at` leaves

The loop over the cluster sizes stops at once or never. The table never has an entry for the root directory, and its
second copy has no entries at all.
-/

namespace Orion.Fat32

open Lib Fat List Bytes
open UInt32 (toNat_inj toNat_div toNat_add toNat_mul toNat_ofNat')

variable {dev : Device} {base total : UInt32} {label : List UInt8} {stack : Bytes} {i : ℕ} {p : Params}

theorem toNat_data_sectors (total : UInt32) :
    (total - (32 + 2 * 1)).toNat = (total.toNat + (2 ^ 32 - 34)) % 2 ^ 32 := by
  have hsub : (32 + 2 * 1 : UInt32) = 34 := rfl
  rw [hsub, UInt32.toNat_sub, Nat.add_comm]
  rfl

theorem geometry_eq (total : UInt32) : geometry total =
    if total - (32 + 2 * 1) ≥ 65525 then (1, ((total - (32 + 2 * 1)) * 4 + (512 - 1)) / 512) else (8, 0) := by
  unfold geometry
  dsimp only
  generalize total - (32 + 2 * 1) = d
  have hone : d / 1 = d := by
    apply toNat_inj.mp
    rw [toNat_div]
    exact Nat.div_one _
  by_cases hd : d ≥ 65525
  · rw [find?_cons_of_pos (by simpa [hone] using hd), if_pos hd]
    dsimp only
    rw [hone]
    rfl
  · have hnone : ([1, 2, 4, 8, 16, 32, 64, 128] : List UInt32).find? (fun s => d / s ≥ 65525) = none := by
      rw [find?_eq_none]
      intro s _ hs
      rw [decide_eq_true_eq] at hs
      have hs' : 65525 ≤ d.toNat / s.toNat := by
        rw [← toNat_div]
        exact hs
      have hle := Nat.div_le_self d.toNat s.toNat
      exact hd (show 65525 ≤ d.toNat by omega)
    rw [hnone, if_neg hd]

theorem toNat_fatsz (total : UInt32) : (geometry total).2.toNat = if 65525 ≤ (total.toNat + (2 ^ 32 - 34)) % 2 ^ 32 then
      ((total.toNat + (2 ^ 32 - 34)) % 2 ^ 32 * 4 % 2 ^ 32 + 511) % 2 ^ 32 / 512 else 0 := by
  have hd := toNat_data_sectors total
  rw [geometry_eq]
  generalize total - (32 + 2 * 1) = d at hd
  rw [← hd]
  by_cases h : d ≥ 65525
  · have h' : 65525 ≤ d.toNat := h
    rw [if_pos h, if_pos h', toNat_div, toNat_add, toNat_mul]
    rfl
  · have h' : ¬ 65525 ≤ d.toNat := h
    rw [if_neg h, if_neg h']
    rfl

theorem fatsz_le (total : UInt32) : (geometry total).2.toNat ≤ 8388607 := by
  rw [toNat_fatsz]
  split
  · omega
  · omega

theorem size_arith {T x F : ℕ} (hT : T < 2 ^ 32) (hx : x = (T + (2 ^ 32 - 34)) % 2 ^ 32)
    (hF : F = if 65525 ≤ x then (x * 4 % 2 ^ 32 + 511) % 2 ^ 32 / 512 else 0) :
    (F ≠ 0 ∧ T - (32 + 2 * F) + 2 ≤ F * 128) ↔ 65559 ≤ T ∧ T ≤ 1073741730 := by
  by_cases hlow : T < 34
  · have hzero : F = 0 := by
      rw [hF]
      split
      · omega
      · rfl
    omega
  · have hx' : x = T - 34 := by omega
    split at hF
    · -- where the product wraps the table is too small by 2 ^ 30 entries
      obtain ⟨k, y, hy, hk⟩ : ∃ k y, y < 2 ^ 30 ∧ x = 2 ^ 30 * k + y :=
        ⟨x / 2 ^ 30, x % 2 ^ 30, Nat.mod_lt _ (by omega), by omega⟩
      have hmul : x * 4 % 2 ^ 32 = y * 4 := by omega
      rw [hmul] at hF
      by_cases hround : y * 4 + 511 < 2 ^ 32
      · have hF' : F = (y * 4 + 511) / 512 := by omega
        omega
      · have hF' : F = 0 := by omega
        omega
    · omega

theorem secPerClus_of_table (h : (geometry total).2 ≠ 0) : (geometry total).1 = 1 := by
  rw [geometry_eq] at h ⊢
  split
  · rfl
  · rename_i hsmall
    rw [if_neg hsmall] at h
    exact absurd rfl h

theorem covers_iff : ((geometry total).2 ≠ 0 ∧
    total.toNat - (32 + 2 * (geometry total).2.toNat) + 2 ≤ (geometry total).2.toNat * 128) ↔ SizeFits total := by
  have hzero : (geometry total).2 ≠ 0 ↔ (geometry total).2.toNat ≠ 0 := by
    rw [ne_eq, ← toNat_inj]
    rfl
  rw [hzero]
  exact size_arith total.toNat_lt rfl (toNat_fatsz total)

theorem fatsz_small (h : SizeFits total) :
    0 < (geometry total).2.toNat ∧ 32 + 2 * (geometry total).2.toNat + 64000 ≤ total.toNat := by
  obtain ⟨hlow, hhigh⟩ := h
  have hF := toNat_fatsz total
  have hx : (total.toNat + (2 ^ 32 - 34)) % 2 ^ 32 = total.toNat - 34 := by omega
  rw [hx, if_pos (by omega)] at hF
  omega

def formatBpb (total : UInt32) : Bpb where
  BytsPerSec := 512
  SecPerClus := (geometry total).1
  RsvdSecCnt := 32
  NumFATs := 2
  FATSz16 := 0
  TotSec32 := total
  FATSz32 := (geometry total).2
  RootClus := 2

theorem bootSector_const (h : i < 13 ∨ 14 ≤ i ∧ i < 28 ∨ 40 ≤ i ∧ i < 71 ∨ 82 ≤ i ∧ i < 90) :
    bootSector base total label i = Bytes.ofList bootBytes i := by
  have hlabel : (label.take 11).length ≤ 11 := length_take_le 11 label
  have hcode : bootcode_stub.length = 12 := rfl
  unfold bootSector bpbBytes Bytes.put32
  rw [splice_outside (by omega), splice_outside (by omega), splice_outside (by omega),
    splice_outside (by omega), splice_outside (by omega), splice_outside (by omega),
    splice_outside (by omega), splice_inside (by omega) (by omega)]
  rfl

theorem agree_bootSector {o n : ℕ} (h : o + n ≤ 13 ∨ 14 ≤ o ∧ o + n ≤ 28 ∨ 40 ≤ o ∧ o + n ≤ 71 ∨ 82 ≤ o ∧ o + n ≤ 90) :
    Bytes.Agree (bootSector base total label) (Bytes.ofList bootBytes) o n := by
  intro i h1 h2
  exact bootSector_const (by omega)

theorem bootSector_secPerClus : bootSector base total label 13 = (geometry total).1 := by
  unfold bootSector bpbBytes Bytes.put32
  rw [splice_outside (by omega), splice_outside (by omega), splice_outside (by omega),
    splice_outside (by omega), splice_outside (by omega), splice_outside (by omega),
    splice_inside (by omega) (by omega)]

theorem bootSector_fatsz : (bootSector base total label).get32 36 = (geometry total).2 := by
  unfold bootSector bpbBytes
  rw [get32_splice_of_disjoint (by omega), get32_splice_of_disjoint (by omega),
    get32_splice_of_disjoint (by omega), get32_put32]

theorem bootSector_total : (bootSector base total label).get32 32 = total := by
  unfold bootSector bpbBytes
  rw [get32_splice_of_disjoint (by omega), get32_splice_of_disjoint (by omega),
    get32_splice_of_disjoint (by omega), get32_put32_of_disjoint _ _ (by omega), get32_put32]

theorem decodeBpb_bootSector (base total : UInt32) (label : List UInt8) :
    decodeBpb (bootSector base total label) = formatBpb total := by
  unfold decodeBpb
  rw [bootSector_secPerClus, bootSector_fatsz, bootSector_total, get16_congr (agree_bootSector (by omega)),
    get16_congr (agree_bootSector (by omega)), bootSector_const (by omega),
    get16_congr (agree_bootSector (by omega)), get32_congr (agree_bootSector (by omega))]
  rfl

theorem bootSector_sig (h1 : 510 ≤ i) (h2 : i < 512) :
    bootSector base total label i = Bytes.ofList [0x55, 0xAA] (i - 510) := splice_inside h1 h2

theorem bootSector_typeName : (bootSector base total label).slice 0x52 5 = typeName := by
  have hconst : (bootSector base total label).slice 0x52 5 = (Bytes.ofList bootBytes).slice 0x52 5 := by
    apply map_congr_left
    intro i hi
    rw [mem_range] at hi
    exact bootSector_const (by omega)
  rw [hconst]
  rfl

theorem accepted_iff : accepted (formatBpb total) (bootSector base total label) = true ↔ (geometry total).2 ≠ 0 := by
  have hclus : (!(decide ((geometry total).1 = 0) || decide ((geometry total).1 &&& ((geometry total).1 - 1) ≠ 0) ||
      decide ((geometry total).1 > 128))) = true := by
    rw [geometry_eq]
    split
    · simp
    · exact (by decide : (!(decide ((8 : UInt8) = 0) || decide ((8 : UInt8) &&& (8 - 1) ≠ 0) || decide ((8 : UInt8) > 128))) =
        true)
  have hsig : (!(decide (bootSector base total label 510 ≠ 0x55) || decide (bootSector base total label 511 ≠ 0xAA))) =
      true := by
    rw [bootSector_sig (by omega) (by omega), bootSector_sig (by omega) (by omega)]
    rfl
  unfold accepted formatBpb
  rw [hclus, hsig]
  simp

theorem lba_add (base : UInt32) (i : ℕ) : base + 32 + UInt32.ofNat i = base + UInt32.ofNat (32 + i) :=
  add_add_ofNat base 32 i

theorem root_lba (base total : UInt32) :
    base + (32 + 2 * (geometry total).2) = base + UInt32.ofNat (32 + 2 * (geometry total).2.toNat) := by
  apply toNat_inj.mp
  simp only [toNat_add, toNat_mul, toNat_ofNat', UInt32.reduceToNat]
  omega

theorem format_data_reserved (hne : total ≠ 0) {k : ℕ} (hk : k < 32) :
    (fat32_format_at dev base total label stack).2.data (base + UInt32.ofNat k) =
      (((dev.write base (bootSector base total label)).write (base + 1) fsInfoSector).write (base + 6)
        (bpbBytes base total label stack)).data (base + UInt32.ofNat k) := by
  have hF := fatsz_le total
  unfold fat32_format_at
  rw [if_neg hne]
  dsimp only
  rw [Device.data_write_of_ne, writeFats_data_of_ne]
  · intro i hi
    rw [lba_add]
    exact add_ofNat_ne (by omega) (by omega) (by omega)
  · rw [root_lba]
    exact add_ofNat_ne (by omega) (by omega) (by omega)

theorem format_data_base (hne : total ≠ 0) (hin : dev.inRange base = true) :
    (fat32_format_at dev base total label stack).2.data base = bootSector base total label := by
  have hzero : base + UInt32.ofNat 0 = base := UInt32.add_zero base
  have hdata : (fat32_format_at dev base total label stack).2.data (base + UInt32.ofNat 0) = _ :=
    format_data_reserved hne (by omega)
  have hsix : base ≠ base + 6 := ne_add_ofNat (k := 6) (by omega) (by omega)
  have hone : base ≠ base + 1 := ne_add_ofNat (k := 1) (by omega) (by omega)
  rw [hzero] at hdata
  rw [hdata, Device.data_write_of_ne hsix, Device.data_write_of_ne hone, Device.data_write_self hin]

theorem format_inRange {lba : UInt32} (hne : total ≠ 0) :
    (fat32_format_at dev base total label stack).2.inRange lba = dev.inRange lba := by
  unfold fat32_format_at
  rw [if_neg hne]
  simp

theorem volumeAt_format (hne : total ≠ 0) (hin : dev.inRange base = true) (label : List UInt8) (stack : Bytes) :
    volumeAt (fat32_format_at dev base total label stack).2 base = paramsAt base (formatBpb total) := by
  rw [volumeAt, format_data_base hne hin, decodeBpb_bootSector]

theorem fat32_init_format (hne : total ≠ 0) (hin : dev.inRange base = true) (p : Params) :
    fat32_init p (fat32_format_at dev base total label stack).2 base = (true, paramsAt base (formatBpb total)) ↔
      (geometry total).2 ≠ 0 := by
  have hinit : fat32_init p (fat32_format_at dev base total label stack).2 base =
      if accepted (formatBpb total) (bootSector base total label) then (true, paramsAt base (formatBpb total))
      else (false, { p with bpb := formatBpb total }) := by
    unfold fat32_init
    rw [format_inRange hne, hin, format_data_base hne hin]
    dsimp only
    rw [bootSector_typeName, decodeBpb_bootSector]
    rfl
  have haccepted : accepted (formatBpb total) (bootSector base total label) = true ↔ _ := accepted_iff
  rw [hinit, ← haccepted]
  constructor
  · intro h
    split at h
    · rename_i hok
      exact hok
    · cases h
  · intro hok
    rw [if_pos hok]

theorem clusterCount_eq (h : (geometry total).2 ≠ 0) :
    (formatBpb total).clusterCount total = total.toNat - (32 + 2 * (geometry total).2.toNat) := by
  have hclus : (formatBpb total).SecPerClus = 1 := secPerClus_of_table h
  rw [Bpb.clusterCount, hclus]
  exact Nat.div_one _

section Fits

variable (hbase : base.toNat + total.toNat ≤ 2 ^ 32) (hfits : SizeFits total)

include hbase hfits

theorem params_toNat : (paramsAt base (formatBpb total)).fat_start_lba.toNat = base.toNat + 32 ∧
    (paramsAt base (formatBpb total)).data_start_lba.toNat = base.toNat + 32 + 2 * (geometry total).2.toNat := by
  obtain ⟨-, hsmall⟩ := fatsz_small hfits
  have hfat : (base + 32).toNat = base.toNat + 32 := by
    simp only [toNat_add, UInt32.reduceToNat]
    omega
  have hdata : (base + 32 + 2 * (geometry total).2).toNat = base.toNat + 32 + 2 * (geometry total).2.toNat := by
    rw [toNat_add, hfat]
    simp only [toNat_mul, UInt32.reduceToNat]
    omega
  exact ⟨hfat, hdata⟩

theorem laidOut_format :
    LaidOut base.toNat (base.toNat + total.toNat) ((paramsAt base (formatBpb total)).regions total) := by
  obtain ⟨-, hsmall⟩ := fatsz_small hfits
  obtain ⟨hfat, hdata⟩ := params_toNat hbase hfits
  have htable := (covers_iff.mpr hfits).1
  have hclus : (formatBpb total).SecPerClus = 1 := secPerClus_of_table htable
  have hregions : (paramsAt base (formatBpb total)).regions total =
      [(base.toNat, 32), (base.toNat + 32, 2 * (geometry total).2.toNat),
        (base.toNat + 32 + 2 * (geometry total).2.toNat, total.toNat - (32 + 2 * (geometry total).2.toNat))] := by
    have hfirst : (paramsAt base (formatBpb total)).fat_start_lba - (formatBpb total).RsvdSecCnt.toUInt32 = base :=
      UInt32.add_sub_cancel base 32
    have hbpb : (paramsAt base (formatBpb total)).bpb = formatBpb total := rfl
    unfold Params.regions
    rw [hbpb, hfirst, hfat, hdata, clusterCount_eq htable, hclus]
    simp [formatBpb]
  rw [hregions]
  refine .cons ?_ ?_ (.cons ?_ ?_ (.cons ?_ ?_ .nil))
  all_goals omega

variable (hdisk : base.toNat + total.toNat ≤ dev.sectors)

include hdisk

/-- The sectors behind the reserved ones: the copies of the table differ, and the root directory is empty. -/
theorem format_tables (label : List UInt8) (stack : Bytes) : let dev' := (fat32_format_at dev base total label stack).2
    dev'.data (base + 32) = fatHead ∧ ¬ SameCopies dev' (base + 32) (geometry total).2.toNat ∧
      dev'.data (base + (32 + 2 * (geometry total).2)) = zeroSector := by
  obtain ⟨hpos, hsmall⟩ := fatsz_small hfits
  obtain ⟨hfat, -⟩ := params_toNat hbase hfits
  have hfat' : (base + 32).toNat = base.toNat + 32 := hfat
  have hne : total ≠ 0 := by
    rintro rfl
    exact absurd hfits.1 (by decide)
  intro dev'
  obtain ⟨d, hd, hdev'⟩ : ∃ d : Device, d.sectors = dev.sectors ∧
      dev' = (writeFats d (base + 32) (geometry total).2 fatHead).write (base + (32 + 2 * (geometry total).2)) zeroSector := by
    refine ⟨((dev.write base (bootSector base total label)).write (base + 1) fsInfoSector).write (base + 6)
      (bpbBytes base total label stack), by simp, ?_⟩
    show (fat32_format_at dev base total label stack).2 = _
    rw [fat32_format_at, if_neg hne]
  have hwrap : (base + 32).toNat + 2 * (geometry total).2.toNat ≤ 2 ^ 32 := by omega
  have hrange : (base + 32).toNat + 2 * (geometry total).2.toNat ≤ d.sectors := by omega
  -- the sector of the root directory is behind both copies
  have htable : ∀ i < 2 * (geometry total).2.toNat, dev'.data (base + 32 + UInt32.ofNat i) =
      (writeFats d (base + 32) (geometry total).2 fatHead).data (base + 32 + UInt32.ofNat i) := by
    intro i hi
    rw [hdev', Device.data_write_of_ne]
    rw [lba_add, root_lba]
    exact add_ofNat_ne (by omega) (by omega) (by omega)
  obtain ⟨hhead, hcopies⟩ := tables_written hwrap hrange hpos (by decide) htable
  refine ⟨hhead, hcopies, ?_⟩
  rw [hdev', Device.data_write_self]
  rw [writeFats_inRange, Device.inRange, decide_eq_true_eq, root_lba, toNat_add, toNat_ofNat']
  omega

end Fits

theorem root_empty (hroot : p.root_dir_cluster32 = 2) (h : dev.data p.data_start_lba = zeroSector) :
    iterate_dir (p.rootSlot dev) lfn_reset p.rootPlaces = [] := by
  apply iterate_dir_zero
  have hlba : p.data_start_lba + (2 - 2) * p.bpb.SecPerClus.toUInt32 + UInt32.ofNat (0 / 16) = p.data_start_lba := by
    simp
  simp only [Params.rootSlot, hroot, hlba, h]
  rfl

theorem freeCluster_ne_root (hroot : p.root_dir_cluster32 = 2) (hint : ℕ) :
    p.freeCluster dev hint ≠ some p.root_dir_cluster32.toNat := by
  intro h
  have hmem := three_le_of_mem_candidates (mem_of_find?_eq_some h)
  have htwo : p.root_dir_cluster32.toNat = 2 := by
    rw [hroot]
    rfl
  omega

section Sound

variable (hne : total ≠ 0) (hbase : base.toNat + total.toNat ≤ 2 ^ 32)
  (hdisk : base.toNat + total.toNat ≤ dev.sectors)

include hne hdisk

theorem sizeFits_of_sound (h : SoundButTable (fat32_format_at dev base total label stack).2 base total) :
    SizeFits total := by
  have hin := inRange_base hne hdisk
  have hmounts := h.mounts
  have hcovers := h.covers
  rw [volumeAt_format hne hin] at hmounts hcovers
  have htable : (geometry total).2 ≠ 0 := (fat32_init_format hne hin (paramsAt base (formatBpb total))).mp (hmounts _)
  have hcovers' : (formatBpb total).clusterCount total + 2 ≤ (geometry total).2.toNat * 128 := hcovers
  rw [clusterCount_eq htable] at hcovers'
  exact covers_iff.mp ⟨htable, hcovers'⟩

include hbase

theorem sound_of_sizeFits (label : List UInt8) (stack : Bytes) (h : SizeFits total) :
    SoundButTable (fat32_format_at dev base total label stack).2 base total := by
  have hin := inRange_base hne hdisk
  have hvol := volumeAt_format hne hin label stack
  obtain ⟨htable, hcovers⟩ := covers_iff.mpr h
  obtain ⟨-, -, hroot⟩ := format_tables hbase h hdisk label stack
  constructor
  · intro p
    rw [hvol]
    exact (fat32_init_format hne hin p).mpr htable
  · rw [hvol]
    exact laidOut_format hbase h
  · rw [hvol]
    show (formatBpb total).clusterCount total + 2 ≤ (geometry total).2.toNat * 128
    rw [clusterCount_eq htable]
    exact hcovers
  · intro hint
    rw [hvol]
    exact freeCluster_ne_root rfl hint
  · rw [hvol]
    apply root_empty rfl
    rw [← UInt32.add_assoc] at hroot
    exact hroot

theorem format_table_wrong (label : List UInt8) (stack : Bytes) (h : SizeFits total) :
    let dev' := (fat32_format_at dev base total label stack).2
    ¬ SameCopies dev' (volumeAt dev' base).fat_start_lba (volumeAt dev' base).bpb.FATSz32.toNat ∧
      (volumeAt dev' base).entry dev' (volumeAt dev' base).root_dir_cluster32.toNat = 0 := by
  intro dev'
  have hvol : volumeAt dev' base = paramsAt base (formatBpb total) :=
    volumeAt_format hne (inRange_base hne hdisk) label stack
  obtain ⟨hhead, hcopies, -⟩ := format_tables hbase h hdisk label stack
  rw [hvol]
  refine ⟨hcopies, ?_⟩
  have hentry : (paramsAt base (formatBpb total)).entry dev' 2 = (dev'.data (base + 32)).get32 8 &&& 0x0FFFFFFF := by
    have hlba : base + 32 + UInt32.ofNat (2 / 128) = base + 32 := UInt32.add_zero _
    show (dev'.data (base + 32 + UInt32.ofNat (2 / 128))).get32 (4 * (2 % 128)) &&& 0x0FFFFFFF = _
    rw [hlba]
  show (paramsAt base (formatBpb total)).entry dev' 2 = 0
  rw [hentry, hhead]
  decide

theorem format_not_sound (label : List UInt8) (stack : Bytes) :
    ¬ SoundVolume (fat32_format_at dev base total label stack).2 base total := by
  intro h
  have hfits := sizeFits_of_sound hne hdisk h.toSoundButTable
  exact (format_table_wrong hne hbase hdisk label stack hfits).1 h.copies

/-- A formatted volume is sound, the contents of the table apart, exactly for the sizes that fit; with them it never is:
the copies differ, and the root directory has no entry. -/
theorem format_sound_iff_fits (label : List UInt8) (stack : Bytes) :
    let dev' := (fat32_format_at dev base total label stack).2
    (fat32_format_at dev base total label stack).1 = true ∧ (SoundButTable dev' base total ↔ SizeFits total) ∧
      (SizeFits total → ¬ SameCopies dev' (volumeAt dev' base).fat_start_lba (volumeAt dev' base).bpb.FATSz32.toNat ∧
        (volumeAt dev' base).entry dev' (volumeAt dev' base).root_dir_cluster32.toNat = 0) ∧
      ¬ SoundVolume dev' base total := by
  refine ⟨by rw [fat32_format_at, if_neg hne], ⟨?_, ?_⟩, ?_, format_not_sound hne hbase hdisk label stack⟩
  · exact sizeFits_of_sound hne hdisk
  · exact sound_of_sizeFits hne hbase hdisk label stack
  · exact format_table_wrong hne hbase hdisk label stack

end Sound

def blankDisk : Device := ⟨70000, fun _ => zeroSector⟩

theorem format_sound_65559 : SoundButTable (fat32_format_at blankDisk 0 65559 [] zeroSector).2 0 65559 ∧
      ¬ SoundButTable (fat32_format_at blankDisk 0 65558 [] zeroSector).2 0 65558 := by
  have hyes := format_sound_iff_fits (show (65559 : UInt32) ≠ 0 by decide) (show (0 : UInt32).toNat + _ ≤ _ by decide)
    (show (0 : UInt32).toNat + _ ≤ blankDisk.sectors by decide) [] zeroSector
  have hno := format_sound_iff_fits (show (65558 : UInt32) ≠ 0 by decide) (show (0 : UInt32).toNat + _ ≤ _ by decide)
    (show (0 : UInt32).toNat + _ ≤ blankDisk.sectors by decide) [] zeroSector
  constructor
  · exact hyes.2.1.mpr (by decide)
  · intro h
    exact absurd (hno.2.1.mp h) (by decide)

/-- The first copy of the table starts with the reserved entries, the second with zero, and the cluster of the root
directory is free. -/
theorem format_root_is_free : let dev := (fat32_format_at blankDisk 0 65559 [] zeroSector).2
    ¬ SameCopies dev (volumeAt dev 0).fat_start_lba (volumeAt dev 0).bpb.FATSz32.toNat ∧
      (volumeAt dev 0).entry dev (volumeAt dev 0).root_dir_cluster32.toNat = 0 ∧ ¬ SoundVolume dev 0 65559 := by
  have hne : (65559 : UInt32) ≠ 0 := by decide
  have hbase : (0 : UInt32).toNat + (65559 : UInt32).toNat ≤ 2 ^ 32 := by decide
  have hdisk : (0 : UInt32).toNat + (65559 : UInt32).toNat ≤ blankDisk.sectors := by decide
  obtain ⟨hcopies, hentry⟩ := format_table_wrong hne hbase hdisk [] zeroSector (by decide)
  exact ⟨hcopies, hentry, format_not_sound hne hbase hdisk [] zeroSector⟩

end Orion.Fat32
