import Orion.Fat.Proofs.FormatProofs
import Orion.Fat16.Format

/-!
# Proofs: what `fat16_format_at` leaves

The estimate of the data region makes the table too small for many sizes, and the second copy of the table never has
the reserved entries.
-/

namespace Orion.Fat16

open Lib Fat Bytes
open UInt32 (toNat_sub toNat_add toNat_mul toNat_div toNat_inj)

variable {dev : Device} {base total : UInt32} {label : List UInt8}

theorem toNat_fatsz (total : UInt32) :
    (fatsz total).toNat = max 1 (((total.toNat + (2 ^ 32 - 533)) % 2 ^ 32 / 4 * 2 + 511) / 512 % 65536) := by
  have hsub : total - (1 + (512 * 32 + (512 - 1)) / 512 + 2 * 250) = total - 533 := rfl
  have hdata : (total - 533).toNat = (total.toNat + (2 ^ 32 - 533)) % 2 ^ 32 := by
    rw [toNat_sub, Nat.add_comm]
    rfl
  have hclusters : ((total - 533) / 4 * 2 + (512 - 1)).toNat = (total.toNat + (2 ^ 32 - 533)) % 2 ^ 32 / 4 * 2 + 511 := by
    rw [toNat_add, toNat_mul, toNat_div, hdata]
    have h4 : UInt32.toNat 4 = 4 := rfl
    have h2 : UInt32.toNat 2 = 2 := rfl
    have h511 : (512 - 1 : UInt32).toNat = 511 := rfl
    rw [h4, h2, h511]
    omega
  unfold fatsz
  simp only [hsub]
  generalize hq : ((total - 533) / 4 * 2 + (512 - 1)) / 512 = q
  have hnat : q.toNat = ((total.toNat + (2 ^ 32 - 533)) % 2 ^ 32 / 4 * 2 + 511) / 512 := by
    rw [← hq, toNat_div, hclusters]
    rfl
  rw [← hnat]
  have h16 : q.toUInt16.toNat = q.toNat % 65536 := rfl
  split
  · rename_i hlt
    rw [UInt16.lt_iff_toNat_lt, h16] at hlt
    change _ < 1 at hlt
    change 1 = _
    omega
  · rename_i hge
    rw [UInt16.lt_iff_toNat_lt, h16] at hge
    change ¬ _ < 1 at hge
    omega

theorem size_arith {T F d : ℕ} (hT : T < 2 ^ 32)
    (hF : F = max 1 ((((T + (2 ^ 32 - 533)) % 2 ^ 32) / 4 * 2 + 511) / 512 % 65536))
    (hd : d = (T + (2 ^ 32 - (33 + 2 * F))) % 2 ^ 32) :
    (d ≠ 0 ∧ 4085 ≤ d / 4 ∧ d / 4 < 65525) ↔ 16405 ≤ T ∧ T ≤ 262644 := by
  by_cases hsmall : T < 533
  · have hF1 : F = 1 := by omega
    omega
  have hD : (T + (2 ^ 32 - 533)) % 2 ^ 32 = T - 533 := by omega
  rw [hD] at hF
  generalize he : ((T - 533) / 4 * 2 + 511) / 512 = e at hF
  have hF' : F ≤ 65535 ∧ (T < 2 ^ 25 → F = max 1 e) := by omega
  have hd' : d = T - (33 + 2 * F) := by
    by_cases hbig : T < 2 ^ 25
    · have hFe := hF'.2 hbig
      omega
    · omega
  by_cases hbig : T < 2 ^ 25
  · have hFe := hF'.2 hbig
    subst hd'
    omega
  · subst hd'
    omega

/-- The fields of the new boot sector. -/
def formatBpb (total : UInt32) : Bpb where
  BytsPerSec := 512
  SecPerClus := 4
  RsvdSecCnt := 1
  NumFATs := 2
  RootEntCnt := 512
  TotSec16 := if total < 65536 then total.toUInt16 else 0
  FATSz16 := fatsz total
  TotSec32 := if total < 65536 then 0 else total

theorem agree_bootSector {o n : ℕ} (h : o + n ≤ 19) :
    Bytes.Agree (bootSector base total label) (Bytes.ofList bootBytes) o n := by
  intro i h1 h2
  unfold bootSector Bytes.put16 Bytes.put32
  rw [splice_outside (by omega), splice_outside (by omega), splice_outside (by omega),
    splice_outside (by omega), splice_outside (by omega), splice_outside (by omega)]

theorem bootSector_const {i : ℕ} (h : i < 19) : bootSector base total label i = Bytes.ofList bootBytes i := by
  have hagree : Bytes.Agree (bootSector base total label) (Bytes.ofList bootBytes) i 1 := agree_bootSector (by omega)
  exact hagree i (le_refl i) (by omega)

theorem decodeBpb_bootSector (base total : UInt32) (label : List UInt8) :
    decodeBpb (bootSector base total label) = formatBpb total := by
  have htot16 : (bootSector base total label).get16 19 = (formatBpb total).TotSec16 := by
    unfold bootSector
    rw [get16_splice_of_disjoint (by omega), get16_splice_of_disjoint (by omega),
      get16_put32_of_disjoint (by omega), get16_put32_of_disjoint (by omega),
      get16_put16_of_disjoint (by omega), get16_put16]
    rfl
  have hfatsz : (bootSector base total label).get16 22 = fatsz total := by
    unfold bootSector
    rw [get16_splice_of_disjoint (by omega), get16_splice_of_disjoint (by omega),
      get16_put32_of_disjoint (by omega), get16_put32_of_disjoint (by omega), get16_put16]
  have htot32 : (bootSector base total label).get32 32 = (formatBpb total).TotSec32 := by
    unfold bootSector
    rw [get32_splice_of_disjoint (by omega), get32_splice_of_disjoint (by omega), get32_put32]
    rfl
  unfold decodeBpb
  rw [htot16, hfatsz, htot32, get16_congr (agree_bootSector (by omega)), bootSector_const (by omega),
    get16_congr (agree_bootSector (by omega)), bootSector_const (by omega),
    get16_congr (agree_bootSector (by omega))]
  rfl

theorem valid_bootSector (base total : UInt32) (label : List UInt8) :
    has_sig55AA (bootSector base total label) = true ∧ is_valid_bootjmp (bootSector base total label) = true := by
  have hsig : ∀ i, 510 ≤ i → i < 512 → bootSector base total label i = Bytes.ofList [0x55, 0xAA] (i - 510) :=
    fun i h1 h2 => splice_inside h1 h2
  constructor
  · rw [has_sig55AA, hsig 510 (by omega) (by omega), hsig 511 (by omega) (by omega)]
    rfl
  · rw [is_valid_bootjmp, bootSector_const (by omega), bootSector_const (by omega)]
    rfl

theorem toNat_size (total : UInt32) : (fatsz total).toUInt32.toNat = (fatsz total).toNat := rfl

theorem toNat_double (total : UInt32) : (2 * (fatsz total).toUInt32).toNat = 2 * (fatsz total).toNat := by
  have hF := (fatsz total).toNat_lt
  rw [toNat_mul, toNat_size]
  exact Nat.mod_eq_of_lt (show 2 * (fatsz total).toNat < 2 ^ 32 by omega)

theorem format_data_base (hne : total ≠ 0) (hin : dev.inRange base = true) :
    (fat16_format_at dev base total label).2.data base = bootSector base total label := by
  have hF := (fatsz total).toNat_lt
  have hone : (1 : UInt32).toNat = 1 := rfl
  unfold fat16_format_at
  rw [if_neg hne]
  rw [Device.writeRun_data_of_ne, writeFats_data_of_ne, Device.data_write_self hin]
  · intro i hi
    rw [toNat_size] at hi
    rw [add_add_ofNat, hone]
    exact ne_add_ofNat (by omega) (by omega)
  · intro i hi
    have hsum : base + 1 + 2 * (fatsz total).toUInt32 + UInt32.ofNat i =
        base + UInt32.ofNat (1 + (2 * (fatsz total).toNat + i)) := by
      rw [add_add_ofNat, add_add_ofNat, hone, toNat_double]
    rw [hsum]
    exact ne_add_ofNat (by omega) (by omega)

theorem format_inRange {lba : UInt32} (hne : total ≠ 0) :
    (fat16_format_at dev base total label).2.inRange lba = dev.inRange lba := by
  unfold fat16_format_at
  rw [if_neg hne]
  simp

theorem volumeAt_format (hne : total ≠ 0) (hin : dev.inRange base = true) (label : List UInt8) :
    volumeAt (fat16_format_at dev base total label).2 base = paramsAt base (formatBpb total) := by
  rw [volumeAt, format_data_base hne hin, decodeBpb_bootSector]

theorem probe_eq_some {bpb : Bpb} (h : probe_fat16_pbr dev base = some bpb) : bpb.accepted = true := by
  unfold probe_fat16_pbr at h
  split at h
  · cases h
  dsimp only at h
  split at h
  · cases h
  split at h
  · rename_i hok
    rw [← Option.some.inj h]
    exact hok
  · cases h

theorem fat16_init_accepted {p : Params} (h : fat16_init dev base = some p) : p.fat16_bpb.accepted = true := by
  unfold fat16_init at h
  split at h
  · rename_i bpb hbpb
    rw [← Option.some.inj h]
    exact probe_eq_some hbpb
  split at h
  · rename_i lba bpb hmbr
    rw [← Option.some.inj h]
    unfold find_fat16_in_mbr at hmbr
    split at hmbr
    · cases hmbr
    obtain ⟨i, -, hi⟩ := List.exists_of_findSome?_eq_some hmbr
    dsimp only at hi
    split at hi
    · obtain ⟨bpb', hbpb', hpair⟩ := Option.map_eq_some_iff.mp hi
      rw [← (Prod.mk.inj hpair).2]
      exact probe_eq_some hbpb'
    · cases hi
  · obtain ⟨bpb, hbpb, rfl⟩ := Option.map_eq_some_iff.mp h
    exact probe_eq_some hbpb

theorem fat16_init_format (hne : total ≠ 0) (hin : dev.inRange base = true) :
    fat16_init (fat16_format_at dev base total label).2 base = some (paramsAt base (formatBpb total)) ↔
      (formatBpb total).accepted = true := by
  obtain ⟨hsig, hjmp⟩ := valid_bootSector base total label
  have hprobe : probe_fat16_pbr (fat16_format_at dev base total label).2 base =
      if (formatBpb total).accepted then some (formatBpb total) else none := by
    unfold probe_fat16_pbr
    rw [format_inRange hne, hin, format_data_base hne hin]
    dsimp only
    rw [hsig, hjmp, decodeBpb_bootSector]
    rfl
  constructor
  · intro hinit
    exact fat16_init_accepted hinit
  · intro hok
    rw [fat16_init, hprobe, if_pos hok]

theorem formatBpb_total (hne : total ≠ 0) : (if (formatBpb total).TotSec16 ≠ 0 then
    (formatBpb total).TotSec16.toUInt32 else (formatBpb total).TotSec32) = total := by
  have hpos : total.toNat ≠ 0 := fun h => hne (toNat_inj.mp h)
  unfold formatBpb
  dsimp only
  by_cases hsmall : total < 65536
  · have hlt : total.toNat < 65536 := hsmall
    have hback : total.toUInt16.toNat = total.toNat := Nat.mod_eq_of_lt hlt
    rw [if_pos hsmall, if_pos hsmall, if_pos]
    · apply toNat_inj.mp
      exact hback
    · intro hzero
      rw [hzero] at hback
      exact hpos hback.symm
  · rw [if_neg hsmall, if_neg hsmall]
    rfl

theorem formatBpb_consts (total : UInt32) : (formatBpb total).RsvdSecCnt.toUInt32 = 1 ∧
    (formatBpb total).fatSectors = 2 * (fatsz total).toUInt32 ∧ (formatBpb total).rootDirSectors = 32 := by
  refine ⟨rfl, rfl, ?_⟩
  exact (by decide : ((512 : UInt16).toUInt32 * 32 + ((512 : UInt16).toUInt32 - 1)) / (512 : UInt16).toUInt32 = 32)

theorem toNat_dataSectors (hne : total ≠ 0) : (formatBpb total).dataSectors.toNat =
    (total.toNat + (2 ^ 32 - (33 + 2 * (fatsz total).toNat))) % 2 ^ 32 := by
  have hF := (fatsz total).toNat_lt
  have hhead : ((formatBpb total).RsvdSecCnt.toUInt32 + (formatBpb total).fatSectors +
      (formatBpb total).rootDirSectors).toNat = 33 + 2 * (fatsz total).toNat := by
    obtain ⟨hrsvd, hfats, hroot⟩ := formatBpb_consts total
    rw [hrsvd, hfats, hroot]
    simp only [toNat_add, toNat_mul, toNat_size, UInt32.reduceToNat]
    omega
  rw [Bpb.dataSectors, formatBpb_total hne, toNat_sub, hhead, Nat.add_comm]

theorem accepted_iff (hne : total ≠ 0) :
    (formatBpb total).accepted = true ↔ 16405 ≤ total.toNat ∧ total.toNat ≤ 262644 := by
  have hsize := size_arith total.toNat_lt (toNat_fatsz total) (toNat_dataSectors hne)
  have hpos : (fatsz total).toNat ≠ 0 := by
    rw [toNat_fatsz]
    omega
  have hfat : (formatBpb total).FATSz16 ≠ 0 := fun h => hpos (congrArg UInt16.toNat h)
  have hdata : (formatBpb total).dataSectors ≠ 0 ↔ (formatBpb total).dataSectors.toNat ≠ 0 := by
    rw [ne_eq, ← toNat_inj]
    rfl
  have hdiv : ((formatBpb total).dataSectors / (formatBpb total).SecPerClus.toUInt32).toNat =
      (formatBpb total).dataSectors.toNat / 4 := toNat_div _ _
  rw [← hsize]
  unfold Bpb.accepted
  simp only [Bool.and_eq_true, decide_eq_true_eq, hfat, hdata, ge_iff_le, UInt32.le_iff_toNat_le,
    UInt32.lt_iff_toNat_lt, hdiv, not_false_eq_true, ne_eq]
  constructor
  · rintro ⟨⟨-, hd⟩, hlow, hhigh⟩
    exact ⟨hd, hlow, hhigh⟩
  rintro ⟨hd, hlow, hhigh⟩
  have hclus : (!(decide ((4 : UInt8) = 0) || decide ¬ (4 : UInt8) &&& 4 - 1 = 0 || decide ((4 : UInt8) > 128))) =
    true := by decide
  have hnum : ¬ (2 : UInt8) = 0 := by decide
  exact ⟨⟨⟨⟨⟨rfl, hclus⟩, hnum⟩, trivial⟩, hd⟩, hlow, hhigh⟩

theorem params_toNat (base total : UInt32) (hwrap : base.toNat + (33 + 2 * (fatsz total).toNat) < 2 ^ 32) :
    (paramsAt base (formatBpb total)).fat_start_lba.toNat = base.toNat + 1 ∧
    (paramsAt base (formatBpb total)).root_dir_lba.toNat = base.toNat + 1 + 2 * (fatsz total).toNat ∧
    (paramsAt base (formatBpb total)).data_region_lba.toNat = base.toNat + 33 + 2 * (fatsz total).toNat := by
  obtain ⟨hrsvd, hfats, hroot⟩ := formatBpb_consts total
  unfold paramsAt
  simp only [hrsvd, hfats, hroot, toNat_add, toNat_mul, toNat_size, UInt32.reduceToNat]
  omega

section Fits

variable (hbase : base.toNat + total.toNat ≤ 2 ^ 32) (hdisk : base.toNat + total.toNat ≤ dev.sectors)
  (hlow : 16405 ≤ total.toNat) (hhigh : total.toNat ≤ 262644)

include hlow hhigh

theorem fatsz_small : 33 + 2 * (fatsz total).toNat + 16340 ≤ total.toNat ∧ 0 < (fatsz total).toNat := by
  have hF := toNat_fatsz total
  have hD : (total.toNat + (2 ^ 32 - 533)) % 2 ^ 32 = total.toNat - 533 := by omega
  rw [hD] at hF
  generalize he : ((total.toNat - 533) / 4 * 2 + 511) / 512 = e at hF
  omega

theorem countOfClusters_eq : (formatBpb total).countOfClusters = (total.toNat - 33 - 2 * (fatsz total).toNat) / 4 := by
  obtain ⟨hsmall, -⟩ := fatsz_small hlow hhigh
  have hne : total ≠ 0 := by
    rintro rfl
    exact absurd hlow (by decide)
  have hdata := toNat_dataSectors hne
  have hdiv : (formatBpb total).countOfClusters = (formatBpb total).dataSectors.toNat / 4 := toNat_div _ _
  rw [hdiv, hdata]
  omega

include hbase

theorem laidOut_format : LaidOut base.toNat (base.toNat + total.toNat) (paramsAt base (formatBpb total)).regions := by
  obtain ⟨hsmall, -⟩ := fatsz_small hlow hhigh
  obtain ⟨hfat, hroot, hdata⟩ := params_toNat base total (by omega)
  have hcount := countOfClusters_eq hlow hhigh
  obtain ⟨hrsvd, hfats, hrootlen⟩ := formatBpb_consts total
  have hregions : (paramsAt base (formatBpb total)).regions =
      [(base.toNat, 1), (base.toNat + 1, 2 * (fatsz total).toNat), (base.toNat + 1 + 2 * (fatsz total).toNat, 32),
        (base.toNat + 33 + 2 * (fatsz total).toNat, (total.toNat - 33 - 2 * (fatsz total).toNat) / 4 * 4)] := by
    have hfirst : (paramsAt base (formatBpb total)).fat_start_lba - (formatBpb total).RsvdSecCnt.toUInt32 = base := by
      rw [hrsvd]
      exact UInt32.add_sub_cancel base 1
    have hrootlen' : (paramsAt base (formatBpb total)).root_dir_sectors = 32 := hrootlen
    have hbpb : (paramsAt base (formatBpb total)).fat16_bpb = formatBpb total := rfl
    unfold Params.regions
    rw [hbpb, hfirst, hfats, toNat_double, hfat, hroot, hrootlen', hdata, hcount]
    rfl
  rw [hregions]
  refine .cons ?_ ?_ (.cons ?_ ?_ (.cons ?_ ?_ (.cons ?_ ?_ .nil)))
  all_goals omega

include hdisk

theorem format_tables (label : List UInt8) : let dev' := (fat16_format_at dev base total label).2
    dev'.data (base + 1) = fatHead ∧ ¬ SameCopies dev' (base + 1) (fatsz total).toNat ∧
      ∀ i < 32, dev'.data (base + 1 + 2 * (fatsz total).toUInt32 + UInt32.ofNat i) = zeroSector := by
  obtain ⟨hsmall, hpos⟩ := fatsz_small hlow hhigh
  obtain ⟨hfat, hroot, -⟩ := params_toNat base total (by omega)
  have hne : total ≠ 0 := by
    rintro rfl
    exact absurd hlow (by decide)
  have hfat' : (base + 1).toNat = base.toNat + 1 := hfat
  have hroot' : (base + 1 + 2 * (fatsz total).toUInt32).toNat = base.toNat + 1 + 2 * (fatsz total).toNat := hroot
  have hsize := toNat_size total
  intro dev'
  have hdev' : dev' = (writeFats (dev.write base (bootSector base total label)) (base + 1) (fatsz total).toUInt32
      fatHead).writeRun (base + 1 + 2 * (fatsz total).toUInt32) (fun _ => zeroSector) 32 := by
    change (fat16_format_at dev base total label).2 = _
    rw [fat16_format_at, if_neg hne]
  have hfirst : ∀ i < 2 * (fatsz total).toNat, dev'.data (base + 1 + UInt32.ofNat i) =
      (writeFats (dev.write base (bootSector base total label)) (base + 1) (fatsz total).toUInt32 fatHead).data
        (base + 1 + UInt32.ofNat i) := by
    intro i hi
    rw [hdev', Device.writeRun_data_of_ne]
    intro j hj
    rw [add_add_ofNat (base + 1) (2 * (fatsz total).toUInt32) j, toNat_double]
    exact add_ofNat_ne (by omega) (by omega) (by omega)
  have hwrap : (base + 1).toNat + 2 * (fatsz total).toUInt32.toNat ≤ 2 ^ 32 := by omega
  have hrange : (base + 1).toNat + 2 * (fatsz total).toUInt32.toNat ≤
      (dev.write base (bootSector base total label)).sectors := by
    rw [Device.write_sectors]
    omega
  obtain ⟨hhead, hcopies⟩ := tables_written hwrap hrange (by omega) (by decide) hfirst
  refine ⟨hhead, hcopies, ?_⟩
  intro i hi
  rw [hdev']
  refine Device.writeRun_data ?_ ?_ hi
  · omega
  · rw [writeFats_sectors, Device.write_sectors]
    omega

end Fits

theorem root_empty {p : Params} (h : dev.data p.root_dir_lba = zeroSector) :
    iterate_dir (p.rootSlot dev) lfn_reset p.rootPlaces = [] := by
  apply iterate_dir_zero
  have hlba : p.root_dir_lba + UInt32.ofNat (0 / 16) = p.root_dir_lba := UInt32.add_zero _
  simp only [Params.rootSlot, hlba, h]
  rfl

section Sound

variable (hne : total ≠ 0) (hbase : base.toNat + total.toNat ≤ 2 ^ 32)
  (hdisk : base.toNat + total.toNat ≤ dev.sectors)

include hne hdisk

theorem sizeFits_of_sound (h : SoundButCopies (fat16_format_at dev base total label).2 base total) : SizeFits total := by
  have hin := inRange_base hne hdisk
  have hmounts := h.mounts
  have hcovers := h.covers
  rw [volumeAt_format hne hin] at hmounts hcovers
  obtain ⟨hlow, hhigh⟩ := (accepted_iff hne).mp ((fat16_init_format hne hin).mp hmounts)
  refine ⟨hlow, hhigh, ?_⟩
  rw [← countOfClusters_eq hlow hhigh]
  exact hcovers

include hbase

theorem sound_of_sizeFits (label : List UInt8) (h : SizeFits total) :
    SoundButCopies (fat16_format_at dev base total label).2 base total := by
  obtain ⟨hlow, hhigh, hcovers⟩ := h
  have hin := inRange_base hne hdisk
  have hvol := volumeAt_format hne hin label
  obtain ⟨hhead, -, hroot⟩ := format_tables hbase hdisk hlow hhigh label
  constructor
  · rw [hvol]
    exact (fat16_init_format hne hin).mpr ((accepted_iff hne).mpr ⟨hlow, hhigh⟩)
  · rw [hvol]
    exact laidOut_format hbase hlow hhigh
  · rw [hvol]
    change (formatBpb total).countOfClusters + 2 ≤ (fatsz total).toNat * 256
    rw [countOfClusters_eq hlow hhigh]
    exact hcovers
  · rw [hvol]
    change ((fat16_format_at dev base total label).2.data (base + 1)).get16 0 = 0xFFF8 ∧
      ((fat16_format_at dev base total label).2.data (base + 1)).get16 2 = 0xFFFF
    rw [hhead]
    exact ⟨by decide, by decide⟩
  · rw [hvol]
    apply root_empty
    have hzero := hroot 0 (by omega)
    rw [show UInt32.ofNat 0 = 0 from rfl, UInt32.add_zero] at hzero
    exact hzero

theorem format_not_sound (label : List UInt8) : ¬ SoundVolume (fat16_format_at dev base total label).2 base total := by
  rintro ⟨hsound, hcopies⟩
  obtain ⟨hlow, hhigh, -⟩ := sizeFits_of_sound hne hdisk hsound
  rw [volumeAt_format hne (inRange_base hne hdisk)] at hcopies
  exact (format_tables hbase hdisk hlow hhigh label).2.1 hcopies

/-- A formatted volume is sound, the copies of the table apart, exactly for the sizes that fit; with them it never is.
-/
theorem format_sound_iff (label : List UInt8) : (fat16_format_at dev base total label).1 = true ∧
      (SoundButCopies (fat16_format_at dev base total label).2 base total ↔ SizeFits total) ∧
      ¬ SoundVolume (fat16_format_at dev base total label).2 base total := by
  refine ⟨by rw [fat16_format_at, if_neg hne], ⟨?_, ?_⟩, format_not_sound hne hbase hdisk label⟩
  · exact sizeFits_of_sound hne hdisk
  · exact sound_of_sizeFits hne hbase hdisk label

end Sound

def blankDisk : Device := ⟨40960, fun _ => zeroSector⟩

theorem format_sound_40000 : SoundButCopies (fat16_format_at blankDisk 0 40000 []).2 0 40000 ∧
      ¬ SoundButCopies (fat16_format_at blankDisk 0 40448 []).2 0 40448 := by
  have hyes : _ ∧ (SoundButCopies (fat16_format_at blankDisk 0 40000 []).2 0 40000 ↔ SizeFits 40000) ∧ _ :=
    format_sound_iff (by decide) (by decide) (by decide) []
  have hno : _ ∧ (SoundButCopies (fat16_format_at blankDisk 0 40448 []).2 0 40448 ↔ SizeFits 40448) ∧ _ :=
    format_sound_iff (by decide) (by decide) (by decide) []
  constructor
  · exact hyes.2.1.mpr (by decide +kernel)
  · intro h
    exact absurd (hno.2.1.mp h) (by decide +kernel)

/-- The first copy of the table starts with `0xFFF8`, the second one with zero. -/
theorem format_copies_differ : let dev := (fat16_format_at blankDisk 0 40000 []).2
    (dev.data 1).get16 0 = 0xFFF8 ∧ (dev.data 40).get16 0 = 0 ∧ ¬ SoundVolume dev 0 40000 := by
  refine ⟨by decide +kernel, by decide +kernel, format_not_sound ?_ ?_ ?_ []⟩
  · decide
  · decide
  · decide

end Orion.Fat16
