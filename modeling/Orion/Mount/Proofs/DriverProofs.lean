import Orion.Mount.Run

/-!
# What the init functions change

An init function writes the variables of its own driver only, and what it writes when it succeeds depends on
the disk alone.
-/

namespace Orion.Mount

open Lib Sys

variable {W : Type} {s t : Sys W} {f g : Fs} {d : Disk}

/-- The variables of the driver for `f` are the same. -/
def SameDriver (f : Fs) (a b : Drivers) : Prop :=
  match f with
  | .FAT16 => a.fat16_drive = b.fat16_drive ∧ a.fat16 = b.fat16
  | .FAT32 => a.fat32_drive = b.fat32_drive ∧ a.fat32 = b.fat32
  | .XVFS => a.xvfs_drive = b.xvfs_drive ∧ a.xvfs_base_lba = b.xvfs_base_lba ∧ a.sb = b.sb

theorem SameDriver.refl (f : Fs) (a : Drivers) : SameDriver f a a := by
  cases f with
  | FAT16 => exact ⟨rfl, rfl⟩
  | FAT32 => exact ⟨rfl, rfl⟩
  | XVFS => exact ⟨rfl, rfl, rfl⟩

theorem initDriver_other (hne : g ≠ f) (s : Sys W) (d : Disk) : SameDriver f (initDriver s g d).2 s.drivers := by
  unfold initDriver
  dsimp only
  cases g with
  | FAT16 =>
    cases Fat16.fat16_init (s.boot d) (s.disks d).base_lba with
    | none => exact SameDriver.refl f s.drivers
    | some p => cases f <;> simp_all [SameDriver]
  | FAT32 =>
    rcases Fat32.fat32_init s.drivers.fat32 (s.boot d) (s.disks d).base_lba with ⟨ok, p⟩
    cases ok <;> cases f <;> simp_all [SameDriver]
  | XVFS =>
    cases probe_xvfs (s.boot d) (s.disks d).base_lba with
    | none => exact SameDriver.refl f s.drivers
    | some sb => cases f <;> simp_all [SameDriver]

/-- Whether `fat32_init` succeeds, and what it sets then, does not depend on the variables before. -/
theorem fat32_init_cases (p q : Fat32.Params) (dev : Device) (base : UInt32) :
    (∃ r, Fat32.fat32_init p dev base = (true, r) ∧ Fat32.fat32_init q dev base = (true, r)) ∨
      ((Fat32.fat32_init p dev base).1 = false ∧ (Fat32.fat32_init q dev base).1 = false) := by
  unfold Fat32.fat32_init
  dsimp only
  split
  · exact Or.inr ⟨rfl, rfl⟩
  split
  · exact Or.inr ⟨rfl, rfl⟩
  split
  · exact Or.inl ⟨_, rfl, rfl⟩
  · exact Or.inr ⟨rfl, rfl⟩

theorem configured_of_init (hok : (initDriver s f d).1 = true) (hboot : t.boot d = s.boot d)
    (hdisk : (t.disks d).base_lba = (s.disks d).base_lba)
    (hsame : SameDriver f t.drivers (initDriver s f d).2) : Configured t f d := by
  unfold Configured initDriver
  unfold initDriver at hok hsame
  rw [hboot, hdisk]
  dsimp only at hok hsame ⊢
  cases f with
  | FAT16 =>
    rcases hinit : Fat16.fat16_init (s.boot d) (s.disks d).base_lba with _ | p
    · rw [hinit] at hok; exact absurd hok Bool.false_ne_true
    rw [hinit] at hsame
    obtain ⟨hdrive, hp⟩ := hsame
    dsimp only at hdrive hp ⊢
    rw [← hdrive, ← hp]
  | FAT32 =>
    rcases fat32_init_cases s.drivers.fat32 t.drivers.fat32 (s.boot d) (s.disks d).base_lba with
      ⟨r, hs, ht⟩ | ⟨hs, -⟩
    · rw [hs] at hsame
      obtain ⟨hdrive, hp⟩ := hsame
      rw [ht]
      dsimp only at hdrive hp ⊢
      rw [← hdrive, ← hp]
    · rcases hinit : Fat32.fat32_init s.drivers.fat32 (s.boot d) (s.disks d).base_lba with ⟨ok, p⟩
      rw [hinit] at hs hok
      cases hs
      exact absurd hok Bool.false_ne_true
  | XVFS =>
    rcases hinit : probe_xvfs (s.boot d) (s.disks d).base_lba with _ | sb
    · rw [hinit] at hok; exact absurd hok Bool.false_ne_true
    rw [hinit] at hsame
    obtain ⟨hdrive, hbase, hsb⟩ := hsame
    dsimp only at hdrive hbase hsb ⊢
    rw [← hdrive, ← hbase, ← hsb]

theorem Configured.congr (h : Configured s f d) (hboot : t.boot d = s.boot d)
    (hdisk : (t.disks d).base_lba = (s.disks d).base_lba) (hsame : SameDriver f t.drivers s.drivers) :
    Configured t f d := by
  have hinit : initDriver s f d = (true, s.drivers) := h
  refine configured_of_init (s := s) ?_ hboot hdisk ?_
  · rw [hinit]
  · rw [hinit]; exact hsame

theorem init_failed (hfail : (initDriver s f d).1 = false) (hdam : f = .FAT32 → ¬ Damaged s d) :
    (initDriver s f d).2 = s.drivers := by
  unfold initDriver at hfail ⊢
  dsimp only at hfail ⊢
  cases f with
  | FAT16 =>
    cases hinit : Fat16.fat16_init (s.boot d) (s.disks d).base_lba with
    | none => rfl
    | some p => rw [hinit] at hfail; cases hfail
  | FAT32 =>
    have hkeep : (Fat32.fat32_init s.drivers.fat32 (s.boot d) (s.disks d).base_lba).1 = true ∨
        Fat32.fat32_init s.drivers.fat32 (s.boot d) (s.disks d).base_lba = (false, s.drivers.fat32) := by
      unfold Fat32.fat32_init
      dsimp only
      split
      · exact Or.inr rfl
      rename_i hrange
      split
      · exact Or.inr rfl
      rename_i hname
      split
      · exact Or.inl rfl
      rename_i hacc
      exact absurd ⟨by simpa using hrange, by simpa using hname, by simpa using hacc⟩ (hdam rfl)
    rcases hkeep with hok | hkeep
    · rcases hinit : Fat32.fat32_init s.drivers.fat32 (s.boot d) (s.disks d).base_lba with ⟨ok, p⟩
      rw [hinit] at hok hfail
      subst hok
      cases hfail
    · rw [hkeep]
  | XVFS =>
    cases hinit : probe_xvfs (s.boot d) (s.disks d).base_lba with
    | none => rfl
    | some sb => rw [hinit] at hfail; cases hfail

theorem quick_probe_eq {dev : Device} (hin : dev.inRange 0 = true) (hmark : Fat16.has_sig55AA (dev.data 0) = true) :
    fs_quick_probe dev = match signature0 dev with
      | some f => (.fs f, 0)
      | none =>
        match firstPartition dev with
        | none => (.Unknown, 0)
        | some i =>
          match signatureAt dev (partition (dev.data 0) i).2 with
          | some f => (.fs f, (partition (dev.data 0) i).2)
          | none => (.MBR, (partition (dev.data 0) i).2) := by
  unfold fs_quick_probe signature0
  simp only [hin, hmark, Bool.not_true, Bool.false_eq_true, if_false]
  split
  · rfl
  split
  · rfl
  split
  · rfl
  unfold firstPartition
  dsimp only
  rcases (List.range 4).find? fun i => (partition (dev.data 0) i).1 ≠ 0 with _ | i
  · rfl
  unfold signatureAt
  dsimp only
  split_ifs <;> rfl

/-- Volumes are found exactly if the names that are trusted are those of volumes, and no volume is in a partition behind
a first one without a name. -/
theorem finds_volumes_iff (dev : Device) : FindsVolumes dev ↔ Labelled dev := by
  by_cases hin : dev.inRange 0 = true
  swap
  · have hnone : fs_quick_probe dev = (.None, 0) := by simp [fs_quick_probe, hin]
    refine ⟨fun _ h => absurd h hin, fun _ => ⟨fun h => absurd h.1 hin, fun f base h => ?_⟩⟩
    rw [hnone] at h
    cases h
  by_cases hmark : Fat16.has_sig55AA (dev.data 0) = true
  swap
  · have hunknown : fs_quick_probe dev = (.Unknown, 0) := by simp [fs_quick_probe, hin, hmark]
    refine ⟨fun _ _ h => absurd h hmark, fun _ => ⟨fun h => absurd h.2.1 hmark, fun f base h => ?_⟩⟩
    rw [hunknown] at h
    cases h
  have hprobe := quick_probe_eq hin hmark
  constructor
  · intro hfinds _ _
    constructor
    · intro f hf
      rw [hf] at hprobe
      exact hfinds.sound f 0 hprobe
    · intro hsig i hi
      rw [hsig, hi] at hprobe
      constructor
      · intro f hf
        simp only [hf] at hprobe
        exact hfinds.sound f _ hprobe
      · intro hnone hmbr j f hj
        simp only [hnone] at hprobe
        obtain ⟨k, g, -, hk⟩ := hfinds.finds hmbr ⟨j, f, hj⟩
        rw [hprobe] at hk
        cases hk
  · intro hlabelled
    obtain ⟨hzero, hpart⟩ := hlabelled hin hmark
    cases hsig : signature0 dev with
    | some f =>
      rw [hsig] at hprobe
      refine ⟨fun hmbr => absurd (hzero f hsig) (hmbr.2.2 f), fun g base h => ?_⟩
      rw [hprobe] at h
      cases h
      exact hzero f hsig
    | none =>
      rcases hi : firstPartition dev with _ | i
      · rw [hsig, hi] at hprobe
        refine ⟨fun _ ⟨j, f, hj, htype, _⟩ => ?_, fun g base h => ?_⟩
        · have hempty := List.find?_eq_none.mp hi j (List.mem_range.mpr hj)
          simp [htype] at hempty
        · rw [hprobe] at h
          cases h
      obtain ⟨hnamed, hnone⟩ := hpart hsig i hi
      rw [hsig, hi] at hprobe
      have hfour : i < 4 := List.mem_range.mp (List.mem_of_find?_eq_some hi)
      have htype : (partition (dev.data 0) i).1 ≠ 0 := by simpa using List.find?_some hi
      cases hat : signatureAt dev (partition (dev.data 0) i).2 with
      | some f =>
        simp only [hat] at hprobe
        refine ⟨fun _ _ => ⟨i, f, ⟨hfour, htype, hnamed f hat⟩, hprobe⟩, fun g base h => ?_⟩
        rw [hprobe] at h
        cases h
        exact hnamed f hat
      | none =>
        simp only [hat] at hprobe
        refine ⟨fun hmbr ⟨j, f, hj⟩ => absurd hj (hnone hat hmbr j f), fun g base h => ?_⟩
        rw [hprobe] at h
        cases h

/-- A partition table with an empty partition of Linux in front of one with a volume of FAT16. -/
def twoPartitions : Device where
  sectors := 9000
  data lba :=
    if lba = 0 then
      (Bytes.splice (fun _ => 0) 0x1BE 32 (Bytes.ofList ([0, 0, 0, 0, 0x83, 0, 0, 0, 0x88, 0x13, 0, 0, 0, 0, 0, 0] ++
        [0, 0, 0, 0, 6, 0, 0, 0, 1, 0, 0, 0, 0, 0, 0, 0]))).put16 510 0xAA55
    else if lba = 1 then
      ((Bytes.ofList ([0xE9] ++ List.replicate 11 0 ++ [2, 1, 1, 0, 1, 0, 0, 0x9D, 0x13, 0, 20])).splice 0x36 8
        (Bytes.ofList fat16Sig)).put16 510 0xAA55
    else fun _ => 0

/-- The volume is in the second partition, and the probe looks at the first. -/
theorem second_partition_missed :
    HasVolume twoPartitions 1 .FAT16 ∧ fs_quick_probe twoPartitions = (.MBR, 5000) ∧ ¬ FindsVolumes twoPartitions := by
  have hvolume : HasVolume twoPartitions 1 .FAT16 := ⟨by decide, by decide +kernel, by
    change (Fat16.probe_fat16_pbr _ _).isSome = true
    decide +kernel⟩
  have hprobe : fs_quick_probe twoPartitions = (.MBR, 5000) := by decide +kernel
  have hmbr : IsMbr twoPartitions := by
    refine ⟨by decide +kernel, by decide +kernel, fun f => ?_⟩
    cases f with
    | FAT16 =>
      change ¬ (Fat16.probe_fat16_pbr _ _).isSome = true
      decide +kernel
    | FAT32 =>
      change ¬ (Fat32.fat32_init _ _ _).1 = true
      decide +kernel
    | XVFS =>
      change ¬ (probe_xvfs _ _).isSome = true
      decide +kernel
  refine ⟨hvolume, hprobe, fun h => ?_⟩
  obtain ⟨i, f, -, hfound⟩ := h.finds hmbr ⟨1, .FAT16, hvolume⟩
  rw [hprobe] at hfound
  cases hfound

end Orion.Mount
