import Orion.Mount.Proofs.DriverProofs

/-!
# The selected driver matches its disk

Two records rely on a driver: the selection of the shell and the mounted disk of `fsbg.c`. The invariant says that both
are true, and an init function keeps it when no record names another disk.
-/

namespace Orion.Mount

open Lib Sys

variable {W : Type} {s : Sys W} {f g : Fs} {d : Disk}

/-- The selection and the records are true, and their disks are not probed again. -/
structure Inv (s : Sys W) : Prop where
  selected : ∀ f, s.current_fs = some f →
    ∃ d, s.current_drive = some d ∧ (s.disks d).fs_type = .fs f ∧ Configured s f d
  recorded : ∀ f d, s.mounted f = some d → Known s d ∧ Configured s f d
  honest : s.honest = true

theorem Inv.matches (h : Inv s) : Matches s := by
  refine ⟨fun f hf => ?_, h.honest⟩
  obtain ⟨d, hd, -, hconf⟩ := h.selected f hf
  exact ⟨d, hd, hconf⟩

theorem Inv.setWorld (h : Inv s) (w : W) : Inv (s.setWorld w) := ⟨h.selected, h.recorded, h.honest⟩

theorem Inv.setReady (h : Inv s) (f : Fs) : Inv (s.setReady f) := ⟨h.selected, h.recorded, h.honest⟩

theorem configured_setDrivers (hok : (initDriver s f d).1 = true) :
    Configured (s.setDrivers (initDriver s f d).2) f d :=
  configured_of_init hok rfl rfl (SameDriver.refl f _)

theorem Configured.init_other (h : Configured s f d) (hne : g ≠ f) (e : Disk) :
    Configured (s.setDrivers (initDriver s g e).2) f d :=
  h.congr rfl rfl (initDriver_other hne s e)

section

variable (h : Inv s)

include h

/-- A driver that some record relies on is on the disk of the record. -/
theorem Inv.configured (hsel : SelectedOnly s f d) (hrec : RecordedOnly s f d)
    (hused : s.current_fs = some f ∨ ∃ e, s.mounted f = some e) : Configured s f d := by
  rcases hused with hcur | ⟨e, he⟩
  · obtain ⟨c, hc, -, hconf⟩ := h.selected f hcur
    obtain rfl : c = d := Option.some.inj (hc.symm.trans (hsel hcur))
    exact hconf
  · obtain rfl : e = d := hrec e he
    exact (h.recorded f e he).2

/-- A call of an init function keeps the invariant when no record relies on its driver. -/
theorem Inv.init_unused (hcur : s.current_fs ≠ some g) (hmounted : s.mounted g = none) :
    Inv (s.setDrivers (initDriver s g d).2) := by
  refine ⟨fun f hf => ?_, fun f e he => ?_, h.honest⟩
  · obtain ⟨c, hc, htype, hconf⟩ := h.selected f hf
    have hne : g ≠ f := by
      rintro rfl
      exact hcur hf
    exact ⟨c, hc, htype, hconf.init_other hne d⟩
  · have hne : g ≠ f := by
      rintro rfl
      rw [show s.mounted g = some e from he] at hmounted
      cases hmounted
    obtain ⟨hknown, hconf⟩ := h.recorded f e he
    exact ⟨hknown, hconf.init_other hne d⟩

theorem Inv.refreshIfUnknown (d : Disk) : Inv (refreshIfUnknown s d) := by
  unfold Mount.refreshIfUnknown
  split
  · rename_i hunknown
    have hdisk : ∀ c, Known s c → (refresh_disk_kind s d).disks c = s.disks c := by
      rintro c ⟨hne, hne'⟩
      apply Function.update_of_ne
      rintro rfl
      rcases hunknown with hu | hu
      · exact hne hu
      · exact hne' hu
    have hconf : ∀ {f c}, Known s c → Configured s f c → Configured (refresh_disk_kind s d) f c := by
      intro f c hknown hconf
      exact hconf.congr rfl (by rw [hdisk c hknown]) (SameDriver.refl f _)
    refine ⟨fun f hf => ?_, fun f c hc => ?_, h.honest⟩
    · obtain ⟨c, hc, htype, hc'⟩ := h.selected f hf
      have hknown : Known s c := by
        rw [Known, htype]
        exact ⟨Kind.noConfusion, Kind.noConfusion⟩
      refine ⟨c, hc, ?_, hconf hknown hc'⟩
      rw [hdisk c hknown]
      exact htype
    · obtain ⟨hknown, hc'⟩ := h.recorded f c hc
      refine ⟨?_, hconf hknown hc'⟩
      rw [Known, hdisk c hknown]
      exact hknown
  · exact h

/-- `m_disk` of a disk whose kind has been found. -/
theorem inv_select (htype : (s.disks d).fs_type = .fs f) (hfits : SelectFits s d) :
    Inv (if (initDriver s f d).1 then (s.setDrivers (initDriver s f d).2).select f d
      else s.setDrivers (initDriver s f d).2) := by
  obtain ⟨hrec, hdam⟩ := hfits f htype
  split
  · -- the new selection is what the call has configured
    rename_i hok
    have hnew := configured_setDrivers hok
    refine ⟨fun g hg => ?_, fun g e he => ?_, h.honest⟩
    · obtain rfl : f = g := Option.some.inj hg
      exact ⟨d, rfl, htype, hnew⟩
    · obtain ⟨hknown, hconf⟩ := h.recorded g e he
      refine ⟨hknown, ?_⟩
      by_cases hfg : f = g
      · subst hfg
        obtain rfl : e = d := hrec e he
        exact hnew
      · exact hconf.init_other hfg d
  · rename_i hfail
    rw [Bool.not_eq_true] at hfail
    by_cases hkept : f = .FAT32 → ¬ Damaged s d
    · rw [init_failed hfail hkept]
      exact h
    · rw [Classical.not_imp, not_not] at hkept
      obtain ⟨rfl, hdamaged⟩ := hkept
      apply h.init_unused
      · exact fun hcur => hdam rfl hcur hdamaged
      · -- a recorded disk is the one that has just been refused
        cases hm : s.mounted .FAT32 with
        | none => rfl
        | some e =>
          obtain rfl : e = d := hrec e hm
          have hconf : initDriver s .FAT32 e = (true, s.drivers) := (h.recorded .FAT32 e hm).2
          rw [hconf] at hfail
          cases hfail

theorem inv_m_disk {cmd : List UInt8}
    (hfits : ∀ d ∈ diskArg cmd, (s.disks d).present = true → SelectFits (Mount.refreshIfUnknown s d) d) :
    Inv (m_disk s cmd) := by
  unfold m_disk
  split
  · exact h
  rename_i d harg
  split
  · exact h
  rename_i hpresent
  have hfits := hfits d harg (by simpa using hpresent)
  have hr := h.refreshIfUnknown d
  generalize Mount.refreshIfUnknown s d = r at hr hfits ⊢
  dsimp only
  split
  · rename_i f htype
    exact inv_select hr htype hfits
  · exact hr

/-- The loop of `fsbg_auto_mount_if_needed`, by induction on the disks left. A driver that some record relies on is ready
after the first disk of its file system, since that disk is the one of the record. -/
theorem inv_autoMountLoop (f : Fs) (is : List Disk) (hfits : s.ready f = false →
      ∀ i ∈ is.find? (fun i => (s.disks i).present && (s.disks i).fs_type = .fs f),
        SelectedOnly s f i ∧ RecordedOnly s f i) :
    Inv (is.foldl (autoMountTurn f) s) := by
  induction is generalizing s with
  | nil => exact h
  | cons i is ih =>
    rw [List.foldl_cons]
    by_cases hturn : ((s.disks i).present && !s.ready f && (s.disks i).fs_type = .fs f) = true
    swap
    · -- nothing is tried in this turn
      have hskip : autoMountTurn f s i = s := if_neg hturn
      rw [hskip]
      apply ih h
      intro hready
      have hnot : ((s.disks i).present && (s.disks i).fs_type = .fs f) = false := by
        simpa [hready] using hturn
      have hrest := hfits hready
      rw [List.find?_cons_of_neg (by simpa using hnot)] at hrest
      exact hrest
    have hstep : autoMountTurn f s i = if (initDriver s f i).1 then (s.setDrivers (initDriver s f i).2).setReady f
        else s.setDrivers (initDriver s f i).2 := if_pos hturn
    simp only [Bool.and_eq_true, Bool.not_eq_true', decide_eq_true_eq] at hturn
    obtain ⟨⟨hpresent, hready⟩, htype⟩ := hturn
    obtain ⟨hsel, hrec⟩ := hfits hready i (by simp [hpresent, htype])
    rw [hstep]
    by_cases hused : s.current_fs = some f ∨ ∃ e, s.mounted f = some e
    · have hconf : initDriver s f i = (true, s.drivers) := h.configured hsel hrec hused
      rw [hconf]
      apply ih (h.setReady f)
      intro hnot
      have htrue : (s.setReady f).ready f = true := Function.update_self ..
      exact absurd (htrue.symm.trans hnot) Bool.noConfusion
    · rw [not_or, not_exists] at hused
      have hmounted : s.mounted f = none := Option.eq_none_iff_forall_ne_some.mpr hused.2
      have hinit := h.init_unused (d := i) hused.1 hmounted
      have hfree : ∀ j, SelectedOnly s f j ∧ RecordedOnly s f j := by
        intro j
        refine ⟨fun hcur => absurd hcur hused.1, fun e he => ?_⟩
        exact absurd he (hused.2 e)
      split
      · exact ih (hinit.setReady f) fun _ j _ => hfree j
      · exact ih hinit fun _ j _ => hfree j

theorem inv_autoMount (hfits : AutoFits s f) : Inv (fsbg_auto_mount_if_needed s f) :=
  inv_autoMountLoop h f _ hfits

theorem Inv.report (hconf : Configured s f d) : Inv (report s f d) := by
  refine ⟨h.selected, h.recorded, ?_⟩
  show (s.honest && decide (Configured s f d)) = true
  rw [h.honest, decide_eq_true hconf]
  rfl

/-- A mount of the selected disk, or of any disk of another file system. -/
theorem Inv.mounted (hok : (initDriver s f d).1 = true) (hsel : SelectedOnly s f d) (hknown : Known s d) :
    Inv ((s.setDrivers (initDriver s f d).2).setMounted f d) := by
  have hnew := configured_setDrivers hok
  refine ⟨fun g hg => ?_, fun g e he => ?_, h.honest⟩
  · obtain ⟨c, hc, htype, hconf⟩ := h.selected g hg
    refine ⟨c, hc, htype, ?_⟩
    by_cases hfg : f = g
    · subst hfg
      obtain rfl : c = d := Option.some.inj (hc.symm.trans (hsel hg))
      exact hnew
    · exact hconf.init_other hfg d
  · have he : Function.update s.mounted f (some d) g = some e := he
    by_cases hfg : f = g
    · subst hfg
      rw [Function.update_self] at he
      obtain rfl := Option.some.inj he
      exact ⟨hknown, hnew⟩
    · rw [Function.update_of_ne (Ne.symm hfg)] at he
      obtain ⟨hknown, hconf⟩ := h.recorded g e he
      exact ⟨hknown, hconf.init_other hfg d⟩

/-- `fsbg_mount_disk` trusts its record, calls the init function with success, or fails and leaves the driver. -/
theorem inv_mountPresent (hfits : MountFits s f d) (hpresent : (s.disks d).present = true) :
    Inv (mountPresent s f d).2 := by
  obtain ⟨hsel, hknown, hdam⟩ := hfits hpresent
  unfold mountPresent
  split
  · rename_i hm
    exact h.report (h.recorded f d hm).2
  dsimp only
  split
  · rename_i hok
    exact (h.mounted hok hsel hknown).report (configured_setDrivers hok)
  · rename_i hfail
    rw [Bool.not_eq_true] at hfail
    rw [init_failed hfail hdam]
    exact h

end

/-- A rule for `fsbg_mount_disk`: only a mount of a disk that is present does anything. -/
theorem mount_disk_rule {J : Sys W → Prop} {disk : Int} (h : J s)
    (hmount : ∀ d : Disk, disk = d.val → (s.disks d).present = true → J (mountPresent s f d).2) :
    J (fsbg_mount_disk s f disk).2 := by
  unfold fsbg_mount_disk
  split
  · exact h
  rename_i hpos
  split
  · rename_i hlt
    split
    · exact h
    · rename_i hpresent
      exact hmount ⟨disk.toNat, hlt⟩ (Int.toNat_of_nonneg (by omega)).symm (by simpa using hpresent)
  · exact h

end Orion.Mount
