import Orion.Disk.Block

/-!
# Requests move the sectors that were asked for, as far as the addresses go

A request that succeeds moves a run of consecutive sectors. It is the run that was asked for when the address was not
cut short and the last sector of a write to a PATA disk was stored.
-/

namespace Orion.Disk

open Lib List

theorem run_succ (lba n : ℕ) : run lba (n + 1) = run lba n ++ [(n, lba + n)] := by
  simp [run, range_succ]

theorem run_eq_range' (lba n : ℕ) : run lba n = (List.range' 0 n).map fun k => (k, lba + k) := by
  simp [run, range_eq_range']

theorem mem_run {lba n k : ℕ} (h : k < n) : (k, lba + k) ∈ run lba n := mem_map.mpr ⟨k, mem_range.mpr h, rfl⟩

theorem load_run (m : Medium) (lba n : ℕ) (buf : Bytes) (i : ℕ) :
    m.load (run lba n) buf i = if i < 512 * n then m.data (lba + i / 512) (i % 512) else buf i := by
  induction n with
  | zero => simp [run, Medium.load]
  | succ n ih =>
    have hstep : m.load (run lba (n + 1)) buf = (m.load (run lba n) buf).splice (512 * n) 512 (m.data (lba + n)) := by
      rw [run_succ, Medium.load, foldl_append]
      rfl
    rw [hstep]
    by_cases hin : 512 * n ≤ i ∧ i < 512 * n + 512
    · have hdiv : i / 512 = n := by omega
      have hmod : i % 512 = i - 512 * n := by omega
      rw [Bytes.splice_inside hin.1 hin.2, if_pos (by omega), hdiv, hmod]
    · rw [Bytes.splice_outside (by omega), ih]
      split
      · rw [if_pos (by omega)]
      · rw [if_neg (by omega)]

theorem save_run (m : Medium) (lba n : ℕ) (buf : Bytes) (s : ℕ) : (m.save (run lba n) buf).data s =
      if lba ≤ s ∧ s < lba + n then fun j => buf (512 * (s - lba) + j) else m.data s := by
  induction n with
  | zero =>
    rw [if_neg (by omega)]
    rfl
  | succ n ih =>
    have hstep : (m.save (run lba (n + 1)) buf).data =
        Function.update (m.save (run lba n) buf).data (lba + n) fun j => buf (512 * n + j) := by
      rw [run_succ, Medium.save, foldl_append]
      rfl
    rw [hstep]
    by_cases hs : s = lba + n
    · subst hs
      rw [Function.update_self, if_pos (by omega), Nat.add_sub_cancel_left]
    rw [Function.update_of_ne hs, ih]
    split
    · rw [if_pos (by omega)]
    · rw [if_neg (by omega)]

theorem ReadExact.of_run {m : Medium} {lba n : ℕ} (h : lba + n ≤ m.sectors) : ReadExact m lba n (run lba n) :=
  ⟨rfl, h, load_run m lba n⟩

theorem WriteExact.of_run {m : Medium} {lba n : ℕ} (h : lba + n ≤ m.sectors) : WriteExact m lba n (run lba n) :=
  ⟨rfl, h, save_run m lba n⟩

theorem sectorTurns_some {ready kept : ℕ → Bool} {address : ℕ} (n : ℕ) {s : ℕ} {moved : Moves}
    (h : sectorTurns ready kept address n s = some moved) :
    (∀ k, s ≤ k → k < s + n → ready k = true) ∧
      moved = ((List.range' s n).filter kept).map fun k => (k, address + k) := by
  induction n generalizing s moved with
  | zero =>
    simp only [sectorTurns, Option.some.injEq] at h
    subst h
    exact ⟨fun k h1 h2 => absurd h2 (by omega), rfl⟩
  | succ n ih =>
    rw [sectorTurns] at h
    split at h
    · rename_i hready
      obtain ⟨rest, hrest, rfl⟩ := Option.map_eq_some_iff.mp h
      obtain ⟨hall, hmoved⟩ := ih hrest
      refine ⟨fun k h1 h2 => ?_, ?_⟩
      · rcases Nat.eq_or_lt_of_le h1 with rfl | hlt
        · exact hready
        · exact hall k hlt (by omega)
      · rw [List.range'_succ, filter_cons]
        split <;> simp [hmoved]
    · cases h

theorem dev_low_bits (drive nibble : UInt8) (h : nibble.toNat < 16) :
    ((0xE0 : UInt8) ||| ((drive &&& 1) <<< 4) ||| nibble).toNat % 16 = nibble.toNat := by
  have h16 (n : ℕ) : n &&& 15 = n % 16 := Nat.and_two_pow_sub_one_eq_mod n 4
  have hslave : ((drive &&& 1) <<< 4).toNat % 16 = 0 := by
    simp only [UInt8.toNat_shiftLeft, UInt8.reduceToNat, Nat.reduceMod, Nat.shiftLeft_eq]
    omega
  rw [← h16, UInt8.toNat_or, UInt8.toNat_or, Nat.and_or_distrib_right, Nat.and_or_distrib_right, h16, h16, h16,
    hslave, Nat.mod_eq_of_lt h]
  simp

theorem registers_address (drive : UInt8) (lba : UInt32) (count : UInt16) :
    (registers drive lba count).address = lba.toNat % 2 ^ 28 := by
  have hnibble : (((lba >>> 24) &&& 0x0F).toUInt8).toNat = lba.toNat / 2 ^ 24 % 16 := by
    have h16 (n : ℕ) : n &&& 15 = n % 16 := Nat.and_two_pow_sub_one_eq_mod n 4
    simp only [UInt32.toNat_toUInt8, UInt32.toNat_and, UInt32.toNat_shiftRight, UInt32.reduceToNat, Nat.reduceMod,
      Nat.shiftRight_eq_div_pow, h16]
    omega
  unfold TaskFile.address registers
  rw [dev_low_bits _ _ (by omega), hnibble]
  simp only [UInt32.toNat_toUInt8, UInt32.toNat_shiftRight, UInt32.reduceToNat, Nat.reduceMod,
    Nat.shiftRight_eq_div_pow]
  omega

theorem sectorCount_pos (count : UInt16) : 0 < (sectorCount count).toNat := by
  unfold sectorCount
  split
  · simp
  · rename_i h
    exact Nat.pos_of_ne_zero fun h0 => h (UInt16.toNat_inj.mp h0)

variable {m : Medium} {a : Answers} {p : Fin 4} {lba : UInt32} {count : UInt16} {moved : Moves} {stick : Option Stick}

/-- A PATA request that has moved the right sectors had an address of 28 bits. -/
theorem lba_lt_of_run {ready kept : ℕ → Bool} {drive : UInt8} {n : ℕ} (hpos : 0 < n)
    (h : sectorTurns ready kept (registers drive lba count).address n 0 = some (run lba.toNat n)) :
    lba.toNat < 2 ^ 28 := by
  obtain ⟨-, hmoved⟩ := sectorTurns_some n h
  have hfirst : (0, lba.toNat + 0) ∈ run lba.toNat n := mem_run hpos
  rw [hmoved, mem_map] at hfirst
  obtain ⟨k, -, heq⟩ := hfirst
  rw [Prod.mk.injEq, registers_address] at heq
  omega

theorem pata_read_exact (h : pata_read m a p lba count = some moved) (hpos : 0 < count.toNat)
    (hlba : lba.toNat < 2 ^ 28) : ReadExact m lba.toNat count.toNat moved := by
  unfold pata_read at h
  dsimp only at h
  rw [registers_address, Nat.mod_eq_of_lt hlba] at h
  split at h
  · obtain ⟨hall, rfl⟩ := sectorTurns_some _ h
    have hlast := hall (count.toNat - 1) (by omega) (by omega)
    simp only [offers, onMedium, registers_address, Nat.mod_eq_of_lt hlba, Bool.and_eq_true, decide_eq_true_eq] at hlast
    simp only [filter_true, ← run_eq_range']
    exact ReadExact.of_run (by omega)
  · cases h

theorem stored_before_last {tf : TaskFile} {n : ℕ} (hall : ∀ k, 0 ≤ k → k < 0 + n → asks m a tf k = true) {k : ℕ}
    (hk : k + 1 < n) : onMedium m a tf k = true := by
  have hnext := hall (k + 1) (by omega) (by omega)
  simp only [asks, Bool.and_eq_true, Bool.or_eq_true, Nat.add_sub_cancel] at hnext
  rcases hnext.2 with h0 | hstored
  · simp at h0
  · exact hstored

theorem pata_write_exact (h : pata_write m a p lba count = some moved) (hpos : 0 < count.toNat)
    (hlba : lba.toNat < 2 ^ 28)
    (hlast : onMedium m a (registers (UInt8.ofNat p.val) lba count) (count.toNat - 1) = true) :
    WriteExact m lba.toNat count.toNat moved := by
  unfold pata_write at h
  dsimp only at h
  rw [registers_address, Nat.mod_eq_of_lt hlba] at h
  split at h
  · obtain ⟨hall, rfl⟩ := sectorTurns_some _ h
    have hstored : ∀ k ∈ List.range' 0 count.toNat,
        onMedium m a (registers (UInt8.ofNat p.val) lba count) k = true := by
      intro k hk
      rw [mem_range'_1] at hk
      by_cases hnext : k + 1 < count.toNat
      · exact stored_before_last hall hnext
      · rwa [show k = count.toNat - 1 by omega]
    simp only [onMedium, registers_address, Nat.mod_eq_of_lt hlba, Bool.and_eq_true, decide_eq_true_eq] at hlast
    rw [filter_eq_self.mpr hstored, ← run_eq_range']
    exact WriteExact.of_run (by omega)
  · cases h

theorem pata_write_last (h : pata_write m a p lba count = some moved) (hpos : 0 < count.toNat)
    (hexact : moved = run lba.toNat count.toNat) :
    onMedium m a (registers (UInt8.ofNat p.val) lba count) (count.toNat - 1) = true := by
  unfold pata_write at h
  split at h
  · obtain ⟨-, hmoved⟩ := sectorTurns_some _ h
    have hmem : (count.toNat - 1, lba.toNat + (count.toNat - 1)) ∈ run lba.toNat count.toNat := mem_run (by omega)
    rw [← hexact, hmoved, mem_map] at hmem
    obtain ⟨k, hk, heq⟩ := hmem
    rw [Prod.mk.injEq] at heq
    rw [← heq.1]
    exact (mem_filter.mp hk).2
  · cases h

theorem chunk_eq (done first n : ℕ) (h : first = lba.toNat + done) :
    ((List.range n).map fun j => (done + j, first + j)) = (List.range' done n).map fun k => (k, lba.toNat + k) := by
  rw [List.range'_eq_map_range, map_map, h]
  apply map_congr_left
  intro j _
  simp only [Function.comp, Nat.add_assoc]

theorem usbTurns_exact {count : ℕ} (hfits : lba.toNat + count ≤ 2 ^ 32) (n : ℕ) {done : ℕ} {moved : Moves}
    (h : usbTurns m a lba count n done = some moved) (hn : count ≤ done + n) (hdone : done ≤ count) :
    moved = ((List.range' done (count - done)).map fun k => (k, lba.toNat + k)) ∧
      (done < count → lba.toNat + count ≤ m.sectors) := by
  induction n generalizing done moved with
  | zero =>
    simp only [usbTurns, Option.some.injEq] at h
    have heq : done = count := by omega
    subst h heq
    exact ⟨by simp, fun hlt => absurd hlt (by omega)⟩
  | succ n ih =>
    rw [usbTurns] at h
    split at h
    · rename_i hlt
      have hfirst : (lba + UInt32.ofNat done).toNat = lba.toNat + done := by
        rw [UInt32.toNat_add, UInt32.toNat_ofNat', Nat.mod_eq_of_lt (by omega : done < 2 ^ 32)]
        exact Nat.mod_eq_of_lt (by omega)
      dsimp only at h
      rw [hfirst] at h
      split at h
      · rename_i hok
        obtain ⟨rest, hrest, rfl⟩ := Option.map_eq_some_iff.mp h
        obtain ⟨hmoved, hinside⟩ := ih hrest (by omega) (by omega)
        refine ⟨?_, fun _ => ?_⟩
        · rw [chunk_eq _ _ _ rfl, hmoved, ← map_append, List.range'_append_1,
            show min (count - done) 32 + (count - (done + min (count - done) 32)) = count - done by omega]
        by_cases hmore : done + min (count - done) 32 < count
        · exact hinside hmore
        · have hin := hok.1
          omega
      · cases h
    · simp only [Option.some.injEq] at h
      have heq : done = count := by omega
      subst h heq
      exact ⟨by simp, fun hlt => absurd hlt (by omega)⟩

theorem usb_storage_sectors_exact {count : ℕ}
    (h : usb_storage_sectors stick a lba count = some moved) (hpos : 0 < count) (hfits : lba.toNat + count ≤ 2 ^ 32) :
    ∃ dev, stick = some dev ∧ moved = run lba.toNat count ∧ lba.toNat + count ≤ dev.medium.sectors := by
  unfold usb_storage_sectors at h
  split at h
  · cases h
  rename_i dev
  split at h
  · cases h
  · obtain ⟨hmoved, hinside⟩ := usbTurns_exact hfits count h (by omega) (by omega)
    rw [Nat.sub_zero, ← run_eq_range'] at hmoved
    exact ⟨dev, rfl, hmoved, hinside hpos⟩

theorem ramdisk_sectors_exact {count : ℕ} (h : ramdisk_sectors m lba count = some moved) :
    moved = run lba.toNat count ∧ lba.toNat + count ≤ m.sectors := by
  unfold ramdisk_sectors at h
  split at h
  · cases h
  · cases h
    exact ⟨rfl, by omega⟩

variable {d : Drives} {drive : UInt8} {ahci : Option Moves}

theorem backend_usb (h : d.backend drive = .usb stick) : stick = d.usb drive := by
  unfold Drives.backend at h
  split at h
  · cases h
  split at h
  · cases h
    rfl
  split at h
  · cases h
  · split at h
    · cases h
    · split at h <;> cases h

theorem fits_of_inside (hd : Addressable d) {lba n : ℕ} (hm : d.medium drive = some m)
    (hin : lba + n ≤ m.sectors) (hlow : ∀ p, d.backend drive = .pata p → lba < 2 ^ 28) : Fits d drive lba n := by
  unfold Drives.medium at hm
  unfold Fits
  split
  · rename_i p hp
    exact hlow p hp
  · rename_i stick hs
    rw [hs] at hm
    obtain ⟨dev, hdev, rfl⟩ := Option.map_eq_some_iff.mp hm
    have hsize := hd.usb drive dev ((backend_usb hs).symm.trans hdev)
    omega
  · trivial

theorem ata_read_low (h : ata_read d a ahci drive lba count = some (run lba.toNat (sectorCount count).toNat))
    (hp : d.backend drive = .pata p) : lba.toNat < 2 ^ 28 := by
  simp only [ata_read, hp, pata_read] at h
  split at h
  · exact lba_lt_of_run (sectorCount_pos count) h
  · cases h

theorem ata_write_low (h : ata_write d a ahci drive lba count = some (run lba.toNat (sectorCount count).toNat))
    (hp : d.backend drive = .pata p) : lba.toNat < 2 ^ 28 := by
  simp only [ata_write, hp, pata_write] at h
  split at h
  · exact lba_lt_of_run (sectorCount_pos count) h
  · cases h

theorem ata_read_exact (hne : d.backend drive ≠ .ahci) (h : ata_read d a ahci drive lba count = some moved)
    (hfits : Fits d drive lba.toNat (sectorCount count).toNat) :
    ∃ m, d.medium drive = some m ∧ ReadExact m lba.toNat (sectorCount count).toNat moved := by
  have hpos := sectorCount_pos count
  unfold ata_read at h
  unfold Fits at hfits
  unfold Drives.medium
  cases hb : d.backend drive with
  | ramdisk m =>
    simp only [hb] at h ⊢
    obtain ⟨rfl, hin⟩ := ramdisk_sectors_exact h
    exact ⟨m, rfl, ReadExact.of_run hin⟩
  | usb stick =>
    simp only [hb] at h hfits ⊢
    obtain ⟨dev, rfl, rfl, hin⟩ := usb_storage_sectors_exact h hpos hfits
    exact ⟨dev.medium, rfl, ReadExact.of_run hin⟩
  | ahci => exact absurd hb hne
  | pata p =>
    simp only [hb] at h hfits ⊢
    exact ⟨d.pata p, rfl, pata_read_exact h hpos hfits⟩
  | none => simp only [hb, reduceCtorEq] at h

theorem ata_write_exact (hne : d.backend drive ≠ .ahci) (h : ata_write d a ahci drive lba count = some moved)
    (hfits : Fits d drive lba.toNat (sectorCount count).toNat) (hlast : LastStored d a drive lba (sectorCount count)) :
    ∃ m, d.medium drive = some m ∧ WriteExact m lba.toNat (sectorCount count).toNat moved := by
  have hpos := sectorCount_pos count
  unfold ata_write at h
  unfold Fits at hfits
  unfold LastStored at hlast
  unfold Drives.medium
  cases hb : d.backend drive with
  | ramdisk m =>
    simp only [hb] at h ⊢
    obtain ⟨rfl, hin⟩ := ramdisk_sectors_exact h
    exact ⟨m, rfl, WriteExact.of_run hin⟩
  | usb stick =>
    simp only [hb] at h hfits ⊢
    obtain ⟨dev, rfl, rfl, hin⟩ := usb_storage_sectors_exact h hpos hfits
    exact ⟨dev.medium, rfl, WriteExact.of_run hin⟩
  | ahci => exact absurd hb hne
  | pata p =>
    simp only [hb] at h hfits hlast ⊢
    exact ⟨d.pata p, rfl, pata_write_exact h hpos hfits hlast⟩
  | none => simp only [hb, reduceCtorEq] at h

theorem lastStored_of_exact (h : ata_write d a ahci drive lba count = some moved)
    (hexact : moved = run lba.toNat (sectorCount count).toNat) : LastStored d a drive lba (sectorCount count) := by
  unfold LastStored
  split
  · rename_i p hp
    simp only [ata_write, hp] at h
    exact pata_write_last h (sectorCount_pos count) hexact
  · trivial

/-- A request moves exactly the sectors asked for, if and only if it is refused, or its number fits the address of the
device and, for a write to a PATA disk, the last sector was stored. -/
theorem request_exact_iff (d : Drives) (hd : Addressable d) (a : Answers) (ahci : Option Moves) (drive : UInt8)
    (lba : UInt32) (count : UInt16) (hne : d.backend drive ≠ .ahci) :
    ((∀ moved, ata_read d a ahci drive lba count = some moved →
        ∃ m, d.medium drive = some m ∧ ReadExact m lba.toNat (sectorCount count).toNat moved) ↔
      (ata_read d a ahci drive lba count = none ∨ Fits d drive lba.toNat (sectorCount count).toNat)) ∧
    ((∀ moved, ata_write d a ahci drive lba count = some moved →
        ∃ m, d.medium drive = some m ∧ WriteExact m lba.toNat (sectorCount count).toNat moved) ↔
      (ata_write d a ahci drive lba count = none ∨
        Fits d drive lba.toNat (sectorCount count).toNat ∧ LastStored d a drive lba (sectorCount count))) := by
  refine ⟨⟨fun hexact => ?_, ?_⟩, ⟨fun hexact => ?_, ?_⟩⟩
  · rcases h : ata_read d a ahci drive lba count with _ | moved
    · exact Or.inl rfl
    · obtain ⟨m, hm, hread⟩ := hexact moved h
      rw [hread.order] at h
      exact Or.inr (fits_of_inside hd hm hread.inside fun p hp => ata_read_low h hp)
  · rintro (hnone | hfits) moved h
    · rw [hnone] at h
      cases h
    · exact ata_read_exact hne h hfits
  · rcases h : ata_write d a ahci drive lba count with _ | moved
    · exact Or.inl rfl
    · obtain ⟨m, hm, hwrite⟩ := hexact moved h
      have hlast := lastStored_of_exact h hwrite.order
      rw [hwrite.order] at h
      exact Or.inr ⟨fits_of_inside hd hm hwrite.inside fun p hp => ata_write_low h hp, hlast⟩
  · rintro (hnone | ⟨hfits, hlast⟩) moved h
    · rw [hnone] at h
      cases h
    · exact ata_write_exact hne h hfits hlast

/-- One PATA disk of 16 sectors. -/
def oneDisk : Drives where
  ramdisk := none
  usb := fun _ => none
  drive_to_ahci := fun _ => none
  drive_to_pata := fun drive => if drive = 0 then some 0 else none
  ata_available := fun p => p = 0
  pata := fun _ => ⟨16, fun s _ => UInt8.ofNat s⟩

theorem oneDisk_addressable : Addressable oneDisk where
  usb := fun drive stick h => by simp [oneDisk] at h

/-- A controller that reports no error. -/
def quiet : Answers := ⟨true, fun _ => false, fun _ => false⟩

/-- A disk whose sector fails when it is stored. -/
def failing : Answers := ⟨true, fun _ => false, fun _ => true⟩

theorem oneDisk_backend : oneDisk.backend 0 = .pata 0 := rfl

theorem request_exact_oneDisk : ata_read oneDisk quiet none 0 3 2 = some [(0, 3), (1, 4)] ∧
      ((∀ moved, ata_read oneDisk quiet none 0 3 2 = some moved →
          ∃ m, oneDisk.medium 0 = some m ∧ ReadExact m 3 2 moved) ↔
        (ata_read oneDisk quiet none 0 3 2 = none ∨ Fits oneDisk 0 3 2)) :=
  ⟨by decide +kernel,
    (request_exact_iff oneDisk oneDisk_addressable quiet none 0 3 2 (by rw [oneDisk_backend]; simp)).1⟩

/-- A read of sector 2^28 brings sector 0; a write whose only sector is not stored succeeds. -/
theorem sector_number_cut : ¬ (∀ moved, ata_read oneDisk quiet none 0 0x10000000 1 = some moved →
        ∃ m, oneDisk.medium 0 = some m ∧ ReadExact m 0x10000000 1 moved) ∧
    ¬ (∀ moved, ata_write oneDisk failing none 0 5 1 = some moved →
        ∃ m, oneDisk.medium 0 = some m ∧ WriteExact m 5 1 moved) := by
  have hread : ata_read oneDisk quiet none 0 0x10000000 1 = some [(0, 0)] := by decide +kernel
  have hwrite : ata_write oneDisk failing none 0 5 1 = some [] := by decide +kernel
  refine ⟨fun hall => ?_, fun hall => ?_⟩
  · obtain ⟨m, -, hexact⟩ := hall _ hread
    have horder := hexact.order
    simp [run] at horder
  · obtain ⟨m, -, hexact⟩ := hall _ hwrite
    have horder := hexact.order
    simp [run] at horder

end Orion.Disk
