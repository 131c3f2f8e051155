import Orion.Lib.Device

/-!
# Writing a file to a disk (`cmd_disk_write` of `kernel/cmd.c`)

The command `dw`, from where its arguments have been read. A sector can be read and written exactly if the disk has
it; what the file system and the heap answer is an input.
-/

namespace Orion.Shell

open Lib

/-- The disk, the file and the memory that the command meets. -/
structure DiskWriteEnv where
  disk_exists : Bool
  file_size : UInt32
  granted : Bool
  /-- What `fscmd_read_file_by_name` returns. -/
  read : ℤ

/-- The loop; `none` when a sector cannot be read or written. -/
def writeChunks (buf : Bytes) (dev : Device) (remaining offset disk_offset : ℕ) : Option Device :=
  if remaining = 0 then some dev
  else
    let lba := UInt32.ofNat (disk_offset / 512)
    let sector_off := disk_offset % 512
    let chunk := min (512 - sector_off) remaining
    if dev.inRange lba then
      let sector := (dev.data lba).splice sector_off chunk fun i => buf (offset + i)
      writeChunks buf (dev.write lba sector) (remaining - chunk) (offset + chunk) ((disk_offset + chunk) % 2 ^ 32)
    else none
termination_by remaining

/-- The disk after a command that reports success. -/
def cmd_disk_write (env : DiskWriteEnv) (dev : Device) (file : Bytes) (size start : UInt32) : Option Device :=
  if !env.disk_exists ∨ size = 0 then none
  else if env.file_size = 0 ∨ size > env.file_size ∨ !env.granted then none
  else if env.read < 0 ∨ env.read.toNat < size.toNat then none
  else writeChunks file dev size.toNat 0 start.toNat

/-- The byte `n` of the disk. -/
def diskByte (dev : Device) (n : ℕ) : UInt8 := dev.data (UInt32.ofNat (n / 512)) (n % 512)

/-- The bytes from `start` on are those of the file and all others are as before, up to the last one that a sector
number of 32 bits can reach. -/
def WritesExactly (dev dev' : Device) (file : Bytes) (start size : ℕ) : Prop :=
  ∀ n < 2 ^ 41, diskByte dev' n = if start ≤ n ∧ n < start + size then file (n - start) else diskByte dev n

/-! ## What `dw` writes

The loop writes to the bytes from `disk_offset` on, counted modulo 2^32, so that what belongs behind the first 4 GiB
of a disk is written to its beginning. -/

variable {env : DiskWriteEnv} {buf file : Bytes} {dev dev' : Device} {size start : UInt32}
  {remaining offset disk_offset n : ℕ}

/-- The distance of the byte `n` from `d`, modulo 2^32. -/
def behind (d n : ℕ) : ℕ := (n + (2 ^ 32 - d)) % 2 ^ 32

theorem toNat_lba (hn : n < 2 ^ 41) : (UInt32.ofNat (n / 512)).toNat = n / 512 := by
  rw [UInt32.toNat_ofNat']
  exact Nat.mod_eq_of_lt (by omega)

theorem diskByte_turn (hn : n < 2 ^ 41) (hd : disk_offset < 2 ^ 32) {chunk : ℕ} (hc : chunk ≤ 512 - disk_offset % 512)
    (hin : dev.inRange (UInt32.ofNat (disk_offset / 512)) = true) (g : Bytes) :
    diskByte (dev.write (UInt32.ofNat (disk_offset / 512))
        ((dev.data (UInt32.ofNat (disk_offset / 512))).splice (disk_offset % 512) chunk g)) n =
      if n < 2 ^ 32 ∧ behind disk_offset n < chunk then g (behind disk_offset n) else diskByte dev n := by
  unfold diskByte
  by_cases hsector : n / 512 = disk_offset / 512
  · have hplace : (n < 2 ^ 32 ∧ behind disk_offset n < chunk) ↔
        disk_offset % 512 ≤ n % 512 ∧ n % 512 < disk_offset % 512 + chunk := by
      unfold behind
      omega
    rw [hsector, Device.data_write_self hin, Bytes.splice]
    simp only [hplace]
    split
    · have hdist : behind disk_offset n = n % 512 - disk_offset % 512 := by
        unfold behind
        omega
      rw [hdist]
    · rfl
  · have hne : UInt32.ofNat (n / 512) ≠ UInt32.ofNat (disk_offset / 512) := by
      intro heq
      have hnat := congrArg UInt32.toNat heq
      rw [toNat_lba hn, toNat_lba (by omega)] at hnat
      exact hsector hnat
    have hfar : ¬(n < 2 ^ 32 ∧ behind disk_offset n < chunk) := by
      unfold behind
      omega
    rw [Device.data_write_of_ne hne, if_neg hfar]

/-- The loop fills the bytes that lie less than `remaining` behind `disk_offset`. -/
theorem diskByte_writeChunks (h : writeChunks buf dev remaining offset disk_offset = some dev')
    (hd : disk_offset < 2 ^ 32) (hr : remaining < 2 ^ 32) (hn : n < 2 ^ 41) :
    diskByte dev' n = if n < 2 ^ 32 ∧ behind disk_offset n < remaining then buf (offset + behind disk_offset n)
      else diskByte dev n := by
  fun_induction writeChunks buf dev remaining offset disk_offset with
  | case1 dev offset disk_offset =>
    obtain rfl := Option.some.inj h
    rw [if_neg (fun hlt => absurd hlt.2 (Nat.not_lt_zero _))]
  | case2 dev remaining offset disk_offset hne lba sector_off chunk hin sector ih =>
    have hc : chunk ≤ 512 - disk_offset % 512 := Nat.min_le_left ..
    have hle : chunk ≤ remaining := Nat.min_le_right ..
    rw [ih h (Nat.mod_lt _ (by omega)) (by omega), diskByte_turn hn hd hc hin]
    by_cases hturn : behind disk_offset n < chunk
    · -- written in this turn, and by no later one
      have hlater : ¬behind ((disk_offset + chunk) % 2 ^ 32) n < remaining - chunk := by
        unfold behind at hturn ⊢
        omega
      have hall : behind disk_offset n < remaining := by omega
      simp only [hlater, hall, hturn, and_false, if_false]
    · have hlater : behind ((disk_offset + chunk) % 2 ^ 32) n = behind disk_offset n - chunk := by
        unfold behind at hturn ⊢
        omega
      have hless : behind disk_offset n - chunk < remaining - chunk ↔ behind disk_offset n < remaining := by omega
      have hplace : offset + chunk + (behind disk_offset n - chunk) = offset + behind disk_offset n := by omega
      rw [hlater, hplace]
      simp only [hless, hturn, and_false, if_false]
  | case3 => cases h

theorem diskByte_written (h : cmd_disk_write env dev file size start = some dev') (hn : n < 2 ^ 41) : diskByte dev' n =
    if n < 2 ^ 32 ∧ behind start.toNat n < size.toNat then file (behind start.toNat n) else diskByte dev n := by
  unfold cmd_disk_write at h
  split at h
  · cases h
  split at h
  · cases h
  split at h
  · cases h
  · rw [diskByte_writeChunks h start.toNat_lt size.toNat_lt hn, Nat.zero_add]

/-- A command is exact if and only if the bytes that belong behind the first 4 GiB are there already, and also at the
beginning of the disk. -/
theorem disk_write_exact_iff (h : cmd_disk_write env dev file size start = some dev') :
    WritesExactly dev dev' file start.toNat size.toNat ↔ ∀ n, 2 ^ 32 ≤ n → n < start.toNat + size.toNat →
      diskByte dev n = file (n - start.toNat) ∧ diskByte dev (n - 2 ^ 32) = file (n - start.toNat) := by
  have hstart := start.toNat_lt
  have hsize := size.toNat_lt
  constructor
  · intro hexact n hlow hhigh
    constructor
    · have hbyte := hexact n (by omega)
      rw [diskByte_written h (by omega), if_neg (by omega), if_pos (by omega)] at hbyte
      exact hbyte
    · have hwrapped : behind start.toNat (n - 2 ^ 32) = n - start.toNat := by
        unfold behind
        omega
      have hbyte := hexact (n - 2 ^ 32) (by omega)
      rw [diskByte_written h (by omega), hwrapped, if_pos (by omega), if_neg (by omega)] at hbyte
      exact hbyte.symm
  intro hsame n hn
  rw [diskByte_written h hn]
  by_cases hlow : n < 2 ^ 32
  · by_cases hbefore : n < start.toNat
    · have hdist : behind start.toNat n = n + 2 ^ 32 - start.toNat := by
        unfold behind
        omega
      rw [hdist, if_neg (show ¬(start.toNat ≤ n ∧ n < start.toNat + size.toNat) by omega)]
      split
      · have hbyte := (hsame (n + 2 ^ 32) (by omega) (by omega)).2
        rw [Nat.add_sub_cancel] at hbyte
        exact hbyte.symm
      · rfl
    · have hdist : behind start.toNat n = n - start.toNat := by
        unfold behind
        omega
      rw [hdist]
      exact if_congr (by omega) rfl rfl
  · rw [if_neg (by omega)]
    split
    · exact (hsame n (by omega) (by omega)).1
    · rfl

theorem writeChunks_succeeds (hlarge : 2 ^ 23 ≤ dev.sectors) (hd : disk_offset < 2 ^ 32) :
    ∃ dev', writeChunks buf dev remaining offset disk_offset = some dev' := by
  fun_induction writeChunks buf dev remaining offset disk_offset with
  | case1 dev => exact ⟨dev, rfl⟩
  | case2 dev remaining offset disk_offset hne lba sector_off chunk hin sector ih =>
    exact ih (by rwa [Device.write_sectors]) (Nat.mod_lt _ (by omega))
  | case3 dev remaining offset disk_offset hne lba hin =>
    have hlba : lba.toNat = disk_offset / 512 := toNat_lba (by omega)
    exact absurd (decide_eq_true (show lba.toNat < dev.sectors by omega)) hin

def largeDisk : Device := ⟨2 ^ 24, fun _ _ => 0⟩

def twoBytes : DiskWriteEnv := ⟨true, 2, true, 2⟩

theorem twoBytes_written (start : UInt32) :
    ∃ dev', cmd_disk_write twoBytes largeDisk (fun _ => 1) 2 start = some dev' := by
  rw [cmd_disk_write, if_neg (by decide), if_neg (by decide), if_neg (by decide)]
  exact writeChunks_succeeds (by decide) start.toNat_lt

theorem disk_write_exact_low : ∃ dev', cmd_disk_write twoBytes largeDisk (fun _ => 1) 2 511 = some dev' ∧
    WritesExactly largeDisk dev' (fun _ => 1) 511 2 := by
  obtain ⟨dev', h⟩ := twoBytes_written 511
  refine ⟨dev', h, (disk_write_exact_iff h).mpr ?_⟩
  intro n hlow hhigh
  exact absurd (hlow.trans_lt hhigh) (by decide)

/-- The second byte of the file goes to the first byte of the disk. -/
theorem disk_write_wraps : ∃ dev', cmd_disk_write twoBytes largeDisk (fun _ => 1) 2 0xFFFFFFFF = some dev' ∧
    diskByte dev' 0 = 1 ∧ ¬WritesExactly largeDisk dev' (fun _ => 1) 0xFFFFFFFF 2 := by
  obtain ⟨dev', h⟩ := twoBytes_written 0xFFFFFFFF
  have hzero : diskByte dev' 0 = 1 := (diskByte_written h (by omega)).trans (if_pos (by decide))
  refine ⟨dev', h, hzero, fun hexact => ?_⟩
  have hkept := hexact 0 (by omega)
  rw [hzero] at hkept
  exact absurd hkept (by decide)

end Orion.Shell
