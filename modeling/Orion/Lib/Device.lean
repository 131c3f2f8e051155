import Orion.Lib.Bytes

/-!
# Block devices

A device has a number of sectors. A transfer of a sector in range succeeds; one out of range fails, a
failed write changes nothing and a failed read leaves the buffer as it was.
-/

namespace Orion.Lib

/-- A disk of 512-byte sectors. -/
structure Device where
  sectors : Nat
  data : UInt32 → Bytes

namespace Device

def inRange (d : Device) (lba : UInt32) : Bool := lba.toNat < d.sectors

/-- A read outside the disk leaves the buffer. -/
def read (d : Device) (lba : UInt32) (buf : Bytes) : Bytes := if d.inRange lba then d.data lba else buf

/-- A write outside the disk is lost. -/
def write (d : Device) (lba : UInt32) (buf : Bytes) : Device :=
  if d.inRange lba then { d with data := Function.update d.data lba buf } else d

variable {d : Device} {lba lba' : UInt32} {buf buf' : Bytes}

@[simp] theorem write_sectors : (d.write lba buf).sectors = d.sectors := by
  unfold write
  split <;> rfl

@[simp] theorem write_inRange : (d.write lba buf).inRange lba' = d.inRange lba' := by
  simp [inRange]

theorem read_write_self (h : d.inRange lba = true) : (d.write lba buf).read lba buf' = buf := by
  unfold read
  rw [write_inRange, if_pos h, write, if_pos h]
  exact Function.update_self ..

theorem read_write_of_ne (h : lba' ≠ lba) : (d.write lba buf).read lba' buf' = d.read lba' buf' := by
  unfold read
  rw [write_inRange]
  split
  · unfold write
    split
    · exact Function.update_of_ne h ..
    · rfl
  · rfl

/-- `n` sectors are written one after the other, with the contents that `f` gives. -/
def writeRun (d : Device) (lba : UInt32) (f : Nat → Bytes) (n : Nat) : Device :=
  (List.range n).foldl (fun d i => d.write (lba + UInt32.ofNat i) (f i)) d

variable {f : Nat → Bytes} {i n : Nat}

theorem writeRun_succ : d.writeRun lba f (n + 1) = (d.writeRun lba f n).write (lba + UInt32.ofNat n) (f n) := by
  rw [writeRun, List.range_succ, List.foldl_append]
  rfl

@[simp] theorem writeRun_sectors : (d.writeRun lba f n).sectors = d.sectors := by
  induction n with
  | zero => rfl
  | succ n ih => rw [writeRun_succ, write_sectors, ih]

@[simp] theorem writeRun_inRange : (d.writeRun lba f n).inRange lba' = d.inRange lba' := by
  simp [inRange]

theorem data_write_self (h : d.inRange lba = true) : (d.write lba buf).data lba = buf := by
  rw [write, if_pos h]
  exact Function.update_self ..

theorem data_write_of_ne (h : lba' ≠ lba) : (d.write lba buf).data lba' = d.data lba' := by
  unfold write
  split
  · exact Function.update_of_ne h ..
  · rfl

theorem writeRun_data_of_ne (h : ∀ i < n, lba' ≠ lba + UInt32.ofNat i) :
    (d.writeRun lba f n).data lba' = d.data lba' := by
  induction n with
  | zero => rfl
  | succ n ih =>
    rw [writeRun_succ, data_write_of_ne (h n (Nat.lt_succ_self n))]
    exact ih fun i hi => h i (Nat.lt_succ_of_lt hi)

theorem toNat_add_ofNat (h : lba.toNat + i < 2 ^ 32) : (lba + UInt32.ofNat i).toNat = lba.toNat + i := by
  rw [UInt32.toNat_add, UInt32.toNat_ofNat', Nat.mod_eq_of_lt (show i < 2 ^ 32 by omega), Nat.mod_eq_of_lt h]

theorem writeRun_data (hwrap : lba.toNat + n ≤ 2 ^ 32) (hrange : lba.toNat + n ≤ d.sectors) (hi : i < n) :
    (d.writeRun lba f n).data (lba + UInt32.ofNat i) = f i := by
  induction n with
  | zero => omega
  | succ n ih =>
    rw [writeRun_succ]
    by_cases hin : i = n
    · subst hin
      apply data_write_self
      rw [writeRun_inRange, inRange, decide_eq_true_eq, toNat_add_ofNat (by omega)]
      omega
    · have hne : lba + UInt32.ofNat i ≠ lba + UInt32.ofNat n := by
        intro heq
        have hnat := congrArg UInt32.toNat heq
        rw [toNat_add_ofNat (by omega), toNat_add_ofNat (by omega)] at hnat
        omega
      rw [data_write_of_ne hne]
      exact ih (by omega) (by omega) (by omega)

end Device

/-- The regions are pairwise disjoint, and each lies in `[low, high)`; a region is a start and a length. -/
structure LaidOut (low high : ℕ) (regions : List (ℕ × ℕ)) : Prop where
  disjoint : regions.Pairwise fun r r' => r.1 + r.2 ≤ r'.1 ∨ r'.1 + r'.2 ≤ r.1
  inside : ∀ r ∈ regions, low ≤ r.1 ∧ r.1 + r.2 ≤ high

theorem LaidOut.nil {low high : ℕ} : LaidOut low high [] := ⟨.nil, by simp⟩

theorem LaidOut.cons {low high a n : ℕ} {regions : List (ℕ × ℕ)} (ha : low ≤ a) (hn : a + n ≤ high)
    (h : LaidOut (a + n) high regions) : LaidOut low high ((a, n) :: regions) := by
  constructor
  · exact List.pairwise_cons.mpr ⟨fun r hr => Or.inl (h.inside r hr).1, h.disjoint⟩
  · intro r hr
    rcases List.mem_cons.mp hr with rfl | hr
    · exact ⟨ha, hn⟩
    · have hin := h.inside r hr
      omega

end Orion.Lib
