import Orion.Mem.Blocks

/-!
# Segments of the block list

A segment reads only the header words of its blocks, so a write elsewhere keeps it (`Seg.congr`), and it falls apart at
any block (`seg_append`).
-/

namespace Orion.Mem

variable {h h' : Heap} {p n : UInt32} {bs xs ys : List Block}

theorem firstAddr_append (xs ys : List Block) (n : UInt32) :
    firstAddr (xs ++ ys) n = firstAddr xs (firstAddr ys n) := by
  cases xs <;> rfl

theorem lastAddr_append (p : UInt32) (xs ys : List Block) : lastAddr p (xs ++ ys) = lastAddr (lastAddr p xs) ys := by
  induction xs generalizing p with
  | nil => rfl
  | cons b xs ih => exact ih b.addr

theorem seg_append : Seg h p (xs ++ ys) n ↔ Seg h p xs (firstAddr ys n) ∧ Seg h (lastAddr p xs) ys n := by
  induction xs generalizing p with
  | nil => simp [Seg, lastAddr]
  | cons b xs ih =>
    simp only [List.cons_append, Seg, firstAddr_append, ih, lastAddr]
    tauto

theorem Seg.congr (hs : Seg h p bs n)
    (hm : ∀ b ∈ bs, ∀ w, headerWord b.addr w → h'.mem w = h.mem w) : Seg h' p bs n := by
  induction bs generalizing p with
  | nil => trivial
  | cons b bs ih =>
    obtain ⟨⟨hsize, hfree, hprev, hnext⟩, hrest⟩ := hs
    have hb := hm b List.mem_cons_self
    refine ⟨⟨?_, ?_, ?_, ?_⟩, ih hrest fun c hc => hm c (List.mem_cons_of_mem b hc)⟩
    · exact (hb _ (.inl rfl)).trans hsize
    · exact (hb _ (.inr (.inr (.inr rfl)))).trans hfree
    · exact (hb _ (.inr (.inr (.inl rfl)))).trans hprev
    · exact (hb _ (.inr (.inl rfl))).trans hnext

theorem headerWord_ne {a b w v : UInt32} (hab : a.toNat + 16 ≤ b.toNat)
    (hb : b.toNat + 16 ≤ 2 ^ 32) (hw : headerWord a w) (hv : headerWord b v) : w ≠ v := by
  have hadd : ∀ x o : UInt32, x.toNat + 16 ≤ 2 ^ 32 → o.toNat ≤ 12 → (x + o).toNat = x.toNat + o.toNat := by
    intro x o hx ho
    rw [UInt32.toNat_add, Nat.mod_eq_of_lt (by omega)]
  have hrange : ∀ x y, x.toNat + 16 ≤ 2 ^ 32 → headerWord x y → x.toNat ≤ y.toNat ∧ y.toNat ≤ x.toNat + 12 := by
    rintro x y hx (rfl | rfl | rfl | rfl)
    · omega
    · rw [hadd x 4 hx (by decide)]; simp
    · rw [hadd x 8 hx (by decide)]; simp
    · rw [hadd x 12 hx (by decide)]; simp
  have h1 := hrange a w (by omega) hw
  have h2 := hrange b v hb hv
  rintro rfl
  omega

theorem header_offsets_ne (a : UInt32) :
    a ≠ a + 4 ∧ a ≠ a + 8 ∧ a ≠ a + 12 ∧ a + 4 ≠ a + 8 ∧ a + 4 ≠ a + 12 ∧ a + 8 ≠ a + 12 := by
  have hne : ∀ x y : UInt32, x ≠ y → a + x ≠ a + y := fun x y hxy heq => hxy (UInt32.add_right_inj a |>.mp heq)
  have hzero : a + 0 = a := UInt32.add_zero a
  refine ⟨?_, ?_, ?_, hne 4 8 (by decide), hne 4 12 (by decide), hne 8 12 (by decide)⟩
  · have := hne 0 4 (by decide); rwa [hzero] at this
  · have := hne 0 8 (by decide); rwa [hzero] at this
  · have := hne 0 12 (by decide); rwa [hzero] at this

end Orion.Mem
