import Orion.Mem.Proofs.GrowProofs

/-!
# Freeing a block

`kfree` marks the block free and joins it with a free neighbour on either side when the two touch.
-/

namespace Orion.Mem

open List

variable {h : Heap} {a b : Block} {bs xs ys : List Block}

theorem wf_absorb (hw : Wf h (xs ++ a :: b :: ys)) (hadj : a.last = b.addr.toNat) : Wf (absorbNext h a.addr b.addr)
      (xs ++ { a with size := a.size + (HEADER + b.size) } :: ys) := by
  have h16 : HEADER.toNat = 16 := rfl
  have hmema : a ∈ xs ++ a :: b :: ys := by simp
  have hmemb : b ∈ xs ++ a :: b :: ys := by simp
  have hbound := hw.last_lt hmemb
  have hsize : (a.size + (HEADER + b.size)).toNat = a.size.toNat + 16 + b.size.toNat := by
    unfold Block.last at hadj hbound
    rw [UInt32.toNat_add, UInt32.toNat_add, h16]
    omega
  obtain ⟨c, hc⟩ : ∃ c : Block, c = { a with size := a.size + (HEADER + b.size) } := ⟨_, rfl⟩
  have haddr : c.addr = a.addr := by rw [hc]
  have hcsize : c.size = a.size + (HEADER + b.size) := by rw [hc]
  have hlast : c.last = b.last := by
    unfold Block.last at hadj ⊢
    rw [haddr, hcsize, hsize]
    omega
  -- the joined block fills the range of the two
  have hfits : Fits h.heap_base.toNat h.heap_curr.toNat xs c.addr.toNat c.last ys := by
    have hfit := hw.layout.fits
    have hbys : ∀ y ∈ ys, b.last ≤ y.addr.toNat := by
      have hsorted := hw.layout.sorted.sublist (sublist_append_right xs (a :: b :: ys))
      have htail := (pairwise_cons.mp hsorted).2
      exact (pairwise_cons.mp htail).1
    refine ⟨?_, ?_, ?_, ?_⟩
    · rw [haddr]; exact hfit.base_le
    · rw [hlast]; exact hw.layout.last_le b hmemb
    · rw [haddr]; exact hfit.before
    · rw [hlast]; exact hbys
  have hsingle : Layout c.addr.toNat c.last [c] := by
    have hda := hw.layout.size_dvd a hmema
    have hdb := hw.layout.size_dvd b hmemb
    refine layout_single ?_ ?_
    · rw [haddr]; exact hw.layout.addr_dvd a hmema
    · rw [hcsize, hsize]; omega
  have hys : ys.Sublist (xs ++ a :: b :: ys) :=
    ((sublist_cons_self b ys).trans (sublist_cons_self a _)).trans (sublist_append_right xs _)
  have hl := Layout.replace (hw.layout.sublist (sublist_append_left xs _))
    (hw.layout.sublist hys) hfits hsingle (by unfold Block.last; omega)
  have hr := repr_absorbNext hw.repr hw.sep
  rw [← hc] at hr ⊢
  exact hw.edit (sameBounds_absorbNext _ _ _) hr hl

theorem Wf.adjacent (hw : Wf h (xs ++ a :: b :: ys)) (hadj : blocks_adjacent h a.addr b.addr = true) :
    a.last = b.addr.toNat := by
  have hsz : h.size a.addr = a.size := (seg_mid.mp hw.repr.seg).2.1.1
  have hend : block_end h a.addr = b.addr := of_decide_eq_true hadj
  rw [← hend, hw.toNat_block_end (by simp) hsz]

theorem Wf.free_of_flag (hw : Wf h (xs ++ a :: ys)) (hflag : h.free a.addr ≠ 0) : a.free = true := by
  have hfl : h.free a.addr = a.flag := (seg_mid.mp hw.repr.seg).2.1.2.1
  by_contra hused
  rw [hfl, Block.flag, if_neg hused] at hflag
  exact hflag rfl

theorem wf_mergeNext (hw : Wf h (xs ++ a :: ys)) (hfree : a.free = true) :
    ∃ a' ys', Wf (mergeNext h a.addr) (xs ++ a' :: ys') ∧ a'.addr = a.addr ∧ a'.free = true ∧
      ∀ c ∈ ys, c.free = false → c ∈ ys' := by
  have hnext : h.next a.addr = firstAddr ys 0 := (seg_mid.mp hw.repr.seg).2.1.2.2.2
  unfold mergeNext
  dsimp only
  rw [hnext]
  split
  · rename_i htest
    simp only [Bool.and_eq_true, decide_eq_true_eq] at htest
    obtain ⟨⟨hne, hflag⟩, hadj⟩ := htest
    rcases ys with _ | ⟨b, ys⟩
    · exact absurd rfl hne
    change h.free b.addr ≠ 0 at hflag
    have hbfree : b.free = true := by
      have hw' : Wf h ((xs ++ [a]) ++ b :: ys) := by simpa using hw
      exact hw'.free_of_flag hflag
    refine ⟨_, ys, wf_absorb hw (hw.adjacent hadj), rfl, hfree, fun c hc hused => ?_⟩
    rcases mem_cons.mp hc with rfl | hc
    · rw [hbfree] at hused
      cases hused
    · exact hc
  · exact ⟨a, ys, hw, rfl, hfree, fun c hc _ => hc⟩

theorem wf_mergePrev (hw : Wf h (xs ++ a :: ys)) :
    ∃ bs', Wf (mergePrev h a.addr) bs' ∧ ∀ c ∈ xs ++ ys, c.free = false → c ∈ bs' := by
  have hprev : h.prev a.addr = lastAddr 0 xs := (seg_mid.mp hw.repr.seg).2.1.2.2.1
  unfold mergePrev
  dsimp only
  rw [hprev]
  split
  · rename_i htest
    simp only [Bool.and_eq_true, decide_eq_true_eq] at htest
    obtain ⟨⟨hne, hflag⟩, hadj⟩ := htest
    rcases eq_nil_or_concat xs with rfl | ⟨xs, p, rfl⟩
    · exact absurd rfl hne
    rw [concat_eq_append] at hw hne hflag hadj ⊢
    have hlast : lastAddr 0 (xs ++ [p]) = p.addr := lastAddr_append 0 xs [p]
    rw [hlast] at hflag hadj ⊢
    rw [append_assoc] at hw
    have hpfree : p.free = true := hw.free_of_flag hflag
    refine ⟨_, wf_absorb hw (hw.adjacent hadj), fun c hc hused => ?_⟩
    simp only [mem_append, mem_cons, not_mem_nil, or_false] at hc ⊢
    rcases hc with (hc | rfl) | hc
    · exact .inl hc
    · rw [hpfree] at hused
      cases hused
    · exact .inr (.inr hc)
  · refine ⟨_, hw, fun c hc _ => ?_⟩
    simp only [mem_append, mem_cons] at hc ⊢
    tauto

theorem Wf.payload (hw : Wf h bs) (ha : a ∈ bs) : (a.addr + HEADER).toNat = a.addr.toNat + 16 ∧ a.addr + HEADER ≠ 0 ∧
      a.addr + HEADER - HEADER = a.addr := by
  have hbound := hw.last_lt ha
  unfold Block.last at hbound
  have hnat : (a.addr + HEADER).toNat = a.addr.toNat + 16 := by
    rw [UInt32.toNat_add]
    change (a.addr.toNat + 16) % 2 ^ 32 = _
    omega
  refine ⟨hnat, fun hzero => ?_, by grind⟩
  rw [hzero] at hnat
  change 0 = _ at hnat
  omega

theorem wf_kfree (hw : Wf h (xs ++ a :: ys)) :
    ∃ bs', Wf (kfree h (a.addr + HEADER)) bs' ∧ ∀ c ∈ xs ++ ys, c.free = false → c ∈ bs' := by
  obtain ⟨-, hne, hback⟩ := hw.payload (a := a) (by simp)
  unfold kfree
  rw [if_neg hne]
  dsimp only
  rw [hback]
  have hset : Wf (h.setFree a.addr 1) (xs ++ { a with free := true } :: ys) := wf_setFree hw true
  obtain ⟨a', ys', hmerged, haddr, -, hkeep⟩ := wf_mergeNext hset rfl
  change Wf (mergeNext (h.setFree a.addr 1) a.addr) _ at hmerged
  have haddr' : a'.addr = a.addr := haddr
  obtain ⟨bs', hwf, hkeep'⟩ := wf_mergePrev hmerged
  rw [haddr'] at hwf
  refine ⟨bs', hwf, fun c hc hused => hkeep' c ?_ hused⟩
  rcases mem_append.mp hc with hc | hc
  · exact mem_append_left _ hc
  · exact mem_append_right _ (hkeep c hc hused)

end Orion.Mem
