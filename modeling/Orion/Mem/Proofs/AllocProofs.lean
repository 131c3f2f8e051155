import Orion.Mem.Proofs.LayoutProofs

/-!
# Splitting blocks of a well-formed heap
-/

namespace Orion.Mem

open List
open UInt32 (toNat_add le_iff_toNat_le toNat_sub_of_le)

/-- The heap stands for the block list `bs`, and no request of at most the heap's span can wrap. -/
structure Wf (h : Heap) (bs : List Block) : Prop where
  repr : Repr h bs
  layout : Layout h.heap_base.toNat h.heap_curr.toNat bs
  base_pos : 0 < h.heap_base.toNat
  base_le : h.heap_base.toNat ≤ h.heap_curr.toNat
  curr_le : h.heap_curr.toNat ≤ h.heap_end.toNat
  curr_dvd : 4 ∣ h.heap_curr.toNat
  commit_dvd : PAGE_SIZE.toNat ∣ h.heap_commit_end.toNat
  room : h.heap_end.toNat + 2 * (h.heap_end.toNat - h.heap_base.toNat) + 32 ≤ 2 ^ 32

section Split

variable {h : Heap} {a b : Block} {bs xs ys : List Block} {size : UInt32} {bs' : List Block}

theorem Wf.sep (hw : Wf h bs) : Sep bs := by
  have hroom := hw.room
  have hcurr := hw.curr_le
  exact hw.layout.sep hw.base_pos (by omega)

/-- The variables of the heap but head and tail are the same. -/
def SameBounds (h h' : Heap) : Prop :=
  h'.heap_base = h.heap_base ∧ h'.heap_curr = h.heap_curr ∧ h'.heap_end = h.heap_end ∧
    h'.heap_commit_end = h.heap_commit_end

theorem SameBounds.trans {h1 h2 h3 : Heap} (h12 : SameBounds h1 h2) (h23 : SameBounds h2 h3) : SameBounds h1 h3 :=
  ⟨h23.1.trans h12.1, h23.2.1.trans h12.2.1, h23.2.2.1.trans h12.2.2.1, h23.2.2.2.trans h12.2.2.2⟩

theorem sameBounds_setSize (h : Heap) (a v : UInt32) : SameBounds h (h.setSize a v) := ⟨rfl, rfl, rfl, rfl⟩

theorem sameBounds_setFree (h : Heap) (a v : UInt32) : SameBounds h (h.setFree a v) := ⟨rfl, rfl, rfl, rfl⟩

theorem sameBounds_linkAfter (h : Heap) (a b size : UInt32) : SameBounds h (linkAfter h a b size) := by
  unfold linkAfter Heap.setPrevIf Heap.moveTail
  dsimp only
  split_ifs <;> exact ⟨rfl, rfl, rfl, rfl⟩

theorem sameBounds_absorbNext (h : Heap) (a b : UInt32) : SameBounds h (absorbNext h a b) := by
  unfold absorbNext Heap.setPrevIf Heap.moveTail
  dsimp only
  split_ifs <;> exact ⟨rfl, rfl, rfl, rfl⟩

theorem sameBounds_appendBlock (h : Heap) (b size free : UInt32) : SameBounds h (appendBlock h b size free) := by
  unfold appendBlock
  dsimp only
  split_ifs <;> exact ⟨rfl, rfl, rfl, rfl⟩

theorem Wf.edit {h' : Heap} (hw : Wf h bs) (hbounds : SameBounds h h')
    (hr : Repr h' bs') (hl : Layout h.heap_base.toNat h.heap_curr.toNat bs') : Wf h' bs' := by
  obtain ⟨hbase, hcurr, hend, hcommit⟩ := hbounds
  refine ⟨hr, ?_, ?_, ?_, ?_, ?_, ?_, ?_⟩
  · rw [hbase, hcurr]; exact hl
  · rw [hbase]; exact hw.base_pos
  · rw [hbase, hcurr]; exact hw.base_le
  · rw [hcurr, hend]; exact hw.curr_le
  · rw [hcurr]; exact hw.curr_dvd
  · rw [hcommit]; exact hw.commit_dvd
  · rw [hbase, hend]; exact hw.room

/-- The blocks around `a`, when `a` is replaced by blocks that fill its range. -/
theorem Wf.layout_replace {ms : List Block} (hw : Wf h (xs ++ a :: ys)) (hms : Layout a.addr.toNat a.last ms) :
    Layout h.heap_base.toNat h.heap_curr.toNat (xs ++ (ms ++ ys)) := by
  refine Layout.replace (hw.layout.sublist (sublist_append_left xs _)) (hw.layout.sublist ?_) hw.layout.fits hms ?_
  · exact (sublist_cons_self a ys).trans (sublist_append_right xs _)
  · unfold Block.last
    omega

theorem Wf.last_lt (hw : Wf h bs) (ha : a ∈ bs) : a.last + 32 ≤ 2 ^ 32 := by
  have h1 := hw.layout.last_le a ha
  have h2 := hw.curr_le
  have h3 := hw.room
  omega

theorem Wf.toNat_block_end (hw : Wf h bs) (ha : a ∈ bs) (hsz : h.size a.addr = a.size) :
    (block_end h a.addr).toNat = a.last := by
  have h16 : HEADER.toNat = 16 := rfl
  have hbound := hw.last_lt ha
  unfold Block.last at hbound ⊢
  rw [block_end, hsz, toNat_add, toNat_add, h16]
  omega

/-- A block cut into a first part of `size` bytes and a free rest. -/
def cutAt (a : Block) (size : UInt32) : List Block :=
  [{ a with size := size }, ⟨a.addr + HEADER + size, a.size - size - HEADER, true⟩]

theorem cut_toNat (hlast : a.last + 32 ≤ 2 ^ 32) (hsize : size.toNat + 16 ≤ a.size.toNat) :
    (a.addr + HEADER + size).toNat = a.addr.toNat + 16 + size.toNat ∧
      (a.size - size - HEADER).toNat = a.size.toNat - size.toNat - 16 := by
  have h16 : HEADER.toNat = 16 := rfl
  unfold Block.last at hlast
  constructor
  · rw [toNat_add, toNat_add, h16]
    omega
  have hle : size ≤ a.size := by rw [le_iff_toNat_le]; omega
  have hsub := toNat_sub_of_le a.size size hle
  have hle' : HEADER ≤ a.size - size := by rw [le_iff_toNat_le, hsub, h16]; omega
  rw [toNat_sub_of_le _ _ hle', hsub, h16]

theorem layout_cutAt (hlast : a.last + 32 ≤ 2 ^ 32) (hsize : size.toNat + 16 ≤ a.size.toNat)
    (ha : 4 ∣ a.addr.toNat) (has : 4 ∣ a.size.toNat) (hd : 4 ∣ size.toNat) :
    Layout a.addr.toNat a.last (cutAt a size) := by
  obtain ⟨haddr, hrest⟩ := cut_toNat hlast hsize
  have hpair := layout_pair (a := { a with size := size })
    (b := ⟨a.addr + HEADER + size, a.size - size - HEADER, true⟩) (by
      change a.addr.toNat + 16 + size.toNat = (a.addr + HEADER + size).toNat
      rw [haddr]) ha hd (by
      change 4 ∣ (a.addr + HEADER + size).toNat
      rw [haddr]
      omega) (by
      change 4 ∣ (a.size - size - HEADER).toNat
      rw [hrest]
      omega)
  have hend : Block.last ⟨a.addr + HEADER + size, a.size - size - HEADER, true⟩ = a.last := by
    change (a.addr + HEADER + size).toNat + 16 + (a.size - size - HEADER).toNat = a.last
    rw [haddr, hrest]
    unfold Block.last
    omega
  rw [hend] at hpair
  exact hpair

theorem Sep.of_addr (hsep : Sep bs) (haddr : bs'.map Block.addr = bs.map Block.addr) : Sep bs' := by
  have hmem : ∀ b ∈ bs', ∃ c ∈ bs, c.addr = b.addr := by
    intro b hb
    have hin : b.addr ∈ bs.map Block.addr := haddr ▸ mem_map_of_mem hb
    obtain ⟨c, hc, heq⟩ := mem_map.mp hin
    exact ⟨c, hc, heq⟩
  refine ⟨?_, ?_, ?_⟩
  · have hpair : (bs.map Block.addr).Pairwise fun x y => x.toNat + 16 ≤ y.toNat := pairwise_map.mpr hsep.apart
    rw [← haddr] at hpair
    exact pairwise_map.mp hpair
  · intro b hb
    obtain ⟨c, hc, heq⟩ := hmem b hb
    rw [← heq]
    exact hsep.bound c hc
  · intro b hb
    obtain ⟨c, hc, heq⟩ := hmem b hb
    rw [← heq]
    exact hsep.ne_zero c hc

theorem wf_cut (hw : Wf h (xs ++ a :: ys)) (hsize : size.toNat + 16 ≤ a.size.toNat) (hd : 4 ∣ size.toNat) :
    Wf ((linkAfter h a.addr (a.addr + HEADER + size) (a.size - size - HEADER)).setSize a.addr size)
      (xs ++ (cutAt a size ++ ys)) := by
  have hmem : a ∈ xs ++ a :: ys := by simp
  have hl := hw.layout_replace (layout_cutAt (hw.last_lt hmem) hsize (hw.layout.addr_dvd a hmem)
    (hw.layout.size_dvd a hmem) hd)
  have hroom := hw.room
  have hcurr := hw.curr_le
  have hsep : Sep (xs ++ (cutAt a size ++ ys)) := hl.sep hw.base_pos (by omega)
  -- the cut is `a` with its new size and the rest `b`; their numbers play no role from here on
  obtain ⟨b, hcut, hbaddr, hbsize, hbfree⟩ : ∃ b : Block, cutAt a size = [{ a with size := size }, b] ∧
      b.addr = a.addr + HEADER + size ∧ b.size = a.size - size - HEADER ∧ b.free = true :=
    ⟨_, rfl, rfl, rfl, rfl⟩
  rw [← hbaddr, ← hbsize]
  rw [hcut] at hl hsep ⊢
  have hsep' : Sep (xs ++ a :: b :: ys) := hsep.of_addr (by simp)
  have hr : Repr (linkAfter h a.addr b.addr b.size) (xs ++ a :: b :: ys) := repr_linkAfter hw.repr hbfree hsep'
  exact hw.edit ((sameBounds_linkAfter h _ _ _).trans (sameBounds_setSize _ _ _)) (repr_setSize hr hsep' size) hl

theorem wf_split_block (hw : Wf h (xs ++ a :: ys)) (hd : 4 ∣ size.toNat) :
    Wf (split_block h a.addr size) (xs ++ (a :: ys)) ∨ (size.toNat + 16 ≤ a.size.toNat ∧
        Wf (split_block h a.addr size) (xs ++ (cutAt a size ++ ys))) := by
  have hsz : h.size a.addr = a.size := (seg_mid.mp hw.repr.seg).2.1.1
  unfold split_block
  rw [hsz]
  split
  · exact .inl hw
  rename_i hgt
  dsimp only
  split
  · exact .inl hw
  rename_i hmin
  have hle : size ≤ a.size := by
    rw [le_iff_toNat_le]
    rw [le_iff_toNat_le] at hgt
    omega
  have hsub := toNat_sub_of_le a.size size hle
  have hrest : size.toNat + 16 ≤ a.size.toNat := by
    rw [UInt32.lt_iff_toNat_lt, hsub] at hmin
    have h24 : MIN_BLOCK_SIZE.toNat = 24 := rfl
    rw [le_iff_toNat_le] at hle
    omega
  exact .inr ⟨hrest, wf_cut hw hrest hd⟩

theorem wf_setFree (hw : Wf h (xs ++ a :: ys)) (f : Bool) :
    Wf (h.setFree a.addr (if f then 1 else 0)) (xs ++ { a with free := f } :: ys) := by
  have hmem : a ∈ xs ++ a :: ys := by simp
  have hsingle : Layout a.addr.toNat a.last [{ a with free := f }] :=
    layout_single (a := { a with free := f }) (hw.layout.addr_dvd a hmem) (hw.layout.size_dvd a hmem)
  have hl := hw.layout_replace hsingle
  exact hw.edit (sameBounds_setFree h _ _) (repr_setFree hw.repr hw.sep f) hl

end Split

end Orion.Mem
