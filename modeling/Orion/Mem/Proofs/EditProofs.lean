import Orion.Mem.Proofs.SegProofs

/-!
# The edits of the block list, in memory

Each edit writes to the headers of at most three blocks. An edit is checked at the seam and carried over to the two
segments around it.
-/

namespace Orion.Mem

open Heap List

variable {h : Heap} {p n w v : UInt32} {a b : Block} {bs xs ys : List Block} {h' : Heap} {t : UInt32}

/-- The header of one block, between `p` and `n`. -/
def Hdr (h : Heap) (b : Block) (p n : UInt32) : Prop :=
  h.size b.addr = b.size ∧ h.free b.addr = b.flag ∧ h.prev b.addr = p ∧ h.next b.addr = n

theorem seg_cons : Seg h p (b :: bs) n ↔ Hdr h b p (firstAddr bs n) ∧ Seg h b.addr bs n := Iff.rfl

theorem seg_mid : Seg h p (xs ++ a :: ys) n ↔
    Seg h p xs a.addr ∧ Hdr h a (lastAddr p xs) (firstAddr ys n) ∧ Seg h a.addr ys n := by
  rw [seg_append, seg_cons]
  rfl

/-- The headers have no word in common. -/
def Apart (a b : Block) : Prop := ∀ w, headerWord a.addr w → ¬headerWord b.addr w

theorem Apart.symm (hab : Apart a b) : Apart b a := fun w hb ha => hab w ha hb

/-- The headers lie sixteen bytes apart, below the end of memory, and none is at the null pointer. -/
structure Sep (bs : List Block) : Prop where
  apart : bs.Pairwise fun a b => a.addr.toNat + 16 ≤ b.addr.toNat
  bound : ∀ b ∈ bs, b.addr.toNat + 16 ≤ 2 ^ 32
  ne_zero : ∀ b ∈ bs, b.addr ≠ 0

theorem Sep.pairwise_apart (hsep : Sep bs) : bs.Pairwise Apart := by
  refine hsep.apart.imp_of_mem ?_
  intro a b _ hb hab w ha hw
  exact headerWord_ne hab (hsep.bound b hb) ha hw rfl

theorem Sep.sublist (hsep : Sep bs) (hsub : xs.Sublist bs) : Sep xs :=
  ⟨hsep.apart.sublist hsub, fun b hb => hsep.bound b (hsub.subset hb), fun b hb => hsep.ne_zero b (hsub.subset hb)⟩

theorem Sep.mid (hsep : Sep (xs ++ a :: ys)) :
    (∀ x ∈ xs, Apart a x) ∧ (∀ y ∈ ys, Apart a y) ∧ ∀ x ∈ xs, ∀ y ∈ ys, Apart x y := by
  obtain ⟨-, hay, hcross⟩ := pairwise_append.mp hsep.pairwise_apart
  refine ⟨fun x hx => (hcross x hx a mem_cons_self).symm, ?_, ?_⟩
  · exact (pairwise_cons.mp hay).1
  · exact fun x hx y hy => hcross x hx y (mem_cons_of_mem a hy)

theorem Sep.two (hsep : Sep (xs ++ a :: b :: ys)) : Apart a b ∧ (∀ y ∈ ys, Apart a y) ∧ (∀ y ∈ ys, Apart b y) ∧
    (∀ x ∈ xs, Apart x b) ∧ (∀ x ∈ xs, ∀ y ∈ ys, Apart x y) ∧ Sep ys := by
  obtain ⟨-, ha, hx⟩ := hsep.mid
  have hsepb : Sep (b :: ys) := hsep.sublist ((sublist_cons_self a (b :: ys)).trans (sublist_append_right xs _))
  exact ⟨ha b mem_cons_self, fun y hy => ha y (mem_cons_of_mem b hy),
    (pairwise_cons.mp hsepb.pairwise_apart).1, fun x hx' => hx x hx' b mem_cons_self,
    fun x hx' y hy => hx x hx' y (mem_cons_of_mem b hy), hsepb.sublist (sublist_cons_self b ys)⟩

theorem store_mem (h : Heap) (a v w : UInt32) : (h.store a v).mem w = if w = a then v else h.mem w := by
  simp only [store, Function.update_apply]

theorem Hdr.congr (hh : Hdr h b p n) (hm : ∀ w, headerWord b.addr w → h'.mem w = h.mem w) : Hdr h' b p n := by
  obtain ⟨hsize, hfree, hprev, hnext⟩ := hh
  exact ⟨(hm _ (.inl rfl)).trans hsize, (hm _ (.inr (.inr (.inr rfl)))).trans hfree,
    (hm _ (.inr (.inr (.inl rfl)))).trans hprev, (hm _ (.inr (.inl rfl))).trans hnext⟩

theorem store_outside {u : UInt32} (hw : ¬headerWord b.addr w) (hu : headerWord b.addr u) :
    (h.store w v).mem u = h.mem u := by
  rw [store_mem, if_neg]
  rintro rfl
  exact hw hu

theorem Seg.store (hs : Seg h p bs n) (hw : ∀ b ∈ bs, ¬headerWord b.addr w) : Seg (h.store w v) p bs n :=
  hs.congr fun b hb _ hu => store_outside (hw b hb) hu

section

variable (hh : Hdr h b p n)

include hh

theorem Hdr.store (hw : ¬headerWord b.addr w) : Hdr (h.store w v) b p n :=
  hh.congr fun _ hu => store_outside hw hu

/-! Writing one field of a header leaves the other three. -/

theorem Hdr.setNext (v : UInt32) : Hdr (h.setNext b.addr v) b p v := by
  obtain ⟨h4, -, -, h48, h412, -⟩ := header_offsets_ne b.addr
  obtain ⟨hsize, hfree, hprev, -⟩ := hh
  refine ⟨?_, ?_, ?_, ?_⟩
  · exact (store_mem ..).trans ((if_neg h4).trans hsize)
  · exact (store_mem ..).trans ((if_neg h412.symm).trans hfree)
  · exact (store_mem ..).trans ((if_neg h48.symm).trans hprev)
  · exact (store_mem ..).trans (if_pos rfl)

theorem Hdr.setPrev (v : UInt32) : Hdr (h.setPrev b.addr v) b v n := by
  obtain ⟨-, h8, -, h48, -, h812⟩ := header_offsets_ne b.addr
  obtain ⟨hsize, hfree, -, hnext⟩ := hh
  refine ⟨?_, ?_, ?_, ?_⟩
  · exact (store_mem ..).trans ((if_neg h8).trans hsize)
  · exact (store_mem ..).trans ((if_neg h812.symm).trans hfree)
  · exact (store_mem ..).trans (if_pos rfl)
  · exact (store_mem ..).trans ((if_neg h48).trans hnext)

theorem Hdr.setSize (v : UInt32) : Hdr (h.setSize b.addr v) { b with size := v } p n := by
  obtain ⟨h4, h8, h12, -, -, -⟩ := header_offsets_ne b.addr
  obtain ⟨-, hfree, hprev, hnext⟩ := hh
  refine ⟨?_, ?_, ?_, ?_⟩
  · exact (store_mem ..).trans (if_pos rfl)
  · exact (store_mem ..).trans ((if_neg h12.symm).trans hfree)
  · exact (store_mem ..).trans ((if_neg h8.symm).trans hprev)
  · exact (store_mem ..).trans ((if_neg h4.symm).trans hnext)

theorem Hdr.setFree (f : Bool) : Hdr (h.setFree b.addr (if f then 1 else 0)) { b with free := f } p n := by
  obtain ⟨-, -, h12, -, h412, h812⟩ := header_offsets_ne b.addr
  obtain ⟨hsize, -, hprev, hnext⟩ := hh
  refine ⟨?_, ?_, ?_, ?_⟩
  · exact (store_mem ..).trans ((if_neg h12).trans hsize)
  · exact (store_mem ..).trans (if_pos rfl)
  · exact (store_mem ..).trans ((if_neg h812).trans hprev)
  · exact (store_mem ..).trans ((if_neg h412).trans hnext)

end

theorem word_prev (a : UInt32) : headerWord a (a + 8) := .inr (.inr (.inl rfl))

theorem Seg.setPrevIf (hs : Seg h p ys 0) (hsep : Sep ys) (v : UInt32) :
    Seg (h.setPrevIf (firstAddr ys 0) v) v ys 0 := by
  rcases ys with _ | ⟨c, cs⟩
  · trivial
  obtain ⟨hc, hrest⟩ := hs
  have hne : firstAddr (c :: cs) 0 ≠ 0 := hsep.ne_zero c mem_cons_self
  rw [Heap.setPrevIf, if_neg hne]
  refine ⟨Hdr.setPrev hc v, Seg.store hrest fun d hd => ?_⟩
  exact (pairwise_cons.mp hsep.pairwise_apart).1 d hd _ (word_prev c.addr)

theorem setPrevIf_mem (hsep : Sep ys) (v : UInt32) (hw : ∀ y ∈ ys, ¬headerWord y.addr w) :
    (h.setPrevIf (firstAddr ys 0) v).mem w = h.mem w := by
  rcases ys with _ | ⟨c, cs⟩
  · rfl
  have hne : firstAddr (c :: cs) 0 ≠ 0 := hsep.ne_zero c mem_cons_self
  rw [Heap.setPrevIf, if_neg hne]
  refine (store_mem ..).trans (if_neg ?_)
  rintro rfl
  exact hw c mem_cons_self (word_prev c.addr)

theorem setPrevIf_head (h : Heap) (b v : UInt32) : (h.setPrevIf b v).heap_head = h.heap_head := by
  unfold Heap.setPrevIf
  split <;> rfl

theorem setPrevIf_tail (h : Heap) (b v : UInt32) : (h.setPrevIf b v).heap_tail = h.heap_tail := by
  unfold Heap.setPrevIf
  split <;> rfl

theorem lastAddr_mem (p : UInt32) (b : Block) (bs : List Block) : ∃ c ∈ b :: bs, lastAddr p (b :: bs) = c.addr := by
  induction bs generalizing p b with
  | nil => exact ⟨b, mem_cons_self, rfl⟩
  | cons d bs ih =>
    obtain ⟨c, hc, hlast⟩ := ih b.addr d
    exact ⟨c, mem_cons_of_mem b hc, hlast⟩

theorem addr_ne_of_apart (hab : Apart a b) : a.addr ≠ b.addr := fun heq => hab a.addr (.inl rfl) (.inl heq)

theorem moveTail_last (ht : h.heap_tail = lastAddr a.addr ys)
    (hap : ∀ y ∈ ys, Apart a y) : (h.moveTail a.addr t).heap_tail = lastAddr t ys := by
  unfold Heap.moveTail
  rcases ys with _ | ⟨c, cs⟩
  · have hta : h.heap_tail = a.addr := ht
    rw [if_pos hta]
    rfl
  obtain ⟨d, hd, hlast⟩ := lastAddr_mem a.addr c cs
  rw [if_neg]
  · exact ht
  · rw [ht, hlast]
    exact (addr_ne_of_apart (hap d hd)).symm

theorem moveTail_mem (h : Heap) (a t : UInt32) : (h.moveTail a t).mem = h.mem := by
  unfold Heap.moveTail
  split <;> rfl

theorem moveTail_head (h : Heap) (a t : UInt32) : (h.moveTail a t).heap_head = h.heap_head := by
  unfold Heap.moveTail
  split <;> rfl

theorem repr_moveTail {zs : List Block} (hseg : Seg h 0 (xs ++ zs) 0)
    (hhead : h.heap_head = firstAddr xs (firstAddr zs 0)) (htail : h.heap_tail = lastAddr a.addr ys)
    (hap : ∀ y ∈ ys, Apart a y) (hlast : ∀ p, lastAddr p zs = lastAddr t ys) : Repr (h.moveTail a.addr t) (xs ++ zs) := by
  refine ⟨hseg.congr fun _ _ _ _ => by rw [moveTail_mem], ?_, ?_⟩
  · rw [moveTail_head, hhead, firstAddr_append]
  · rw [moveTail_last htail hap, lastAddr_append, hlast]

theorem hdr_write (h : Heap) (b : Block) (p n : UInt32) :
    Hdr ((((h.setSize b.addr b.size).setFree b.addr b.flag).setPrev b.addr p).setNext b.addr n) b p n := by
  obtain ⟨h4, h8, h12, h48, h412, h812⟩ := header_offsets_ne b.addr
  refine ⟨?_, ?_, ?_, ?_⟩
  · simp only [Heap.size, Heap.setNext, Heap.setPrev, Heap.setFree, Heap.setSize, store_mem,
      if_neg h4, if_neg h8, if_neg h12, if_true]
  · simp only [Heap.free, Heap.setNext, Heap.setPrev, Heap.setFree, Heap.setSize, store_mem,
      if_neg h412.symm, if_neg h812.symm, if_true]
  · simp only [Heap.prev, Heap.setNext, Heap.setPrev, Heap.setFree, Heap.setSize, store_mem, if_neg h48.symm, if_true]
  · simp only [Heap.next, Heap.setNext, store_mem, if_true]

theorem write_mem (h : Heap) (b : Block) (p n : UInt32) (hw : ¬headerWord b.addr w) :
    ((((h.setSize b.addr b.size).setFree b.addr b.flag).setPrev b.addr p).setNext b.addr n).mem w = h.mem w := by
  have h0 : w ≠ b.addr := fun he => hw (.inl he)
  have h4 : w ≠ b.addr + 4 := fun he => hw (.inr (.inl he))
  have h8 : w ≠ b.addr + 8 := fun he => hw (.inr (.inr (.inl he)))
  have h12 : w ≠ b.addr + 12 := fun he => hw (.inr (.inr (.inr he)))
  simp only [Heap.setNext, Heap.setPrev, Heap.setFree, Heap.setSize, store_mem, if_neg h0, if_neg h4,
    if_neg h8, if_neg h12]

theorem repr_linkAfter (hr : Repr h (xs ++ a :: ys)) (hb : b.free = true) (hsep : Sep (xs ++ a :: b :: ys)) :
    Repr (linkAfter h a.addr b.addr b.size) (xs ++ a :: b :: ys) := by
  obtain ⟨hax, -, -⟩ := hsep.mid
  obtain ⟨hab, hay, hby, hxb, hxy, hsepy⟩ := hsep.two
  obtain ⟨hxs, ha, hys⟩ := seg_mid.mp hr.seg
  have hflag : b.flag = 1 := by rw [Block.flag, hb]; rfl
  -- the new header is written; its `next` is read from `a`, which the writes do not touch
  set h1 := (((h.setSize b.addr b.size).setFree b.addr b.flag).setPrev b.addr a.addr).setNext b.addr
    (firstAddr ys 0) with hh1
  have hm1 : ∀ w, ¬headerWord b.addr w → h1.mem w = h.mem w := fun w hw => write_mem h b a.addr (firstAddr ys 0) hw
  have hxs1 : Seg h1 0 xs a.addr := hxs.congr fun x hx w hw => hm1 w (hxb x hx w hw)
  have ha1 : Hdr h1 a (lastAddr 0 xs) (firstAddr ys 0) := ha.congr fun w hw => hm1 w (hab w hw)
  have hys1 : Seg h1 a.addr ys 0 := hys.congr fun y hy w hw => hm1 w ((hby y hy).symm w hw)
  have hb1 : Hdr h1 b a.addr (firstAddr ys 0) := hdr_write h b a.addr (firstAddr ys 0)
  -- the block behind it gets its new predecessor
  set h2 := h1.setPrevIf (firstAddr ys 0) b.addr with hh2
  have hm2 : ∀ w, (∀ y ∈ ys, ¬headerWord y.addr w) → h2.mem w = h1.mem w := fun w hw => setPrevIf_mem hsepy b.addr hw
  have hxs2 : Seg h2 0 xs a.addr := hxs1.congr fun x hx w hw => hm2 w fun y hy => hxy x hx y hy w hw
  have ha2 : Hdr h2 a (lastAddr 0 xs) (firstAddr ys 0) := ha1.congr fun w hw => hm2 w fun y hy => hay y hy w hw
  have hb2 : Hdr h2 b a.addr (firstAddr ys 0) := hb1.congr fun w hw => hm2 w fun y hy => hby y hy w hw
  have hys2 : Seg h2 b.addr ys 0 := hys1.setPrevIf hsepy b.addr
  -- `a` points at the new block
  set h3 := h2.setNext a.addr b.addr with hh3
  have hwa : headerWord a.addr (a.addr + 4) := .inr (.inl rfl)
  have hseg3 : Seg h3 0 (xs ++ a :: b :: ys) 0 := by
    refine seg_mid.mpr ⟨?_, Hdr.setNext ha2 b.addr, ?_, ?_⟩
    · exact Seg.store hxs2 fun x hx => hax x hx _ hwa
    · exact Hdr.store hb2 (hab _ hwa)
    · exact Seg.store hys2 fun y hy => hay y hy _ hwa
  have heq : linkAfter h a.addr b.addr b.size = h3.moveTail a.addr b.addr := by
    have hnext0 : (((h.setSize b.addr b.size).setFree b.addr 1).setPrev b.addr a.addr).next a.addr =
        firstAddr ys 0 := by
      rw [← hflag]
      have := ha1.2.2.2
      rw [hh1] at this
      refine Eq.trans ?_ this
      refine ((store_mem ..).trans (if_neg ?_)).symm
      exact fun he => hab _ hwa (.inr (.inl he))
    have hnext1 : h1.next a.addr = firstAddr ys 0 := ha1.2.2.2
    unfold linkAfter
    simp only [hnext0]
    rw [← hflag, ← hh1, hnext1]
  have htail3 : h3.heap_tail = lastAddr a.addr ys := by
    change h2.heap_tail = _
    rw [hh2, setPrevIf_tail]
    exact hr.tail.trans (lastAddr_append 0 xs (a :: ys))
  rw [heq]
  refine repr_moveTail hseg3 ?_ htail3 hay fun _ => rfl
  change h2.heap_head = _
  rw [hh2, setPrevIf_head]
  exact hr.head.trans (firstAddr_append ..)

theorem repr_update {a' : Block} (hr : Repr h (xs ++ a :: ys)) (hsep : Sep (xs ++ a :: ys)) (haddr : a'.addr = a.addr)
    (ha' : ∀ p n, Hdr h a p n → Hdr h' a' p n) (hm : ∀ w, ¬headerWord a.addr w → h'.mem w = h.mem w)
    (hhead : h'.heap_head = h.heap_head) (htail : h'.heap_tail = h.heap_tail) : Repr h' (xs ++ a' :: ys) := by
  obtain ⟨hax, hay, -⟩ := hsep.mid
  obtain ⟨hxs, ha, hys⟩ := seg_mid.mp hr.seg
  refine ⟨seg_mid.mpr ⟨?_, ha' _ _ ha, ?_⟩, ?_, ?_⟩
  · rw [haddr]
    exact hxs.congr fun x hx w hw => hm w fun hwa => hax x hx w hwa hw
  · rw [haddr]
    exact hys.congr fun y hy w hw => hm w fun hwa => hay y hy w hwa hw
  · rw [hhead, hr.head, firstAddr_append, firstAddr_append]
    change _ = firstAddr xs a'.addr
    rw [haddr]
    rfl
  · rw [htail, hr.tail, lastAddr_append, lastAddr_append]
    change _ = lastAddr a'.addr ys
    rw [haddr]
    rfl

theorem repr_setSize (hr : Repr h (xs ++ a :: ys)) (hsep : Sep (xs ++ a :: ys)) (v : UInt32) :
    Repr (h.setSize a.addr v) (xs ++ { a with size := v } :: ys) :=
  repr_update hr hsep rfl (fun _ _ ha => ha.setSize v)
    (fun _ hw => (store_mem ..).trans (if_neg fun he => hw (.inl he))) rfl rfl

theorem repr_setFree (hr : Repr h (xs ++ a :: ys)) (hsep : Sep (xs ++ a :: ys)) (f : Bool) :
    Repr (h.setFree a.addr (if f then 1 else 0)) (xs ++ { a with free := f } :: ys) :=
  repr_update hr hsep rfl (fun _ _ ha => ha.setFree f)
    (fun _ hw => (store_mem ..).trans (if_neg fun he => hw (.inr (.inr (.inr he))))) rfl rfl

theorem repr_appendBlock (hr : Repr h bs) (hsep : Sep (bs ++ [b])) :
    Repr (appendBlock h b.addr b.size b.flag) (bs ++ [b]) := by
  set h1 := (((h.setSize b.addr b.size).setFree b.addr b.flag).setPrev b.addr h.heap_tail).setNext b.addr 0 with hh1
  have hm1 : ∀ w, ¬headerWord b.addr w → h1.mem w = h.mem w := fun w hw => write_mem h b h.heap_tail 0 hw
  have hb1 : Hdr h1 b h.heap_tail 0 := hdr_write h b h.heap_tail 0
  have htail1 : h1.heap_tail = h.heap_tail := rfl
  rcases eq_nil_or_concat bs with rfl | ⟨xs, a, rfl⟩
  · -- the first block of the heap
    have hzero : h.heap_tail = 0 := hr.tail
    have heq : appendBlock h b.addr b.size b.flag = (h1.setHead b.addr).setTail b.addr := by
      change (if h1.heap_tail = 0 then h1.setHead b.addr else h1.setNext h1.heap_tail b.addr).setTail b.addr = _
      rw [htail1, hzero, if_pos rfl]
    rw [heq]
    rw [hzero] at hb1
    exact ⟨⟨hb1, trivial⟩, rfl, rfl⟩
  · -- `a` was the last block
    rw [concat_eq_append] at hr hsep ⊢
    have htail : h.heap_tail = a.addr := hr.tail.trans (lastAddr_append 0 xs [a])
    rw [append_assoc] at hsep
    obtain ⟨hax, hab, hxb⟩ := hsep.mid
    have hab' : Apart a b := hab b mem_cons_self
    have hne : a.addr ≠ 0 := hsep.ne_zero a (by simp)
    obtain ⟨hxs, ha, -⟩ := seg_mid.mp hr.seg
    have hxs1 : Seg h1 0 xs a.addr := hxs.congr fun x hx w hw => hm1 w (hxb x hx b mem_cons_self w hw)
    have ha1 : Hdr h1 a (lastAddr 0 xs) 0 := ha.congr fun w hw => hm1 w (hab' w hw)
    have heq : appendBlock h b.addr b.size b.flag = (h1.setNext a.addr b.addr).setTail b.addr := by
      change (if h1.heap_tail = 0 then h1.setHead b.addr else h1.setNext h1.heap_tail b.addr).setTail b.addr = _
      rw [htail1, htail, if_neg hne]
    have hwa : headerWord a.addr (a.addr + 4) := .inr (.inl rfl)
    rw [htail] at hb1
    rw [heq, append_assoc]
    refine ⟨?_, ?_, ?_⟩
    · have hseg : Seg (h1.setNext a.addr b.addr) 0 (xs ++ a :: [b]) 0 := by
        refine seg_mid.mpr ⟨?_, Hdr.setNext ha1 b.addr, ?_, trivial⟩
        · exact Seg.store hxs1 fun x hx => hax x hx _ hwa
        · exact Hdr.store hb1 (hab' _ hwa)
      exact hseg.congr fun _ _ _ _ => rfl
    · change h.heap_head = _
      rw [hr.head, firstAddr_append, firstAddr_append]
      rfl
    · rw [lastAddr_append]
      rfl

theorem repr_absorbNext (hr : Repr h (xs ++ a :: b :: ys)) (hsep : Sep (xs ++ a :: b :: ys)) :
    Repr (absorbNext h a.addr b.addr) (xs ++ { a with size := a.size + (HEADER + b.size) } :: ys) := by
  set a' : Block := { a with size := a.size + (HEADER + b.size) } with ha'
  obtain ⟨hax, -, -⟩ := hsep.mid
  obtain ⟨hab, hay, hby, -, hxy, hsepy⟩ := hsep.two
  obtain ⟨hxs, ha, hb, hys⟩ := seg_mid.mp hr.seg
  -- `a` takes the size and the successor of `b`
  set h2 := (h.setSize a.addr (a.size + (HEADER + b.size))).setNext a.addr (firstAddr ys 0) with hh2
  have hm2 : ∀ w, ¬headerWord a.addr w → h2.mem w = h.mem w := by
    intro w hw
    have h0 : w ≠ a.addr := fun he => hw (.inl he)
    have h4 : w ≠ a.addr + 4 := fun he => hw (.inr (.inl he))
    simp only [hh2, Heap.setNext, Heap.setSize, store_mem, if_neg h0, if_neg h4]
  have hxs2 : Seg h2 0 xs a.addr := hxs.congr fun x hx w hw => hm2 w fun hwa => hax x hx w hwa hw
  have ha2 : Hdr h2 a' (lastAddr 0 xs) (firstAddr ys 0) := (ha.setSize _).setNext _
  have hb2 : Hdr h2 b a.addr (firstAddr ys 0) := Hdr.congr hb fun w hw => hm2 w fun hwa => hab w hwa hw
  have hys2 : Seg h2 b.addr ys 0 := hys.congr fun y hy w hw => hm2 w fun hwa => hay y hy w hwa hw
  -- the block behind `b` gets `a` as its predecessor
  set h3 := h2.setPrevIf (firstAddr ys 0) a.addr with hh3
  have hm3 : ∀ w, (∀ y ∈ ys, ¬headerWord y.addr w) → h3.mem w = h2.mem w := fun w hw => setPrevIf_mem hsepy a.addr hw
  have hseg3 : Seg h3 0 (xs ++ a' :: ys) 0 := by
    refine seg_mid.mpr ⟨?_, ?_, hys2.setPrevIf hsepy a.addr⟩
    · exact hxs2.congr fun x hx w hw => hm3 w fun y hy => hxy x hx y hy w hw
    · exact ha2.congr fun w hw => hm3 w fun y hy => hay y hy w hw
  have heq : absorbNext h a.addr b.addr = h3.moveTail b.addr a.addr := by
    have hsz : h.size a.addr + (HEADER + h.size b.addr) = a.size + (HEADER + b.size) := by
      rw [ha.1, hb.1]
    have hnext1 : (h.setSize a.addr (a.size + (HEADER + b.size))).next b.addr = firstAddr ys 0 := by
      refine Eq.trans ((store_mem ..).trans (if_neg ?_)) hb.2.2.2
      exact fun he => hab a.addr (.inl rfl) (.inr (.inl he.symm))
    have hnext2 : h2.next b.addr = firstAddr ys 0 := hb2.2.2.2
    unfold absorbNext
    simp only [hsz, hnext1, ← hh2, hnext2, ← hh3]
  have htail3 : h3.heap_tail = lastAddr b.addr ys := by
    rw [hh3, setPrevIf_tail]
    exact hr.tail.trans (lastAddr_append 0 xs (a :: b :: ys))
  rw [heq]
  refine repr_moveTail hseg3 ?_ htail3 hby fun _ => rfl
  rw [hh3, setPrevIf_head]
  exact hr.head.trans (firstAddr_append ..)

end Orion.Mem
