import Orion.Mem.Proofs.FitProofs
import Orion.Mem.Run

/-!
# Growing the heap

`allocate_new_block` commits pages, puts the bytes in front of an aligned header into a free block, into a free tail
or nowhere, and appends the new block.
-/

namespace Orion.Mem

open Lib List

variable {h : Heap} {a b : Block} {bs : List Block} {size align : UInt32} {last header gap : UInt32} {base curr : Nat}

theorem commitLoop_ends (grant : UInt32 → Bool) (hlast : PAGE_SIZE.toNat ∣ last.toNat)
    {n : Nat} {addr : UInt32} (haddr : PAGE_SIZE.toNat ∣ addr.toNat)
    (hn : last.toNat - addr.toNat < n) : ∃ ok, commitLoop grant last n addr = some ok := by
  have hpage : PAGE_SIZE.toNat = 4096 := rfl
  rw [hpage] at hlast
  induction n generalizing addr with
  | zero => omega
  | succ n ih =>
    rw [hpage] at haddr
    unfold commitLoop
    split
    · rename_i hlt
      rw [UInt32.lt_iff_toNat_lt] at hlt
      have hle := last.toNat_lt
      have hnext : (addr + PAGE_SIZE).toNat = addr.toNat + 4096 := by
        rw [UInt32.toNat_add, hpage, Nat.mod_eq_of_lt (by omega)]
      split
      · exact ih (by rw [hpage, hnext]; omega) (by rw [hnext]; omega)
      · exact ⟨false, rfl⟩
    · exact ⟨true, rfl⟩

theorem heap_commit_to_spec (hw : Wf h bs) (grant : UInt32 → Bool) (need_end : UInt32) :
    ∃ ok e, heap_commit_to h grant need_end = some (ok, h.setCommitEnd e) ∧ PAGE_SIZE.toNat ∣ e.toNat := by
  have hdvd : PAGE_SIZE.toNat ∣ (alignUp need_end PAGE_SIZE).toNat := dvd_alignUp (k := 12) rfl need_end
  unfold heap_commit_to
  dsimp only
  split
  · exact ⟨true, h.heap_commit_end, rfl, hw.commit_dvd⟩
  obtain ⟨ok, hok⟩ := commitLoop_ends grant hdvd hw.commit_dvd (n := (alignUp need_end PAGE_SIZE).toNat + 1) (by omega)
  rw [hok]
  cases ok with
  | true => exact ⟨true, _, rfl, hdvd⟩
  | false => exact ⟨false, h.heap_commit_end, rfl, hw.commit_dvd⟩

theorem wf_setCommitEnd (hw : Wf h bs) {e : UInt32} (he : PAGE_SIZE.toNat ∣ e.toNat) : Wf (h.setCommitEnd e) bs :=
  ⟨⟨hw.repr.seg.congr fun _ _ _ _ => rfl, hw.repr.head, hw.repr.tail⟩, hw.layout, hw.base_pos,
    hw.base_le, hw.curr_le, hw.curr_dvd, he, hw.room⟩

theorem Layout.extend {curr' : Nat} (hl : Layout base curr bs) (hle : curr ≤ curr') : Layout base curr' bs :=
  ⟨hl.sorted, hl.base_le, fun b hb => (hl.last_le b hb).trans hle, hl.addr_dvd, hl.size_dvd⟩

theorem Layout.append (hl : Layout base curr bs) (hbase : base ≤ curr)
    (hb : curr ≤ b.addr.toNat) (haddr : 4 ∣ b.addr.toNat) (hsize : 4 ∣ b.size.toNat) :
    Layout base b.last (bs ++ [b]) := by
  have hspan : b.addr.toNat ≤ b.last := by
    unfold Block.last
    omega
  have hgrown := hl.extend (hb.trans hspan)
  have hsingle := layout_single haddr hsize
  have hreplace := Layout.replace hgrown (hgrown.sublist (nil_sublist bs))
    ⟨hbase.trans hb, le_rfl, fun x hx => (hl.last_le x hx).trans hb, fun y hy => by cases hy⟩
    hsingle hspan
  simpa using hreplace

/-- What `fillGap` leaves behind: the list ends below the header, and no block in use was lost. -/
structure Filled (h : Heap) (bs : List Block) (header : UInt32) (h' : Heap) (bs' : List Block) :
    Prop where
  repr : Repr h' bs'
  bounds : SameBounds h h'
  layout : Layout h.heap_base.toNat header.toNat bs'
  keeps : ∀ b ∈ bs, b.free = false → b ∈ bs'

theorem filled_append (hw : Wf h bs) (hd : 4 ∣ header.toNat)
    (hgap : gap.toNat = header.toNat - h.heap_curr.toNat) (hmin : 24 ≤ gap.toNat) :
    ∃ bs', Filled h bs header (appendBlock h h.heap_curr (gap - HEADER) 1) bs' := by
  have h16 : HEADER.toNat = 16 := rfl
  have hcd := hw.curr_dvd
  have hsub : (gap - HEADER).toNat = gap.toNat - 16 :=
    UInt32.toNat_sub_of_le gap HEADER (by rw [UInt32.le_iff_toNat_le, h16]; omega)
  obtain ⟨g, hg⟩ : ∃ g : Block, g = ⟨h.heap_curr, gap - HEADER, true⟩ := ⟨_, rfl⟩
  have haddr : g.addr = h.heap_curr := by rw [hg]
  have hsize : g.size = gap - HEADER := by rw [hg]
  have hflag : g.flag = 1 := by rw [hg]; rfl
  have hlast : g.last = header.toNat := by
    unfold Block.last
    rw [haddr, hsize, hsub]
    omega
  have hl := hw.layout.append (b := g) hw.base_le (by rw [haddr]) (by rw [haddr]; exact hcd)
    (by rw [hsize, hsub]; omega)
  rw [hlast] at hl
  have hsep : Sep (bs ++ [g]) := hl.sep hw.base_pos header.toNat_lt.le
  have hr := repr_appendBlock hw.repr hsep
  rw [haddr, hsize, hflag] at hr
  exact ⟨bs ++ [g], hr, sameBounds_appendBlock _ _ _ _, hl, fun b hb _ => mem_append_left _ hb⟩

/-- The gap goes to the last block, which is free and ends at `heap_curr`. -/
theorem filled_tail {xs : List Block} (hw : Wf h (xs ++ [a]))
    (hd : 4 ∣ header.toNat) (hgap : gap.toNat = header.toNat - h.heap_curr.toNat)
    (hge : h.heap_curr.toNat ≤ header.toNat) (hfree : a.free = true) (hadj : a.last = h.heap_curr.toNat) :
    ∃ bs', Filled h (xs ++ [a]) header (h.setSize a.addr (a.size + gap)) bs' := by
  have hmem : a ∈ xs ++ [a] := by simp
  have hcd := hw.curr_dvd
  have hlt := header.toNat_lt
  have hlast : a.addr.toNat + 16 + a.size.toNat = h.heap_curr.toNat := hadj
  have hsize : (a.size + gap).toNat = a.size.toNat + gap.toNat := by
    rw [UInt32.toNat_add, Nat.mod_eq_of_lt (by omega)]
  obtain ⟨c, hc⟩ : ∃ c : Block, c = { a with size := a.size + gap } := ⟨_, rfl⟩
  have haddr : c.addr = a.addr := by rw [hc]
  have hclast : c.last = header.toNat := by
    unfold Block.last
    rw [haddr, hc]
    change _ + 16 + (a.size + gap).toNat = _
    omega
  have hr := repr_setSize hw.repr hw.sep (a.size + gap)
  rw [← hc] at hr
  have hxs := hw.layout.sublist (sublist_append_left xs [a])
  have hfit := hw.layout.fits
  have hsd := hw.layout.size_dvd a hmem
  have hfit' : Fits h.heap_base.toNat header.toNat xs c.addr.toNat c.last [] :=
    ⟨haddr ▸ hfit.base_le, hclast.le, haddr ▸ hfit.before, fun y hy => by cases hy⟩
  have hl := (hxs.extend hge).replace ((hxs.extend hge).sublist (nil_sublist xs)) hfit'
    (layout_single (haddr ▸ hw.layout.addr_dvd a hmem) (by
      rw [hc]
      change 4 ∣ (a.size + gap).toNat
      omega))
    (by unfold Block.last; omega)
  refine ⟨xs ++ [c], hr, sameBounds_setSize _ _ _, by simpa using hl, fun b hb hused => ?_⟩
  rcases mem_append.mp hb with hb | hb
  · exact mem_append_left _ hb
  · obtain rfl := mem_singleton.mp hb
    rw [hfree] at hused
    cases hused

theorem filled_none (hw : Wf h bs) (hge : h.heap_curr.toNat ≤ header.toNat) : ∃ bs', Filled h bs header h bs' :=
  ⟨bs, hw.repr, ⟨rfl, rfl, rfl, rfl⟩, hw.layout.extend hge, fun _ hb _ => hb⟩

theorem free_tail {start : UInt32} (hw : Wf h bs)
    (htail : (h.heap_tail ≠ 0 && h.free h.heap_tail ≠ 0 && blocks_adjacent h h.heap_tail start) = true) :
    ∃ xs, ∃ a : Block, bs = xs ++ [a] ∧ h.heap_tail = a.addr ∧ h.size a.addr = a.size ∧
      a.free = true ∧ a.last = start.toNat := by
  simp only [Bool.and_eq_true, decide_eq_true_eq] at htail
  obtain ⟨⟨hne, hflag⟩, hadj⟩ := htail
  rcases eq_nil_or_concat bs with rfl | ⟨xs, a, rfl⟩
  · exact absurd hw.repr.tail hne
  rw [concat_eq_append] at hw ⊢
  have htl : h.heap_tail = a.addr := hw.repr.tail.trans (lastAddr_append 0 xs [a])
  rw [htl] at hflag hadj
  obtain ⟨hsz, hfl, -⟩ := (seg_mid.mp hw.repr.seg).2.1
  have hfree : a.free = true := by
    by_contra hused
    rw [hfl, Block.flag, if_neg hused] at hflag
    exact hflag rfl
  have hend : block_end h a.addr = start := of_decide_eq_true hadj
  refine ⟨xs, a, rfl, htl, hsz, hfree, ?_⟩
  rw [← hend, hw.toNat_block_end (by simp) hsz]

theorem fillGap_spec (hw : Wf h bs) (hd : 4 ∣ header.toNat) (hge : h.heap_curr.toNat ≤ header.toNat) :
    ∃ bs', Filled h bs header (fillGap h h.heap_curr header) bs' := by
  have hgap : (header - h.heap_curr).toNat = header.toNat - h.heap_curr.toNat :=
    UInt32.toNat_sub_of_le _ _ (by rw [UInt32.le_iff_toNat_le]; exact hge)
  unfold fillGap
  dsimp only
  split
  · split
    · rename_i hmin
      rw [ge_iff_le, UInt32.le_iff_toNat_le] at hmin
      exact filled_append hw hd hgap hmin
    · split
      · rename_i htail
        obtain ⟨xs, a, rfl, htl, hsz, hfree, hadj⟩ := free_tail hw htail
        rw [htl, hsz]
        exact filled_tail hw hd hgap hge hfree hadj
      · exact filled_none hw hge
  · exact filled_none hw hge

theorem wf_new_block (hw : Wf h bs) {h' : Heap} {bs' : List Block}
    (hf : Filled h bs header h' bs') (hge : h.heap_curr.toNat ≤ header.toNat)
    (hd : 4 ∣ header.toNat) (hsd : 4 ∣ size.toNat)
    (hlast : last.toNat = header.toNat + 16 + size.toNat) (hend : last.toNat ≤ h.heap_end.toNat) :
    Wf ((appendBlock h' header size 0).setCurr last) (bs' ++ [⟨header, size, false⟩]) := by
  obtain ⟨c, hc⟩ : ∃ c : Block, c = ⟨header, size, false⟩ := ⟨_, rfl⟩
  have haddr : c.addr = header := by rw [hc]
  have hsize : c.size = size := by rw [hc]
  have hflag : c.flag = 0 := by rw [hc]; rfl
  have hclast : c.last = last.toNat := by
    rw [hlast, Block.last, haddr, hsize]
  have hbase := hw.base_le
  have hl := hf.layout.append (b := c) (hbase.trans hge) (by rw [haddr]) (by rw [haddr]; exact hd)
    (by rw [hsize]; exact hsd)
  rw [hclast] at hl
  have hr := repr_appendBlock hf.repr (hl.sep hw.base_pos last.toNat_lt.le)
  rw [haddr, hsize, hflag] at hr
  obtain ⟨hb, -, he, hce⟩ := hf.bounds.trans (sameBounds_appendBlock h' header size 0)
  rw [← hc]
  generalize appendBlock h' header size 0 = h2 at hr hb he hce ⊢
  refine ⟨⟨hr.seg.congr fun _ _ _ _ => rfl, hr.head, hr.tail⟩, ?_, ?_, ?_, ?_, ?_, ?_, ?_⟩
  · change Layout h2.heap_base.toNat last.toNat _
    rw [hb]
    exact hl
  · change 0 < h2.heap_base.toNat
    rw [hb]
    exact hw.base_pos
  · change h2.heap_base.toNat ≤ last.toNat
    rw [hb]
    omega
  · change last.toNat ≤ h2.heap_end.toNat
    rw [he]
    exact hend
  · change 4 ∣ last.toNat
    omega
  · change PAGE_SIZE.toNat ∣ h2.heap_commit_end.toNat
    rw [hce]
    exact hw.commit_dvd
  · change h2.heap_end.toNat + 2 * (h2.heap_end.toNat - h2.heap_base.toNat) + 32 ≤ 2 ^ 32
    rw [hb, he]
    exact hw.room

/-- The answer `p` to a request: null, with the blocks unchanged, or the payload of a block handed out for it. -/
structure Answered (h : Heap) (bs : List Block) (size align p : UInt32) (h' : Heap) (bs' : List Block) : Prop where
  wf : Wf h' bs'
  bounds : h'.heap_base = h.heap_base ∧ h'.heap_end = h.heap_end ∧ h.heap_curr.toNat ≤ h'.heap_curr.toNat
  result : (p = 0 ∧ bs' = bs) ∨ ∃ c, HandsOut bs c bs' ∧ p = c.addr + HEADER ∧
    size.toNat ≤ c.size.toNat ∧ (align ≠ 0 → align.toNat ∣ p.toNat)

theorem allocate_new_block_spec (hw : Wf h bs) (grant : UInt32 → Bool) (hn : Normal align)
    (hc : h.heap_end.toNat + size.toNat + align.toNat + 28 ≤ 2 ^ 32) (hsd : 4 ∣ size.toNat) :
    ∃ p h' bs', allocate_new_block h grant size align = some (p, h') ∧ Answered h bs size align p h' bs' := by
  have hcurr := hw.curr_le
  obtain ⟨hge, hle, hdvd, hal, hhdr⟩ := alignedPayload_spec h.heap_curr hn hw.curr_dvd (by omega)
  unfold alignedPayload at hge hle hdvd hal hhdr
  unfold allocate_new_block
  dsimp only
  generalize (if align = 0 then h.heap_curr + HEADER else align_up (h.heap_curr + HEADER) align) = q
    at hge hle hdvd hal hhdr ⊢
  have hpay : q - HEADER + HEADER = q := by grind
  rw [hpay]
  have hlast : (q + size).toNat = (q - HEADER).toNat + 16 + size.toNat := by
    rw [UInt32.toNat_add, Nat.mod_eq_of_lt (by omega)]
    omega
  split
  · exact ⟨0, h, bs, rfl, hw, ⟨rfl, rfl, le_rfl⟩, .inl ⟨rfl, rfl⟩⟩
  rename_i hend
  rw [gt_iff_lt, UInt32.lt_iff_toNat_lt, not_lt] at hend
  obtain ⟨ok, e, hcommit, he⟩ := heap_commit_to_spec hw grant (q + size)
  have hw1 := wf_setCommitEnd hw he
  rw [hcommit]
  rcases ok with _ | _
  · exact ⟨0, _, bs, rfl, hw1, ⟨rfl, rfl, le_rfl⟩, .inl ⟨rfl, rfl⟩⟩
  obtain ⟨bs1, hf⟩ := fillGap_spec hw1 (show 4 ∣ (q - HEADER).toNat by omega) (by
    change h.heap_curr.toNat ≤ _
    omega)
  have hw2 := wf_new_block hw1 hf (by change h.heap_curr.toNat ≤ _; omega) (by omega) hsd hlast hend
  obtain ⟨hb, -, he, -⟩ := hf.bounds.trans (sameBounds_appendBlock _ (q - HEADER) size 0)
  refine ⟨q, _, _, rfl, hw2, ⟨hb, he, show h.heap_curr.toNat ≤ (q + size).toNat by omega⟩, .inr ⟨_, ⟨rfl, bs1, [], rfl, fun b hb hused => ?_⟩, hpay.symm, le_rfl, hal⟩⟩
  rw [append_nil]
  exact hf.keeps b hb hused

/-- A request that makes no address wrap returns, with its size and alignment rounded up. -/
theorem kmalloc_internal_spec (hw : Wf h bs) (grant : UInt32 → Bool) (hreq : NoWrap h size align) :
    ∃ p h' bs' q, kmalloc_internal h grant size align = some (p, h') ∧
      normalize_align align = some q ∧ Answered h bs (ALIGN4 size) q p h' bs' := by
  unfold NoWrap at hreq
  obtain ⟨q, hq, hn, hle, -, -⟩ := normalize_align_spec (show align.toNat ≤ 2 ^ 31 by omega)
  obtain ⟨hd, -, hsize⟩ := ALIGN4_spec (show size.toNat + 4 ≤ 2 ^ 32 by omega)
  unfold kmalloc_internal
  split
  · exact ⟨0, h, bs, q, rfl, hq, hw, ⟨rfl, rfl, le_rfl⟩, .inl ⟨rfl, rfl⟩⟩
  have hc : h.heap_end.toNat + (ALIGN4 size).toNat + q.toNat + 28 ≤ 2 ^ 32 := by omega
  obtain ⟨r, hr, hfound⟩ := find_free_block_spec hw (ALIGN4 size) q
  dsimp only
  rw [hq, Option.bind_eq_bind, Option.bind_some, hr]
  rcases r with _ | found
  · obtain ⟨p, h', bs', hnew, ha⟩ := allocate_new_block_spec hw grant hn hc hd
    exact ⟨p, h', bs', q, hnew, rfl, ha⟩
  obtain ⟨cur, header⟩ := found
  obtain ⟨us, vs, b, rfl, rfl, hfree, hfit⟩ := hfound cur header rfl
  have hsz : h.size b.addr = b.size := (seg_mid.mp hw.repr.seg).2.1.1
  have hfits := block_can_fit_spec hw (by simp) hsz hn hc hfit
  obtain ⟨bs', c, hwf, hout, haddr, hcsize⟩ := wf_allocate_from_block hw hfree hfits hd
  have hmem : c ∈ bs' := by
    obtain ⟨-, us', vs', rfl, -⟩ := hout
    simp
  have hpay : (header + HEADER).toNat = header.toNat + 16 := by
    have hbound := hwf.last_lt hmem
    unfold Block.last at hbound
    rw [UInt32.toNat_add, ← haddr]
    change (c.addr.toNat + 16) % 2 ^ 32 = _
    omega
  obtain ⟨hb, hcurr, he, -⟩ := sameBounds_allocate_from_block h b.addr header (ALIGN4 size)
  refine ⟨_, _, bs', q, rfl, rfl, hwf, ⟨hb, he, (congrArg UInt32.toNat hcurr).ge⟩, .inr ⟨c, hout, by rw [haddr], hcsize, fun hz => ?_⟩⟩
  rw [hpay]
  exact hfits.aligned hz

end Orion.Mem
