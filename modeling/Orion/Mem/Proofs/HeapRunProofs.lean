import Orion.Mem.Run
import Orion.Mem.Proofs.FreeProofs

/-!
# The heap stays well formed

Every live pointer belongs to a block in use, and different live pointers to different blocks. Each
operation keeps that, so every run does.
-/

namespace Orion.Mem

open List

variable {s : Sys} {h : Heap} {a b : Block} {bs : List Block} {l m : Live} {size align : UInt32}
  {c : Block} {addr : UInt32} {op : Op}

theorem Repr.prev_next (hr : Repr h bs) (hb : b ∈ bs) (hne : h.next b.addr ≠ 0) : h.prev (h.next b.addr) = b.addr := by
  obtain ⟨xs, ys, rfl⟩ := append_of_mem hb
  obtain ⟨-, ⟨-, -, -, hnext⟩, hys⟩ := seg_mid.mp hr.seg
  rw [hnext] at hne ⊢
  cases ys with
  | nil => exact absurd rfl hne
  | cons c ys => exact hys.1.2.2.1

theorem Repr.next_prev (hr : Repr h bs) (hb : b ∈ bs) (hne : h.prev b.addr ≠ 0) : h.next (h.prev b.addr) = b.addr := by
  obtain ⟨xs, ys, rfl⟩ := append_of_mem hb
  obtain ⟨hxs, ⟨-, -, hprev, -⟩, -⟩ := seg_mid.mp hr.seg
  rw [hprev] at hne ⊢
  rcases eq_nil_or_concat xs with rfl | ⟨xs, c, rfl⟩
  · exact absurd rfl hne
  · rw [concat_eq_append] at hxs ⊢
    rw [lastAddr_append]
    exact (seg_mid.mp hxs).2.1.2.2.2

theorem Wf.listOk (hw : Wf h bs) : ListOk h bs where
  repr := hw.repr
  prev_next _ hb hne := hw.repr.prev_next hb hne
  next_prev _ hb hne := hw.repr.next_prev hb hne
  sorted := hw.layout.sorted.imp fun {a b} hab => by
    rw [UInt32.lt_iff_toNat_lt]
    unfold Block.last at hab
    omega
  disjoint := hw.layout.sorted
  inside b hb := ⟨hw.layout.base_le b hb, hw.layout.last_le b hb⟩
  curr_le := by
    rw [UInt32.le_iff_toNat_le]
    exact hw.curr_le

theorem Layout.disjoint {base curr : Nat} (hl : Layout base curr bs) (ha : a ∈ bs) (hb : b ∈ bs)
    (hne : a.addr ≠ b.addr) : a.last ≤ b.addr.toNat ∨ b.last ≤ a.addr.toNat := by
  obtain ⟨xs, ys, rfl⟩ := append_of_mem ha
  have hfit := hl.fits
  rcases mem_append.mp hb with hb | hb
  · exact .inr (hfit.before b hb)
  · rcases mem_cons.mp hb with rfl | hb
    · exact absurd rfl hne
    · exact .inl (hfit.after b hb)

/-- The heap stands for `bs`, and its blocks in use serve the live pointers, each its own. -/
structure Inv (s : Sys) (bs : List Block) : Prop where
  wf : Wf s.heap bs
  serves : ∀ l ∈ s.live, ∃ b, Serves bs l b
  distinct : s.live.Pairwise fun l m => l.ptr ≠ m.ptr

theorem Serves.addr_ne (hl : Serves bs l b) (hm : Serves bs m c) (hne : l.ptr ≠ m.ptr) : b.addr ≠ c.addr := by
  intro heq
  apply hne
  apply UInt32.toNat_inj.mp
  rw [hl.ptr, hm.ptr, heq]

theorem Inv.wellFormed (hi : Inv s bs) : WellFormed s := by
  refine ⟨bs, hi.wf.listOk, hi.serves, ?_⟩
  refine hi.distinct.imp_of_mem fun {l m} hl hm hne => ?_
  obtain ⟨b, hb⟩ := hi.serves l hl
  obtain ⟨c, hc⟩ := hi.serves m hm
  have hbs := hb.size
  have hcs := hc.size
  have hdisj := hi.wf.layout.disjoint hb.mem hc.mem (hb.addr_ne hc hne)
  unfold Block.last at hdisj
  unfold PayloadsDisjoint
  rw [hb.ptr, hc.ptr]
  omega

theorem alignedAs_of_normalize {q p : UInt32} (halign : align.toNat ≤ 2 ^ 31)
    (hq : normalize_align align = some q) (hfour : 4 ∣ p.toNat) (hdvd : q ≠ 0 → q.toNat ∣ p.toNat) :
    AlignedAs align p := by
  obtain ⟨r, hr, hn, -, hge, hpow⟩ := normalize_align_spec halign
  obtain rfl : q = r := Option.some.inj (hq.symm.trans hr)
  by_cases h2 : 2 ≤ align.toNat
  · have hq2 := hge h2
    have hz : q ≠ 0 := by
      rintro rfl
      change _ ≤ 0 at hq2
      omega
    obtain ⟨k, -, hk⟩ := hn.resolve_left hz
    refine ⟨hfour, ⟨k, ?_, ?_⟩, fun j hj => (hpow j h2 hj).trans (hdvd hz)⟩
    · rw [← hk]; exact hq2
    · rw [← hk]; exact hdvd hz
  · refine ⟨hfour, ⟨2, by omega, hfour⟩, fun k hk => ?_⟩
    have hone : align.toNat = 1 := by
      have := Nat.two_pow_pos k
      omega
    rw [hone]
    exact one_dvd _

theorem Inv.handsOut {bs' : List Block} {h' : Heap} (hi : Inv s bs) (hw : Wf h' bs')
    (hout : HandsOut bs c bs') (hl : l.ptr = c.addr + HEADER) (hsize : l.size.toNat ≤ c.size.toNat)
    (hal : AlignedAs l.align l.ptr) : Inv ⟨h', l :: s.live⟩ bs' := by
  obtain ⟨hused, us, vs, rfl, hkeep⟩ := hout
  have hkept : ∀ m ∈ s.live, ∃ b, Serves (us ++ c :: vs) m b ∧ b ∈ us ++ vs := by
    intro m hm
    obtain ⟨b, hb⟩ := hi.serves m hm
    have hin := hkeep b hb.mem hb.used
    refine ⟨b, ⟨?_, hb.used, hb.ptr, hb.size, hb.aligned⟩, hin⟩
    simp only [mem_append, mem_cons] at hin ⊢
    tauto
  have hptr := (hw.payload (a := c) (by simp)).1
  have hserves : Serves (us ++ c :: vs) l c :=
    ⟨by simp, hused, by rw [hl]; exact hptr, hsize, hal⟩
  refine ⟨hw, ?_, pairwise_cons.mpr ⟨fun m hm heq => ?_, hi.distinct⟩⟩
  · intro m hm
    rcases mem_cons.mp hm with rfl | hm
    · exact ⟨c, hserves⟩
    · obtain ⟨b, hb, -⟩ := hkept m hm
      exact ⟨b, hb⟩
  · -- the block of `m` stands before or behind `c`, so it has another address
    obtain ⟨b, hb, hin⟩ := hkept m hm
    have haddr : b.addr = c.addr := by
      apply UInt32.toNat_inj.mp
      have h1 := hb.ptr
      have h2 := hserves.ptr
      rw [heq] at h2
      omega
    have hfit := hw.layout.fits
    have hcl : c.addr.toNat < c.last := by unfold Block.last; omega
    have hbl : b.addr.toNat < b.last := by unfold Block.last; omega
    rcases mem_append.mp hin with hin | hin
    · have := hfit.before b hin
      rw [haddr] at hbl
      omega
    · have := hfit.after b hin
      rw [haddr] at this
      omega

theorem Wf.last_le_next {us vs : List Block} (hw : Wf h (us ++ c :: vs))
    (hne : h.next c.addr ≠ 0) : c.last ≤ (h.next c.addr).toNat := by
  have hnext : h.next c.addr = firstAddr vs 0 := (seg_mid.mp hw.repr.seg).2.1.2.2.2
  rw [hnext] at hne ⊢
  cases vs with
  | nil => exact absurd rfl hne
  | cons v vs => exact hw.layout.fits.after v mem_cons_self

section

variable (hi : Inv s bs)

include hi

theorem inv_request (grant : UInt32 → Bool) (hreq : NoWrap s.heap size align) :
    ∃ r, kmalloc_internal s.heap grant size align = some r ∧ HasMemory s.heap size r ∧
      ∃ bs', Inv (s.record size align r) bs' := by
  obtain ⟨p, h', bs', q, hcall, hq, hw, ⟨hbase, hend, hcurr⟩, hres⟩ := kmalloc_internal_spec hi.wf grant hreq
  unfold NoWrap at hreq
  unfold Sys.record
  rcases hres with ⟨rfl, rfl⟩ | ⟨c, hout, hp, hsize, hal⟩
  · refine ⟨(0, h'), hcall, ⟨.inl rfl, hcurr⟩, bs', ?_⟩
    rw [if_pos rfl]
    exact ⟨hw, hi.serves, hi.distinct⟩
  · obtain ⟨hused, us, vs, rfl, hkeep⟩ := hout
    have hmem : c ∈ us ++ c :: vs := by simp
    obtain ⟨hnat, hne, -⟩ := hw.payload hmem
    have hround := (ALIGN4_spec (show size.toNat + 4 ≤ 2 ^ 32 by omega)).2.1
    have hlast : p.toNat + size.toNat ≤ c.last := by
      rw [hp, hnat, Block.last]
      omega
    refine ⟨(p, h'), hcall, ⟨.inr ⟨?_, ?_, ?_⟩, hcurr⟩, us ++ c :: vs, ?_⟩
    · have := hw.layout.base_le c hmem
      rw [hbase] at this
      rw [hp, hnat]
      omega
    · have hinside := hw.layout.last_le c hmem
      have htop := hw.curr_le
      rw [hend] at htop
      exact (hlast.trans hinside).trans htop
    · have haddr : p - HEADER = c.addr := by rw [hp, UInt32.add_sub_cancel]
      rw [haddr]
      exact fun hne => hlast.trans (hw.last_le_next hne)
    · have hfour : 4 ∣ p.toNat := by
        have := hw.layout.addr_dvd c hmem
        rw [hp, hnat]
        omega
      rw [if_neg (by rw [hp]; exact hne)]
      refine hi.handsOut hw ⟨hused, us, vs, rfl, hkeep⟩ hp (hround.trans hsize) ?_
      exact alignedAs_of_normalize (show align.toNat ≤ 2 ^ 31 by omega) hq hfour hal

theorem inv_free (hl : l ∈ s.live) : ∃ bs', Inv ⟨kfree s.heap l.ptr, s.live.filter fun m => m.ptr ≠ l.ptr⟩ bs' := by
  obtain ⟨b, hb⟩ := hi.serves l hl
  have hptr : l.ptr = b.addr + HEADER := by
    apply UInt32.toNat_inj.mp
    rw [hb.ptr, (hi.wf.payload hb.mem).1]
  obtain ⟨xs, ys, rfl⟩ := append_of_mem hb.mem
  obtain ⟨bs', hw, hkeep⟩ := wf_kfree hi.wf
  rw [← hptr] at hw
  refine ⟨bs', hw, fun m hm => ?_, hi.distinct.filter _⟩
  obtain ⟨hm, hne⟩ := mem_filter.mp hm
  obtain ⟨c, hc⟩ := hi.serves m hm
  have haddr := hc.addr_ne hb (of_decide_eq_true hne)
  refine ⟨c, hkeep c ?_ hc.used, hc.used, hc.ptr, hc.size, hc.aligned⟩
  rcases mem_append.mp hc.mem with h | h
  · exact mem_append_left _ h
  · rcases mem_cons.mp h with rfl | h
    · exact absurd rfl haddr
    · exact mem_append_right _ h

theorem inv_free_null : Inv ⟨kfree s.heap 0, s.live.filter fun m => m.ptr ≠ 0⟩ bs :=
  ⟨hi.wf, fun m hm => hi.serves m (mem_filter.mp hm).1, hi.distinct.filter _⟩

theorem Inv.not_header (hl : l ∈ s.live)
    (hlow : l.ptr.toNat ≤ addr.toNat) (hhigh : addr.toNat < l.ptr.toNat + l.size.toNat) (hb : b ∈ bs) :
    ¬headerWord b.addr addr := by
  obtain ⟨c, hc⟩ := hi.serves l hl
  have hsize := hc.size
  rw [hc.ptr] at hlow hhigh
  have hbound := hi.wf.last_lt hb
  have hrange : headerWord b.addr addr → b.addr.toNat ≤ addr.toNat ∧ addr.toNat < b.addr.toNat + 16 := by
    unfold Block.last at hbound
    rintro (rfl | rfl | rfl | rfl)
    · omega
    all_goals
      rw [UInt32.toNat_add, Nat.mod_eq_of_lt]
      all_goals
        simp only [UInt32.reduceToNat]
        omega
  intro hword
  obtain ⟨hge, hlt⟩ := hrange hword
  have hcl : c.last = c.addr.toNat + 16 + c.size.toNat := rfl
  have hbl : b.last = b.addr.toNat + 16 + b.size.toNat := rfl
  by_cases heq : b.addr = c.addr
  · rw [heq] at hlt
    omega
  · have hdisj := hi.wf.layout.disjoint hb hc.mem heq
    omega

theorem inv_clientWrite (hl : l ∈ s.live) (v : UInt32)
    (hlow : l.ptr.toNat ≤ addr.toNat) (hhigh : addr.toNat < l.ptr.toNat + l.size.toNat) :
    Inv ⟨s.heap.store addr v, s.live⟩ bs := by
  have hr : Repr (s.heap.store addr v) bs :=
    ⟨hi.wf.repr.seg.store fun b hb => hi.not_header hl hlow hhigh hb, hi.wf.repr.head,
      hi.wf.repr.tail⟩
  exact ⟨hi.wf.edit ⟨rfl, rfl, rfl, rfl⟩ hr hi.wf.layout, hi.serves, hi.distinct⟩

end

theorem within_of_allowed (hw : Wf s.heap bs) (hop : Allowed s op) : Within s op := by
  have hroom := hw.room
  cases op with
  | kmalloc size align grant =>
    have hreq : size.toNat + (useAlign align).toNat ≤ span s.heap := hop
    unfold span at hreq
    show NoWrap s.heap size (useAlign align)
    unfold NoWrap
    omega
  | kmallocAligned size align grant =>
    have hreq : size.toNat + align.toNat ≤ span s.heap := hop
    unfold span at hreq
    show NoWrap s.heap size align
    unfold NoWrap
    omega
  | kfree ptr => exact hop
  | clientWrite addr value => exact hop

theorem inv_step (hi : Inv s bs) (hop : Within s op) : ∃ s' bs', step s op = some s' ∧ Inv s' bs' := by
  cases op with
  | kmalloc size align grant =>
    have hreq : NoWrap s.heap size (useAlign align) := hop
    obtain ⟨r, hr, -, bs', hi'⟩ := inv_request hi grant hreq
    refine ⟨_, bs', ?_, hi'⟩
    change (kmalloc_internal s.heap grant size (useAlign align)).map _ = _
    rw [hr]
    rfl
  | kmallocAligned size align grant =>
    obtain ⟨r, hr, -, bs', hi'⟩ := inv_request hi grant hop
    refine ⟨_, bs', ?_, hi'⟩
    change (kmalloc_internal s.heap grant size align).map _ = _
    rw [hr]
    rfl
  | kfree ptr =>
    rcases hop with rfl | ⟨l, hl, rfl⟩
    · exact ⟨_, bs, rfl, inv_free_null hi⟩
    · obtain ⟨bs', hi'⟩ := inv_free hi hl
      exact ⟨_, bs', rfl, hi'⟩
  | clientWrite addr value =>
    obtain ⟨-, l, hl, hlow, hhigh⟩ := hop
    exact ⟨_, bs, rfl, inv_clientWrite hi hl value hlow hhigh⟩

theorem inv_start (mem : UInt32 → UInt32) (grant : UInt32 → Bool) {heap_start heap_end_addr : UInt32}
    (hrange : RangeOk heap_start heap_end_addr) :
    ∃ s, start mem grant heap_start heap_end_addr = some s ∧ Inv s [] := by
  have hpage : PAGE_SIZE.toNat ∣ (initBase heap_start).toNat := by
    unfold initBase
    split
    · exact Lib.dvd_alignUp (k := 12) rfl heap_start
    · decide
  have hfour : 4 ∣ (initBase heap_start).toNat := dvd_trans (by decide) hpage
  obtain ⟨h0, hh0⟩ : ∃ h0 : Heap, h0 = ⟨mem, initBase heap_start, initBase heap_start,
      initBase heap_start, initEnd heap_start heap_end_addr, 0, 0⟩ := ⟨_, rfl⟩
  have hw : Wf h0 [] := by
    rw [hh0]
    exact ⟨⟨trivial, rfl, rfl⟩, ⟨List.Pairwise.nil, by simp, by simp, by simp, by simp⟩,
      hrange.base_pos, le_rfl, hrange.base_le, hfour, hpage, hrange.room⟩
  obtain ⟨ok, e, hcommit, he⟩ := heap_commit_to_spec hw grant (initBase heap_start + 1)
  refine ⟨⟨h0.setCommitEnd e, []⟩, ?_, wf_setCommitEnd hw he, by simp, List.Pairwise.nil⟩
  unfold start kmalloc_init
  dsimp only
  rw [← hh0, hcommit]
  rfl

/-- In every run whose requests are at most the heap's span and whose clients free and write only what they hold, every
call returns and every state is well formed. -/
theorem heap_wellFormed_throughout (mem : UInt32 → UInt32) (grant : UInt32 → Bool)
    {heap_start heap_end_addr : UInt32} (hrange : RangeOk heap_start heap_end_addr) (ops : List Op)
    (hallowed : Lib.EachStep next (fun s op => ∀ t ∈ s, Allowed t op)
      (start mem grant heap_start heap_end_addr) ops) :
    Lib.Throughout next (fun s => ∃ t ∈ s, WellFormed t)
      (start mem grant heap_start heap_end_addr) ops := by
  obtain ⟨s, hs, hi⟩ := inv_start mem grant hrange
  refine Lib.throughout_of_inv (J := fun s _ => ∃ t bs, s = some t ∧ Inv t bs) ?_ ?_
    ⟨s, [], hs, hi⟩ hallowed
  · rintro _ op _ ⟨t, bs, rfl, hi⟩ hop
    obtain ⟨t', bs', ht', hi'⟩ := inv_step hi (within_of_allowed hi.wf (hop t rfl))
    exact ⟨t', bs', ht', hi'⟩
  · rintro _ _ ⟨t, bs, rfl, hi⟩
    exact ⟨t, rfl, hi.wellFormed⟩

/-- An aligned block behind a free gap, a page and a request answered from the gap; then the first block is freed. -/
theorem heap_wellFormed_default :
    RangeOk 0 0 ∧ Lib.Throughout next (fun s => ∃ t ∈ s, WellFormed t)
      (start (fun _ => 0) (fun _ => true) 0 0)
      [.kmallocAligned 100 64 fun _ => true, .kmalloc 10 true fun _ => true,
        .kmalloc 5 false fun _ => true, .clientWrite 0xC1000040 7, .kfree 0xC1000040] := by
  have hrange : RangeOk 0 0 := ⟨by decide, by decide, by decide⟩
  exact ⟨hrange, heap_wellFormed_throughout _ _ hrange _ (by decide +kernel)⟩

/-- In every run, each request that makes no address wrap is answered with null or with memory that the heap has. -/
theorem heap_has_memory_throughout (mem : UInt32 → UInt32) (grant : UInt32 → Bool)
    {heap_start heap_end_addr : UInt32} (hrange : RangeOk heap_start heap_end_addr) (ops : List Op)
    (hwithin : Lib.EachStep next (fun s op => ∀ t ∈ s, Within t op)
      (start mem grant heap_start heap_end_addr) ops) :
    Lib.Throughout next
      (fun s => ∃ t ∈ s, ∀ grant size align, NoWrap t.heap size align → Answers t.heap grant size align)
      (start mem grant heap_start heap_end_addr) ops := by
  obtain ⟨s, hs, hi⟩ := inv_start mem grant hrange
  refine Lib.throughout_of_inv (J := fun s _ => ∃ t bs, s = some t ∧ Inv t bs) ?_ ?_
    ⟨s, [], hs, hi⟩ hwithin
  · rintro _ op _ ⟨t, bs, rfl, hi⟩ hop
    obtain ⟨t', bs', ht', hi'⟩ := inv_step hi (hop t rfl)
    exact ⟨t', bs', ht', hi'⟩
  · rintro _ _ ⟨t, bs, rfl, hi⟩
    refine ⟨t, rfl, fun grant size align hreq => ?_⟩
    obtain ⟨r, hr, hmemory, -⟩ := inv_request hi grant hreq
    exact ⟨r, hr, hmemory⟩

/-- A request that the heap cannot serve is refused, and a small one after it is served. -/
theorem heap_has_memory_default :
    RangeOk 0 0 ∧ Lib.Throughout next
      (fun s => ∃ t ∈ s, ∀ grant size align, NoWrap t.heap size align → Answers t.heap grant size align)
      (start (fun _ => 0) (fun _ => true) 0 0)
      [.kmalloc 0x10000000 false fun _ => true, .kmalloc 5 false fun _ => true] := by
  have hrange : RangeOk 0 0 := ⟨by decide, by decide, by decide⟩
  exact ⟨hrange, heap_has_memory_throughout _ _ hrange _ (by decide +kernel)⟩

/-- A request of `0xF0000000` bytes gets a pointer and moves `heap_curr` back, since its end wraps; an alignment above
`2 ^ 31` is never rounded. -/
theorem heap_hands_out_too_much : ∃ s, start (fun _ => 0) (fun _ => true) 0 0 = some s ∧
    ¬Answers s.heap (fun _ => true) 0xF0000000 0 ∧ ¬Answers s.heap (fun _ => true) 4 0x80000001 := by
  refine ⟨_, rfl, ?_, ?_⟩
  · rintro ⟨answer, hanswer, hmemory⟩
    have hcurr := hmemory.curr
    obtain rfl := Option.some.inj hanswer
    exact absurd hcurr (by decide)
  · rintro ⟨answer, hanswer, -⟩
    cases hanswer

end Orion.Mem
