import Orion.Mem.Proofs.AllocProofs

/-!
# Requests: sizes, alignments and the blocks that fit

A request's size is rounded to a multiple of four and its alignment to a power of two. No address computed from them
wraps in a well-formed heap.
-/

namespace Orion.Mem

open Lib List
open UInt32 (lt_iff_toNat_lt le_iff_toNat_le toNat_sub_of_le toNat_add toNat_inj)

/-- An alignment as `normalize_align` returns it: none, or a power of two that is at least four. -/
def Normal (align : UInt32) : Prop := align = 0 ∨ ∃ k, 2 ≤ k ∧ align.toNat = 2 ^ k

variable {align : UInt32}

/-- The loop of `normalize_align` ends at the first power of two not below `align`; the current power is below `2 *
align`. -/
theorem roundLoop_spec (halign : align.toNat ≤ 2 ^ 31) :
    ∀ (n k : Nat) (p : UInt32), p.toNat = 2 ^ k → k + n = 33 → p.toNat < 2 * align.toNat →
      ∃ q j, roundLoop align n p = some q ∧ q.toNat = 2 ^ j ∧ align.toNat ≤ q.toNat ∧ q.toNat < 2 * align.toNat := by
  intro n
  induction n with
  | zero =>
    intro k p hp hk _
    have hlt := p.toNat_lt
    rw [hp, show k = 33 by omega] at hlt
    norm_num at hlt
  | succ n ih =>
    intro k p hp hk hbound
    unfold roundLoop
    split
    · rename_i hlt
      rw [lt_iff_toNat_lt] at hlt
      have hshift : (p <<< 1).toNat = 2 ^ (k + 1) := by
        rw [UInt32.toNat_shiftLeft, hp]
        change 2 ^ k <<< 1 % 2 ^ 32 = _
        rw [Nat.shiftLeft_eq, ← pow_succ, Nat.mod_eq_of_lt]
        rw [hp] at hlt
        have : 2 ^ (k + 1) = 2 ^ k * 2 := pow_succ 2 k
        omega
      refine ih (k + 1) (p <<< 1) hshift (by omega) ?_
      rw [hshift, pow_succ, ← hp]
      omega
    · rename_i hge
      rw [lt_iff_toNat_lt] at hge
      exact ⟨p, k, rfl, hp, by omega, hbound⟩

theorem pow_of_and_pred (h2 : 2 ≤ align.toNat) (hand : align &&& (align - 1) = 0) : ∃ k, align.toNat = 2 ^ k := by
  have hone : (1 : UInt32) ≤ align := by
    rw [le_iff_toNat_le]
    change 1 ≤ align.toNat
    omega
  have hnat : align.toNat &&& (align.toNat - 1) = 0 := by
    have htoNat := congrArg UInt32.toNat hand
    rw [UInt32.toNat_and, toNat_sub_of_le align 1 hone] at htoNat
    exact htoNat
  exact (Nat.and_sub_one_eq_zero_iff_isPowerOfTwo (by omega)).mp hnat

/-- `normalize_align` returns, and the result is at most twice the request. -/
theorem normalize_align_spec (halign : align.toNat ≤ 2 ^ 31) :
    ∃ q, normalize_align align = some q ∧ Normal q ∧ q.toNat ≤ 2 * align.toNat ∧
      (2 ≤ align.toNat → align.toNat ≤ q.toNat) ∧
      (∀ k, 2 ≤ align.toNat → align.toNat = 2 ^ k → align.toNat ∣ q.toNat) := by
  unfold normalize_align
  by_cases hlt : align < 2
  · rw [if_pos hlt]
    rw [lt_iff_toNat_lt] at hlt
    have h2 : (2 : UInt32).toNat = 2 := rfl
    exact ⟨0, rfl, .inl rfl, Nat.zero_le _, fun h => by omega, fun _ h => by omega⟩
  rw [if_neg hlt]
  have h2 : 2 ≤ align.toNat := by
    rw [lt_iff_toNat_lt] at hlt
    have h2 : (2 : UInt32).toNat = 2 := rfl
    omega
  -- the rounded power of two before the lower bound of four is applied
  obtain ⟨q, k, hq, hk, hle, hbound, hsame⟩ : ∃ q k, roundToPower align = some q ∧
      q.toNat = 2 ^ k ∧ align.toNat ≤ q.toNat ∧ q.toNat ≤ 2 * align.toNat ∧
      ((∃ k, align.toNat = 2 ^ k) → q = align ∨ align.toNat ∣ q.toNat) := by
    by_cases hand : align &&& (align - 1) = 0
    · obtain ⟨k, hk⟩ := pow_of_and_pred h2 hand
      exact ⟨align, k, by simp [roundToPower, hand], hk, le_rfl, by omega, fun _ => .inl rfl⟩
    obtain ⟨q, j, hq, hj, hle, hbound⟩ := roundLoop_spec halign 33 0 1 rfl rfl (by change 1 < _; omega)
    refine ⟨q, j, by rw [roundToPower, if_pos hand]; exact hq, hj, hle, by omega, fun ⟨k, hk⟩ => .inr ?_⟩
    rw [hk, hj] at hle ⊢
    exact Nat.pow_dvd_pow 2 ((Nat.pow_le_pow_iff_right Nat.one_lt_two).mp hle)
  have hdvd : ∀ k, align.toNat = 2 ^ k → align.toNat ∣ q.toNat := by
    intro k hk
    rcases hsame ⟨k, hk⟩ with rfl | h
    · exact dvd_rfl
    · exact h
  rw [hq]
  change ∃ r, some (if q < 4 then 4 else q) = some r ∧ _
  by_cases hq4 : q < 4
  · rw [if_pos hq4]
    rw [lt_iff_toNat_lt] at hq4
    have h4 : (4 : UInt32).toNat = 4 := rfl
    refine ⟨4, rfl, .inr ⟨2, le_rfl, rfl⟩, by omega, fun _ => by omega, fun m _ hm => ?_⟩
    have hq2 : q.toNat = 2 := by
      have hcases : q.toNat = 2 ∨ q.toNat = 3 := by omega
      rcases hcases with h | h
      · exact h
      rw [hk] at h
      rcases k with _ | _ | k
      · norm_num at h
      · norm_num at h
      · have : 2 ^ (k + 1 + 1) = 4 * 2 ^ k := by ring
        omega
    have := hdvd m hm
    rw [hq2] at this
    exact this.trans (by decide)
  · rw [if_neg hq4]
    rw [lt_iff_toNat_lt] at hq4
    have h4 : (4 : UInt32).toNat = 4 := rfl
    refine ⟨q, rfl, .inr ⟨k, ?_, hk⟩, hbound, fun _ => hle, fun k _ hk' => hdvd k hk'⟩
    by_contra hlt2
    have : k = 0 ∨ k = 1 := by omega
    rcases this with rfl | rfl <;> norm_num at hk <;> omega

theorem ALIGN4_spec {size : UInt32} (hsize : size.toNat + 4 ≤ 2 ^ 32) :
    4 ∣ (ALIGN4 size).toNat ∧ size.toNat ≤ (ALIGN4 size).toNat ∧ (ALIGN4 size).toNat ≤ size.toNat + 3 := by
  have heq : ALIGN4 size = alignUp size 4 := rfl
  have h4 : (4 : UInt32).toNat = 4 := rfl
  obtain ⟨hdvd, hle, hlt⟩ := alignUp_spec (x := size) (a := 4) (k := 2) rfl (by rw [h4]; exact hsize)
  rw [heq]
  rw [h4] at hdvd hlt
  exact ⟨hdvd, hle, by omega⟩

/-- The payload address that `block_can_fit` and `allocate_new_block` compute for a header at `start`. -/
def alignedPayload (start align : UInt32) : UInt32 :=
  if align = 0 then start + HEADER else align_up (start + HEADER) align

theorem alignedPayload_spec (start : UInt32) (hn : Normal align) (hd : 4 ∣ start.toNat)
    (hroom : start.toNat + 16 + align.toNat < 2 ^ 32) :
    start.toNat + 16 ≤ (alignedPayload start align).toNat ∧
      (alignedPayload start align).toNat ≤ start.toNat + 16 + align.toNat ∧
      4 ∣ (alignedPayload start align).toNat ∧
      (align ≠ 0 → align.toNat ∣ (alignedPayload start align).toNat) ∧
      (alignedPayload start align - HEADER).toNat = (alignedPayload start align).toNat - 16 := by
  have h16 : HEADER.toNat = 16 := rfl
  have hpay : (start + HEADER).toNat = start.toNat + 16 := by
    rw [toNat_add, h16, Nat.mod_eq_of_lt (by omega)]
  have hhdr : ∀ q : UInt32, start.toNat + 16 ≤ q.toNat → (q - HEADER).toNat = q.toNat - 16 := by
    intro q hq
    rw [toNat_sub_of_le q HEADER (by rw [le_iff_toNat_le, h16]; omega), h16]
  unfold alignedPayload
  by_cases hz : align = 0
  · rw [if_pos hz, hpay]
    refine ⟨le_rfl, by omega, by omega, fun h => absurd hz h, ?_⟩
    rw [hhdr _ (by rw [hpay]), hpay]
  · rw [if_neg hz, align_up, if_neg hz]
    obtain ⟨k, hk2, hk⟩ := hn.resolve_left hz
    obtain ⟨hdvd, hle, hlt⟩ := alignUp_spec (x := start + HEADER) hk (by rw [hpay]; omega)
    rw [hpay] at hle hlt
    refine ⟨hle, hlt.le, ?_, fun _ => hdvd, hhdr _ hle⟩
    have h4 : 4 ∣ align.toNat := by
      rw [hk]
      exact Nat.pow_dvd_pow 2 hk2
    exact h4.trans hdvd

/-- What an accepted header promises: the payload lies in the block, aligned, behind no gap or one with room for a
block. -/
structure HeaderFits (a : Block) (size align header : UInt32) : Prop where
  addr_le : a.addr.toNat ≤ header.toNat
  fits : header.toNat + 16 + size.toNat ≤ a.last
  dvd : 4 ∣ header.toNat
  aligned : align ≠ 0 → align.toNat ∣ header.toNat + 16
  gap : header = a.addr ∨ a.addr.toNat + 24 ≤ header.toNat

variable {h : Heap} {a : Block} {bs : List Block} {size align : UInt32} {header : UInt32} {xs ys : List Block}

theorem block_can_fit_spec (hw : Wf h bs) (ha : a ∈ bs) (hsz : h.size a.addr = a.size)
    (hn : Normal align) (hc : h.heap_end.toNat + size.toNat + align.toNat + 28 ≤ 2 ^ 32)
    (hfit : block_can_fit h a.addr size align = some header) : HeaderFits a size align header := by
  have h24 : MIN_BLOCK_SIZE.toNat = 24 := rfl
  have hlast := hw.layout.last_le a ha
  have hcurr := hw.curr_le
  have haddr : a.addr.toNat + 16 + a.size.toNat = a.last := rfl
  obtain ⟨hge, hle, hdvd, hal, hhdr⟩ := alignedPayload_spec a.addr hn (hw.layout.addr_dvd a ha) (by omega)
  have hend := hw.toNat_block_end ha hsz
  have hsum : (alignedPayload a.addr align + size).toNat = (alignedPayload a.addr align).toNat + size.toNat := by
    rw [toNat_add, Nat.mod_eq_of_lt (by omega)]
  unfold block_can_fit at hfit
  change (if alignedPayload a.addr align + size > block_end h a.addr then none else
    if (alignedPayload a.addr align - HEADER - a.addr ≠ 0 &&
        alignedPayload a.addr align - HEADER - a.addr < MIN_BLOCK_SIZE) = true then none
    else some (alignedPayload a.addr align - HEADER)) = some header at hfit
  split at hfit
  · cases hfit
  rename_i hin
  split at hfit
  · cases hfit
  rename_i hlead
  obtain rfl := Option.some.inj hfit
  generalize alignedPayload a.addr align = q at *
  have hfits : q.toNat + size.toNat ≤ a.last := by
    rw [gt_iff_lt, lt_iff_toNat_lt, hend, hsum] at hin
    omega
  have hlow : a.addr.toNat ≤ (q - HEADER).toNat := by omega
  refine ⟨hlow, by omega, by omega, fun hz => ?_, ?_⟩
  · have hback : (q - HEADER).toNat + 16 = q.toNat := by omega
    rw [hback]
    exact hal hz
  · have hsub : (q - HEADER - a.addr).toNat = (q - HEADER).toNat - a.addr.toNat :=
      toNat_sub_of_le _ _ (by rw [le_iff_toNat_le]; exact hlow)
    by_cases hzero : q - HEADER - a.addr = 0
    · left
      apply toNat_inj.mp
      have hnat := congrArg UInt32.toNat hzero
      rw [hsub] at hnat
      change _ = 0 at hnat
      omega
    · right
      simp only [Bool.and_eq_true, decide_eq_true_eq, not_and] at hlead
      have hmin := hlead hzero
      rw [lt_iff_toNat_lt, hsub, h24] at hmin
      omega

theorem Layout.length_le {base curr : Nat} (hl : Layout base curr bs) (hle : base ≤ curr) :
    16 * bs.length ≤ curr - base := by
  induction bs generalizing base with
  | nil => simp
  | cons b bs ih =>
    have hb := hl.base_le b mem_cons_self
    have hlast := hl.last_le b mem_cons_self
    have hspan : b.addr.toNat + 16 ≤ b.last := by
      unfold Block.last
      omega
    have htail := hl.sublist (sublist_cons_self b bs)
    have hrest : Layout b.last curr bs :=
      ⟨htail.sorted, (pairwise_cons.mp hl.sorted).1, htail.last_le, htail.addr_dvd, htail.size_dvd⟩
    have hlen := ih hrest hlast
    rw [length_cons]
    omega

/-- The search over the blocks `ys` ends, and a block it finds is free and accepted by `block_can_fit`. -/
theorem findLoop_spec (xs : List Block) (hseg : Seg h (lastAddr 0 xs) ys 0) (hsep : Sep ys) {n : Nat}
    (hn : ys.length < n) :
    ∃ r, findLoop h size align n (firstAddr ys 0) = some r ∧
      ∀ cur header, r = some (cur, header) → ∃ us vs, ∃ b : Block, ys = us ++ b :: vs ∧
        b.addr = cur ∧ b.free = true ∧ block_can_fit h b.addr size align = some header := by
  induction ys generalizing xs n with
  | nil =>
    obtain ⟨n, rfl⟩ : ∃ m, n = m + 1 := ⟨n - 1, by simp at hn; omega⟩
    exact ⟨none, rfl, fun _ _ h => by cases h⟩
  | cons b ys ih =>
    obtain ⟨n, rfl⟩ : ∃ m, n = m + 1 := ⟨n - 1, by simp at hn; omega⟩
    obtain ⟨⟨hsize, hfree, hprev, hnext⟩, hrest⟩ := hseg
    have hne : b.addr ≠ 0 := hsep.ne_zero b mem_cons_self
    have hrest' : Seg h (lastAddr 0 (xs ++ [b])) ys 0 := by
      rw [lastAddr_append]
      exact hrest
    obtain ⟨r, hr, hfound⟩ := ih (xs ++ [b]) hrest' (hsep.sublist (sublist_cons_self b ys)) (n := n)
      (by simp at hn; omega)
    -- a block found further on is found in the longer list
    have hlater : ∀ cur header, r = some (cur, header) → ∃ us vs, ∃ c : Block, b :: ys = us ++ c :: vs ∧
        c.addr = cur ∧ c.free = true ∧ block_can_fit h c.addr size align = some header := by
      intro cur header hrc
      obtain ⟨us, vs, c, rfl, hc⟩ := hfound cur header hrc
      exact ⟨b :: us, vs, c, rfl, hc⟩
    change ∃ r, findLoop h size align (n + 1) b.addr = some r ∧ _
    unfold findLoop
    rw [if_neg hne, hnext, hfree]
    by_cases hb : b.free = true
    · have hflag : b.flag ≠ 0 := by
        rw [Block.flag, if_pos hb]
        decide
      rw [if_neg hflag]
      rcases hfit : block_can_fit h b.addr size align with _ | header
      · exact ⟨r, hr, hlater⟩
      refine ⟨some (b.addr, header), rfl, fun cur header' heq => ?_⟩
      cases heq
      exact ⟨[], ys, b, rfl, rfl, hb, hfit⟩
    · have hflag : b.flag = 0 := by
        rw [Block.flag, if_neg hb]
      rw [if_pos hflag]
      exact ⟨r, hr, hlater⟩

theorem find_free_block_spec (hw : Wf h bs) (size align : UInt32) : ∃ r, find_free_block h size align = some r ∧
      ∀ cur header, r = some (cur, header) → ∃ us vs, ∃ b : Block, bs = us ++ b :: vs ∧
        b.addr = cur ∧ b.free = true ∧ block_can_fit h b.addr size align = some header := by
  have hlen := hw.layout.length_le hw.base_le
  have hsub : (h.heap_curr - h.heap_base).toNat = h.heap_curr.toNat - h.heap_base.toNat :=
    toNat_sub_of_le _ _ (by rw [le_iff_toNat_le]; exact hw.base_le)
  unfold find_free_block
  rw [hw.repr.head]
  exact findLoop_spec [] hw.repr.seg hw.sep (by omega)

theorem wf_splitLeading (hw : Wf h (xs ++ a :: ys))
    (hfit : HeaderFits a size align header) (hgap : a.addr.toNat + 24 ≤ header.toNat) :
    ∃ lead b : Block, Wf (splitLeading h a.addr header) (xs ++ lead :: b :: ys) ∧
      lead.addr = a.addr ∧ lead.free = true ∧ b.addr = header ∧ b.free = true ∧
      b.last = a.last := by
  have h16 : HEADER.toNat = 16 := rfl
  have hmem : a ∈ xs ++ a :: ys := by simp
  have hbound := hw.last_lt hmem
  have haddr : a.addr.toNat + 16 + a.size.toNat = a.last := rfl
  have hfits := hfit.fits
  have hdvd := hfit.dvd
  have had := hw.layout.addr_dvd a hmem
  have hsz : h.size a.addr = a.size := (seg_mid.mp hw.repr.seg).2.1.1
  -- the leading part has `lead` bytes
  set lead : UInt32 := header - a.addr - HEADER with hlead
  have hsub : (header - a.addr).toNat = header.toNat - a.addr.toNat :=
    toNat_sub_of_le _ _ (by rw [le_iff_toNat_le]; omega)
  have hlead_nat : lead.toNat = header.toNat - a.addr.toNat - 16 := by
    rw [hlead, toNat_sub_of_le _ _ (by rw [le_iff_toNat_le, hsub, h16]; omega), hsub, h16]
  have hcut : lead.toNat + 16 ≤ a.size.toNat := by omega
  obtain ⟨hcaddr, hcsize⟩ := cut_toNat hbound hcut
  have hheader : a.addr + HEADER + lead = header := by
    apply toNat_inj.mp
    rw [hcaddr]
    omega
  have hrest : block_end h a.addr - (header + HEADER) = a.size - lead - HEADER := by
    rw [block_end, hsz, ← hheader]
    grind
  obtain ⟨b, hb⟩ : ∃ b : Block, b = ⟨header, a.size - lead - HEADER, true⟩ := ⟨_, rfl⟩
  have hbaddr : b.addr = header := by rw [hb]
  have hbsize : b.size = a.size - lead - HEADER := by rw [hb]
  have hblast : b.last = a.last := by
    unfold Block.last
    rw [hbaddr, hbsize, hcsize]
    omega
  obtain ⟨f, hf⟩ : ∃ f : Block, f = { a with size := lead, free := true } := ⟨_, rfl⟩
  have hfaddr : f.addr = a.addr := by rw [hf]
  have hfsize : f.size = lead := by rw [hf]
  have hl : Layout h.heap_base.toNat h.heap_curr.toNat (xs ++ ([f, b] ++ ys)) := by
    refine hw.layout_replace ?_
    have hpair := layout_pair (a := f) (b := b) (by
      unfold Block.last
      rw [hfaddr, hfsize, hbaddr]
      omega) (hfaddr ▸ had) (by rw [hfsize]; omega) (hbaddr ▸ hdvd) (by
      rw [hbsize, hcsize]
      have hsd := hw.layout.size_dvd a hmem
      omega)
    rwa [hfaddr, hblast] at hpair
  have hroom := hw.room
  have hcurr := hw.curr_le
  have hsep : Sep (xs ++ f :: b :: ys) := hl.sep hw.base_pos (by omega)
  -- the source writes the size and the flag of the first part and then links the second one in
  have hr1 := repr_setSize hw.repr hw.sep lead
  have hr2 := repr_setFree hr1 (hw.sep.of_addr (by simp)) true
  have hr3 : Repr (linkAfter ((h.setSize a.addr lead).setFree a.addr 1) f.addr b.addr b.size) (xs ++ f :: b :: ys) := by
    rw [hf]
    rw [hf] at hsep
    exact repr_linkAfter hr2 (by rw [hb]) hsep
  refine ⟨f, b, hw.edit ?_ ?_ hl, hfaddr, by rw [hf], hbaddr, by rw [hb], hblast⟩
  · unfold splitLeading
    exact ((sameBounds_setSize h _ _).trans (sameBounds_setFree _ _ _)).trans (sameBounds_linkAfter _ _ _ _)
  · rw [hfaddr, hbaddr, hbsize, ← hrest] at hr3
    exact hr3

/-- In `bs'` the block `c` has been handed out, and every block of `bs` in use is still there. -/
def HandsOut (bs : List Block) (c : Block) (bs' : List Block) : Prop :=
  c.free = false ∧ ∃ us vs, bs' = us ++ c :: vs ∧ ∀ b ∈ bs, b.free = false → b ∈ us ++ vs

/-- The first part of `allocate_from_block`: a block that starts at the accepted header. -/
theorem wf_lead (hw : Wf h (xs ++ a :: ys)) (hfree : a.free = true) (hfit : HeaderFits a size align header) :
    ∃ us vs, ∃ b : Block, Wf (if header ≠ a.addr then splitLeading h a.addr header else h) (us ++ b :: vs) ∧
        b.addr = header ∧ b.last = a.last ∧ ∀ c ∈ xs ++ a :: ys, c.free = false → c ∈ us ++ vs := by
  -- the block `a` itself is free, so the blocks in use are around it
  have haround : ∀ c ∈ xs ++ a :: ys, c.free = false → c ∈ xs ++ ys := by
    intro c hc hused
    rcases mem_append.mp hc with hc | hc
    · exact mem_append_left ys hc
    rcases mem_cons.mp hc with rfl | hc
    · rw [hfree] at hused
      cases hused
    · exact mem_append_right xs hc
  by_cases heq : header = a.addr
  · rw [if_neg (not_not_intro heq)]
    exact ⟨xs, ys, a, hw, heq.symm, rfl, haround⟩
  rw [if_pos heq]
  obtain ⟨lead, b, hwf, -, -, haddr, -, hlast⟩ := wf_splitLeading hw hfit (hfit.gap.resolve_left heq)
  refine ⟨xs ++ [lead], ys, b, by simpa using hwf, haddr, hlast, fun c hc hused => ?_⟩
  rcases mem_append.mp (haround c hc hused) with hc | hc
  · simp [hc]
  · simp [hc]

theorem wf_allocate_from_block (hw : Wf h (xs ++ a :: ys))
    (hfree : a.free = true) (hfit : HeaderFits a size align header) (hd : 4 ∣ size.toNat) :
    ∃ bs' c, Wf (allocate_from_block h a.addr header size).2 bs' ∧
      HandsOut (xs ++ a :: ys) c bs' ∧ c.addr = header ∧ size.toNat ≤ c.size.toNat := by
  obtain ⟨us, vs, b, hlead, haddr, hlast, hkeep⟩ := wf_lead hw hfree hfit
  have hle : size.toNat ≤ b.size.toNat := by
    have hfits := hfit.fits
    rw [← hlast, ← haddr] at hfits
    unfold Block.last at hfits
    omega
  unfold allocate_from_block
  generalize (if header ≠ a.addr then splitLeading h a.addr header else h) = h1 at hlead ⊢
  rw [← haddr]
  rcases wf_split_block hlead hd with hsame | ⟨-, hcut⟩
  · have hset := wf_setFree hsame false
    exact ⟨_, _, hset, ⟨rfl, us, vs, rfl, hkeep⟩, rfl, hle⟩
  -- the rest of the cut stands right behind the block that is handed out
  have hset := wf_setFree (a := { b with size := size }) hcut false
  refine ⟨_, _, hset, ⟨rfl, us, _, rfl, fun c hc hused => ?_⟩, rfl, le_rfl⟩
  rcases mem_append.mp (hkeep c hc hused) with hc | hc
  · simp [hc]
  · simp [hc]

theorem sameBounds_allocate_from_block (h : Heap) (block header size : UInt32) :
    SameBounds h (allocate_from_block h block header size).2 := by
  have hsplit (h : Heap) : SameBounds h (split_block h header size) := by
    unfold split_block
    dsimp only
    split_ifs
    · exact ⟨rfl, rfl, rfl, rfl⟩
    · exact ⟨rfl, rfl, rfl, rfl⟩
    · exact (sameBounds_linkAfter h _ _ _).trans (sameBounds_setSize _ _ _)
  unfold allocate_from_block
  refine SameBounds.trans ?_ ((hsplit _).trans (sameBounds_setFree _ _ _))
  split
  · exact ((sameBounds_setSize h _ _).trans (sameBounds_setFree _ _ _)).trans (sameBounds_linkAfter _ _ _ _)
  · exact ⟨rfl, rfl, rfl, rfl⟩

end Orion.Mem
