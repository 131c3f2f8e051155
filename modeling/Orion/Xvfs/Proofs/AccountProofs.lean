import Orion.Xvfs.Account
import Orion.Xvfs.Proofs.OwnershipProofs

/-!
# Proofs: the count of free blocks

An operation changes the mark of at most one block for data, and with it the count in memory by one. The superblock on
the disk stays as it was formatted.
-/

namespace Orion.Xvfs

open Lib Vol
open Finset (mem_filter mem_Ico mem_range)
open Option (some.inj)

variable {v v' v1 : Vol} {b c d : UInt32} {u : Bool} {i : Nat} {path name : Path} {data : Bytes} {size : UInt32}
  {r : Bool × Vol} {op : Op}

theorem card_filter_succ {s : Finset ℕ} {p q : ℕ → Prop} [DecidablePred p] [DecidablePred q] {b : ℕ} (hb : b ∈ s)
    (hp : p b) (hq : ¬ q b) (hother : ∀ c ∈ s, c ≠ b → (q c ↔ p c)) : (s.filter q).card + 1 = (s.filter p).card := by
  have herase : s.filter q = (s.filter p).erase b := by
    ext c
    simp only [mem_filter, Finset.mem_erase]
    constructor
    · rintro ⟨hc, hqc⟩
      have hne : c ≠ b := by
        rintro rfl
        exact hq hqc
      exact ⟨hne, hc, (hother c hc hne).mp hqc⟩
    · rintro ⟨hne, hc, hpc⟩
      exact ⟨hc, (hother c hc hne).mpr hpc⟩
  rw [herase, Finset.card_erase_add_one (mem_filter.mpr ⟨hb, hp⟩)]

theorem clearBlocks_subset (hg : Geometry v) (hroot : used v 10 = true) : (Finset.range v.sb.total_blocks.toNat).filter
      (fun b => v.sb.data_start.toNat ≤ b ∧ used v (UInt32.ofNat b) = false) ⊆
        Finset.Ico 11 v.sb.total_blocks.toNat := by
  intro b hb
  obtain ⟨hlt, hlow, hfree⟩ := mem_filter.mp hb
  rw [hg.data_start] at hlow
  have hne : b ≠ 10 := by
    rintro rfl
    exact absurd (hroot.symm.trans hfree) (by decide)
  have hten : (10 : UInt32).toNat = 10 := rfl
  exact mem_Ico.mpr ⟨by omega, mem_range.mp hlt⟩

theorem clearBlocks_le (hg : Geometry v) (hroot : used v 10 = true) : clearBlocks v ≤ v.sb.total_blocks.toNat - 11 :=
  (Finset.card_le_card (clearBlocks_subset hg hroot)).trans (by rw [Nat.card_Ico])

theorem toNat_ofNat_block (hsize : v.sb.total_blocks.toNat ≤ 32768) {k : ℕ} (hk : k < v.sb.total_blocks.toNat) :
    (UInt32.ofNat k).toNat = k ∧ (UInt32.ofNat k).toNat < 32768 := by
  have hlt : k < 2 ^ 32 := by omega
  rw [UInt32.toNat_ofNat_of_lt' hlt]
  exact ⟨rfl, by omega⟩

theorem Same.clearBlocks (hsize : v.sb.total_blocks.toNat ≤ 32768) (h : Same v v') :
    clearBlocks v' = clearBlocks v := by
  unfold Xvfs.clearBlocks
  rw [h.alike.total, h.alike.data_start]
  congr 1
  refine Finset.filter_congr fun k hk => ?_
  rw [h.marks (toNat_ofNat_block hsize (mem_range.mp hk)).2]

section

variable (hg : Geometry v) (hsize : v.sb.total_blocks.toNat ≤ 32768)

include hg hsize

theorem clearBlocks_succ (htotal : v'.sb.total_blocks = v.sb.total_blocks) (hdata : v'.sb.data_start = v.sb.data_start)
    (hlow : 10 ≤ b.toNat) (hhigh : b.toNat < v.sb.total_blocks.toNat) (hwas : used v b = false)
    (his : used v' b = true) (hother : ∀ {c : UInt32}, c.toNat < 32768 → c ≠ b → used v' c = used v c) :
    clearBlocks v' + 1 = clearBlocks v := by
  unfold Xvfs.clearBlocks
  rw [htotal, hdata]
  refine card_filter_succ (b := b.toNat) (mem_range.mpr hhigh) ?_ ?_ ?_
  · rw [hg.data_start, UInt32.ofNat_toNat]
    exact ⟨hlow, hwas⟩
  · rw [UInt32.ofNat_toNat, his]
    simp
  intro k hk hne
  obtain ⟨hk1, hk2⟩ := toNat_ofNat_block hsize (mem_range.mp hk)
  have hkb : UInt32.ofNat k ≠ b := by
    intro heq
    rw [heq] at hk1
    exact hne hk1.symm
  rw [hother hk2 hkb]

theorem Marks.clearBlocks_took (h : Marks v v' b true) : clearBlocks v' + 1 = clearBlocks v := by
  have hbit : b.toNat < 32768 := lt_of_lt_of_le h.high hsize
  refine clearBlocks_succ hg hsize h.alike.total h.alike.data_start h.low h.high h.was ?_ ?_
  · rw [h.marks hbit, if_pos rfl]
  · intro c hc hne
    rw [h.marks hc, if_neg hne]

theorem Marks.clearBlocks_gave (h : Marks v v' b false) : clearBlocks v + 1 = clearBlocks v' := by
  have hbit : b.toNat < 32768 := lt_of_lt_of_le h.high hsize
  have htotal := h.alike.total
  refine clearBlocks_succ (hg.alike h.alike) (by rw [htotal]; exact hsize) htotal.symm h.alike.data_start.symm h.low
    (by rw [htotal]; exact h.high) ?_ h.was ?_
  · rw [h.marks hbit, if_pos rfl]
  · intro c hc hne
    rw [h.marks hc, if_neg hne]

end

variable {total : UInt32}

theorem view_of_same_reads (halike : Alike v v') (hreads : ∀ c, v'.read_block c = v.read_block c) : view v' = view v := by
  funext d i
  unfold view
  rw [hreads, halike.nodeOf]

theorem used_of_same_reads (halike : Alike v v') (hreads : ∀ c, v'.read_block c = v.read_block c) (b : UInt32) :
    used v' b = used v b := by
  unfold used bitmapBlock
  rw [hreads, halike.bitmap_start]

theorem inv_of_same_reads (hi : Inv v) (halike : Alike v v') (hreads : ∀ c, v'.read_block c = v.read_block c) :
    Inv v' := by
  have hview := view_of_same_reads halike hreads
  have hused := used_of_same_reads halike hreads
  have hup : up v' = up v := by
    funext c b
    unfold up
    rw [hreads]
    simp only [halike.dotLink]
  have hlink : ∀ c name, HasLink v' c name ↔ HasLink v c name := by
    intro c name
    unfold HasLink
    rw [hreads]
    simp only [halike.dotLink]
  refine ⟨hi.geom.alike halike, hview ▸ hi.owned, ?_, (hused 10).trans hi.root_used, ?_, ?_⟩
  · unfold Dir
    rw [hview]
    intro d i n hd hn
    obtain ⟨b, hb, hgood⟩ := hi.single hd hn
    exact ⟨b, hb, hgood.low, by rw [halike.total]; exact hgood.high, hgood.bitmap, (hused b).trans hgood.used⟩
  · rw [hview, hup]
    exact hi.links
  · unfold Dir
    rw [hview]
    intro p i n c hp hn hc
    rw [hlink, hlink]
    exact hi.dots hp hn hc

/-- A volume that was formatted with `total` blocks, some operations later. -/
structure State (total : UInt32) (v : Vol) : Prop where
  inv : Inv v
  blocks : v.sb.total_blocks = total
  signed : v.read_block 0 = signatureSector
  super : v.read_block 1 = encodeSuper (formatSuper total)

theorem State.diskFree (hs : State total v) : diskFree v = (formatSuper total).free_blocks := by
  unfold Xvfs.diskFree
  rw [hs.super, decode_encode]

theorem toNat_formatFree (htotal : 10 < total.toNat) : (formatSuper total).free_blocks.toNat = total.toNat - 11 := by
  have hten : (10 : UInt32).toNat = 10 := rfl
  have hone : (1 : UInt32).toNat = 1 := rfl
  have hlt := UInt32.toNat_lt total
  show (total - 10 - 1).toNat = _
  rw [UInt32.toNat_sub, UInt32.toNat_sub, hten, hone]
  omega

theorem State.remount (hs : State total v) :
    ∃ w, xvfs_init v.dev v.xvfs_base_lba v.stack = some w ∧ State total w ∧ Alike v w ∧
      (∀ c, w.read_block c = v.read_block c) ∧ w.sb.free_blocks = (formatSuper total).free_blocks := by
  have hg := hs.inv.geom
  have htotal := hg.total
  have hzero : v.xvfs_base_lba + 0 = v.xvfs_base_lba := UInt32.add_zero _
  have hsigned : v.dev.read v.xvfs_base_lba v.stack = signatureSector := by
    have hread := hs.signed
    unfold Vol.read_block at hread
    rwa [hzero] at hread
  have hsuper : decodeSuper (v.dev.read (v.xvfs_base_lba + 1) v.stack) = formatSuper total := by
    have hread : v.dev.read (v.xvfs_base_lba + 1) v.stack = _ := hs.super
    rw [hread, decode_encode]
  have hin0 : v.dev.inRange v.xvfs_base_lba = true := by
    have hread : v.dev.inRange (v.xvfs_base_lba + 0) = true := hg.readable (b := 0) (by simp; omega)
    rwa [hzero] at hread
  have hin1 : v.dev.inRange (v.xvfs_base_lba + 1) = true := hg.readable (b := 1) (by simp; omega)
  have hinit : xvfs_init v.dev v.xvfs_base_lba v.stack =
      some ⟨v.dev, v.xvfs_base_lba, formatSuper total, 10, v.stack⟩ := by
    have hsig : signatureSector.slice 0 5 = signature := by decide
    unfold xvfs_init
    rw [hin0, hin1, if_neg (by decide), hsigned, if_neg (not_not.mpr hsig), hsuper]
    rfl
  have halike : Alike v ⟨v.dev, v.xvfs_base_lba, formatSuper total, 10, v.stack⟩ :=
    ⟨rfl, rfl, hg.bitmap_start.symm, hg.data_start.symm, hg.block_size.symm, hs.blocks.symm, hg.current.symm, rfl⟩
  exact ⟨_, hinit, ⟨inv_of_same_reads hs.inv halike fun _ => rfl, rfl, hs.signed, hs.super⟩, halike, fun _ => rfl, rfl⟩

theorem clearBlocks_of_same_reads (halike : Alike v v') (hreads : ∀ c, v'.read_block c = v.read_block c) :
    clearBlocks v' = clearBlocks v := by
  unfold clearBlocks
  rw [halike.total, halike.data_start]
  simp only [used_of_same_reads halike hreads]

theorem State.step (hs : State total v) (hfits : Fits v op) : ∃ r, Xvfs.step v op = some r ∧ State total r.2 := by
  obtain ⟨r, hr, hchange⟩ := step_change hs.inv hfits
  have hkept : Alike v r.2 ∧ ∀ {c : UInt32}, c.toNat < 2 → r.2.read_block c = v.read_block c := by
    rcases hchange.effect with ⟨-, hsame | ⟨b, hgave⟩⟩ | ⟨-, b, htook⟩
    · exact ⟨hsame.alike, hsame.head⟩
    · exact ⟨hgave.alike, hgave.head⟩
    · exact ⟨htook.alike, htook.head⟩
  obtain ⟨halike, hhead⟩ := hkept
  exact ⟨r, hr, hchange.inv hs.inv, halike.total.trans hs.blocks, (hhead (by decide)).trans hs.signed,
    (hhead (by decide)).trans hs.super⟩

theorem Counted.same (hsize : v.sb.total_blocks.toNat ≤ 32768) (hc : Counted v) (h : Same v v') : Counted v' := by
  unfold Counted at hc ⊢
  rw [h.free, h.clearBlocks hsize, hc]

theorem Counted.took (hg : Geometry v) (hsize : v.sb.total_blocks.toNat ≤ 32768) (hc : Counted v)
    (h : Marks v v' b true) : Counted v' := by
  have hclear := h.clearBlocks_took hg hsize
  unfold Counted at hc ⊢
  have hpos : v.sb.free_blocks > 0 := by
    rw [gt_iff_lt, UInt32.lt_iff_toNat_lt]
    show 0 < v.sb.free_blocks.toNat
    omega
  have hone : (1 : UInt32).toNat = 1 := rfl
  have hlt := UInt32.toNat_lt v.sb.free_blocks
  rw [h.free, countFree, if_pos rfl, if_pos hpos, UInt32.toNat_sub, hone]
  omega

theorem Counted.gave (hi : Inv v) (hi' : Inv v') (hsize : v.sb.total_blocks.toNat ≤ 32768) (hc : Counted v)
    (h : Marks v v' b false) : Counted v' := by
  have hclear := h.clearBlocks_gave hi.geom hsize
  have hle := clearBlocks_le hi'.geom hi'.root_used
  rw [h.alike.total] at hle
  have hone : (1 : UInt32).toNat = 1 := rfl
  unfold Counted at hc ⊢
  rw [h.free, countFree, if_neg (by decide), UInt32.toNat_add, hone]
  omega

theorem step_effect (hi : Inv v) (hfits : Fits v op) (h : step v op = some r) :
    (takesBlock v op = false ∧ (Same v r.2 ∨ ∃ b, Marks v r.2 b false)) ∨
      (takesBlock v op = true ∧ ∃ b, Marks v r.2 b true) := by
  obtain ⟨r', hr', hchange⟩ := step_change hi hfits
  obtain rfl := some.inj (hr'.symm.trans h)
  exact hchange.effect

theorem State.counted_step (hs : State total v) (hsize : total.toNat ≤ 32768) (hfits : Fits v op)
    (hc : Counted v) (hr : Xvfs.step v op = some r) (hs' : State total r.2) : Counted r.2 := by
  have hblocks : v.sb.total_blocks.toNat ≤ 32768 := by rw [hs.blocks]; exact hsize
  rcases step_effect hs.inv hfits hr with ⟨-, hsame | ⟨b, hgave⟩⟩ | ⟨-, b, htook⟩
  · exact hc.same hblocks hsame
  · exact hc.gave hs.inv hs'.inv hblocks hgave
  · exact hc.took hs.inv.geom hblocks htook

theorem State.countedOnDisk_iff (hs : State total v) : CountedOnDisk v ↔ clearBlocks v = total.toNat - 11 := by
  have htotal := hs.inv.geom.total
  rw [hs.blocks] at htotal
  unfold CountedOnDisk
  rw [hs.diskFree, toNat_formatFree htotal]
  exact eq_comm

/-- On a volume without blocks in use an operation keeps the number of free blocks exactly if it takes no block. -/
theorem State.clear_step_iff (hs : State total v) (hsize : total.toNat ≤ 32768) (hfits : Fits v op)
    (hclear : clearBlocks v = total.toNat - 11) (hr : Xvfs.step v op = some r) (hs' : State total r.2) :
    clearBlocks r.2 = total.toNat - 11 ↔ takesBlock v op = false := by
  have hblocks : v.sb.total_blocks.toNat ≤ 32768 := by rw [hs.blocks]; exact hsize
  rcases step_effect hs.inv hfits hr with ⟨hno, hsame | ⟨b, hgave⟩⟩ | ⟨htakes, b, htook⟩
  · rw [hsame.clearBlocks hblocks]
    exact iff_of_true hclear hno
  · -- more blocks than all behind the root cannot be free
    have hmore := hgave.clearBlocks_gave hs.inv.geom hblocks
    have hle := clearBlocks_le hs'.inv.geom hs'.inv.root_used
    rw [hs'.blocks] at hle
    omega
  · have hless := htook.clearBlocks_took hs.inv.geom hblocks
    refine iff_of_false (by omega) ?_
    rw [htakes]
    decide

section Run

variable {dev : Device} {base_lba : UInt32} {s : Option Vol} {actions : List Action}

section

variable (ho : OnDevice dev base_lba total)

include ho

theorem fresh_head (stack : Bytes)
    (hv : v = ⟨(xvfs_format_at dev base_lba total stack).2, base_lba, formatSuper total, 10, stack⟩) :
    v.read_block 0 = signatureSector ∧ v.read_block 1 = encodeSuper (formatSuper total) := by
  have hdev : v.dev = (xvfs_format_at dev base_lba total stack).2 := by rw [hv]
  have hbase : v.xvfs_base_lba = base_lba := by rw [hv]
  have hstack : v.stack = stack := by rw [hv]
  have hzero : base_lba + 0 = base_lba := UInt32.add_zero _
  have hin0 : dev.inRange (base_lba + 0) = true := ho.inRange (by decide)
  have hin1 : dev.inRange (base_lba + 1) = true := ho.inRange (by decide)
  rw [hzero] at hin0
  obtain ⟨hread0, hread1⟩ := formatHead_spec hin0 hin1 total stack
  unfold Vol.read_block
  rw [hdev, hbase, hstack, format_read ho.ne_zero stack stack (by decide) (by decide),
    format_read ho.ne_zero stack stack (by decide) (by decide), hzero]
  exact ⟨hread0, hread1⟩

theorem fresh_clear (hsize : total.toNat ≤ 32768) (stack : Bytes)
    (hv : v = ⟨(xvfs_format_at dev base_lba total stack).2, base_lba, formatSuper total, 10, stack⟩) :
    clearBlocks v = total.toNat - 11 := by
  have hblocks : v.sb.total_blocks = total := by rw [hv]; rfl
  have hdata : v.sb.data_start.toNat = 10 := by rw [hv]; rfl
  have hset : (Finset.range v.sb.total_blocks.toNat).filter
      (fun b => v.sb.data_start.toNat ≤ b ∧ used v (UInt32.ofNat b) = false) = Finset.Ico 11 total.toNat := by
    ext k
    rw [mem_filter, mem_range, mem_Ico, hblocks, hdata]
    by_cases hlt : k < total.toNat
    · obtain ⟨hk1, hk2⟩ := toNat_ofNat_block (v := v) (by rw [hblocks]; exact hsize) (by rw [hblocks]; exact hlt)
      rw [fresh_used ho stack hv hk2, hk1, decide_eq_false_iff_not]
      omega
    · omega
  unfold clearBlocks
  rw [hset, Nat.card_Ico]

theorem formatted_state (hsize : total.toNat ≤ 32768) (stack : Bytes) :
    ∃ v ∈ formatted dev base_lba total stack, State total v ∧ v.sb.free_blocks = (formatSuper total).free_blocks ∧
      clearBlocks v = total.toNat - 11 := by
  obtain ⟨v, hv, hinv⟩ := formatted_inv ho stack
  have heq := some.inj (hv.symm.trans (ho.formatted_eq stack))
  obtain ⟨hsigned, hsuper⟩ := fresh_head ho stack heq
  exact ⟨v, hv, ⟨hinv, by rw [heq]; rfl, hsigned, hsuper⟩, by rw [heq], fresh_clear ho hsize stack heq⟩

end

theorem act_op (hr : Xvfs.step v op = some r) : act (some v) (.op op) = some r.2 := by
  show next (some v) op = _
  unfold next
  rw [Option.bind_some, hr]
  rfl

theorem act_cases {a : Action} (hs : State total v) (hfits : FitsAction (some v) a) :
    (∃ op r, a = .op op ∧ Fits v op ∧ Xvfs.step v op = some r ∧ act (some v) a = some r.2 ∧ State total r.2) ∨
      ∃ w, a = .remount ∧ act (some v) a = some w ∧ State total w ∧ Alike v w ∧
        (∀ c, w.read_block c = v.read_block c) ∧ w.sb.free_blocks = (formatSuper total).free_blocks := by
  cases a with
  | op op =>
    have hop : Fits v op := hfits v rfl
    obtain ⟨r, hr, hs'⟩ := hs.step hop
    exact .inl ⟨op, r, rfl, hop, hr, act_op hr, hs'⟩
  | remount =>
    obtain ⟨w, hw, hs', halike, hreads, hfree⟩ := hs.remount
    exact .inr ⟨w, rfl, hw, hs', halike, hreads, hfree⟩

theorem counted_of_remount {w : Vol} (hs : State total v) (halike : Alike v w)
    (hreads : ∀ c, w.read_block c = v.read_block c) (hfree : w.sb.free_blocks = (formatSuper total).free_blocks) :
    Counted w ↔ clearBlocks v = total.toNat - 11 := by
  have htotal := hs.inv.geom.total
  rw [hs.blocks] at htotal
  unfold Counted
  rw [hfree, toNat_formatFree htotal, clearBlocks_of_same_reads halike hreads]
  exact eq_comm

theorem counted_act (hs : State total v) (hsize : total.toNat ≤ 32768) {a : Action} (hfits : FitsAction (some v) a)
    (hclean : CleanRemount (some v) a) (hc : Counted v) : ∃ w, act (some v) a = some w ∧ State total w ∧ Counted w := by
  rcases act_cases hs hfits with
    ⟨op, r, -, hop, hr, hact, hs'⟩ | ⟨w, rfl, hact, hs', halike, hreads, hfree⟩
  · exact ⟨r.2, hact, hs', hs.counted_step hsize hop hc hr hs'⟩
  · have hclear : clearBlocks v = v.sb.total_blocks.toNat - 11 := hclean v rfl
    rw [hs.blocks] at hclear
    exact ⟨w, hact, hs', (counted_of_remount hs halike hreads hfree).mpr hclear⟩

theorem formatted_counted (ho : OnDevice dev base_lba total) (hsize : total.toNat ≤ 32768) (stack : Bytes) :
    ∃ v ∈ formatted dev base_lba total stack, State total v ∧ Counted v ∧ clearBlocks v = total.toNat - 11 := by
  obtain ⟨v, hv, hs, hfree, hclear⟩ := formatted_state ho hsize stack
  refine ⟨v, hv, hs, ?_, hclear⟩
  unfold Counted
  rw [hfree, hclear, toNat_formatFree]
  exact ho.root

theorem counted_in_memory_iff (hsize : total.toNat ≤ 32768) (hstart : ∃ u ∈ s, State total u ∧ Counted u)
    (hfits : EachStep act FitsAction s actions) :
    Throughout act (fun s => ∃ u ∈ s, Counted u) s actions ↔ EachStep act CleanRemount s actions := by
  refine throughout_iff_eachStep_under (J := fun s => ∃ u ∈ s, State total u ∧ Counted u) ?_ ?_ ?_ hstart hfits
  · rintro s ⟨u, hu, -, hc⟩
    exact ⟨u, hu, hc⟩
  · rintro s a ⟨u, rfl, hs, hc⟩ hfit hclean
    obtain ⟨w, hw, hs', hc'⟩ := counted_act hs hsize hfit hclean hc
    exact ⟨w, hw, hs', hc'⟩
  · rintro s a ⟨u, rfl, hs, hc⟩ hfit ⟨w, hw, hc'⟩
    rcases act_cases hs hfit with ⟨op, r, rfl, -⟩ | ⟨w', rfl, hact, -, halike, hreads, hfree⟩
    · trivial
    obtain rfl := some.inj (hact.symm.trans hw)
    intro u' hu'
    obtain rfl := some.inj hu'
    rw [hs.blocks]
    exact (counted_of_remount hs halike hreads hfree).mp hc'

theorem counted_on_disk_iff (hsize : total.toNat ≤ 32768)
    (hstart : ∃ u ∈ s, State total u ∧ Counted u ∧ clearBlocks u = total.toNat - 11)
    (hfits : EachStep act FitsAction s actions) :
    Throughout act (fun s => ∃ u ∈ s, Counted u ∧ CountedOnDisk u) s actions ↔ EachStep act TakesNone s actions := by
  refine throughout_iff_eachStep_under
    (J := fun s => ∃ u ∈ s, State total u ∧ Counted u ∧ clearBlocks u = total.toNat - 11) ?_ ?_ ?_ hstart hfits
  · rintro s ⟨u, hu, hs, hc, hclear⟩
    exact ⟨u, hu, hc, hs.countedOnDisk_iff.mpr hclear⟩
  · rintro s a ⟨u, rfl, hs, hc, hclear⟩ hfit htakes
    rcases act_cases hs hfit with ⟨op, r, rfl, hop, hr, hact, hs'⟩ | ⟨w, rfl, hact, hs', halike, hreads, hfree⟩
    · exact ⟨r.2, hact, hs', hs.counted_step hsize hop hc hr hs',
        (hs.clear_step_iff hsize hop hclear hr hs').mpr (htakes u rfl)⟩
    have hclean : CleanRemount (some u) .remount := by
      intro u' hu'
      obtain rfl := some.inj hu'
      rw [hs.blocks]
      exact hclear
    obtain ⟨w', hw', -, hc'⟩ := counted_act hs hsize hfit hclean hc
    obtain rfl := some.inj (hact.symm.trans hw')
    exact ⟨w, hact, hs', hc', (clearBlocks_of_same_reads halike hreads).trans hclear⟩
  · rintro s a ⟨u, rfl, hs, hc, hclear⟩ hfit ⟨w, hw, -, hdisk⟩
    rcases act_cases hs hfit with ⟨op, r, rfl, hop, hr, hact, hs'⟩ | ⟨w', rfl, -⟩
    · obtain rfl := some.inj (hact.symm.trans hw)
      intro u' hu'
      obtain rfl := some.inj hu'
      exact (hs.clear_step_iff hsize hop hclear hr hs').mp (hs'.countedOnDisk_iff.mp hdisk)
    · trivial

end Run

end Orion.Xvfs
