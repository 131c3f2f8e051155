import Orion.Mem.Growth
import Orion.Paging.Proofs.MapProofs

/-!
# What a failed growth of the heap loses

The loop of `heap_commit_to` fails exactly when the free pages do not cover the new pages and the tables in front of the
last one.
-/

namespace Orion.Mem

open Lib List Function
open Paging (PageDir Mapping PAGE_PRESENT PAGE_RW dirIdx tableIdx pageKey)

variable {h : Heap} {k : Backing} {d d' : PageDir} {m : Mapping} {size align last virt phys t : UInt32}
  {pages rest : List UInt32}

theorem kmallocOn_eq (hg : growth h size align = some last) : kmallocOn h k size align =
      (kmalloc_internal h (fun _ => (mapAll (newPages h last) k).1) size align).map
        fun r => (r.1, r.2, (mapAll (newPages h last) k).2) := by
  unfold kmallocOn
  rw [hg]

theorem heap_commit_to_failed (hnew : h.heap_commit_end < alignUp last PAGE_SIZE) :
    heap_commit_to h (fun _ => false) last = some (false, h) := by
  unfold heap_commit_to commitLoop
  rw [if_neg (UInt32.not_le.mpr hnew), if_pos hnew]
  rfl

theorem kmalloc_internal_failed (hg : growth h size align = some last)
    (hnew : h.heap_commit_end < alignUp last PAGE_SIZE) :
    kmalloc_internal h (fun _ => false) size align = some (0, h) := by
  unfold growth at hg
  unfold kmalloc_internal
  split at hg
  · cases hg
  rename_i hsize
  obtain ⟨q, hq, hg⟩ := Option.bind_eq_some_iff.mp hg
  obtain ⟨found, hfound, hg⟩ := Option.bind_eq_some_iff.mp hg
  rw [if_neg hsize]
  rw [hq, Option.bind_eq_bind, Option.bind_some, hfound, Option.bind_eq_bind, Option.bind_some]
  cases found with
  | some _ => cases hg
  | none =>
    unfold allocate_new_block
    dsimp only at hg ⊢
    generalize (if q = 0 then h.heap_curr + HEADER else align_up (h.heap_curr + HEADER) q) = payload at hg ⊢
    split_ifs at hg with hend
    rw [Option.some.injEq] at hg
    rw [if_neg hend, hg, heap_commit_to_failed hnew]
    rfl

theorem vmm_map_page_alloc_none (hfree : k.map.tables = []) : vmm_map_page_alloc k virt = (false, k) := by
  obtain ⟨⟨d, free, entered⟩, held⟩ := k
  cases hfree
  rfl

/-- In `m'` the table of `i` is there, and otherwise the same tables as in `m` are missing. -/
def Fills (m m' : Mapping) (i : Fin 1024) : Prop :=
  ∀ j, m'.dir.pde j &&& PAGE_PRESENT = 0 ↔ m.dir.pde j &&& PAGE_PRESENT = 0 ∧ j ≠ i

theorem missingTables_cons {m' : Mapping} (hf : Fills m m' (dirIdx virt)) : missingTables m.dir (virt :: pages) =
      missingTables m'.dir pages + if m.dir.pde (dirIdx virt) &&& PAGE_PRESENT = 0 then 1 else 0 := by
  unfold missingTables
  rw [map_cons, toFinset_cons, Finset.filter_insert]
  generalize (pages.map dirIdx).toFinset = tables
  have herase : (tables.filter fun j => m'.dir.pde j &&& PAGE_PRESENT = 0) =
      (tables.filter fun j => m.dir.pde j &&& PAGE_PRESENT = 0).erase (dirIdx virt) := by
    ext j
    rw [Finset.mem_filter, hf j, Finset.mem_erase, Finset.mem_filter]
    tauto
  rw [herase]
  split_ifs with hmissing
  · rw [← Finset.erase_insert_eq_erase]
    exact (Finset.card_erase_add_one (Finset.mem_insert_self _ _)).symm
  have hnot : dirIdx virt ∉ tables.filter fun j => m.dir.pde j &&& PAGE_PRESENT = 0 := by
    rw [Finset.mem_filter]
    exact fun hmem => hmissing hmem.2
  rw [Finset.erase_eq_of_notMem hnot]
  rfl

theorem map_page_enters (virt phys : UInt32) (hroom : m.dir.pde (dirIdx virt) &&& PAGE_PRESENT = 0 → m.tables = t :: rest ∧ t ≠ 0) :
    ∃ m', Paging.map_page m virt phys (PAGE_PRESENT ||| PAGE_RW) = m' ∧ Fills m m' (dirIdx virt) ∧
      m'.tables = (if m.dir.pde (dirIdx virt) &&& PAGE_PRESENT = 0 then rest else m.tables) ∧
      m'.entered = (pageKey virt, phys &&& 0xFFFFF000) :: m.entered := by
  refine ⟨_, rfl, ?_⟩
  unfold Paging.map_page
  dsimp only
  by_cases hmissing : m.dir.pde (dirIdx virt) &&& PAGE_PRESENT = 0
  · obtain ⟨hfree, ht⟩ := hroom hmissing
    have hpresent : ((t &&& 0xFFFFF000) ||| PAGE_PRESENT ||| PAGE_RW) &&& PAGE_PRESENT ≠ 0 := by
      rw [or_and_of_disjoint _ (by decide)]
      exact or_and_ne_zero _ (by decide)
    rw [if_pos hmissing, if_pos hmissing, hfree, if_neg (show ¬(Paging.pmm_alloc_page (t :: rest)).1 = 0 from ht)]
    refine ⟨fun j => ?_, rfl, rfl⟩
    change update m.dir.pde (dirIdx virt) ((t &&& 0xFFFFF000) ||| PAGE_PRESENT ||| PAGE_RW) j &&& _ = 0 ↔ _
    by_cases hj : j = dirIdx virt
    · rw [hj, update_self]
      exact ⟨fun hzero => absurd hzero hpresent, fun hne => absurd rfl hne.2⟩
    · rw [update_of_ne hj]
      exact ⟨fun hzero => ⟨hzero, hj⟩, And.left⟩
  · rw [if_neg hmissing, if_neg hmissing]
    refine ⟨fun j => ?_, rfl, rfl⟩
    change update m.dir.pde (dirIdx virt) (m.dir.pde (dirIdx virt)) j &&& _ = 0 ↔ _
    rw [update_eq_self]
    exact ⟨fun hj => ⟨hj, fun heq => hmissing (heq ▸ hj)⟩, And.left⟩

/-- With a free page the call takes it; then the page is entered, or the last free page is gone and the table still
missing. -/
theorem vmm_map_page_alloc_takes (virt : UInt32) (hfree : k.map.tables = t :: rest) (hz : 0 ∉ k.map.tables) :
    ∃ k', vmm_map_page_alloc k virt = (true, k') ∧ 0 ∉ k'.map.tables ∧ k'.held = (virt, t) :: k.held ∧
      (k'.map.tables = [] ∧ rest = [] ∧ k.map.dir.pde (dirIdx virt) &&& PAGE_PRESENT = 0 ∨
        Fills k.map k'.map (dirIdx virt) ∧
          k'.map.tables.length + (if k.map.dir.pde (dirIdx virt) &&& PAGE_PRESENT = 0 then 1 else 0) = rest.length ∧
          k'.map.entered.map Prod.fst = pageKey virt :: k.map.entered.map Prod.fst) := by
  rw [hfree] at hz
  have ht : t ≠ 0 := fun heq => hz (heq ▸ mem_cons_self)
  have hrest : 0 ∉ rest := fun hmem => hz (mem_cons_of_mem t hmem)
  unfold vmm_map_page_alloc
  rw [hfree]
  refine ⟨_, if_neg ht, ?_⟩
  by_cases hgone : k.map.dir.pde (dirIdx virt) &&& PAGE_PRESENT = 0 ∧ rest = []
  · obtain ⟨hmissing, rfl⟩ := hgone
    have hsame : Paging.map_page { k.map with tables := [] } virt t (PAGE_PRESENT ||| PAGE_RW) =
        { k.map with tables := [] } := if_pos hmissing
    rw [hsame]
    exact ⟨hrest, rfl, .inl ⟨rfl, rfl, hmissing⟩⟩
  · have hroom (hmissing : k.map.dir.pde (dirIdx virt) &&& PAGE_PRESENT = 0) :
        rest = rest.headD 0 :: rest.tail ∧ rest.headD 0 ≠ 0 := by
      cases rest with
      | nil => exact absurd ⟨hmissing, rfl⟩ hgone
      | cons u rest => exact ⟨rfl, fun heq => hrest (heq ▸ mem_cons_self)⟩
    obtain ⟨m', hm, hf, htables, hentered⟩ := map_page_enters (m := { k.map with tables := rest }) virt t hroom
    rw [hm, htables, hentered]
    refine ⟨?_, rfl, .inr ⟨hf, ?_, rfl⟩⟩
    · split
      · exact fun hmem => hrest (mem_of_mem_tail hmem)
      · exact hrest
    · split
      · rename_i hmissing
        rw [(hroom hmissing).1]
        rfl
      · rfl

/-- The walk succeeds with a free page for each page and each table missing in front of the last, whose own table it
does not ask for. -/
theorem mapAll_ok_iff (hz : 0 ∉ k.map.tables) :
    (mapAll pages k).1 = true ↔ pages.length + missingTables k.map.dir pages.dropLast ≤ k.map.tables.length := by
  induction pages generalizing k with
  | nil => exact ⟨fun _ => Nat.zero_le _, fun _ => rfl⟩
  | cons page pages ih =>
    unfold mapAll
    rcases hfree : k.map.tables with _ | ⟨t, rest⟩
    · rw [vmm_map_page_alloc_none hfree]
      simp
    obtain ⟨k', hk, hz', -, hstep⟩ := vmm_map_page_alloc_takes page hfree hz
    rw [hk]
    rw [ih hz']
    rcases pages with _ | ⟨q, pages⟩
    · simp [missingTables]
    rw [dropLast_cons_cons]
    obtain ⟨htables, hrest, -⟩ | ⟨hf, hlength, -⟩ := hstep
    · simp only [htables, hrest, length_cons, length_nil]
      omega
    · rw [missingTables_cons hf]
      simp only [length_cons]
      omega

theorem mapAll_enters (hz : 0 ∉ k.map.tables)
    (henough : pages.length + missingTables k.map.dir pages ≤ k.map.tables.length) :
    (mapAll pages k).2.map.entered.map Prod.fst = (pages.map pageKey).reverse ++ k.map.entered.map Prod.fst := by
  induction pages generalizing k with
  | nil => rfl
  | cons page pages ih =>
    unfold mapAll
    rcases hfree : k.map.tables with _ | ⟨t, rest⟩
    · rw [hfree] at henough
      simp at henough
    obtain ⟨k', hk, hz', -, hstep⟩ := vmm_map_page_alloc_takes page hfree hz
    rw [hk]
    obtain ⟨-, rfl, hmissing⟩ | ⟨hf, hlength, hentered⟩ := hstep
    · have hone : 1 ≤ missingTables k.map.dir (page :: pages) :=
        Finset.card_pos.mpr ⟨dirIdx page, Finset.mem_filter.mpr ⟨by simp, hmissing⟩⟩
      rw [hfree, length_cons] at henough
      simp only [length_cons, length_nil] at henough
      omega
    · rw [missingTables_cons hf, hfree, length_cons, length_cons] at henough
      rw [ih hz' (by omega), hentered]
      simp

theorem mapAll_none (hfree : k.map.tables = []) : (mapAll pages k).2 = k := by
  rcases pages with _ | ⟨page, pages⟩
  · rfl
  unfold mapAll
  rw [vmm_map_page_alloc_none hfree]

theorem held_subset_mapAll : k.held ⊆ (mapAll pages k).2.held := by
  induction pages generalizing k with
  | nil => exact List.Subset.refl _
  | cons page pages ih =>
    have hstep : k.held ⊆ (vmm_map_page_alloc k page).2.held := by
      unfold vmm_map_page_alloc
      dsimp only
      split
      · exact List.Subset.refl _
      · exact subset_cons_self _ _
    unfold mapAll
    rcases hk : vmm_map_page_alloc k page with ⟨ok, k'⟩
    rw [hk] at hstep
    cases ok with
    | true => exact List.Subset.trans hstep ih
    | false => exact hstep

/-- With a free page the walk holds a page for its first page, whatever happens later. -/
theorem mem_held_mapAll (hfree : k.map.tables = t :: rest) (hz : 0 ∉ k.map.tables) :
    (virt, t) ∈ (mapAll (virt :: pages) k).2.held := by
  obtain ⟨k', hk, -, hheld, -⟩ := vmm_map_page_alloc_takes virt hfree hz
  unfold mapAll
  rw [hk]
  exact held_subset_mapAll (hheld ▸ mem_cons_self)

theorem pageKey_eq {a b : UInt32} (hkey : pageKey a = pageKey b) : a.toNat / 4096 = b.toNat / 4096 := by
  obtain ⟨hdir, htable⟩ := Prod.mk.inj hkey
  have hdir' : (a >>> 22).toNat % 1024 = (b >>> 22).toNat % 1024 := congrArg Fin.val hdir
  have htable' : ((a >>> 12) &&& 0x3FF).toNat % 1024 = ((b >>> 12) &&& 0x3FF).toNat % 1024 := congrArg Fin.val htable
  have hand (x : UInt32) : ((x >>> 12) &&& 0x3FF).toNat = x.toNat / 4096 % 1024 := by
    rw [UInt32.toNat_and, UInt32.toNat_shiftRight]
    change (x.toNat >>> 12) &&& (2 ^ 10 - 1) = _
    rw [Nat.and_two_pow_sub_one_eq_mod, Nat.shiftRight_eq_div_pow]
  have hshift (x : UInt32) : (x >>> 22).toNat = x.toNat / 4194304 := by
    rw [UInt32.toNat_shiftRight]
    exact Nat.shiftRight_eq_div_pow _ _
  have ha := a.toNat_lt
  have hb := b.toNat_lt
  rw [hand, hand] at htable'
  rw [hshift, hshift] at hdir'
  omega

theorem pagesFrom_increasing (n : ℕ) (addr : UInt32) (hn : addr.toNat + 4096 * n ≤ 2 ^ 32) :
    (pagesFrom n addr).Pairwise (fun a b => a.toNat / 4096 < b.toNat / 4096) ∧
      ∀ page ∈ pagesFrom n addr, addr.toNat / 4096 ≤ page.toNat / 4096 := by
  induction n generalizing addr with
  | zero => exact ⟨List.Pairwise.nil, fun _ hmem => absurd hmem not_mem_nil⟩
  | succ n ih =>
    rcases Nat.eq_zero_or_pos n with rfl | hpos
    · simp [pagesFrom]
    have hnext : (addr + PAGE_SIZE).toNat = addr.toNat + 4096 := by
      rw [UInt32.toNat_add]
      exact Nat.mod_eq_of_lt (by change addr.toNat + 4096 < _; omega)
    obtain ⟨hincreasing, hge⟩ := ih (addr + PAGE_SIZE) (by omega)
    refine ⟨pairwise_cons.mpr ⟨fun page hpage => ?_, hincreasing⟩, fun page hpage => ?_⟩
    · have := hge page hpage
      omega
    obtain rfl | hpage := mem_cons.mp hpage
    · exact le_rfl
    · have := hge page hpage
      omega

theorem newPages_keys_nodup (h : Heap) (last : UInt32) : ((newPages h last).map pageKey).Nodup := by
  have hdvd : 4096 ∣ (alignUp last PAGE_SIZE).toNat := dvd_alignUp (k := 12) rfl last
  have hlt := (alignUp last PAGE_SIZE).toNat_lt
  have hcommit := h.heap_commit_end.toNat_lt
  have hincreasing := (pagesFrom_increasing
    (((alignUp last PAGE_SIZE).toNat - h.heap_commit_end.toNat + 4095) / 4096) h.heap_commit_end (by omega)).1
  exact pairwise_map.mpr (hincreasing.imp fun hab hkey => absurd (pageKey_eq hkey) hab.ne)

theorem newPages_of_le (hle : alignUp last PAGE_SIZE ≤ h.heap_commit_end) : newPages h last = [] := by
  rw [UInt32.le_iff_toNat_le] at hle
  unfold newPages
  rw [show ((alignUp last PAGE_SIZE).toNat - h.heap_commit_end.toNat + 4095) / 4096 = 0 by omega]
  rfl

theorem kmallocOn_failed (hg : growth h size align = some last) (hfail : (mapAll (newPages h last) k).1 = false) :
    kmallocOn h k size align = some (0, h, (mapAll (newPages h last) k).2) := by
  have hnew : h.heap_commit_end < alignUp last PAGE_SIZE := by
    by_contra hle
    rw [newPages_of_le (UInt32.not_lt.mp hle)] at hfail
    cases hfail
  rw [kmallocOn_eq hg, hfail, kmalloc_internal_failed hg hnew]
  rfl

/-- A page taken before the failure is held, but it is not recorded. -/
theorem page_lost {free : FreePages} (hg : growth h size align = some last) (hsome : free.pages ≠ [])
    (hshort : free.pages.length < (newPages h last).length + missingTables d (newPages h last).dropLast) :
    ¬LosesNoPage h d free size align := by
  intro hloses
  have hz : 0 ∉ (free.backing d).map.tables := free.nonzero
  have hfail : (mapAll (newPages h last) (free.backing d)).1 = false := by
    rw [Bool.eq_false_iff, ne_eq, mapAll_ok_iff hz]
    exact Nat.not_le.mpr hshort
  obtain ⟨h', k', hresult, hlost⟩ := hloses last hg hfail
  rw [kmallocOn_failed hg hfail] at hresult
  cases hresult
  have hrecorded := hlost.recorded
  obtain ⟨t, rest, hfree⟩ := exists_cons_of_ne_nil hsome
  obtain ⟨pages, hpages⟩ : ∃ pages, newPages h last = h.heap_commit_end :: pages := by
    unfold newPages at hfail ⊢
    generalize ((alignUp last PAGE_SIZE).toNat - h.heap_commit_end.toNat + 4095) / 4096 = n at hfail ⊢
    cases n with
    | zero => cases hfail
    | succ n => exact ⟨_, rfl⟩
  rw [hpages] at hrecorded
  exact UInt32.lt_irrefl _ (hrecorded _ (mem_held_mapAll hfree hz))

/-- Without a free page nothing is taken, and the next try maps each page once. -/
theorem nothing_lost (hg : growth h size align = some last) : NothingLost h size align last h ⟨⟨d, [], []⟩, []⟩ where
  list := ⟨rfl, rfl, rfl⟩
  curr := rfl
  recorded := fun _ hmem => absurd hmem not_mem_nil
  retry := by
    intro freed henough p h'' k'' hresult page hpage
    rw [kmallocOn_eq hg, Option.map_eq_some_iff] at hresult
    obtain ⟨r, -, hr⟩ := hresult
    obtain ⟨-, -, rfl⟩ := Prod.mk.inj hr
    have hentered := mapAll_enters (k := freed.backing d) freed.nonzero henough
    rw [show (freed.backing d).map.entered.map Prod.fst = [] from rfl, append_nil] at hentered
    change ((mapAll (newPages h last) (freed.backing d)).2.map.entered.map Prod.fst).count _ = 1
    rw [hentered, count_reverse]
    exact count_eq_one_of_mem (newPages_keys_nodup h last) (mem_map_of_mem hpage)

/-- A failed growth of the heap loses no page exactly when the free pages cover the request or there are none. -/
theorem loses_no_page_iff (h : Heap) (d : PageDir) (free : FreePages) (size align : UInt32) :
    LosesNoPage h d free size align ↔ EnoughOrNone h d free size align := by
  constructor
  · intro hloses last hg
    by_contra hnot
    obtain ⟨hsome, hshort⟩ := not_or.mp hnot
    exact page_lost hg hsome (Nat.not_le.mp hshort) hloses
  · intro henough last hg hfail
    have hnone : free.pages = [] := by
      refine (henough last hg).resolve_right fun hle => ?_
      rw [(mapAll_ok_iff (k := free.backing d) free.nonzero).mpr hle] at hfail
      cases hfail
    refine ⟨h, ⟨⟨d, [], []⟩, []⟩, ?_, nothing_lost hg⟩
    rw [kmallocOn_failed hg hfail, mapAll_none (k := free.backing d) hnone, FreePages.backing, hnone]

/-- The heap after `kmalloc_init`, with its first page committed. -/
def freshHeap : Heap where
  mem := fun _ => 0
  heap_base := 0xC1000000
  heap_curr := 0xC1000000
  heap_commit_end := 0xC1001000
  heap_end := 0xC5000000
  heap_head := 0
  heap_tail := 0

/-- A request for two more pages with one page free: the page is mapped and lost. -/
theorem one_of_two_pages_lost : ¬LosesNoPage freshHeap ⟨fun _ => 1, fun _ _ => 0⟩ ⟨[0x200000], by decide⟩ 0x2000 0 :=
  page_lost (show growth freshHeap 0x2000 0 = some 0xC1002010 by decide) (by decide) (by decide)

end Orion.Mem
