import Orion.Pmm.Pages

/-!
# Proofs: free pages are good pages

Every function is described by the bits it changes. A page whose bit is clear is usable memory, not reserved and not
handed out.
-/

namespace Orion.Pmm

open Lib List
open Option (bind_eq_bind bind_some some.inj)

variable {s : State} {b : Boot} {p : ℕ} {l : List ℕ} {a : Bytes} {n i : ℕ} {e : Entry}

/-- The bitmap says that the page is in use. -/
def Used (s : State) (j : ℕ) : Prop := s.pmm_bitmap.bitTest j = true

/-- The page lies below `max_physical_page`. -/
def Mapped (s : State) (j : ℕ) : Prop := j < s.max_physical_page.toNat

theorem used_or_iff {q : Prop} (hp : ¬ Mapped s p) (j : ℕ) : q ↔ q ∨ j = p ∧ Mapped s j := by
  constructor
  · exact Or.inl
  · rintro (hq | ⟨rfl, hj⟩)
    · exact hq
    · exact absurd hj hp

theorem mark_used_eq (s : State) (hp : p < MAX_PAGES) : ∃ a, mark_used s p = some { s with pmm_bitmap := a } ∧
      ∀ j, a.bitTest j = true ↔ Used s j ∨ j = p ∧ Mapped s j := by
  unfold mark_used BIT_SET
  by_cases hmap : p < s.max_physical_page.toNat
  · refine ⟨s.pmm_bitmap.bitSet p, by simp [hmap, hp], ?_⟩
    intro j
    rw [Bytes.bitTest_bitSet]
    simp only [Bool.or_eq_true, decide_eq_true_eq, Used, Mapped]
    constructor
    · rintro (hj | rfl)
      · exact .inl hj
      · exact .inr ⟨rfl, hmap⟩
    · rintro (hj | ⟨hj, -⟩)
      · exact .inl hj
      · exact .inr hj
  · exact ⟨s.pmm_bitmap, by simp [hmap], fun j => used_or_iff hmap j⟩

theorem mark_free_eq (s : State) (hp : p < MAX_PAGES) : ∃ a, mark_free s p = some { s with pmm_bitmap := a } ∧
      ∀ j, a.bitTest j = false ↔ ¬ Used s j ∨ j = p ∧ Mapped s j := by
  unfold mark_free BIT_CLEAR
  by_cases hmap : p < s.max_physical_page.toNat
  · refine ⟨s.pmm_bitmap.bitClear p, by simp [hmap, hp], ?_⟩
    intro j
    rw [Bytes.bitTest_bitClear]
    simp only [Bool.and_eq_false_iff, Bool.not_eq_false', decide_eq_true_eq, Used, Mapped, Bool.not_eq_true]
    constructor
    · rintro (hj | rfl)
      · exact .inl hj
      · exact .inr ⟨rfl, hmap⟩
    · rintro (hj | ⟨hj, -⟩)
      · exact .inl hj
      · exact .inr hj
  · refine ⟨s.pmm_bitmap, by simp [hmap], ?_⟩
    intro j
    rw [← used_or_iff hmap, Used, Bool.not_eq_true]

theorem reservePage_eq (s : State) (hp : p < MAX_PAGES) :
    ∃ s', reservePage s p = some s' ∧ s'.max_physical_page = s.max_physical_page ∧
      ∀ j, Used s' j ↔ Used s j ∨ j = p ∧ Mapped s j := by
  unfold reservePage
  by_cases hmap : p < s.max_physical_page.toNat
  · simp only [hmap, if_true, BIT_TEST, hp, bind_eq_bind, bind_some]
    split
    · obtain ⟨a, heq, hbits⟩ := mark_used_eq s hp
      exact ⟨_, heq, rfl, hbits⟩
    · obtain ⟨a, heq, hbits⟩ := mark_used_eq { s with free_memory := s.free_memory - 4096 } hp
      exact ⟨_, heq, rfl, hbits⟩
  · exact ⟨s, by simp [hmap], rfl, fun j => used_or_iff hmap j⟩

theorem foldlM_reservePage (hl : ∀ p ∈ l, p < MAX_PAGES) (s : State) :
    ∃ s', l.foldlM reservePage s = some s' ∧ s'.max_physical_page = s.max_physical_page ∧
      ∀ j, Used s' j ↔ Used s j ∨ j ∈ l ∧ Mapped s j := by
  induction l generalizing s with
  | nil => exact ⟨s, rfl, rfl, by simp⟩
  | cons p l ih =>
    obtain ⟨t, ht, hmax, hbits⟩ := reservePage_eq s (hl p mem_cons_self)
    obtain ⟨u, hu, hmax', hbits'⟩ := ih (fun q hq => hl q (mem_cons_of_mem p hq)) t
    refine ⟨u, ?_, hmax'.trans hmax, ?_⟩
    · rw [foldlM_cons, ht]
      exact hu
    · intro j
      have hmap : Mapped t j ↔ Mapped s j := by rw [Mapped, Mapped, hmax]
      rw [hbits', hbits, hmap, mem_cons, or_and_right, or_assoc]

theorem foldlM_mark_free (hl : ∀ p ∈ l, p < MAX_PAGES) (s : State) :
    ∃ a, l.foldlM mark_free s = some { s with pmm_bitmap := a } ∧
      ∀ j, a.bitTest j = false ↔ ¬ Used s j ∨ j ∈ l ∧ Mapped s j := by
  induction l generalizing s with
  | nil => exact ⟨s.pmm_bitmap, rfl, by simp [Used]⟩
  | cons p l ih =>
    obtain ⟨a, ha, hbits⟩ := mark_free_eq s (hl p mem_cons_self)
    obtain ⟨c, hc, hbits'⟩ := ih (fun q hq => hl q (mem_cons_of_mem p hq)) { s with pmm_bitmap := a }
    refine ⟨c, ?_, ?_⟩
    · rw [foldlM_cons, ha]
      exact hc
    intro j
    have hclear : ¬ Used { s with pmm_bitmap := a } j ↔ ¬ Used s j ∨ j = p ∧ Mapped s j := by
      rw [← hbits j, Used, Bool.not_eq_true]
    rw [hbits', hclear, mem_cons, or_and_right, or_assoc]
    rfl

theorem pmm_reserve_region_eq (s : State) (start stop : UInt32) :
    ∃ s', pmm_reserve_region s start stop = some s' ∧ s'.max_physical_page = s.max_physical_page ∧
      ∀ j, Used s' j ↔ Used s j ∨ (start.toNat / 4096 ≤ j ∧ j < (stop.toNat + 4095) % 2 ^ 32 / 4096) ∧ Mapped s j := by
  have hfirst : (start / 4096).toNat = start.toNat / 4096 := by simp
  have hlast : ((stop + 4096 - 1) / 4096).toNat = (stop.toNat + 4095) % 2 ^ 32 / 4096 := by
    simp only [UInt32.toNat_div, UInt32.toNat_sub, UInt32.toNat_add, UInt32.reduceToNat]
    omega
  have hl : ∀ p ∈ List.range' (start.toNat / 4096) ((stop.toNat + 4095) % 2 ^ 32 / 4096 - start.toNat / 4096),
      p < MAX_PAGES := by
    intro p hp
    rw [mem_range'_1] at hp
    unfold MAX_PAGES
    omega
  obtain ⟨s', heq, hmax, hbits⟩ := foldlM_reservePage hl s
  refine ⟨s', ?_, hmax, ?_⟩
  · unfold pmm_reserve_region
    simp only [hfirst, hlast]
    exact heq
  · intro j
    have hrange : (start.toNat / 4096 ≤ j ∧ j < start.toNat / 4096 +
        ((stop.toNat + 4095) % 2 ^ 32 / 4096 - start.toNat / 4096)) ↔
        start.toNat / 4096 ≤ j ∧ j < (stop.toNat + 4095) % 2 ^ 32 / 4096 := by omega
    rw [hbits, mem_range'_1, hrange]

theorem scanFree_succ (a : Bytes) (n i : ℕ) : scanFree a (n + 1) i =
    if i < MAX_PAGES then if a.bitTest i then scanFree a n (i + 1) else some (some i) else none := by
  rw [scanFree, BIT_TEST]
  split
  · rfl
  · rfl

theorem scanFree_found (h : scanFree a n i = some (some p)) : p < i + n ∧ p < MAX_PAGES ∧ a.bitTest p = false := by
  induction n generalizing i with
  | zero => cases h
  | succ n ih =>
    rw [scanFree_succ] at h
    split at h
    · rename_i hi
      split at h
      · obtain ⟨hlt, hrest⟩ := ih h
        exact ⟨by omega, hrest⟩
      · rename_i hbit
        obtain rfl : i = p := by simpa using h
        exact ⟨by omega, hi, by simpa using hbit⟩
    · cases h

theorem scanFree_isSome
    (h : i + n ≤ MAX_PAGES ∨ ∃ p < MAX_PAGES, i ≤ p ∧ a.bitTest p = false) : (scanFree a n i).isSome := by
  induction n generalizing i with
  | zero => rfl
  | succ n ih =>
    have hi : i < MAX_PAGES := by
      rcases h with h | ⟨p, hp, hip, -⟩
      · omega
      · omega
    rw [scanFree_succ, if_pos hi]
    split
    · rename_i hbit
      apply ih
      rcases h with h | ⟨p, hp, hip, hclear⟩
      · exact .inl (by omega)
      have hne : i ≠ p := by
        rintro rfl
        simp [hbit] at hclear
      exact .inr ⟨p, hp, by omega, hclear⟩
    · rfl

def address (p : ℕ) : UInt32 := UInt32.ofNat (p * 4096)

theorem toNat_address (hp : p < MAX_PAGES) : (address p).toNat = p * 4096 := by
  unfold MAX_PAGES at hp
  rw [address, UInt32.toNat_ofNat']
  omega

/-- What `pmm_alloc_page` does when its search stays in the bitmap: nothing, or it takes a page. -/
theorem pmm_alloc_page_cases (hfind : (find_free_page s).isSome) : pmm_alloc_page s = some (s, none) ∨
    ∃ p s', pmm_alloc_page s = some (s', some (address p)) ∧ p < MAX_PAGES ∧ Mapped s p ∧ ¬ Used s p ∧
      s'.max_physical_page = s.max_physical_page ∧ ∀ j, Used s' j ↔ Used s j ∨ j = p ∧ Mapped s j := by
  obtain ⟨found, hfound⟩ := Option.isSome_iff_exists.mp hfind
  rcases found with _ | p
  · left
    rw [pmm_alloc_page, hfound]
    rfl
  right
  obtain ⟨hlt, hp, hclear⟩ := scanFree_found hfound
  obtain ⟨a, heq, hbits⟩ := mark_used_eq s hp
  refine ⟨p, { s with pmm_bitmap := a, free_memory := s.free_memory - 4096 }, ?_, hp, ?_, ?_, rfl, hbits⟩
  · rw [pmm_alloc_page, hfound]
    simp only [bind_eq_bind, bind_some, heq]
    rfl
  · simpa [Mapped] using hlt
  · simp [Used, hclear]

/-- What `pmm_free_page` does with a page of the bitmap: it clears the bit of a mapped page. -/
theorem pmm_free_page_eq (s : State) (hp : p < MAX_PAGES) :
    ∃ s', pmm_free_page s (address p) = some s' ∧ s'.max_physical_page = s.max_physical_page ∧
      ∀ j, ¬ Used s' j → ¬ Used s j ∨ j = p ∧ Mapped s j := by
  have hidx : (address p / 4096).toNat = p := by
    rw [UInt32.toNat_div, toNat_address hp]
    exact Nat.mul_div_left p (by norm_num)
  unfold pmm_free_page
  simp only [hidx]
  split
  · exact ⟨s, rfl, rfl, fun j hj => .inl hj⟩
  rw [BIT_TEST, if_pos hp]
  simp only [bind_eq_bind, bind_some]
  split
  · obtain ⟨a, heq, hbits⟩ := mark_free_eq s hp
    rw [heq]
    refine ⟨_, rfl, rfl, ?_⟩
    intro j hj
    rw [← hbits j]
    simpa [Used] using hj
  · exact ⟨s, rfl, rfl, fun j hj => .inl hj⟩

/-- A page with a clear bit is mapped, lies in usable memory and outside the regions `R`. -/
def FreeOk (b : Boot) (R : List (ℕ × ℕ)) (s : State) : Prop :=
  ∀ p < MAX_PAGES, ¬ Used s p →
    Mapped s p ∧ (∃ e ∈ b.usable, e.Contains (address p)) ∧ ∀ r ∈ R, ¬ Overlaps (address p) r

variable {R : List (ℕ × ℕ)} {r : ℕ × ℕ} {start stop : UInt32}

theorem FreeOk.mono {R' : List (ℕ × ℕ)} (h : FreeOk b R s) (hsub : R' ⊆ R) : FreeOk b R' s := by
  intro p hp hfree
  obtain ⟨hmap, husable, hR⟩ := h p hp hfree
  exact ⟨hmap, husable, fun r hr => hR r (hsub hr)⟩

theorem pages_of_overlaps (hp : p < MAX_PAGES) (hfits : Fits r) (hstart : start.toNat = r.1)
    (hstop : stop.toNat = r.2 % 2 ^ 32) (hover : Overlaps (address p) r) :
    start.toNat / 4096 ≤ p ∧ p < (stop.toNat + 4095) % 2 ^ 32 / 4096 := by
  unfold Overlaps at hover
  rw [toNat_address hp] at hover
  rcases hfits with hempty | hfits
  · omega
  · omega

theorem FreeOk.reserve (h : FreeOk b R s) (start stop : UInt32) (hfits : Fits r) (hstart : start.toNat = r.1)
    (hstop : stop.toNat = r.2 % 2 ^ 32) :
    ∃ s', pmm_reserve_region s start stop = some s' ∧ s'.max_physical_page = s.max_physical_page ∧
      (∀ j, Used s j → Used s' j) ∧ FreeOk b (r :: R) s' := by
  obtain ⟨s', heq, hmax, hbits⟩ := pmm_reserve_region_eq s start stop
  refine ⟨s', heq, hmax, fun j hj => (hbits j).mpr (.inl hj), ?_⟩
  intro p hp hfree
  rw [hbits, not_or] at hfree
  obtain ⟨hmap, husable, hR⟩ := h p hp hfree.1
  refine ⟨by rwa [Mapped, hmax], husable, forall_mem_cons.mpr ⟨?_, hR⟩⟩
  intro hover
  exact hfree.2 ⟨pages_of_overlaps hp hfits hstart hstop hover, hmap⟩

theorem Entry.contains_of_pages (haligned : e.addr % 4096 = 0) (hp : p < MAX_PAGES)
    (hfirst : e.firstPage ≤ p) (hlast : p < e.endPage) : e.Contains (address p) := by
  have hdvd : e.addr.toNat % 4096 = 0 := by
    have h := congrArg UInt64.toNat haligned
    simpa using h
  simp only [Entry.firstPage, Entry.endPage, UInt64.toNat_div, UInt64.toNat_add, UInt64.reduceToNat] at hfirst hlast
  unfold Entry.Contains
  rw [toNat_address hp]
  omega

/-- A page with a clear bit is mapped and between the rounded bounds of a usable region. -/
def FromMap (b : Boot) (s : State) : Prop :=
  ∀ p, ¬ Used s p → Mapped s p ∧ ∃ e ∈ b.usable, e.firstPage ≤ p ∧ p < e.endPage

theorem fromMap_addEntry (he : e.type = 1 → e ∈ b.usable) (h : FromMap b s) :
    ∃ s', addEntry s e = some s' ∧ FromMap b s' := by
  unfold addEntry
  split
  · rename_i htype
    -- the bound on the pages only grows, and it is at least the end of the region
    generalize hs : (if (e.addr + e.len) / 4096 > s.max_physical_page then
      { s with max_physical_page := (e.addr + e.len) / 4096 } else s) = t
    have hgrow : ∀ j, Mapped s j ∨ j < e.endPage → Mapped t j := by
      intro j hj
      rw [← hs]
      split
      · rename_i hgt
        have hgt' : s.max_physical_page.toNat < ((e.addr + e.len) / 4096).toNat := hgt
        simp only [Mapped, Entry.endPage] at hj ⊢
        omega
      · rename_i hle
        have hle' : ¬ s.max_physical_page.toNat < ((e.addr + e.len) / 4096).toNat := hle
        simp only [Mapped, Entry.endPage] at hj ⊢
        omega
    have hbitmap : t.pmm_bitmap = s.pmm_bitmap := by
      rw [← hs]
      split <;> rfl
    have hl : ∀ p ∈ List.range' e.firstPage (min e.endPage MAX_PAGES - e.firstPage), p < MAX_PAGES := by
      intro p hp
      rw [mem_range'_1] at hp
      omega
    obtain ⟨a, ha, hbits⟩ := foldlM_mark_free hl t
    simp only [hs, ha, bind_eq_bind, bind_some]
    refine ⟨_, rfl, ?_⟩
    intro p hp
    have hcase : ¬ Used t p ∨ _ := (hbits p).mp (by simpa [Used] using hp)
    rcases hcase with hold | ⟨hmem, hmap⟩
    · have hold' : ¬ Used s p := by rwa [Used, hbitmap] at hold
      obtain ⟨hmap, husable⟩ := h p hold'
      exact ⟨hgrow p (.inl hmap), husable⟩
    · rw [mem_range'_1] at hmem
      exact ⟨hmap, e, he htype, hmem.1, by omega⟩
  · exact ⟨s, rfl, h⟩

theorem fromMap_addTag {tag : Tag} (htag : tag ∈ b.tags) (h : FromMap b s) :
    ∃ s', addTag s tag = some s' ∧ FromMap b s' := by
  cases tag with
  | mmap entries =>
    refine foldlM_of_inv (fun t e he ht => fromMap_addEntry (fun htype => ?_) ht) h
    simp only [Boot.usable, mem_filter, mem_flatMap]
    exact ⟨⟨_, htag, he⟩, by simpa using htype⟩
  | module mod_start mod_end => exact ⟨s, rfl, h⟩
  | other => exact ⟨s, rfl, h⟩

theorem fromMap_blank : FromMap b blank := by
  intro p hp
  have hbit : ∀ k < 8, (0xFF : UInt8) &&& bit k ≠ 0 := by decide
  exact absurd (decide_eq_true (hbit (p % 8) (Nat.mod_lt p (by norm_num)))) hp

theorem freeOk_reserveTags {tags : List Tag} (hfits : ∀ r ∈ tags.filterMap Tag.region, Fits r) (h : FreeOk b R s) :
    ∃ s', tags.foldlM reserveTag s = some s' ∧ FreeOk b (tags.filterMap Tag.region ++ R) s' := by
  induction tags generalizing R s with
  | nil => exact ⟨s, rfl, h⟩
  | cons tag tags ih =>
    rw [foldlM_cons]
    cases tag with
    | module mod_start mod_end =>
      have hregion : List.filterMap Tag.region (.module mod_start mod_end :: tags) =
          (mod_start.toNat, mod_end.toNat) :: tags.filterMap Tag.region := rfl
      rw [hregion] at hfits ⊢
      rw [forall_mem_cons] at hfits
      obtain ⟨t, ht, -, -, hok⟩ := h.reserve mod_start mod_end hfits.1 rfl (Nat.mod_eq_of_lt mod_end.toNat_lt).symm
      obtain ⟨u, hu, hok'⟩ := ih hfits.2 hok
      refine ⟨u, by simpa [reserveTag, ht] using hu, hok'.mono ?_⟩
      intro r hr
      simp only [cons_append, mem_cons, mem_append] at hr ⊢
      tauto
    | mmap entries => exact ih hfits h
    | other => exact ih hfits h

/-- After `pmm_init` the free pages are usable and outside the regions it has to reserve. -/
theorem pmm_init_ok (hb : b.Regular) : ∃ s, pmm_init b = some s ∧ FreeOk b b.regions s := by
  obtain ⟨s₀, h₀, hmap⟩ := foldlM_of_inv (fun s tag htag hs => fromMap_addTag htag hs) (fromMap_blank (b := b))
  have hok : FreeOk b [] s₀ := by
    intro p hp hfree
    obtain ⟨hmapped, e, he, hfirst, hlast⟩ := hmap p hfree
    exact ⟨hmapped, ⟨e, he, Entry.contains_of_pages (hb.aligned e he) hp hfirst hlast⟩, by simp⟩
  have hfits := hb.fits
  simp only [Boot.regions, forall_mem_cons] at hfits
  obtain ⟨hlow, hkernel, hinfo, hmodules⟩ := hfits
  have hwrap := Nat.mod_eq_of_lt b.kernel_end.toNat_lt
  obtain ⟨s₁, h₁, -, -, hok₁⟩ := hok.reserve 0 0x100000 hlow rfl rfl
  obtain ⟨s₂, h₂, -, -, hok₂⟩ := hok₁.reserve b.kernel_start b.kernel_end hkernel rfl hwrap.symm
  obtain ⟨s₃, h₃, -, -, hok₃⟩ := hok₂.reserve b.mb_info_addr (b.mb_info_addr + b.total_size) hinfo rfl
    (UInt32.toNat_add _ _)
  obtain ⟨s₄, h₄, hok₄⟩ := freeOk_reserveTags hmodules hok₃
  refine ⟨s₄, ?_, hok₄.mono ?_⟩
  · simp only [pmm_init, h₀, h₁, h₂, h₃, bind_eq_bind, bind_some]
    exact h₄
  · intro r hr
    simp only [Boot.regions, mem_cons, mem_append, not_mem_nil, or_false] at hr ⊢
    tauto

/-- The invariant of a run. -/
structure Inv (b : Boot) (s : Sys) : Prop where
  free : FreeOk b s.reserved s.pmm
  fresh : ∀ p < MAX_PAGES, ¬ Used s.pmm p → address p ∉ s.allocated
  returned : ∀ page ∈ s.returned, ∃ p < MAX_PAGES, page = address p ∧ Mapped s.pmm p ∧ ∃ e ∈ b.usable, e.Contains page

variable {t : Sys} {op : Op}

theorem address_inj {q : ℕ} (hp : p < MAX_PAGES) (hq : q < MAX_PAGES) (h : address p = address q) : p = q := by
  have hnat := congrArg UInt32.toNat h
  rw [toNat_address hp, toNat_address hq] at hnat
  omega

theorem Inv.goodPage (hI : Inv b t) (hp : p < MAX_PAGES) (hfree : ¬ Used t.pmm p) : GoodPage b t (address p) := by
  obtain ⟨-, husable, hR⟩ := hI.free p hp hfree
  exact ⟨hI.fresh p hp hfree, hR, husable⟩

theorem Inv.reserve (hI : Inv b t) (hfits : Fits (start.toNat, stop.toNat)) :
    ∃ t', call t (.reserve start stop) = some t' ∧ Inv b t' := by
  obtain ⟨s', heq, hmax, hgrow, hok⟩ := hI.free.reserve start stop hfits rfl (Nat.mod_eq_of_lt stop.toNat_lt).symm
  refine ⟨_, by rw [call, heq]; rfl, hok, ?_, ?_⟩
  · intro p hp hfree
    exact hI.fresh p hp fun hused => hfree (hgrow p hused)
  · intro page hpage
    obtain ⟨p, hp, haddr, hmap, husable⟩ := hI.returned page hpage
    exact ⟨p, hp, haddr, by rwa [Mapped, hmax], husable⟩

theorem Inv.alloc (hI : Inv b t) (hfind : (find_free_page t.pmm).isSome) :
    ∃ t', call t .alloc = some t' ∧ Inv b t' := by
  rcases pmm_alloc_page_cases hfind with heq | ⟨p, s', heq, hp, hmap, hfree, hmax, hbits⟩
  · exact ⟨_, by rw [call, heq]; rfl, hI.free, hI.fresh, hI.returned⟩
  refine ⟨_, by rw [call, heq]; rfl, ?_, ?_, ?_⟩
  · intro q hq hqfree
    rw [hbits, not_or] at hqfree
    obtain ⟨hqmap, hrest⟩ := hI.free q hq hqfree.1
    exact ⟨by rwa [Mapped, hmax], hrest⟩
  · intro q hq hqfree
    rw [hbits, not_or] at hqfree
    rw [mem_cons, not_or]
    refine ⟨fun hsame => ?_, hI.fresh q hq hqfree.1⟩
    obtain rfl := address_inj hq hp hsame
    exact hqfree.2 ⟨rfl, hmap⟩
  · intro page hpage
    have hkeep : ∀ q, Mapped t.pmm q → Mapped s' q := fun q hq => by rwa [Mapped, hmax]
    rcases mem_cons.mp hpage with rfl | hold
    · exact ⟨p, hp, rfl, hkeep p hmap, (hI.goodPage hp hfree).usable⟩
    · obtain ⟨q, hq, haddr, hqmap, husable⟩ := hI.returned page hold
      exact ⟨q, hq, haddr, hkeep q hqmap, husable⟩

theorem Inv.give_back {page : UInt32} (hI : Inv b t) (hpage : page ∈ t.returned)
    (hR : ∀ r ∈ t.reserved, ¬ Overlaps page r) : ∃ t', call t (.free page) = some t' ∧ Inv b t' := by
  obtain ⟨p, hp, rfl, hmap, husable⟩ := hI.returned page hpage
  obtain ⟨s', heq, hmax, hbits⟩ := pmm_free_page_eq t.pmm hp
  have hkeep : ∀ q, Mapped t.pmm q → Mapped s' q := fun q hq => by rwa [Mapped, hmax]
  refine ⟨_, by rw [call, heq]; rfl, ?_, ?_, ?_⟩
  · intro q hq hqfree
    rcases hbits q hqfree with hold | ⟨rfl, -⟩
    · obtain ⟨hqmap, hrest⟩ := hI.free q hq hold
      exact ⟨hkeep q hqmap, hrest⟩
    · exact ⟨hkeep q hmap, husable, hR⟩
  · intro q hq hqfree hmem
    obtain ⟨hmem, hne⟩ := mem_filter.mp hmem
    rcases hbits q hqfree with hold | ⟨rfl, -⟩
    · exact hI.fresh q hq hold hmem
    · simp at hne
  · intro page' hpage'
    obtain ⟨q, hq, haddr, hqmap, husable'⟩ := hI.returned page' hpage'
    exact ⟨q, hq, haddr, hkeep q hqmap, husable'⟩

theorem find_free_page_isSome (h : s.max_physical_page.toNat ≤ MAX_PAGES ∨ ∃ p < MAX_PAGES, s.pmm_bitmap.bitTest p = false) :
    (find_free_page s).isSome := by
  apply scanFree_isSome
  rcases h with h | ⟨p, hp, hclear⟩
  · exact .inl (by omega)
  · exact .inr ⟨p, hp, Nat.zero_le p, hclear⟩

theorem Inv.call (hI : Inv b t) (hfrees : FreesReturned (some t) op) (hcareful : Careful (some t) op) :
    ∃ t', Pmm.call t op = some t' ∧ Inv b t' := by
  cases op with
  | reserve start stop => exact hI.reserve hcareful
  | alloc => exact hI.alloc (find_free_page_isSome (hcareful t rfl))
  | free page =>
    obtain ⟨t', ht', hpage⟩ := hfrees
    obtain rfl := some.inj ht'
    exact hI.give_back hpage (hcareful t rfl)

theorem Inv.sound (hI : Inv b t) (hfrees : FreesReturned (some t) op) (hcareful : Careful (some t) op) :
    Sound b (some t) op := by
  obtain ⟨t', hcall, -⟩ := hI.call hfrees hcareful
  refine ⟨t, rfl, by simp [hcall], ?_⟩
  rintro rfl s' page halloc
  rcases pmm_alloc_page_cases (find_free_page_isSome (hcareful t rfl)) with heq | ⟨p, s'', heq, hp, -, hfree, -⟩
  · rw [heq] at halloc
    cases halloc
  · rw [heq] at halloc
    obtain ⟨-, rfl⟩ := by simpa using halloc
    exact hI.goodPage hp hfree

/-- On a regular boot every careful call stays inside the bitmap, and the pages handed out are fresh, unreserved and
usable. -/
theorem sound_of_careful (hb : b.Regular) {ops : List Op} (hfrees : EachStep step FreesReturned (Pmm.start b) ops)
    (hcareful : EachStep step Careful (Pmm.start b) ops) : EachStep step (Sound b) (Pmm.start b) ops := by
  obtain ⟨s, hinit, hok⟩ := pmm_init_ok hb
  have hstart : Pmm.start b = some ⟨s, [], [], b.regions⟩ := by rw [Pmm.start, hinit]; rfl
  have hJ : ∃ t, Pmm.start b = some t ∧ Inv b t := ⟨_, hstart, hok, by simp, by simp⟩
  refine eachStep_of_inv (J := fun s _ => ∃ t, s = some t ∧ Inv b t) ?_ ?_ hJ (hfrees.and hcareful)
  · rintro _ op _ ⟨t, rfl, hI⟩ ⟨hfrees, hcareful⟩
    exact hI.call hfrees hcareful
  · rintro _ op _ ⟨t, rfl, hI⟩ ⟨hfrees, hcareful⟩
    exact hI.sound hfrees hcareful

/-- Two usable pages above the first megabyte; kernel, boot information and modules are empty. -/
def smallBoot (addr len : UInt64) : Boot := ⟨0, 0, [.mmap [⟨addr, len, 1⟩], .other], 0, 0⟩

theorem sound_two_pages : EachStep step (Sound (smallBoot 0x100000 0x2000)) (Pmm.start (smallBoot 0x100000 0x2000))
    [.alloc, .alloc, .free 0x101000, .alloc, .alloc] := by
  apply sound_of_careful
  · constructor
    · simp [Boot.usable, smallBoot, Tag.entries]
    · simp [Boot.regions, smallBoot, Tag.region, Fits]
  · decide +kernel
  · decide +kernel

/-- Usable memory from `0x100800` on: the first page handed out begins in front of it. -/
theorem unaligned_region_gives_outside_page : let b := smallBoot 0x100800 0x1800
    (pmm_init b).bind (fun s => (pmm_alloc_page s).map Prod.snd) = some (some 0x100000) ∧
      ¬ EachStep step (Sound b) (Pmm.start b) [.alloc] := by
  intro b
  have hpage : (pmm_init b).bind (fun s => (pmm_alloc_page s).map Prod.snd) = some (some 0x100000) := by
    decide +kernel
  refine ⟨hpage, ?_⟩
  rintro ⟨⟨t, hstart, -, hsound⟩, -⟩
  obtain ⟨s, hinit, halloc⟩ := Option.bind_eq_some_iff.mp hpage
  obtain ⟨⟨s', page⟩, halloc', rfl⟩ := Option.map_eq_some_iff.mp halloc
  rw [Pmm.start, hinit, Option.map_some] at hstart
  obtain rfl := some.inj hstart
  obtain ⟨e, he, hle, -⟩ := (hsound rfl s' 0x100000 halloc').usable
  -- the only usable region starts inside the page
  obtain rfl : e = ⟨0x100800, 0x1800, 1⟩ := by simpa [b, Boot.usable, smallBoot, Tag.entries] using he
  exact absurd hle (by decide)

end Orion.Pmm
