import Orion.Elf.Access
import Orion.Elf.Proofs.LoaderProofs

/-!
# Proofs: the accesses of the loader are in bounds

The checks bound every access as long as the sums in them do not wrap. The source does not guard all of them (the end
of the program header table, the end of a segment in the file); they cannot wrap because both summands are bounded by the
size of the heap.
-/

namespace Orion.Elf

open Lib Bytes List
open UInt32 (lt_iff_toNat_lt toNat_sub_of_le le_iff_toNat_le toNat_div toNat_add)

variable {e : Extent} {image : Bytes} {kmalloc : UInt32 → UInt32} {load_bias : UInt32} {next_pie : UInt32}
  {img : LoadedImage}

variable {file : Bytes} {size base_vaddr image_size : UInt32} {a : Access} {h : ℕ × Phdr} {headers : List (ℕ × Phdr)}
  {o n off : ℕ} {info : DynInfo} {is_pie : Bool} {load_base entry : UInt32}

theorem inBounds_file (hle : o + n ≤ size.toNat) : (Access.file o n).InBounds size.toNat := by
  intro i _ hi
  omega

theorem inBounds_image (hle : o + n ≤ image_size.toNat) : (Access.image image_size.toNat o n).InBounds size.toNat := by
  intro i _ hi
  omega

/-- All headers lie in the file. -/
def TableIn (size : UInt32) (headers : List (ℕ × Phdr)) : Prop := ∀ h ∈ headers, h.1 + PHDR_SIZE ≤ size.toNat

theorem TableIn.tail (ht : TableIn size (h :: headers)) : TableIn size headers :=
  fun p hp => ht p (mem_cons_of_mem h hp)

theorem headerReads_inBounds (hh : h.1 + PHDR_SIZE ≤ size.toNat) (ha : a ∈ headerReads h) : a.InBounds size.toNat := by
  unfold PHDR_SIZE at hh
  unfold headerReads at ha
  rcases mem_cons.mp ha with rfl | ha
  · exact inBounds_file (by omega)
  split at ha
  · simp only [mem_cons, not_mem_nil, or_false] at ha
    rcases ha with rfl | rfl
    · exact inBounds_file (by omega)
    · exact inBounds_file (by omega)
  · cases ha

theorem measureReads_inBounds (ht : TableIn size headers) (ha : a ∈ measureReads size e headers) :
    a.InBounds size.toNat := by
  induction headers generalizing e with
  | nil => cases ha
  | cons h l ih =>
    rw [measureReads, mem_append] at ha
    rcases ha with ha | ha
    · exact headerReads_inBounds (ht h mem_cons_self) ha
    · split at ha
      · cases ha
      · exact ih ht.tail ha

theorem dynamicReads_inBounds (ht : TableIn size headers) (ha : a ∈ dynamicReads headers) : a.InBounds size.toNat := by
  induction headers with
  | nil => cases ha
  | cons h l ih =>
    have hh := ht h mem_cons_self
    unfold PHDR_SIZE at hh
    rw [dynamicReads] at ha
    rcases mem_cons.mp ha with rfl | ha
    · exact inBounds_file (by omega)
    split at ha
    · simp only [mem_cons, not_mem_nil, or_false] at ha
      rcases ha with rfl | rfl
      · exact inBounds_file (by omega)
      · exact inBounds_file (by omega)
    · exact ih ht.tail ha

theorem tableIn_headerTable {eh : Ehdr} (hsize : size.toNat ≤ HEAP_SIZE) (hoff : ¬eh.e_phoff > size)
    (hend : ¬eh.e_phoff + UInt32.ofNat (eh.e_phnum.toNat * PHDR_SIZE) > size) : TableIn size (headerTable file eh) := by
  rw [HEAP_SIZE_eq] at hsize
  unfold PHDR_SIZE at hend
  have hnum := eh.e_phnum.toNat_lt
  have htable : (UInt32.ofNat (eh.e_phnum.toNat * 32)).toNat = eh.e_phnum.toNat * 32 := by
    rw [UInt32.toNat_ofNat', Nat.mod_eq_of_lt (by omega)]
  rw [gt_iff_lt, lt_iff_toNat_lt] at hoff hend
  rw [toNat_add_of_lt (by omega), htable] at hend
  intro h hh
  obtain ⟨i, hi, rfl⟩ := mem_map.mp hh
  rw [mem_range] at hi
  unfold PHDR_SIZE
  omega

theorem copyAccess_inBounds {ph : Phdr} (hbase : base_vaddr.toNat ≤ e.min_vaddr.toNat)
    (himage : e.max_vaddr.toNat - base_vaddr.toNat ≤ image_size.toNat)
    (hbeside : size.toNat + image_size.toNat < 2 ^ 32) (hph : ph.isLoad = true → Measured size e ph)
    (ha : a ∈ copyAccess base_vaddr image_size ph) : a.InBounds size.toNat := by
  unfold copyAccess at ha
  split at ha
  · rename_i hcond
    rw [Bool.and_eq_true] at hcond
    obtain ⟨hfilesz, hoffset, hlast, hlow, hhigh⟩ := hph hcond.1
    have hseg : (ph.p_vaddr - base_vaddr).toNat = ph.p_vaddr.toNat - base_vaddr.toNat :=
      toNat_sub_of_le _ _ (le_iff_toNat_le.mpr (by omega))
    rw [toNat_add_of_lt (by omega)] at hlast
    simp only [mem_cons, not_mem_nil, or_false] at ha
    rcases ha with rfl | rfl
    · exact inBounds_file hlast
    · exact inBounds_image (by omega)
  · cases ha

theorem copyAccesses_inBounds (ht : TableIn size headers)
    (hbase : base_vaddr.toNat ≤ e.min_vaddr.toNat) (himage : e.max_vaddr.toNat - base_vaddr.toNat ≤ image_size.toNat)
    (hbeside : size.toNat + image_size.toNat < 2 ^ 32)
    (hph : ∀ ph ∈ headers.map Prod.snd, ph.isLoad = true → Measured size e ph)
    (ha : a ∈ copyAccesses file base_vaddr image_size image headers) : a.InBounds size.toNat := by
  induction headers generalizing image with
  | nil => cases ha
  | cons h l ih =>
    rw [map_cons, forall_mem_cons] at hph
    rw [copyAccesses, mem_append, mem_append] at ha
    rcases ha with (ha | ha) | ha
    · exact headerReads_inBounds (ht h mem_cons_self) ha
    · exact copyAccess_inBounds hbase himage hbeside hph.1 ha
    · split at ha
      · cases ha
      · exact ih ht.tail hph.2 ha

theorem elf_image_ptr_spec {vaddr n : UInt32} (hptr : elf_image_ptr base_vaddr image_size vaddr n = some off) :
    off + n.toNat ≤ image_size.toNat := by
  unfold elf_image_ptr at hptr
  split at hptr
  · cases hptr
  dsimp only at hptr
  split at hptr
  · cases hptr
  rename_i hoff
  split at hptr
  · cases hptr
  rename_i hn
  obtain rfl := Option.some.inj hptr
  rw [gt_iff_lt, lt_iff_toNat_lt, not_lt] at hoff hn
  rw [toNat_sub_of_le _ _ (le_iff_toNat_le.mpr hoff)] at hn
  omega

theorem scanAccesses_inBounds (hle : off + 8 * n ≤ image_size.toNat)
    (ha : a ∈ scanAccesses image_size image n off) : a.InBounds size.toNat := by
  induction n generalizing off with
  | zero => cases ha
  | succ n ih =>
    rw [scanAccesses] at ha
    rcases mem_cons.mp ha with rfl | ha
    · exact inBounds_image (by omega)
    split at ha
    · cases ha
    · rcases mem_cons.mp ha with rfl | ha
      · exact inBounds_image (by omega)
      · exact ih (by omega) ha

theorem symbolAccesses_inBounds {symtab_vaddr sym_ent sym_index : UInt32}
    (ha : a ∈ symbolAccesses image base_vaddr image_size symtab_vaddr sym_ent sym_index) : a.InBounds size.toNat := by
  unfold symbolAccesses at ha
  split at ha
  · cases ha
  rename_i hent
  simp only [Bool.or_eq_true, decide_eq_true_eq, not_or, lt_iff_toNat_lt, not_lt] at hent
  have hsym : 16 ≤ sym_ent.toNat := hent.2
  split at ha
  · cases ha
  rename_i off hptr
  have hoff := elf_image_ptr_spec hptr
  rcases mem_cons.mp ha with rfl | ha
  · exact inBounds_image (by omega)
  split at ha
  · cases ha
  · rw [mem_singleton.mp ha]
    exact inBounds_image (by omega)

theorem relocAccesses_inBounds
    (hle : off + 8 ≤ image_size.toNat) (ha : a ∈ relocAccesses base_vaddr image_size load_bias info image off) :
    a.InBounds size.toNat := by
  unfold relocAccesses at ha
  rcases mem_cons.mp ha with rfl | ha
  · exact inBounds_image hle
  split at ha
  · cases ha
  rename_i reloc hptr
  have hreloc : reloc + 4 ≤ image_size.toNat := elf_image_ptr_spec hptr
  dsimp only at ha
  split at ha
  · cases ha
  split at ha
  · rw [mem_singleton.mp ha]
    exact inBounds_image hreloc
  split at ha
  · rcases mem_append.mp ha with ha | ha
    · exact symbolAccesses_inBounds ha
    · split at ha
      · cases ha
      · rw [mem_singleton.mp ha]
        exact inBounds_image hreloc
  · cases ha

theorem relocAllAccesses_inBounds (hle : off + 8 * n ≤ image_size.toNat)
    (ha : a ∈ relocAllAccesses base_vaddr image_size load_bias info n image off) : a.InBounds size.toNat := by
  induction n generalizing image off with
  | zero => cases ha
  | succ n ih =>
    rw [relocAllAccesses, mem_append] at ha
    rcases ha with ha | ha
    · exact relocAccesses_inBounds (by omega) ha
    · split at ha
      · cases ha
      · exact ih (by omega) ha

theorem applyAccesses_inBounds (ht : TableIn size headers)
    (ha : a ∈ applyAccesses image base_vaddr image_size load_bias headers) : a.InBounds size.toNat := by
  unfold applyAccesses at ha
  rcases mem_append.mp ha with ha | ha
  · exact dynamicReads_inBounds ht ha
  split at ha
  · cases ha
  rename_i dyn hdyn
  split at ha
  · cases ha
  rename_i off hptr
  have hoff := elf_image_ptr_spec hptr
  have hdiv : (dyn.p_memsz / DYN_SIZE).toNat = dyn.p_memsz.toNat / 8 := toNat_div _ _
  rcases mem_append.mp ha with ha | ha
  · exact scanAccesses_inBounds (by rw [hdiv]; omega) ha
  generalize scanDynamic image (dyn.p_memsz / DYN_SIZE).toNat off ⟨0, 0, REL_SIZE, 0, SYM_SIZE, false⟩ = info at ha
  split at ha
  · cases ha
  split at ha
  · cases ha
  split at ha
  · cases ha
  rename_i hent
  simp only [Bool.or_eq_true, decide_eq_true_eq, not_or, not_not] at hent
  split at ha
  · cases ha
  rename_i rel hrel
  have hoff' := elf_image_ptr_spec hrel
  have hdiv' : (info.rel_sz / info.rel_ent).toNat = info.rel_sz.toNat / 8 := by
    rw [hent.1]
    exact toNat_div _ _
  exact relocAllAccesses_inBounds (by rw [hdiv']; omega) ha

theorem buildAccesses_inBounds
    (ht : TableIn size headers) (hheap : InHeap size kmalloc) (hbase : base_vaddr.toNat ≤ e.min_vaddr.toNat)
    (himage : e.max_vaddr.toNat - base_vaddr.toNat ≤ image_size.toNat)
    (hph : ∀ ph ∈ headers.map Prod.snd, ph.isLoad = true → Measured size e ph)
    (ha : a ∈ buildAccesses kmalloc file headers is_pie base_vaddr image_size load_base) : a.InBounds size.toNat := by
  unfold buildAccesses at ha
  split at ha
  · cases ha
  rename_i halloc
  rw [cons_append, mem_cons, mem_append] at ha
  rcases ha with rfl | ha | ha
  · exact inBounds_image (by omega)
  · have hfile := hheap.file
    have hsize := hheap.image image_size halloc
    rw [HEAP_SIZE_eq] at hfile hsize
    exact copyAccesses_inBounds ht hbase himage (by omega) hph ha
  split at ha
  · cases ha
  · split at ha
    · exact applyAccesses_inBounds ht ha
    · cases ha

theorem le_alignUp {x : UInt32} (hne : alignUp x PAGE_SIZE ≠ 0) : x.toNat ≤ (alignUp x PAGE_SIZE).toNat := by
  have hpage : PAGE_SIZE.toNat = 2 ^ 12 := rfl
  by_cases hwrap : x.toNat + PAGE_SIZE.toNat ≤ 2 ^ 32
  · exact (alignUp_spec hpage hwrap).2.1
  exfalso
  apply hne
  have hx := x.toNat_lt
  have hsum : (x + (PAGE_SIZE - 1)).toNat = x.toNat + 4095 - 2 ^ 32 := by
    rw [toNat_add]
    change (x.toNat + 4095) % 2 ^ 32 = _
    rw [hpage] at hwrap
    omega
  rw [← UInt32.toNat_inj, alignUp, toNat_and_not_pred hpage, hsum, hpage, UInt32.toNat_zero]
  omega

theorem alignUp_lt (x : UInt32) : (alignUp x PAGE_SIZE).toNat < x.toNat + 4096 := by
  have hpage : PAGE_SIZE.toNat = 2 ^ 12 := rfl
  by_cases hwrap : x.toNat + PAGE_SIZE.toNat ≤ 2 ^ 32
  · exact (alignUp_spec hpage hwrap).2.2
  · have hlt := (alignUp x PAGE_SIZE).toNat_lt
    rw [hpage] at hwrap
    omega

theorem image_room (hle : e.min_vaddr.toNat ≤ e.max_vaddr.toNat)
    (hne : alignUp (e.max_vaddr - alignDown e.min_vaddr) PAGE_SIZE ≠ 0) :
    e.max_vaddr.toNat - (alignDown e.min_vaddr).toNat ≤
      (alignUp (e.max_vaddr - alignDown e.min_vaddr) PAGE_SIZE).toNat := by
  have hdown := alignDown_le e.min_vaddr
  have hsub : (e.max_vaddr - alignDown e.min_vaddr).toNat = e.max_vaddr.toNat - (alignDown e.min_vaddr).toNat :=
    toNat_sub_of_le _ _ (le_iff_toNat_le.mpr (by omega))
  rw [← hsub]
  exact le_alignUp hne

theorem loadAccesses_inBounds (hheap : InHeap size kmalloc)
    (ha : a ∈ loadAccesses kmalloc next_pie file size) : a.InBounds size.toNat := by
  unfold loadAccesses at ha
  rw [mem_ite_nil_left, mem_cons, mem_ite_nil_left, mem_cons] at ha
  obtain ⟨hehdr, rfl | ⟨-, rfl | ha⟩⟩ := ha
  · unfold EHDR_SIZE at hehdr
    exact inBounds_file (by omega)
  · unfold EHDR_SIZE at hehdr
    exact inBounds_file (by omega)
  generalize readEhdr file = eh at ha
  rw [mem_ite_nil_left, mem_ite_nil_left, mem_ite_nil_left, mem_append] at ha
  obtain ⟨-, -, hrange, ha⟩ := ha
  simp only [Bool.or_eq_true, decide_eq_true_eq, not_or] at hrange
  have ht : TableIn size (headerTable file eh) := tableIn_headerTable hheap.file hrange.1 hrange.2
  generalize headerTable file eh = headers at ht ha
  rcases ha with ha | ha
  · exact measureReads_inBounds ht ha
  generalize hmeasure : (headers.map Prod.snd).foldlM (measureSegment size) ⟨0xFFFFFFFF, 0⟩ = measured at ha
  rcases measured with _ | e
  · cases ha
  have hph := (measure_all hmeasure).2.2
  rw [mem_ite_nil_left, mem_ite_nil_left, mem_ite_nil_left] at ha
  obtain ⟨-, hentry, hne, ha⟩ := ha
  simp only [Bool.or_eq_true, decide_eq_true_eq, not_or, lt_iff_toNat_lt, ge_iff_le, le_iff_toNat_le,
    not_lt, not_le] at hentry
  have hroom := image_room (by omega) hne
  have hbase := alignDown_le e.min_vaddr
  generalize alignUp (e.max_vaddr - alignDown e.min_vaddr) PAGE_SIZE = image_size at hroom ha
  generalize alignDown e.min_vaddr = base_vaddr at hbase hroom ha
  by_cases hpie : eh.e_type = ET_DYN
  · rw [if_pos hpie, mem_ite_nil_left] at ha
    exact buildAccesses_inBounds ht hheap hbase hroom hph ha.2
  · rw [if_neg hpie, mem_ite_nil_left] at ha
    exact buildAccesses_inBounds ht hheap hbase hroom hph ha.2

theorem buildImage_fields {phdrs : List Phdr}
    (hok : buildImage kmalloc file phdrs is_pie entry base_vaddr image_size load_base = .ok img) :
    img.entry = entry + (load_base - base_vaddr) ∧ img.image_size = image_size ∧ img.load_base = load_base ∧
      img.image_base = kmalloc image_size ∧ kmalloc image_size ≠ 0 := by
  unfold buildImage at hok
  dsimp only at hok
  split at hok
  · cases hok
  rename_i halloc
  split at hok
  · cases hok
  split at hok
  · cases hok
  · obtain rfl := Except.ok.inj hok
    exact ⟨rfl, rfl, rfl, rfl, halloc⟩

theorem entry_in_image (hlow : e.min_vaddr.toNat ≤ entry.toNat)
    (hhigh : entry.toNat < e.max_vaddr.toNat) (hbase : base_vaddr.toNat ≤ e.min_vaddr.toNat)
    (hroom : e.max_vaddr.toNat - base_vaddr.toNat ≤ image_size.toNat)
    (hfits : load_base.toNat + image_size.toNat ≤ 2 ^ 32) :
    load_base.toNat ≤ (entry + (load_base - base_vaddr)).toNat ∧
      (entry + (load_base - base_vaddr)).toNat < load_base.toNat + image_size.toNat := by
  have hmoved : (entry + (load_base - base_vaddr)).toNat = load_base.toNat + (entry.toNat - base_vaddr.toNat) := by
    have h3 := base_vaddr.toNat_lt
    rw [toNat_add, UInt32.toNat_sub]
    omega
  omega

theorem choose_pie_base_fits {min_base : UInt32} (hne : (choose_pie_base next_pie image_size min_base).1 ≠ 0) :
    (choose_pie_base next_pie image_size min_base).1.toNat + image_size.toNat ≤ 2 ^ 32 := by
  have hmax : ELF_USER_VADDR_MAX.toNat + 1 ≤ 2 ^ 32 := by decide
  unfold choose_pie_base at hne ⊢
  generalize alignUp (if next_pie < min_base then min_base else next_pie) PAGE_SIZE = base at hne ⊢
  by_cases hlast : base.toNat + image_size.toNat > ELF_USER_VADDR_MAX.toNat + 1
  · rw [if_pos hlast] at hne
    exact absurd rfl hne
  · rw [if_neg hlast]
    change base.toNat + image_size.toNat ≤ 2 ^ 32
    omega

theorem elf_load_image_ok (hok : (elf_load_image kmalloc next_pie file size).1 = .ok img) :
    ∃ e, (readPhdrs file (readEhdr file)).foldlM (measureSegment size) ⟨0xFFFFFFFF, 0⟩ = .ok e ∧
      e.min_vaddr.toNat ≤ (readEhdr file).e_entry.toNat ∧ (readEhdr file).e_entry.toNat < e.max_vaddr.toNat ∧
      img.image_size = alignUp (e.max_vaddr - alignDown e.min_vaddr) PAGE_SIZE ∧ img.image_size ≠ 0 ∧
      img.image_base = kmalloc img.image_size ∧ kmalloc img.image_size ≠ 0 ∧
      img.entry = (readEhdr file).e_entry + (img.load_base - alignDown e.min_vaddr) ∧
      (((readEhdr file).e_type = ET_DYN ∧ img.load_base ≠ 0 ∧
          img.load_base = (choose_pie_base next_pie img.image_size (if alignDown e.min_vaddr < ELF_USER_VADDR_MIN then
            ELF_USER_VADDR_MIN else alignDown e.min_vaddr)).1) ∨
        ((readEhdr file).e_type ≠ ET_DYN ∧ img.load_base = alignDown e.min_vaddr ∧
          ELF_USER_VADDR_MIN.toNat ≤ e.min_vaddr.toNat ∧ e.max_vaddr.toNat ≤ ELF_USER_VADDR_MAX.toNat)) := by
  unfold elf_load_image at hok
  generalize readEhdr file = eh at hok ⊢
  dsimp only at hok
  split at hok
  · cases hok
  split at hok
  · cases hok
  split at hok
  · cases hok
  split at hok
  · cases hok
  rename_i e hmeasure
  split at hok
  · cases hok
  split at hok
  · cases hok
  rename_i hentry
  simp only [Bool.or_eq_true, decide_eq_true_eq, not_or, lt_iff_toNat_lt, ge_iff_le, le_iff_toNat_le,
    not_lt, not_le] at hentry
  split at hok
  · cases hok
  rename_i hne
  refine ⟨e, hmeasure, hentry.1, hentry.2, ?_⟩
  generalize alignUp (e.max_vaddr - alignDown e.min_vaddr) PAGE_SIZE = image_size at hok hne ⊢
  generalize alignDown e.min_vaddr = base_vaddr at hok ⊢
  by_cases hpie : eh.e_type = ET_DYN
  · simp only [hpie, if_true] at hok
    generalize (if base_vaddr < ELF_USER_VADDR_MIN then ELF_USER_VADDR_MIN else base_vaddr) = min_base at hok ⊢
    split at hok
    · cases hok
    rename_i hload
    obtain ⟨hent, himg, hlb, hbase, halloc⟩ := buildImage_fields hok
    rw [himg, hent, hlb]
    exact ⟨rfl, hne, hbase, halloc, rfl, .inl ⟨hpie, hload, rfl⟩⟩
  · simp only [hpie, if_false] at hok
    split at hok
    · cases hok
    rename_i huser
    simp only [Bool.or_eq_true, decide_eq_true_eq, not_or, gt_iff_lt, lt_iff_toNat_lt, not_lt] at huser
    dsimp only at hok
    obtain ⟨hent, himg, hlb, hbase, halloc⟩ := buildImage_fields hok
    rw [himg, hent, hlb]
    exact ⟨rfl, hne, hbase, halloc, rfl, .inr ⟨hpie, rfl, huser⟩⟩

theorem loaded_entry (hok : (elf_load_image kmalloc next_pie file size).1 = .ok img) :
    img.load_base.toNat ≤ img.entry.toNat ∧ img.entry.toNat < img.load_base.toNat + img.image_size.toNat := by
  obtain ⟨e, -, hlow, hhigh, hsize, hne, -, -, hent, hplace⟩ := elf_load_image_ok hok
  have hroom := image_room (by omega) (hsize ▸ hne)
  have hupper := alignUp_lt (e.max_vaddr - alignDown e.min_vaddr)
  have hbase := alignDown_le e.min_vaddr
  rw [← hsize] at hroom hupper
  rw [toNat_sub_of_le _ _ (le_iff_toNat_le.mpr (by omega))] at hupper
  rw [hent]
  refine entry_in_image hlow hhigh hbase hroom ?_
  rcases hplace with ⟨-, hload, heq⟩ | ⟨-, heq, -, hmax⟩
  · rw [heq] at hload ⊢
    exact choose_pie_base_fits hload
  · rw [heq]
    change _ ≤ 0xBFFFFFFF at hmax
    omega

/-- Whatever a file in the heap holds, `elf_load_image` and `apply_relocations` touch no byte outside the file and the
image, and a program that is loaded starts inside its image. -/
theorem loads_in_bounds (kmalloc : UInt32 → UInt32) (next_pie : UInt32) (file : Bytes) (size : UInt32)
    (hheap : InHeap size kmalloc) :
    (∀ a ∈ loadAccesses kmalloc next_pie file size, a.InBounds size.toNat) ∧
      ∀ img, (elf_load_image kmalloc next_pie file size).1 = .ok img →
        img.load_base.toNat ≤ img.entry.toNat ∧ img.entry.toNat < img.load_base.toNat + img.image_size.toNat := by
  constructor
  · intro a ha
    exact loadAccesses_inBounds hheap ha
  · intro img hok
    exact loaded_entry hok

/-- The headers of an executable of 516 bytes whose only segment is the whole file. -/
def elfHeader : List UInt8 :=
  [0x7F, 0x45, 0x4C, 0x46, 1, 1, 1, 0, 0, 0, 0, 0, 0, 0, 0, 0, 2, 0, 3, 0, 1, 0, 0, 0, 0x54, 0, 0, 0x08, 0x34, 0, 0, 0,
    0, 0, 0, 0, 0, 0, 0, 0, 0x34, 0, 0x20, 0, 1, 0, 0, 0, 0, 0, 0, 0,
    1, 0, 0, 0, 0, 0, 0, 0, 0, 0, 0, 0x08, 0, 0, 0, 0, 0x04, 0x02, 0, 0, 0x04, 0x02, 0, 0, 5, 0, 0, 0, 0, 0x10, 0, 0]

/-- A heap that has room for one image of one page. -/
def pageAlloc (n : UInt32) : UInt32 := if n = 0x1000 then 0xC1020000 else 0

theorem pageAlloc_ne {n : UInt32} (h : pageAlloc n ≠ 0) : n = 0x1000 := by
  by_contra hne
  exact h (if_neg hne)

theorem loads_in_bounds_oneSegment :
    (∀ a ∈ loadAccesses pageAlloc 0 (Bytes.ofList elfHeader) 516, a.InBounds 516) ∧
      Access.file 0 516 ∈ loadAccesses pageAlloc 0 (Bytes.ofList elfHeader) 516 ∧
      ∃ img, (elf_load_image pageAlloc 0 (Bytes.ofList elfHeader) 516).1 = .ok img ∧
        img.load_base.toNat ≤ img.entry.toNat ∧ img.entry.toNat < img.load_base.toNat + img.image_size.toNat := by
  have hheap : InHeap 516 pageAlloc := ⟨by decide, fun n hn => pageAlloc_ne hn ▸ by decide⟩
  obtain ⟨hin, hentry⟩ := loads_in_bounds pageAlloc 0 (Bytes.ofList elfHeader) 516 hheap
  refine ⟨hin, by decide +kernel, ?_⟩
  cases hload : (elf_load_image pageAlloc 0 (Bytes.ofList elfHeader) 516).1 with
  | error e =>
    have hok : (elf_load_image pageAlloc 0 (Bytes.ofList elfHeader) 516).1.isOk = true := by decide +kernel
    rw [hload] at hok
    cases hok
  | ok img => exact ⟨img, rfl, hentry img hload⟩

end Orion.Elf
