import Orion.Elf.Loader

/-!
# What the loader reads

The checks of `elf_load_image` keep every read inside the file, so that its bytes determine the result, as long as the
sums in the checks do not wrap.
-/

namespace Orion.Elf

open Lib Bytes List
open UInt32 (lt_iff_toNat_lt toNat_add)

variable {file file' : Bytes} {size : UInt32} {e e' : Extent} {ph : Phdr}
  {a b base : UInt32} {phdrs : List Phdr} {kmalloc : UInt32 → UInt32}

theorem HEAP_SIZE_eq : HEAP_SIZE = 0x4000000 := rfl

theorem toNat_add_of_le (h : ¬a + b < a) : (a + b).toNat = a.toNat + b.toNat := by
  have hb := b.toNat_lt
  rw [lt_iff_toNat_lt, toNat_add] at h
  rw [toNat_add]
  omega

theorem toNat_add_of_lt (h : a.toNat + b.toNat < 2 ^ 32) : (a + b).toNat = a.toNat + b.toNat := by
  rw [toNat_add, Nat.mod_eq_of_lt h]

theorem elf_ident_ok_congr (h : Agree file file' 0 size.toNat) (hsize : EHDR_SIZE ≤ size.toNat) :
    elf_ident_ok file = elf_ident_ok file' := by
  unfold EHDR_SIZE at hsize
  have hbyte : ∀ i, i < 52 → file i = file' i := fun i hi => h i (by omega) (by omega)
  unfold elf_ident_ok
  rw [hbyte 0 (by omega), hbyte 1 (by omega), hbyte 2 (by omega), hbyte 3 (by omega), hbyte 4 (by omega),
    hbyte 5 (by omega), hbyte 6 (by omega)]

theorem readEhdr_congr (h : Agree file file' 0 size.toNat) (hsize : EHDR_SIZE ≤ size.toNat) :
    readEhdr file = readEhdr file' := by
  unfold EHDR_SIZE at hsize
  have h16 : ∀ o, o + 2 ≤ 52 → file.get16 o = file'.get16 o := fun o ho => get16_congr (h.mono (by omega) (by omega))
  have h32 : ∀ o, o + 4 ≤ 52 → file.get32 o = file'.get32 o := fun o ho => get32_congr (h.mono (by omega) (by omega))
  unfold readEhdr
  rw [h16 16 (by omega), h16 18 (by omega), h32 20 (by omega), h32 24 (by omega), h32 28 (by omega), h16 42 (by omega),
    h16 44 (by omega)]

theorem readPhdr_congr {off : ℕ} (h : Agree file file' off PHDR_SIZE) : readPhdr file off = readPhdr file' off := by
  unfold PHDR_SIZE at h
  have h32 : ∀ o, off ≤ o → o + 4 ≤ off + 32 → file.get32 o = file'.get32 o := fun o hlow hhigh =>
    get32_congr (h.mono hlow hhigh)
  unfold readPhdr
  rw [h32 off (by omega) (by omega), h32 (off + 4) (by omega) (by omega), h32 (off + 8) (by omega) (by omega),
    h32 (off + 16) (by omega) (by omega), h32 (off + 20) (by omega) (by omega)]

theorem readPhdrs_congr {eh : Ehdr} (h : Agree file file' 0 size.toNat) (hheap : size.toNat ≤ HEAP_SIZE)
    (hoff : ¬eh.e_phoff > size) (hend : ¬eh.e_phoff + UInt32.ofNat (eh.e_phnum.toNat * PHDR_SIZE) > size) :
    readPhdrs file eh = readPhdrs file' eh := by
  rw [HEAP_SIZE_eq] at hheap
  unfold PHDR_SIZE at hend
  have hnum := eh.e_phnum.toNat_lt
  have htable : (UInt32.ofNat (eh.e_phnum.toNat * 32)).toNat = eh.e_phnum.toNat * 32 := by
    rw [UInt32.toNat_ofNat', Nat.mod_eq_of_lt (by omega)]
  rw [gt_iff_lt, lt_iff_toNat_lt] at hoff hend
  rw [toNat_add_of_lt (by omega), htable] at hend
  unfold readPhdrs
  apply map_congr_left
  intro i hi
  have hi := mem_range.mp hi
  apply readPhdr_congr
  unfold PHDR_SIZE
  exact h.mono (by omega) (by omega)

/-- What the first loop over the program headers has checked of a segment. -/
structure Measured (size : UInt32) (e : Extent) (ph : Phdr) : Prop where
  filesz : ph.p_filesz.toNat ≤ ph.p_memsz.toNat
  offset : ph.p_offset.toNat ≤ size.toNat
  /-- the sum may have wrapped -/
  last : (ph.p_offset + ph.p_filesz).toNat ≤ size.toNat
  low : e.min_vaddr.toNat ≤ ph.p_vaddr.toNat
  high : ph.p_vaddr.toNat + ph.p_memsz.toNat ≤ e.max_vaddr.toNat

theorem Measured.mono (h : Measured size e ph)
    (hmin : e'.min_vaddr.toNat ≤ e.min_vaddr.toNat) (hmax : e.max_vaddr.toNat ≤ e'.max_vaddr.toNat) :
    Measured size e' ph :=
  ⟨h.filesz, h.offset, h.last, hmin.trans h.low, h.high.trans hmax⟩

theorem measureSegment_spec (h : measureSegment size e ph = .ok e') :
    e'.min_vaddr.toNat ≤ e.min_vaddr.toNat ∧ e.max_vaddr.toNat ≤ e'.max_vaddr.toNat ∧
      (ph.isLoad = true → Measured size e' ph) := by
  unfold measureSegment at h
  by_cases hload : ph.isLoad = true
  · rw [hload] at h
    dsimp only [Bool.not_true] at h
    rw [if_neg (by decide)] at h
    split at h
    · cases h
    rename_i hfilesz
    split at h
    · cases h
    rename_i hrange
    split at h
    · cases h
    rename_i hover
    obtain rfl := Except.ok.inj h
    simp only [Bool.or_eq_true, decide_eq_true_eq, not_or, gt_iff_lt, lt_iff_toNat_lt, not_lt] at hrange hfilesz
    have hend := toNat_add_of_le hover
    have hmin : (if ph.p_vaddr < e.min_vaddr then ph.p_vaddr else e.min_vaddr).toNat ≤ e.min_vaddr.toNat ∧
        (if ph.p_vaddr < e.min_vaddr then ph.p_vaddr else e.min_vaddr).toNat ≤ ph.p_vaddr.toNat := by
      split
      · rename_i hlt
        rw [lt_iff_toNat_lt] at hlt
        omega
      · rename_i hlt
        rw [lt_iff_toNat_lt] at hlt
        omega
    have hmax : e.max_vaddr.toNat ≤
          (if ph.p_vaddr + ph.p_memsz > e.max_vaddr then ph.p_vaddr + ph.p_memsz else e.max_vaddr).toNat ∧
        (ph.p_vaddr + ph.p_memsz).toNat ≤
          (if ph.p_vaddr + ph.p_memsz > e.max_vaddr then ph.p_vaddr + ph.p_memsz else e.max_vaddr).toNat := by
      split
      · rename_i hlt
        rw [gt_iff_lt, lt_iff_toNat_lt] at hlt
        omega
      · rename_i hlt
        rw [gt_iff_lt, lt_iff_toNat_lt] at hlt
        omega
    refine ⟨hmin.1, hmax.1, fun _ => ⟨hfilesz, hrange.1, hrange.2, hmin.2, ?_⟩⟩
    rw [← hend]
    exact hmax.2
  · rw [Bool.eq_false_of_not_eq_true hload] at h
    obtain rfl := Except.ok.inj h
    exact ⟨le_rfl, le_rfl, fun h => absurd h hload⟩

theorem measure_all (h : phdrs.foldlM (measureSegment size) e = .ok e') :
    e'.min_vaddr.toNat ≤ e.min_vaddr.toNat ∧ e.max_vaddr.toNat ≤ e'.max_vaddr.toNat ∧
      ∀ ph ∈ phdrs, ph.isLoad = true → Measured size e' ph := by
  induction phdrs generalizing e with
  | nil =>
    obtain rfl := Except.ok.inj h
    exact ⟨le_rfl, le_rfl, fun ph hph => by cases hph⟩
  | cons ph phdrs ih =>
    rw [foldlM_cons] at h
    rcases hone : measureSegment size e ph with err | e₁
    · rw [hone] at h
      cases h
    rw [hone] at h
    obtain ⟨hmin, hmax, hspec⟩ := measureSegment_spec hone
    obtain ⟨hmin', hmax', hrest⟩ := ih h
    refine ⟨hmin'.trans hmin, hmax.trans hmax', fun p hp hload => ?_⟩
    rcases mem_cons.mp hp with rfl | hp
    · exact (hspec hload).mono hmin' hmax'
    · exact hrest p hp hload

theorem copySegment_congr {image_size : UInt32} (h : Agree file file' 0 size.toNat)
    (hfile : size.toNat ≤ HEAP_SIZE) (himage : image_size.toNat ≤ HEAP_SIZE) (hbase : base.toNat ≤ e.min_vaddr.toNat)
    (hph : ph.isLoad = true → Measured size e ph) (image : Bytes) :
    copySegment file base image_size image ph = copySegment file' base image_size image ph := by
  rw [HEAP_SIZE_eq] at hfile himage
  unfold copySegment
  by_cases hload : ph.isLoad = true
  · obtain ⟨hfilesz, hoffset, hlast, hlow, hhigh⟩ := hph hload
    simp only [hload, Bool.not_true, Bool.false_eq_true, if_false]
    split
    · rfl
    rename_i hfits
    have hmax := e.max_vaddr.toNat_lt
    have hseg : (ph.p_vaddr - base).toNat = ph.p_vaddr.toNat - base.toNat :=
      UInt32.toNat_sub_of_le _ _ (UInt32.le_iff_toNat_le.mpr (by omega))
    rw [gt_iff_lt, lt_iff_toNat_lt, toNat_add_of_lt (by omega), hseg] at hfits
    rw [toNat_add_of_lt (by omega)] at hlast
    congr 1
    funext i
    unfold splice
    split
    · exact h _ (by omega) (by omega)
    · rfl
  · rw [Bool.eq_false_of_not_eq_true hload]
    rfl

theorem foldlM_congr {α β : Type} {f g : β → α → Except ElfError β} {as : List α} (h : ∀ a ∈ as, ∀ b, f b a = g b a)
    (b : β) : as.foldlM f b = as.foldlM g b := by
  induction as generalizing b with
  | nil => rfl
  | cons a as ih =>
    rw [foldlM_cons, foldlM_cons, h a (mem_cons_self ..) b]
    congr 1
    funext b'
    exact ih (fun a ha => h a (mem_cons_of_mem _ ha)) b'

theorem alignDown_le (x : UInt32) : (alignDown x).toNat ≤ x.toNat := by
  have hpage : PAGE_SIZE.toNat = 2 ^ 12 := rfl
  unfold alignDown
  rw [toNat_and_not_pred hpage]
  exact Nat.mul_div_le _ _

theorem buildImage_congr (h : Agree file file' 0 size.toNat) (hfile : size.toNat ≤ HEAP_SIZE)
    (hheap : ∀ n, kmalloc n ≠ 0 → n.toNat ≤ HEAP_SIZE) (hbase : base.toNat ≤ e.min_vaddr.toNat)
    (hph : ∀ ph ∈ phdrs, ph.isLoad = true → Measured size e ph) (is_pie : Bool) (entry image_size load_base : UInt32) :
    buildImage kmalloc file phdrs is_pie entry base image_size load_base =
      buildImage kmalloc file' phdrs is_pie entry base image_size load_base := by
  unfold buildImage
  dsimp only
  by_cases halloc : kmalloc image_size = 0
  · rw [if_pos halloc, if_pos halloc]
  have hcopy : phdrs.foldlM (copySegment file base image_size) (fun _ => 0) =
      phdrs.foldlM (copySegment file' base image_size) (fun _ => 0) :=
    foldlM_congr (fun ph hmem => copySegment_congr h hfile (hheap image_size halloc) hbase (hph ph hmem)) _
  rw [if_neg halloc, if_neg halloc, hcopy]

theorem elf_load_image_congr (next_pie : UInt32) (h : Agree file file' 0 size.toNat)
    (hsize : EHDR_SIZE ≤ size.toNat) (hfile : size.toNat ≤ HEAP_SIZE)
    (hheap : ∀ n, kmalloc n ≠ 0 → n.toNat ≤ HEAP_SIZE) :
    elf_load_image kmalloc next_pie file size = elf_load_image kmalloc next_pie file' size := by
  unfold elf_load_image
  rw [readEhdr_congr h hsize]
  generalize readEhdr file' = eh
  dsimp only
  split
  · rfl
  split
  · rfl
  split
  · rfl
  rename_i hrange
  simp only [Bool.or_eq_true, decide_eq_true_eq, not_or] at hrange
  rw [readPhdrs_congr h hfile hrange.1 hrange.2]
  generalize readPhdrs file' eh = phdrs
  rcases hmeasure : phdrs.foldlM (measureSegment size) ⟨0xFFFFFFFF, 0⟩ with err | e
  · rfl
  have hbuild := buildImage_congr h hfile hheap (alignDown_le e.min_vaddr) (measure_all hmeasure).2.2
  simp only [hbuild]

end Orion.Elf
