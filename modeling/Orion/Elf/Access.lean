import Orion.Elf.Loader

/-!
# What the loader touches

The accesses of `elf_load_image` and `apply_relocations` to the buffer of the file and to the buffer of the image, in
their order and up to the point where the loader gives up. The loader itself is that of `Orion.Elf.Loader`.
-/

namespace Orion.Elf

open Lib

/-- An access to `n` bytes at the offset `o`, of the file or of an image of `image_size` bytes. -/
inductive Access where
  | file (o n : ℕ)
  | image (image_size o n : ℕ)
  deriving DecidableEq, Repr

/-- The access stays inside its buffer. -/
def Access.InBounds (size : ℕ) : Access → Prop
  | .file o n => ∀ i, o ≤ i → i < o + n → i < size
  | .image image_size o n => ∀ i, o ≤ i → i < o + n → i < image_size

/-- The program headers with their places in the file. -/
def headerTable (file : Bytes) (eh : Ehdr) : List (ℕ × Phdr) :=
  (List.range eh.e_phnum.toNat).map fun i =>
    (eh.e_phoff.toNat + PHDR_SIZE * i, readPhdr file (eh.e_phoff.toNat + PHDR_SIZE * i))

/-- The fields that the loops over the segments look at: of a header of another type only the type. -/
def headerReads (h : ℕ × Phdr) : List Access :=
  .file h.1 4 :: if h.2.p_type = PT_LOAD then [.file (h.1 + 4) 8, .file (h.1 + 16) 8] else []

/-- The reads of the loop that measures the image. -/
def measureReads (size : UInt32) : Extent → List (ℕ × Phdr) → List Access
  | _, [] => []
  | e, h :: l =>
    headerReads h ++
      match measureSegment size e h.2 with
      | .error _ => []
      | .ok e => measureReads size e l

/-- `memcpy(image + seg_offset, file + p_offset, p_filesz)` -/
def copyAccess (base_vaddr image_size : UInt32) (ph : Phdr) : List Access :=
  if ph.isLoad && !(ph.p_vaddr - base_vaddr + ph.p_memsz > image_size) then
    [.file ph.p_offset.toNat ph.p_filesz.toNat,
      .image image_size.toNat (ph.p_vaddr - base_vaddr).toNat ph.p_filesz.toNat]
  else []

/-- The accesses of the loop that copies the segments. -/
def copyAccesses (file : Bytes) (base_vaddr image_size : UInt32) : Bytes → List (ℕ × Phdr) → List Access
  | _, [] => []
  | image, h :: l =>
    headerReads h ++ copyAccess base_vaddr image_size h.2 ++
      match copySegment file base_vaddr image_size image h.2 with
      | .error _ => []
      | .ok image => copyAccesses file base_vaddr image_size image l

/-- The search for the dynamic segment: types up to the one found, and two of its fields. -/
def dynamicReads : List (ℕ × Phdr) → List Access
  | [] => []
  | h :: l =>
    .file h.1 4 :: if h.2.p_type = PT_DYNAMIC then [.file (h.1 + 8) 4, .file (h.1 + 20) 4] else dynamicReads l

/-- The accesses of the scan of the dynamic table. -/
def scanAccesses (image_size : UInt32) (image : Bytes) : ℕ → ℕ → List Access
  | 0, _ => []
  | n + 1, off =>
    .image image_size.toNat off 4 ::
      if image.get32 off = 0 then []
      else .image image_size.toNat (off + 4) 4 :: scanAccesses image_size image n (off + 8)

/-- The fields of the symbol that `resolve_symbol` reads. -/
def symbolAccesses (image : Bytes) (base_vaddr image_size symtab_vaddr sym_ent sym_index : UInt32) : List Access :=
  if symtab_vaddr = 0 || sym_ent < SYM_SIZE then []
  else
    match elf_image_ptr base_vaddr image_size (symtab_vaddr + sym_index * sym_ent) sym_ent with
    | none => []
    | some off =>
      .image image_size.toNat (off + 14) 2 ::
        if image.get16 (off + 14) = 0 then [] else [.image image_size.toNat (off + 4) 4]

/-- The accesses of one relocation. -/
def relocAccesses (base_vaddr image_size load_bias : UInt32) (info : DynInfo) (image : Bytes) (off : ℕ) :
    List Access :=
  .image image_size.toNat off 8 ::
    match elf_image_ptr base_vaddr image_size (image.get32 off) 4 with
    | none => []
    | some reloc =>
      let type := image.get32 (off + 4) &&& 0xFF
      if type = 0 then []
      else if type = 8 then [.image image_size.toNat reloc 4]
      else if type = 1 || type = 2 || type = 6 || type = 7 then
        let sym_index := image.get32 (off + 4) >>> 8
        symbolAccesses image base_vaddr image_size info.symtab_vaddr info.sym_ent sym_index ++
          match resolve_symbol image base_vaddr image_size load_bias info.symtab_vaddr info.sym_ent sym_index with
          | none => []
          | some _ => [.image image_size.toNat reloc 4]
      else []

/-- The accesses of all relocations, up to the first that fails. -/
def relocAllAccesses (base_vaddr image_size load_bias : UInt32) (info : DynInfo) : ℕ → Bytes → ℕ → List Access
  | 0, _, _ => []
  | n + 1, image, off =>
    relocAccesses base_vaddr image_size load_bias info image off ++
      match relocate base_vaddr image_size load_bias info image off with
      | .error _ => []
      | .ok image => relocAllAccesses base_vaddr image_size load_bias info n image (off + 8)

/-- `apply_relocations` -/
def applyAccesses (image : Bytes) (base_vaddr image_size load_bias : UInt32) (headers : List (ℕ × Phdr)) :
    List Access :=
  dynamicReads headers ++
    match (headers.map Prod.snd).find? fun ph => ph.p_type = PT_DYNAMIC with
    | none => []
    | some dyn =>
      match elf_image_ptr base_vaddr image_size dyn.p_vaddr dyn.p_memsz with
      | none => []
      | some off =>
        let info := scanDynamic image (dyn.p_memsz / DYN_SIZE).toNat off ⟨0, 0, REL_SIZE, 0, SYM_SIZE, false⟩
        scanAccesses image_size image (dyn.p_memsz / DYN_SIZE).toNat off ++
          if info.rela then []
          else if info.rel_sz = 0 then []
          else if info.rel_ent ≠ REL_SIZE || info.rel_sz % info.rel_ent ≠ 0 then []
          else
            match elf_image_ptr base_vaddr image_size info.rel_vaddr info.rel_sz with
            | none => []
            | some rel =>
              relocAllAccesses base_vaddr image_size load_bias info (info.rel_sz / info.rel_ent).toNat image rel

/-- The accesses once the extent of the image is known. -/
def buildAccesses (kmalloc : UInt32 → UInt32) (file : Bytes) (headers : List (ℕ × Phdr)) (is_pie : Bool)
    (base_vaddr image_size load_base : UInt32) : List Access :=
  if kmalloc image_size = 0 then []
  else
    .image image_size.toNat 0 image_size.toNat :: copyAccesses file base_vaddr image_size (fun _ => 0) headers ++
      match (headers.map Prod.snd).foldlM (copySegment file base_vaddr image_size) (fun _ => 0) with
      | .error _ => []
      | .ok image =>
        if is_pie then applyAccesses image base_vaddr image_size (load_base - base_vaddr) headers else []

/-- `elf_load_image` from the size of the file on. -/
def loadAccesses (kmalloc : UInt32 → UInt32) (next_pie : UInt32) (file : Bytes) (size : UInt32) : List Access :=
  if size.toNat < EHDR_SIZE then []
  else
    .file 0 7 :: if !elf_ident_ok file then [] else
    .file 16 30 ::
      let eh := readEhdr file
      if (eh.e_type ≠ ET_EXEC && eh.e_type ≠ ET_DYN) || eh.e_machine ≠ EM_386 || eh.e_version ≠ EV_CURRENT then []
      else if eh.e_phentsize.toNat ≠ PHDR_SIZE || eh.e_phnum = 0 then []
      else if eh.e_phoff > size || eh.e_phoff + UInt32.ofNat (eh.e_phnum.toNat * PHDR_SIZE) > size then []
      else
        let headers := headerTable file eh
        measureReads size ⟨0xFFFFFFFF, 0⟩ headers ++
          match (headers.map Prod.snd).foldlM (measureSegment size) ⟨0xFFFFFFFF, 0⟩ with
          | .error _ => []
          | .ok extent =>
            if extent.min_vaddr = 0xFFFFFFFF then []
            else if eh.e_entry < extent.min_vaddr || eh.e_entry ≥ extent.max_vaddr then []
            else
              let base_vaddr := alignDown extent.min_vaddr
              let image_size := alignUp (extent.max_vaddr - base_vaddr) PAGE_SIZE
              if image_size = 0 then []
              else if eh.e_type = ET_DYN then
                let load_base := (choose_pie_base next_pie image_size
                  (if base_vaddr < ELF_USER_VADDR_MIN then ELF_USER_VADDR_MIN else base_vaddr)).1
                if load_base = 0 then []
                else buildAccesses kmalloc file headers true base_vaddr image_size load_base
              else if extent.min_vaddr < ELF_USER_VADDR_MIN || extent.max_vaddr > ELF_USER_VADDR_MAX then []
              else buildAccesses kmalloc file headers false base_vaddr image_size base_vaddr

/-- What `kmalloc` promises the loader: a block that it hands out is no larger than the heap. The file is in such a
block, and so is an image that gets one. -/
structure InHeap (size : UInt32) (kmalloc : UInt32 → UInt32) : Prop where
  file : size.toNat ≤ HEAP_SIZE
  image : ∀ n, kmalloc n ≠ 0 → n.toNat ≤ HEAP_SIZE

end Orion.Elf
