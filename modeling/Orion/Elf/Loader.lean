import Orion.Lib.Bytes
import Orion.Lib.Words
import Orion.Mem.Kmalloc

/-!
# The ELF loader

Model of `kernel/elf.c`. The file has been read into a buffer of the kernel heap; `elf_load_image` checks its headers,
lays the segments out in an image of zeros and, for a position independent program, applies the relocations. A buffer is
a map from offsets to bytes, so that a read outside the file is a read of whatever the heap has there.
-/

namespace Orion.Elf

open Lib

def HEAP_SIZE : ℕ := Mem.KHEAP_DEFAULT_SIZE.toNat

def EHDR_SIZE : ℕ := 52
def PHDR_SIZE : ℕ := 32
def SYM_SIZE : UInt32 := 16
def REL_SIZE : UInt32 := 8
def DYN_SIZE : UInt32 := 8

def ET_EXEC : UInt16 := 2
def ET_DYN : UInt16 := 3
def EM_386 : UInt16 := 3
def EV_CURRENT : UInt32 := 1

def PT_LOAD : UInt32 := 1
def PT_DYNAMIC : UInt32 := 2

def ELF_USER_VADDR_MIN : UInt32 := 0x08000000
def ELF_USER_VADDR_MAX : UInt32 := 0xBFFFFFFF

/-- Why a file is refused; `elf_load_image` prints a line for each reason. -/
inductive ElfError where
  | unsupported_header
  | program_header_table
  | program_headers_range
  | filesz_memsz
  | segment_range
  | segment_overflow
  | no_segments
  | entry_range
  | image_size
  | no_pie_space
  | user_range
  | image_alloc
  | segment_exceeds
  | dynamic_range
  | rela
  | rel_table
  | rel_range
  | relocation_range
  | symbol
  | relocation_type
  deriving DecidableEq, Repr

/-! ## Headers -/

/-- The fields of `Elf32_Ehdr` that the loader reads. -/
structure Ehdr where
  e_type : UInt16
  e_machine : UInt16
  e_version : UInt32
  e_entry : UInt32
  e_phoff : UInt32
  e_phentsize : UInt16
  e_phnum : UInt16
  deriving DecidableEq, Repr

def readEhdr (file : Bytes) : Ehdr where
  e_type := file.get16 16
  e_machine := file.get16 18
  e_version := file.get32 20
  e_entry := file.get32 24
  e_phoff := file.get32 28
  e_phentsize := file.get16 42
  e_phnum := file.get16 44

/-- The fields of `Elf32_Phdr` that the loader reads. -/
structure Phdr where
  p_type : UInt32
  p_offset : UInt32
  p_vaddr : UInt32
  p_filesz : UInt32
  p_memsz : UInt32
  deriving DecidableEq, Repr

def readPhdr (file : Bytes) (off : ℕ) : Phdr where
  p_type := file.get32 off
  p_offset := file.get32 (off + 4)
  p_vaddr := file.get32 (off + 8)
  p_filesz := file.get32 (off + 16)
  p_memsz := file.get32 (off + 20)

/-- The table of program headers. -/
def readPhdrs (file : Bytes) (eh : Ehdr) : List Phdr :=
  (List.range eh.e_phnum.toNat).map fun i => readPhdr file (eh.e_phoff.toNat + PHDR_SIZE * i)

/-- Magic number, 32 bits, little endian, version 1. -/
def elf_ident_ok (file : Bytes) : Bool :=
  file 0 = 0x7F && file 1 = 0x45 && file 2 = 0x4C && file 3 = 0x46 && file 4 = 1 && file 5 = 1 && file 6 = 1

/-- The segment is one that is loaded. -/
def Phdr.isLoad (ph : Phdr) : Bool := ph.p_type = PT_LOAD && ph.p_memsz ≠ 0

/-- `align_down(val, PAGE_SIZE)` -/
def alignDown (val : UInt32) : UInt32 := val &&& ~~~(PAGE_SIZE - 1)

/-- `min_vaddr` and `max_vaddr` -/
structure Extent where
  min_vaddr : UInt32
  max_vaddr : UInt32
  deriving DecidableEq, Repr

/-- One turn of the loop that measures the image. -/
def measureSegment (size : UInt32) (e : Extent) (ph : Phdr) : Except ElfError Extent :=
  if !ph.isLoad then .ok e
  else if ph.p_filesz > ph.p_memsz then .error .filesz_memsz
  else if ph.p_offset > size || ph.p_offset + ph.p_filesz > size then .error .segment_range
  else
    let seg_end := ph.p_vaddr + ph.p_memsz
    if seg_end < ph.p_vaddr then .error .segment_overflow
    else .ok ⟨if ph.p_vaddr < e.min_vaddr then ph.p_vaddr else e.min_vaddr,
      if seg_end > e.max_vaddr then seg_end else e.max_vaddr⟩

/-- `choose_pie_base`: the base, or 0, and the next `g_next_pie_base`. -/
def choose_pie_base (next_pie image_size min_base : UInt32) : UInt32 × UInt32 :=
  let base := alignUp (if next_pie < min_base then min_base else next_pie) PAGE_SIZE
  -- the sum is taken in 64 bits
  let last := base.toNat + image_size.toNat
  if last > ELF_USER_VADDR_MAX.toNat + 1 then (0, next_pie)
  else (base, alignUp (UInt32.ofNat last + PAGE_SIZE) PAGE_SIZE)

/-! ## Relocations -/

/-- `elf_image_ptr`, as an offset into the image -/
def elf_image_ptr (base_vaddr image_size vaddr size : UInt32) : Option ℕ :=
  if vaddr < base_vaddr then none
  else
    let off := vaddr - base_vaddr
    if off > image_size then none
    else if size > image_size - off then none
    else some off.toNat

/-- What the relocations need from the dynamic table. -/
structure DynInfo where
  rel_vaddr : UInt32
  rel_sz : UInt32
  rel_ent : UInt32
  symtab_vaddr : UInt32
  sym_ent : UInt32
  rela : Bool
  deriving DecidableEq, Repr

/-- The `switch` over `d_tag`. -/
def DynInfo.entry (info : DynInfo) (tag value : UInt32) : DynInfo :=
  if tag = 17 then { info with rel_vaddr := value }
  else if tag = 18 then { info with rel_sz := value }
  else if tag = 19 then { info with rel_ent := value }
  else if tag = 6 then { info with symtab_vaddr := value }
  else if tag = 11 then { info with sym_ent := value }
  else if tag = 7 || tag = 8 || tag = 9 then { info with rela := true }
  else info

/-- The loop over the dynamic section, with the number of entries to go; `DT_NULL` ends it. -/
def scanDynamic (image : Bytes) : ℕ → ℕ → DynInfo → DynInfo
  | 0, _, info => info
  | n + 1, off, info =>
    if image.get32 off = 0 then info
    else scanDynamic image n (off + 8) (info.entry (image.get32 off) (image.get32 (off + 4)))

/-- The address of a symbol; an undefined one has none. -/
def resolve_symbol (image : Bytes) (base_vaddr image_size load_bias symtab_vaddr sym_ent sym_index : UInt32) :
    Option UInt32 :=
  if symtab_vaddr = 0 || sym_ent < SYM_SIZE then none
  else
    match elf_image_ptr base_vaddr image_size (symtab_vaddr + sym_index * sym_ent) sym_ent with
    | none => none
    | some off => if image.get16 (off + 14) = 0 then none else some (load_bias + image.get32 (off + 4))

/-- One relocation: the entry at `off` of the image. -/
def relocate (base_vaddr image_size load_bias : UInt32) (info : DynInfo) (image : Bytes) (off : ℕ) :
    Except ElfError Bytes :=
  let r_offset := image.get32 off
  let r_info := image.get32 (off + 4)
  let type := r_info &&& 0xFF
  let symbol := resolve_symbol image base_vaddr image_size load_bias info.symtab_vaddr info.sym_ent (r_info >>> 8)
  match elf_image_ptr base_vaddr image_size r_offset 4 with
  | none => .error .relocation_range
  | some reloc =>
    let old := image.get32 reloc
    if type = 0 then .ok image
    else if type = 8 then .ok (image.put32 reloc (old + load_bias))
    else if type = 1 || type = 2 || type = 6 || type = 7 then
      match symbol with
      | none => .error .symbol
      | some value =>
        if type = 1 then .ok (image.put32 reloc (value + old))
        else if type = 2 then .ok (image.put32 reloc (value + old - (load_bias + r_offset)))
        else .ok (image.put32 reloc value)
    else .error .relocation_type

/-- The loop over the relocations. -/
def relocateAll (base_vaddr image_size load_bias : UInt32) (info : DynInfo) :
    ℕ → Bytes → ℕ → Except ElfError Bytes
  | 0, image, _ => .ok image
  | n + 1, image, off =>
    match relocate base_vaddr image_size load_bias info image off with
    | .error e => .error e
    | .ok image => relocateAll base_vaddr image_size load_bias info n image (off + 8)

/-- The relocations that `PT_DYNAMIC` leads to. -/
def apply_relocations (image : Bytes) (base_vaddr image_size load_bias : UInt32) (phdrs : List Phdr) :
    Except ElfError Bytes :=
  match phdrs.find? fun ph => ph.p_type = PT_DYNAMIC with
  | none => .ok image
  | some dyn =>
    match elf_image_ptr base_vaddr image_size dyn.p_vaddr dyn.p_memsz with
    | none => .error .dynamic_range
    | some off =>
      let info := scanDynamic image (dyn.p_memsz / DYN_SIZE).toNat off ⟨0, 0, REL_SIZE, 0, SYM_SIZE, false⟩
      if info.rela then .error .rela
      else if info.rel_sz = 0 then .ok image
      else if info.rel_ent ≠ REL_SIZE || info.rel_sz % info.rel_ent ≠ 0 then .error .rel_table
      else
        match elf_image_ptr base_vaddr image_size info.rel_vaddr info.rel_sz with
        | none => .error .rel_range
        | some rel =>
          relocateAll base_vaddr image_size load_bias info (info.rel_sz / info.rel_ent).toNat image rel

/-! ## Loading -/

/-- A program in its buffer: the results of `elf_load_image` and the contents of the buffer. -/
structure LoadedImage where
  entry : UInt32
  image_base : UInt32
  image_size : UInt32
  load_base : UInt32
  bytes : Bytes

/-- One turn of the loop that copies the segments. -/
def copySegment (file : Bytes) (base_vaddr image_size : UInt32) (image : Bytes) (ph : Phdr) : Except ElfError Bytes :=
  if !ph.isLoad then .ok image
  else
    let seg_offset := ph.p_vaddr - base_vaddr
    if seg_offset + ph.p_memsz > image_size then .error .segment_exceeds
    else .ok (image.splice seg_offset.toNat ph.p_filesz.toNat fun k => file (ph.p_offset.toNat + k))

/-- The image is allocated and filled; `kmalloc` is a function of the size. -/
def buildImage (kmalloc : UInt32 → UInt32) (file : Bytes) (phdrs : List Phdr) (is_pie : Bool)
    (entry base_vaddr image_size load_base : UInt32) : Except ElfError LoadedImage :=
  let load_bias := load_base - base_vaddr
  if kmalloc image_size = 0 then .error .image_alloc
  else
    match phdrs.foldlM (copySegment file base_vaddr image_size) (fun _ => 0) with
    | .error e => .error e
    | .ok image =>
      match if is_pie then apply_relocations image base_vaddr image_size load_bias phdrs else .ok image with
      | .error e => .error e
      | .ok image => .ok ⟨entry + load_bias, kmalloc image_size, image_size, load_base, image⟩

/-- `elf_load_image` from the check of the identification up to the mapping, with the next `g_next_pie_base`. -/
def elf_load_image (kmalloc : UInt32 → UInt32) (next_pie : UInt32) (file : Bytes) (size : UInt32) :
    Except ElfError LoadedImage × UInt32 :=
  let eh := readEhdr file
  if (eh.e_type ≠ ET_EXEC && eh.e_type ≠ ET_DYN) || eh.e_machine ≠ EM_386 || eh.e_version ≠ EV_CURRENT then
    (.error .unsupported_header, next_pie)
  else if eh.e_phentsize.toNat ≠ PHDR_SIZE || eh.e_phnum = 0 then (.error .program_header_table, next_pie)
  else if eh.e_phoff > size || eh.e_phoff + UInt32.ofNat (eh.e_phnum.toNat * PHDR_SIZE) > size then
    (.error .program_headers_range, next_pie)
  else
    let is_pie := eh.e_type = ET_DYN
    let phdrs := readPhdrs file eh
    match phdrs.foldlM (measureSegment size) ⟨0xFFFFFFFF, 0⟩ with
    | .error e => (.error e, next_pie)
    | .ok extent =>
      if extent.min_vaddr = 0xFFFFFFFF then (.error .no_segments, next_pie)
      else if eh.e_entry < extent.min_vaddr || eh.e_entry ≥ extent.max_vaddr then (.error .entry_range, next_pie)
      else
        let base_vaddr := alignDown extent.min_vaddr
        let image_size := alignUp (extent.max_vaddr - base_vaddr) PAGE_SIZE
        if image_size = 0 then (.error .image_size, next_pie)
        else if is_pie then
          let (load_base, next_pie) := choose_pie_base next_pie image_size
            (if base_vaddr < ELF_USER_VADDR_MIN then ELF_USER_VADDR_MIN else base_vaddr)
          if load_base = 0 then (.error .no_pie_space, next_pie)
          else (buildImage kmalloc file phdrs true eh.e_entry base_vaddr image_size load_base, next_pie)
        else if extent.min_vaddr < ELF_USER_VADDR_MIN || extent.max_vaddr > ELF_USER_VADDR_MAX then
          (.error .user_range, next_pie)
        else (buildImage kmalloc file phdrs false eh.e_entry base_vaddr image_size base_vaddr, next_pie)

end Orion.Elf
