import Orion.Paging.Map
import Orion.Proc.Table

/-!
# The system call `SYS_EXEC` and the caller's address space

`SYS_EXEC` maps the pages of the new image and of the new stack into the caller's directory while the old
program is still there. The process table is that of `Proc.Table`; the directory is the one in use, which is the
caller's.
-/

namespace Orion.Space

open Paging Proc

def BIN_LOAD_ADDR : UInt32 := 0x500000
def BIN_MAX_SIZE : UInt32 := 64 * 1024

/-- What `load_bin` and the rest of `bin_load_image` meet in a file that `elf_load_image` does not take for an ELF file. -/
structure FlatFile where
  /-- `fscmd_get_file_size` -/
  size : UInt32
  bytes : ℕ → UInt8
  /-- how many bytes the calls of `fscmd_read_file_partial` deliver before one of them fails -/
  delivered : ℕ
  /-- `kmalloc` of the image -/
  image_base : UInt32

namespace FlatFile

/-- The size that `load_bin` accepts. -/
def sizeOk (f : FlatFile) : Bool := f.size ≠ 0 && f.size ≤ BIN_MAX_SIZE

/-- What is at `BIN_LOAD_ADDR + k` when `load_bin` returns: it clears all of `BIN_MAX_SIZE` before it looks at the size. -/
def left (f : FlatFile) (k : ℕ) : UInt8 :=
  if f.sizeOk && k < min f.size.toNat f.delivered then f.bytes k else 0

/-- The image that is to be mapped; `none` when `load_bin` fails or there is no room. -/
def image (f : FlatFile) : Option Image :=
  if !f.sizeOk || f.delivered < f.size.toNat || f.image_base = 0 then none
  else some ⟨BIN_LOAD_ADDR, f.image_base, (f.size + 0xFFF) &&& ~~~0xFFF, BIN_LOAD_ADDR⟩

end FlatFile

/-- The addresses that `load_bin` writes to. -/
def InWindow (virt : UInt32) : Prop := BIN_LOAD_ADDR ≤ virt ∧ virt - BIN_LOAD_ADDR < BIN_MAX_SIZE
deriving Decidable

/-- The bytes after `load_bin`, which writes to `BIN_LOAD_ADDR` through the tables of the caller. -/
def load_bin (f : FlatFile) (memory : UInt32 → UInt8) : UInt32 → UInt8 := fun virt =>
  if InWindow virt then f.left (virt - BIN_LOAD_ADDR).toNat else memory virt

/-- The file as `bin_load_image` meets it. An ELF file has no image to be mapped when it is refused or the image cannot be
allocated. -/
inductive Program where
  | elf (image : Option Image)
  | flat (file : FlatFile)

def Program.image : Program → Option Image
  | .elf image => image
  | .flat file => file.image

/-- The bytes when the image of the program is to be mapped. -/
def Program.load (memory : UInt32 → UInt8) : Program → UInt32 → UInt8
  | .elf _ => memory
  | .flat file => load_bin file memory

/-- What the call meets: its arguments, the file and the answers of the allocators. -/
structure ExecEnv where
  /-- `copy_user_string` of the path succeeds -/
  path_copied : Bool
  argc : Int
  /-- `copy_user_argv` succeeds -/
  argv_copied : Bool
  /-- `fscmd_exists` -/
  found : Bool
  program : Program
  /-- `vmm_virt_to_phys` for the buffers in the kernel heap -/
  phys : UInt32 → Option UInt32
  /-- `kmalloc` of the user stack -/
  stack_kern : UInt32
  /-- the result of `setup_user_stack`; the copied arguments always fit, so that it is 0 only when `kmalloc` of
  `arg_addrs` fails -/
  user_esp : UInt32

/-- The process table, the directory in use, and the bytes of the caller's pages, by the addresses at which it sees them.
-/
structure ExecSys where
  sys : ProcSys
  space : Mapping
  memory : UInt32 → UInt8

/-- `proc_map_user_stack` of the new stack; `proc_init_user_stack` does not come to it without a buffer. -/
def mapStack (env : ExecEnv) (m : Mapping) : Bool × Mapping :=
  if env.stack_kern = 0 then (false, m)
  else mapPages env.phys (pageCount PROC_STACK_SIZE) m (USER_STACK_TOP - PROC_STACK_SIZE) env.stack_kern

/-- The fields that `proc_exec` changes are the same. -/
structure SameProgram (p q : Process) : Prop where
  entry : p.entry = q.entry
  image_base : p.image_base = q.image_base
  image_size : p.image_size = q.image_size
  image_load_base : p.image_load_base = q.image_load_base
  stack_base : p.stack_base = q.stack_base
  stack_size : p.stack_size = q.stack_size
  stack_kern_base : p.stack_kern_base = q.stack_kern_base
  name : p.name = q.name

/-- The file has no image to be mapped, and what `load_bin` writes in vain changes no byte that user code sees. -/
def Program.Harmless (q : ExecSys) : Program → Prop
  | .elf image => image = none
  | .flat file => file.image = none ∧ ∀ virt, InWindow virt → q.space.dir.userFrame (pageKey virt) ≠ none →
      file.left (virt - BIN_LOAD_ADDR).toNat = q.memory virt

/-- A page of the buffers that the call takes from the heap. -/
def ExecEnv.NewPage (env : ExecEnv) (a : UInt32) : Prop :=
  (∃ img, env.program.image = some img ∧ ∃ k < pageCount img.image_size, a = pageAt img.image_base k) ∨
    (env.stack_kern ≠ 0 ∧ ∃ k < pageCount PROC_STACK_SIZE, a = pageAt env.stack_kern k)

/-- What the allocators promise: the heap gives out no page that user code sees, and the first page of an image is mapped
in the kernel and has a table to be entered into. -/
structure ExecEnv.Served (env : ExecEnv) (q : ExecSys) : Prop where
  unseen : ∀ a page, env.NewPage a → env.phys a = some page → ∀ key, q.space.dir.userFrame key ≠ some (page &&& 0xFFFFF000)
  first : ∀ img, env.program.image = some img → 0 < pageCount img.image_size ∧ env.phys img.image_base ≠ none ∧
    (q.space.dir.pde (dirIdx img.image_load_base) &&& PAGE_PRESENT ≠ 0 ∨ (pmm_alloc_page q.space.tables).1 ≠ 0)

end Orion.Space
