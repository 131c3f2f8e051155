import Orion.Elf.Loader
import Orion.Space.Exec
import Orion.Space.Isolation

/-!
# What a new process finds in its memory

`bin_create_process` with the bytes it moves: the file that is read, the image that the loader builds and the stack with
the arguments. A run starts from the bytes that are in the kernel heap, left by earlier programs or by the kernel. The
pages of the heap are mapped one to one, in the same way in all runs, so that a physical page of it is named by its
address in the heap.
-/

namespace Orion.Space

open Paging Proc Elf Lib

/-- Where a byte of the file buffer comes from: from the disk, from the heap where a sector could not be read, or from
nowhere, when the chain ends early. -/
inductive FileByte where
  | disk (byte : UInt8)
  | unread (addr : UInt32)
  | missing
  deriving DecidableEq, Repr

/-- The kernel's directory, which shows nothing to user code. -/
structure KernelSpace extends PageDir where
  no_user_dir : ∀ i, pde i &&& PAGE_USER = 0
  no_user : ∀ i j, pte i j &&& PAGE_USER = 0

/-- What a creation meets apart from the bytes in free memory: the file, the arguments and the answers of the
allocators. -/
structure CreateEnv where
  kernel : KernelSpace
  dir_phys : UInt32
  copies : Fin 1024 → UInt32
  /-- the answers of `pmm_alloc_page` -/
  tables : List UInt32
  stack_kern : UInt32
  /-- `fscmd_get_file_size` -/
  size : UInt32
  /-- `kmalloc` of the file buffer -/
  file_base : UInt32
  /-- `read_file_exact` succeeds -/
  file_read : Bool
  file : ℕ → FileByte
  /-- the reads of `load_bin` succeed -/
  flat_read : Bool
  flat : ℕ → FileByte
  /-- `kmalloc` of the image -/
  kmalloc : UInt32 → UInt32
  /-- `g_next_pie_base` -/
  next_pie : UInt32
  argv : List (List UInt8)
  /-- `kmalloc` of `arg_addrs` succeeds -/
  args_alloc : Bool
  stack_aligned : stack_kern.toNat % 4096 = 0
  stack_fits : stack_kern.toNat + PROC_STACK_SIZE.toNat ≤ 2 ^ 32
  file_fits : file_base ≠ 0 → size.toNat ≤ HEAP_SIZE
  image_fits : ∀ n, kmalloc n ≠ 0 → n.toNat ≤ HEAP_SIZE ∧ (kmalloc n).toNat + n.toNat ≤ 2 ^ 32
  image_aligned : ∀ n, kmalloc n ≠ 0 → (kmalloc n).toNat % 4096 = 0
  image_apart : ∀ n, kmalloc n ≠ 0 →
    (kmalloc n).toNat + n.toNat ≤ stack_kern.toNat ∨ stack_kern.toNat + PROC_STACK_SIZE.toNat ≤ (kmalloc n).toNat

/-- Every byte of the file in the buffer of `elf_load_image` came from the disk, and none in the buffer of `load_bin` from
a sector that could not be read. Where the chain ends early, the buffer of `load_bin` holds the zeros it was cleared with.
-/
def CreateEnv.Delivered (env : CreateEnv) : Prop :=
  (∀ k < env.size.toNat, ∃ byte, env.file k = .disk byte) ∧ ∀ k < env.size.toNat, ∀ addr, env.flat k ≠ .unread addr

/-! ## The program -/

section Load

variable (env : CreateEnv) (heap : UInt32 → UInt8)

/-- The file buffer of `elf_load_image`, which is not cleared, and the heap behind it. -/
def elfFile : Bytes := fun k =>
  match if k < env.size.toNat then env.file k else .missing with
  | .disk byte => byte
  | .unread addr => heap addr
  | .missing => heap (env.file_base + UInt32.ofNat k)

/-- The buffer of `load_bin`, which is cleared before the file is read. -/
def flatFile : Bytes := fun k =>
  match if k < env.size.toNat then env.flat k else .missing with
  | .disk byte => byte
  | .unread addr => heap addr
  | .missing => 0

/-- `load_bin` with the copy to the heap. -/
def loadFlat : Option LoadedImage :=
  if env.size = 0 || env.size > BIN_MAX_SIZE || !env.flat_read then none
  else
    let alloc_size := (env.size + 0xFFF) &&& ~~~0xFFF
    if env.kmalloc alloc_size = 0 then none
    else
      some ⟨BIN_LOAD_ADDR, env.kmalloc alloc_size, alloc_size, BIN_LOAD_ADDR,
        fun k => if k < env.size.toNat then flatFile env heap k else 0⟩

/-- The image of the program: ELF, or a flat file. -/
def loadProgram : Option LoadedImage :=
  if env.size.toNat < EHDR_SIZE || env.file_base = 0 || !env.file_read || !elf_ident_ok (elfFile env heap) then
    loadFlat env heap
  else
    match (elf_load_image env.kmalloc env.next_pie (elfFile env heap) env.size).1 with
    | .error _ => none
    | .ok img => some img

end Load

/-! ## The stack -/

def user_exit_stub : List UInt8 := [0xB8, 0x08, 0x00, 0x00, 0x00, 0x31, 0xDB, 0xCD, 0xA5, 0xEB, 0xFE]

/-- The loop of `setup_user_stack` over the arguments, the last one first: the stack pointer, the stack and their
addresses so far. -/
def pushArgs (stack_base : UInt32) :
    List (List UInt8) → UInt32 → Bytes → List UInt32 → Option (UInt32 × Bytes × List UInt32)
  | [], sp, stack, addrs => some (sp, stack, addrs)
  | arg :: args, sp, stack, addrs =>
    let len := UInt32.ofNat (arg.length + 1)
    if sp < stack_base + len then none
    else if sp - len < stack_base then none
    else
      pushArgs stack_base args (sp - len)
        (stack.splice (sp - len - stack_base).toNat (arg.length + 1) (Bytes.ofList arg)) ((sp - len) :: addrs)

/-- `argv_out[i] = ...` -/
def putWords (stack : Bytes) : ℕ → List UInt32 → Bytes
  | _, [] => stack
  | off, word :: words => putWords (stack.put32 off word) (off + 4) words

/-- What `setup_user_stack` does after the loop: the array of addresses and, below it, `argc` and the address of the
array, which is that of the kernel's `argv_out`. -/
def putHeader (stack_base stack_kern : UInt32) (argc : ℕ) (sp : UInt32) (stack : Bytes) (addrs : List UInt32) :
    Option (UInt32 × Bytes) :=
  let sp := sp &&& ~~~3
  let argv_bytes := UInt32.ofNat (argc + 1) * 4
  if sp < stack_base + argv_bytes then none
  else if sp - argv_bytes < stack_base then none
  else
    let sp := sp - argv_bytes
    let stack := putWords stack (sp - stack_base).toNat (addrs ++ [0])
    let argv_out := stack_kern + (sp - stack_base)
    if sp < stack_base + 8 then none
    else if sp - 8 < stack_base then none
    else
      let sp := sp - 8
      some (sp, putWords stack (sp - stack_base).toNat [UInt32.ofNat argc, argv_out])

/-- `setup_user_stack` on a cleared stack: the stack pointer and the stack. -/
def setupUserStack (stack_base stack_size stack_kern : UInt32) (argv : List (List UInt8)) (args_alloc : Bool) :
    Option (UInt32 × Bytes) :=
  let stub_addr := (stack_base + stack_size - 16) &&& ~~~0xF
  if stub_addr < stack_base then none
  else
    let stack : Bytes := Bytes.splice (fun _ => 0) (stub_addr - stack_base).toNat user_exit_stub.length
      (Bytes.ofList user_exit_stub)
    if argv ≠ [] && !args_alloc then none
    else
      match pushArgs stack_base argv.reverse stub_addr stack [] with
      | none => none
      | some (sp, stack, addrs) => putHeader stack_base stack_kern argv.length sp stack addrs

def setup_user_stack (stack_base stack_kern : UInt32) (argv : List (List UInt8)) (args_alloc : Bool) :
    Option (UInt32 × Bytes) :=
  setupUserStack stack_base PROC_STACK_SIZE stack_kern argv args_alloc

/-! ## The process -/

/-- A new process: its directory, its image and its stack, and the heap in which their buffers are. -/
structure NewProcess where
  dir : PageDir
  image : LoadedImage
  stack_kern : UInt32
  stack : Bytes
  heap : UInt32 → UInt8

/-- The byte at a heap address once the process is created. -/
def NewProcess.byteAt (p : NewProcess) (addr : UInt32) : UInt8 :=
  if p.image.image_base.toNat ≤ addr.toNat ∧ addr.toNat < p.image.image_base.toNat + p.image.image_size.toNat then
    p.image.bytes (addr.toNat - p.image.image_base.toNat)
  else if p.stack_kern.toNat ≤ addr.toNat ∧ addr.toNat < p.stack_kern.toNat + PROC_STACK_SIZE.toNat then
    p.stack (addr.toNat - p.stack_kern.toNat)
  else p.heap addr

/-- The byte that user code finds at a virtual address, if the page is present and user-accessible. -/
def NewProcess.userByte (p : NewProcess) (virt : UInt32) : Option UInt8 :=
  (p.dir.userFrame (pageKey virt)).map fun frame => p.byteAt (frame + (virt &&& 0xFFF))

/-- The directory with the pages of the stack, as `proc_create_pending` leaves it. -/
def CreateEnv.pending (env : CreateEnv) : Mapping :=
  mapBuffer id PROC_STACK_SIZE (USER_STACK_TOP - PROC_STACK_SIZE) env.stack_kern
    ⟨paging_create_user_dir env.kernel.toPageDir env.dir_phys env.copies, env.tables, []⟩

/-- `bin_create_process` when the process table has a slot and the pending process has its memory. -/
def createWith (env : CreateEnv) (heap : UInt32 → UInt8) : Option NewProcess :=
  if env.stack_kern = 0 then none
  else
    match loadProgram env heap with
    | none => none
    | some img =>
      match setup_user_stack (USER_STACK_TOP - PROC_STACK_SIZE) env.stack_kern env.argv env.args_alloc with
      | none => none
      | some (_, stack) =>
        some ⟨(mapBuffer id img.image_size img.load_base img.image_base env.pending).dir, img, env.stack_kern, stack, heap⟩

end Orion.Space
