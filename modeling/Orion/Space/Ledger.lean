import Orion.Paging.Map
import Orion.Proc.Table

/-!
# The memory of a process

What `bin_create_process` takes from the kernel heap and from the physical pages, and what is given back: on its error
paths, and by `proc_cleanup` when the process has exited and is reaped. The ledger records the live blocks of the heap
and the free physical pages.
-/

namespace Orion.Space

open Paging Proc

/-- An answer of `kmalloc`: the block, or 0, and the number of pages that `heap_commit_to` took for it. -/
structure HeapAnswer where
  addr : UInt32
  grown : ℕ
  deriving DecidableEq, Repr

/-- The live blocks of the heap, and the free physical pages in the order in which `pmm_alloc_page` gives them out. -/
structure Ledger where
  blocks : Multiset UInt32
  free : List UInt32
  deriving DecidableEq

/-- The block at an address; the null pointer is none. -/
def block (addr : UInt32) : Multiset UInt32 := if addr = 0 then 0 else {addr}

namespace Ledger

def kmalloc (l : Ledger) (a : HeapAnswer) : Ledger := ⟨l.blocks + block a.addr, l.free.drop a.grown⟩

/-- `kfree`; the heap keeps the pages it has. -/
def kfree (l : Ledger) (addr : UInt32) : Ledger := ⟨l.blocks - block addr, l.free⟩

def kfreeAll (l : Ledger) (addrs : List UInt32) : Ledger := addrs.foldl kfree l

/-- A block that is freed before the call ends. -/
def temporary (l : Ledger) (a : HeapAnswer) : Ledger := (l.kmalloc a).kfree a.addr

def setFree (l : Ledger) (free : List UInt32) : Ledger := ⟨l.blocks, free⟩

/-- `proc_cleanup` -/
def cleanup (l : Ledger) (p : Process) : Ledger :=
  (((l.kfree p.stack_kern_base).kfree p.kstack_base).kfree p.image_base).kfree (if p.is_kernel then 0 else p.page_dir)

end Ledger

/-- What loading the program meets. -/
structure LoadEnv where
  /-- the file buffer of `elf_load_image` and the buffers of the file system -/
  temporaries : List HeapAnswer
  /-- the file is a program, up to the allocation of the image -/
  is_program : Bool
  image : HeapAnswer
  /-- a segment exceeds the image or a relocation is bad -/
  rejected : Bool
  image_size : UInt32
  image_load_base : UInt32
  entry : UInt32

/-- What a process meets from its creation to its end. -/
structure LifeEnv where
  path : Option (List UInt8)
  make_current : Bool
  dir : HeapAnswer
  dir_phys : UInt32
  /-- the copies of the low tables -/
  low : Fin 1024 → HeapAnswer
  low_phys : Fin 1024 → UInt32
  kstack : HeapAnswer
  stack : HeapAnswer
  /-- `vmm_virt_to_phys` for the buffers in the kernel heap -/
  phys : UInt32 → Option UInt32
  load : LoadEnv
  /-- `arg_addrs` of `setup_user_stack`, and its result -/
  args : HeapAnswer
  user_esp : UInt32
  /-- how often the process is entered through `enter_user_process` -/
  entered : ℕ

/-- The tables that a new directory copies. -/
def lowTables (kernel : PageDir) : List (Fin 1024) :=
  ((List.finRange 16).map (Fin.castLE (by decide))).filter fun i => kernel.pde i &&& PAGE_PRESENT ≠ 0

section Life

variable (kernel : PageDir) (env : LifeEnv)

/-- The loop of `paging_create_user_dir`; `copied` are the copies so far. -/
def copyTables (dir : UInt32) : List UInt32 → List HeapAnswer → Ledger → Bool × Ledger
  | _, [], l => (true, l)
  | copied, a :: answers, l =>
    if a.addr = 0 then (false, ((l.kmalloc a).kfreeAll copied).kfree dir)
    else copyTables dir (copied ++ [a.addr]) answers (l.kmalloc a)

/-- `paging_create_user_dir` -/
def createDir (l : Ledger) : Bool × Ledger :=
  if env.dir.addr = 0 then (false, l.kmalloc env.dir)
  else copyTables env.dir.addr [] ((lowTables kernel).map env.low) (l.kmalloc env.dir)

/-- Pages are mapped; new tables come from the free pages. -/
def enterPages (l : Ledger) (m : Mapping) (size virt buffer : UInt32) : Bool × Mapping × Ledger :=
  let r := mapPages env.phys (pageCount size) { m with tables := l.free } virt buffer
  (r.1, r.2, l.setFree r.2.tables)

/-- `proc_create_pending` in a slot that has been cleaned up; the directory of the pending process, if there is one. -/
def createPending (l : Ledger) : Option Mapping × Ledger :=
  match createDir kernel env l with
  | (false, l) => (none, l)
  | (true, l) =>
    let l := l.kmalloc env.kstack
    if env.kstack.addr = 0 then (none, l.kfree env.dir.addr)
    else
      let l := l.kmalloc env.stack
      if env.stack.addr = 0 then (none, (l.kfree env.kstack.addr).kfree env.dir.addr)
      else
        let m : Mapping := ⟨paging_create_user_dir kernel env.dir_phys env.low_phys, [], []⟩
        match enterPages env l m PROC_STACK_SIZE (USER_STACK_TOP - PROC_STACK_SIZE) env.stack.addr with
        | (false, _, l) => (none, ((l.kfree env.stack.addr).kfree env.kstack.addr).kfree env.dir.addr)
        | (true, m, l) => (some m, l)

/-- `elf_load_image`, or `load_bin` with the copy to the heap. -/
def loadImage (m : Mapping) (l : Ledger) : Option Mapping × Ledger :=
  let l := env.load.temporaries.foldl Ledger.temporary l
  if !env.load.is_program then (none, l)
  else
    let l := l.kmalloc env.load.image
    if env.load.image.addr = 0 then (none, l)
    else if env.load.rejected then (none, l.kfree env.load.image.addr)
    else
      match enterPages env l m env.load.image_size env.load.image_load_base env.load.image.addr with
      | (false, _, l) => (none, l.kfree env.load.image.addr)
      | (true, m, l) => (some m, l)

/-- `proc_cleanup_process` of the pending process, which has no image yet. -/
def cleanupPending (l : Ledger) : Ledger :=
  ((l.kfree env.stack.addr).kfree env.kstack.addr).kfree env.dir.addr

/-- `bin_create_process` in a slot that has been cleaned up. -/
def createProcess (l : Ledger) : Option Mapping × Ledger :=
  match createPending kernel env l with
  | (none, l) => (none, l)
  | (some m, l) =>
    match loadImage env m l with
    | (none, l) => (none, cleanupPending env l)
    | (some m, l) =>
      let l := l.temporary env.args
      if env.user_esp = 0 then (none, cleanupPending env (l.kfree env.load.image.addr)) else (some m, l)

/-- The inputs of the successful creation as `bin_create_process` of `Proc.Table` takes them. -/
def LifeEnv.startEnv : StartEnv where
  path := env.path
  env := ⟨env.dir.addr, env.dir_phys, env.kstack.addr, env.stack.addr, true, env.user_esp⟩
  image := some ⟨env.load.entry, env.load.image.addr, env.load.image_size, env.load.image_load_base⟩

/-- `ensure_user_mappings` for the process `p` -/
def ensure_user_mappings (p : Process) (m : Mapping) (l : Ledger) : Mapping × Ledger :=
  let (m, l) :=
    if p.image_base ≠ 0 && p.image_size ≠ 0 && p.image_load_base ≠ 0 then
      (enterPages env l m p.image_size p.image_load_base p.image_base).2
    else (m, l)
  if p.stack_kern_base ≠ 0 && p.stack_size ≠ 0 && p.stack_base ≠ 0 then
    (enterPages env l m p.stack_size p.stack_base p.stack_kern_base).2
  else (m, l)

def enterProcess (p : Process) : ℕ → Mapping → Ledger → Ledger
  | 0, _, l => l
  | n + 1, m, l =>
    let r := ensure_user_mappings env p m l
    enterProcess p n r.1 r.2

/-- A process is created, runs, exits and is reaped, or its creation fails; the exit frees nothing. -/
def lifeCycle (s : ProcSys) (l : Ledger) : Ledger :=
  match s.findSlot isFreeSlot with
  | none => l
  | some i =>
    match createProcess kernel env (l.cleanup (s.proc_table i)) with
    | (none, l) => l
    | (some m, l) =>
      let p := (bin_create_process s env.startEnv env.make_current).2.proc_table i
      (enterProcess env p env.entered m l).cleanup p

/-! ## What is lost -/

/-- The blocks that `proc_cleanup` frees. -/
def heldBlocks (p : Process) : Multiset UInt32 :=
  block p.stack_kern_base + block p.kstack_base + block p.image_base + block (if p.is_kernel then 0 else p.page_dir)

/-- `paging_create_user_dir` succeeds. -/
def dirCreated : Bool := env.dir.addr ≠ 0 && (lowTables kernel).all fun i => (env.low i).addr ≠ 0

/-- The copies of the low tables, which nobody frees. -/
def lowCopies : Multiset UInt32 := (((lowTables kernel).map fun i => block (env.low i).addr).sum)

def copiesGrowth : List HeapAnswer → ℕ
  | [] => 0
  | a :: answers => a.grown + if a.addr = 0 then 0 else copiesGrowth answers

def setupGrowth : ℕ :=
  env.dir.grown + (if env.dir.addr = 0 then 0 else copiesGrowth ((lowTables kernel).map env.low)) +
    if dirCreated kernel env then env.kstack.grown + (if env.kstack.addr = 0 then 0 else env.stack.grown) else 0

def mapsStack : Bool :=
  dirCreated kernel env && env.kstack.addr ≠ 0 && env.stack.addr ≠ 0 && (env.phys env.stack.addr).isSome

/-- There was no free slot; or the copies of the low tables make up for what an exited process in the slot held, and no
physical page is taken, because none is free or the creation ends before. -/
def LosesNothing (s : ProcSys) (l : Ledger) : Prop :=
  match s.findSlot isFreeSlot with
  | none => True
  | some i =>
    (if dirCreated kernel env then lowCopies kernel env else 0) = heldBlocks (s.proc_table i) ∧
      (l.free = [] ∨ (setupGrowth kernel env = 0 ∧ mapsStack kernel env = false))

end Life

end Orion.Space
