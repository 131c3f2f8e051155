import Orion.Paging.Map
import Orion.Proc.Table

/-!
# The address spaces of all processes

The process table of `Proc.Table` together with the directory of every slot and the buffers that were given back to
the kernel heap. Creations, `fork`, `exec`, exits and reaps may come in any order and from any process, so that the
scheduler does not appear here. The heap is mapped in the part that all directories share: `phys` gives the physical
page of an address in it.
-/

namespace Orion.Space

open Paging Proc

/-- The heap buffers that user code of the process sees. -/
def buffers (p : Process) : List UInt32 := [p.image_base, p.stack_kern_base].filter (· ≠ 0)

/-- The process table, the directory of each slot, and the image and stack buffers that are back in the heap. -/
structure SpaceSys where
  sys : ProcSys
  dirs : Slot → PageDir
  freed : List UInt32

/-- The answers to the creation of a directory. -/
structure DirEnv where
  phys : UInt32
  copies : Fin 1024 → UInt32
  /-- the answers of `pmm_alloc_page` -/
  tables : List UInt32

/-- An operation on processes and their directories. -/
inductive SpaceOp where
  /-- `proc_create_common` -/
  | create (name : Option (List UInt8)) (entry : UInt32) (env : StackEnv) (make_current build_frame : Bool) (dir : DirEnv)
  /-- `proc_create_kernel_common` -/
  | createKernel (name : Option (List UInt8)) (entry : UInt32) (env : KernelEnv) (make_current : Bool)
  /-- `bin_create_process` -/
  | start (a : StartEnv) (make_current : Bool) (dir : DirEnv)
  /-- `proc_fork` by the process in slot `c` -/
  | fork (c : Slot) (env : ForkEnv) (dir : DirEnv)
  /-- `bin_load_image` and `proc_exec` by the process in slot `c`; `image` is the image when the loader comes to
  mapping it -/
  | exec (c : Slot) (image : Option Image) (env : StackEnv) (tables : List UInt32)
  /-- `proc_exit` of the process in slot `c` -/
  | exit (c : Slot) (exit_code : UInt32)
  /-- `proc_cleanup` of the exited process in slot `c` -/
  | reap (c : Slot)

/-- A user process that has not exited. -/
def LiveUser (p : Process) : Prop := isFreeSlot p = false ∧ p.is_kernel = false
deriving Decidable

/-- The contents `s` of the table differ in slot `i` only, whose directory is `d`. Of the buffers `taken` and the slot's
old ones, those that it does not hold now are back in the heap. -/
def SpaceSys.replace (q : SpaceSys) (s : ProcSys) (i : Slot) (d : PageDir) (taken : List UInt32) : SpaceSys where
  sys := s
  dirs := Function.update q.dirs i d
  freed := (buffers (q.sys.proc_table i) ++ taken ++ q.freed).filter (· ∉ buffers (s.proc_table i))

section Step

variable (kernel : KernelDir) (phys : UInt32 → UInt32)

/-- A directory as `paging_create_user_dir` makes it. -/
def newDir (dir : DirEnv) : Mapping := ⟨paging_create_user_dir kernel.toPageDir dir.phys dir.copies, dir.tables, []⟩

/-- The pages of the buffer are entered at `virt`. -/
def mapBuffer (size virt buffer : UInt32) (m : Mapping) : Mapping :=
  (mapPages (fun a => some (phys a)) (pageCount size) m virt buffer).2

def proc_map_user_stack (p : Process) (m : Mapping) : Mapping :=
  if p.stack_base = 0 || p.stack_kern_base = 0 || p.stack_size = 0 then m
  else mapBuffer phys p.stack_size p.stack_base p.stack_kern_base m

/-- The loop of `proc_fork` over the pages of the child's image. -/
def mapForkedImage (p : Process) (m : Mapping) : Mapping :=
  if p.image_base = 0 || p.image_size = 0 || p.image_load_base = 0 then m
  else mapBuffer phys p.image_size p.image_load_base p.image_base m

def imageBuffer : Option Image → List UInt32
  | none => []
  | some img => [img.image_base]

/-- The address spaces after an operation; a creation that fails leaves a directory that no process has. -/
def spaceStep (q : SpaceSys) : SpaceOp → SpaceSys
  | .create name entry env make_current build_frame dir =>
    match q.sys.findSlot isFreeSlot with
    | none => q
    | some i =>
      let s := (proc_create_common q.sys name entry env make_current build_frame).2
      q.replace s i (proc_map_user_stack phys (s.proc_table i) (newDir kernel dir)).dir [env.stack_kern]
  | .createKernel name entry env make_current =>
    match q.sys.findSlot isFreeSlot with
    | none => q
    | some i => q.replace (proc_create_kernel_common q.sys name entry env make_current).2 i (q.dirs i) []
  | .start a make_current dir =>
    match q.sys.findSlot isFreeSlot with
    | none => q
    | some i =>
      let s := (bin_create_process q.sys a make_current).2
      let p := s.proc_table i
      -- the stack is mapped by `proc_create_pending`, before the image
      let m := proc_map_user_stack phys p (newDir kernel dir)
      q.replace s i (mapBuffer phys p.image_size p.image_load_base p.image_base m).dir
        (a.env.stack_kern :: imageBuffer a.image)
  | .fork c env dir =>
    if LiveUser (q.sys.proc_table c) then
      match q.sys.findSlot isFreeSlot with
      | none => q
      | some i =>
        let s := (forkInto q.sys c i env).2
        let p := s.proc_table i
        q.replace s i (proc_map_user_stack phys p (mapForkedImage phys p (newDir kernel dir))).dir
          [env.image, env.stack_kern]
    else q
  | .exec c image env tables =>
    if LiveUser (q.sys.proc_table c) then
      match image with
      | none => q
      | some img =>
        let m := mapBuffer phys img.image_size img.image_load_base img.image_base ⟨q.dirs c, tables, []⟩
        let m :=
          if env.stack_kern = 0 then m
          else mapBuffer phys PROC_STACK_SIZE (USER_STACK_TOP - PROC_STACK_SIZE) env.stack_kern m
        q.replace (proc_exec q.sys c img env).2 c m.dir (env.stack_kern :: imageBuffer image)
    else q
  | .exit c exit_code =>
    if isFreeSlot (q.sys.proc_table c) then q
    else { q with sys := q.sys.setSlot c ((q.sys.proc_table c).setExit exit_code) }
  | .reap c =>
    if (q.sys.proc_table c).state = .EXITED then q.replace (proc_cleanup q.sys c) c (q.dirs c) [] else q

end Step

/-! ## Isolation -/

/-- The frame is a page of the buffer. -/
def PageOf (phys : UInt32 → UInt32) (buffer size frame : UInt32) : Prop :=
  ∃ k < pageCount size, frame = phys (pageAt buffer k) &&& 0xFFFFF000

/-- Every page below the kernel's part that user code of a live process can access is one of its image buffer or stack,
which is not back in the heap. -/
def Isolated (phys : UInt32 → UInt32) (q : SpaceSys) : Prop :=
  ∀ i, LiveUser (q.sys.proc_table i) → ∀ key : PageKey, key.1.val < 768 → ∀ frame, (q.dirs i).userFrame key = some frame →
    (PageOf phys (q.sys.proc_table i).image_base (q.sys.proc_table i).image_size frame ∧
      (q.sys.proc_table i).image_base ∉ q.freed) ∨
    (PageOf phys (q.sys.proc_table i).stack_kern_base (q.sys.proc_table i).stack_size frame ∧
      (q.sys.proc_table i).stack_kern_base ∉ q.freed)

/-- The buffers that an operation takes from the heap, with the slot that may hold them afterwards. -/
def takes (q : SpaceSys) : SpaceOp → Option Slot × List UInt32
  | .create _ _ env _ _ _ => (q.sys.findSlot isFreeSlot, [env.stack_kern])
  | .createKernel _ _ _ _ => (q.sys.findSlot isFreeSlot, [])
  | .start a _ _ => (q.sys.findSlot isFreeSlot, a.env.stack_kern :: imageBuffer a.image)
  | .fork _ env _ => (q.sys.findSlot isFreeSlot, [env.image, env.stack_kern])
  | .exec c image env _ => (some c, env.stack_kern :: imageBuffer image)
  | .exit c _ => (some c, [])
  | .reap c => (some c, [])

/-- `kmalloc` keeps its contract: a buffer it returns is held by no other process, and the image of a program is in a
buffer. -/
def HeapFresh (q : SpaceSys) (op : SpaceOp) : Prop :=
  (∀ a ∈ (takes q op).2, a ≠ 0 → ∀ j, some j ≠ (takes q op).1 → a ∉ buffers (q.sys.proc_table j)) ∧
    match op with
    | .start a _ _ => 0 ∉ imageBuffer a.image
    | .exec c image env _ =>
      0 ∉ imageBuffer image ∧ ∀ a ∈ env.stack_kern :: imageBuffer image, a ∉ buffers (q.sys.proc_table c)
    | _ => True

/-- Page `key` is one of the pages of the range. -/
def InRange (base size : UInt32) (key : PageKey) : Prop := ∃ k < pageCount size, key = pageKey (pageAt base k)

/-- The new program of an `exec` takes over every page of the old image, or no page is entered at all. -/
def ExecCovers (q : SpaceSys) : SpaceOp → Prop
  | .exec c (some img) env _ =>
    LiveUser (q.sys.proc_table c) →
      (env.stack_kern ≠ 0 ∧ env.stack_mapped = true ∧ env.user_esp ≠ 0) ∧
      ((q.sys.proc_table c).image_base ≠ 0 → ∀ k < pageCount (q.sys.proc_table c).image_size,
        InRange img.image_load_base img.image_size (pageKey (pageAt (q.sys.proc_table c).image_load_base k)) ∨
        InRange (USER_STACK_TOP - PROC_STACK_SIZE) PROC_STACK_SIZE
          (pageKey (pageAt (q.sys.proc_table c).image_load_base k)))
  | _ => True

/-- What the allocators promise, and that a new image covers the old one. -/
def SpaceOk (q : SpaceSys) (op : SpaceOp) : Prop := HeapFresh q op ∧ ExecCovers q op

/-- The table of `proc_init`; no directory is in use. -/
def spaceInit (kernel : KernelDir) : SpaceSys := ⟨proc_init, fun _ => kernel.toPageDir, []⟩

end Orion.Space
