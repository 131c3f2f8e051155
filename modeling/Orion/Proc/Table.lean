import Mathlib.Tactic
import Mathlib.Logic.Function.Basic

/-!
# The process table

Model of `kernel/proc/proc.c`: the sixteen slots of `proc_table`, the pointer `current_proc` with its index, and the
functions that create, switch, end and reap processes. A pointer to a slot is the index of the slot; `current_proc ==
NULL` is `none`.

The kernel heap and the page tables are outside this model. What `kmalloc`, `paging_create_user_dir` and
`vmm_virt_to_phys` answer during an operation is an input of the operation (`StackEnv`, `ForkEnv`).
-/

namespace Orion.Proc

/-- `proc_state_t`. -/
inductive ProcState where
  | UNUSED
  | READY
  | RUNNING
  | BLOCKED
  | EXITED
  deriving DecidableEq, Repr

/-- The number of slots of `proc_table`. -/
abbrev MAX_PROCS : Nat := 16

/-- A pointer into `proc_table`. -/
abbrev Slot := Fin MAX_PROCS

def PROC_NAME_MAX : Nat := 32
def PROC_STACK_SIZE : UInt32 := 16384
def PROC_KSTACK_SIZE : UInt32 := 65536
def USER_STACK_TOP : UInt32 := 0xBFF00000

/-- `sizeof(registers_t)`: the frame saved on a kernel stack. -/
def FRAME_SIZE : UInt32 := 64

/-- `process_t`. -/
structure Process where
  pid : UInt32
  name : List UInt8
  entry : UInt32
  image_base : UInt32
  image_size : UInt32
  image_load_base : UInt32
  stack_base : UInt32
  stack_size : UInt32
  stack_kern_base : UInt32
  kstack_base : UInt32
  kstack_size : UInt32
  context_esp : UInt32
  exit_code : UInt32
  vfork_parent_pid : UInt32
  page_dir : UInt32
  page_dir_phys : UInt32
  state : ProcState
  is_kernel : Bool
  deriving DecidableEq, Repr

/-- A slot after `memset(p, 0, sizeof(*p))`. -/
def Process.zero : Process where
  pid := 0
  name := []
  entry := 0
  image_base := 0
  image_size := 0
  image_load_base := 0
  stack_base := 0
  stack_size := 0
  stack_kern_base := 0
  kstack_base := 0
  kstack_size := 0
  context_esp := 0
  exit_code := 0
  vfork_parent_pid := 0
  page_dir := 0
  page_dir_phys := 0
  state := .UNUSED
  is_kernel := false

namespace Process

/-! The assignments to the fields of a slot, grouped as the source makes them. -/

def setState (p : Process) (state : ProcState) : Process := { p with state := state }

def setEntry (p : Process) (entry : UInt32) : Process := { p with entry := entry }

def setContext (p : Process) (esp : UInt32) : Process := { p with context_esp := esp }

def setPageDir (p : Process) (dir phys : UInt32) : Process :=
  { p with page_dir := dir, page_dir_phys := phys }

def setKstack (p : Process) (base : UInt32) : Process :=
  { p with kstack_size := PROC_KSTACK_SIZE, kstack_base := base }

def setStack (p : Process) (size base kern : UInt32) : Process :=
  { p with stack_size := size, stack_base := base, stack_kern_base := kern }

def setImage (p : Process) (base size load : UInt32) : Process :=
  { p with image_base := base, image_size := size, image_load_base := load }

def setExit (p : Process) (exit_code : UInt32) : Process :=
  { p with exit_code := exit_code, state := .EXITED }

def setVforkParent (p : Process) (pid : UInt32) : Process := { p with vfork_parent_pid := pid }

end Process

/-- The static variables of `proc.c`. -/
structure ProcSys where
  proc_table : Slot → Process
  current_proc : Option Slot
  current_index : Int
  next_pid : UInt32
  proc_reaper_enabled : Bool
  proc_reap_pending : Bool
  proc_reaper_pid : UInt32
  proc_watchdog_pid : UInt32
  sched_next_esp : UInt32
  kill_requested_pid : UInt32
  last_irq_regs : UInt32
  foreground_pid : UInt32

/-- The state that `proc_init` establishes. -/
def proc_init : ProcSys where
  proc_table := fun _ => Process.zero
  current_proc := none
  current_index := -1
  next_pid := 1
  proc_reaper_enabled := false
  proc_reap_pending := false
  proc_reaper_pid := 0
  proc_watchdog_pid := 0
  sched_next_esp := 0
  kill_requested_pid := 0
  last_irq_regs := 0
  foreground_pid := 0

namespace ProcSys

/-- `proc_table[i] = p`. -/
def setSlot (s : ProcSys) (i : Slot) (p : Process) : ProcSys :=
  { s with proc_table := Function.update s.proc_table i p }

/-- `current_proc = c; current_index = idx;` -/
def setCurrent (s : ProcSys) (c : Option Slot) (idx : Int) : ProcSys :=
  { s with current_proc := c, current_index := idx }

/-- `proc_reaper_pid = reaper; proc_watchdog_pid = watchdog;` -/
def setReaperPids (s : ProcSys) (reaper watchdog : UInt32) : ProcSys :=
  { s with proc_reaper_pid := reaper, proc_watchdog_pid := watchdog }

/-- `next_pid++` -/
def bumpPid (s : ProcSys) : ProcSys := { s with next_pid := s.next_pid + 1 }

/-- The first slot that satisfies `q`, in the order of the `for` loops over the table. -/
def findSlot (s : ProcSys) (q : Process → Bool) : Option Slot :=
  (List.finRange MAX_PROCS).find? fun i => q (s.proc_table i)

end ProcSys

def cstr (text : String) : List UInt8 := text.toList.map fun c => UInt8.ofNat c.toNat

/-- A creation may take the slot. -/
def isFreeSlot (p : Process) : Bool := p.state = .UNUSED || p.state = .EXITED

def proc_is_runnable (p : Process) : Bool := p.state = .READY || p.state = .RUNNING

/-- `proc_cleanup`: the memory of the process goes back to the heap, the slot is zeroed. -/
def proc_cleanup (s : ProcSys) (i : Slot) : ProcSys := s.setSlot i Process.zero

/-! ## Creation -/

/-- What the allocators answer while the stacks and the page directory of a process are set up. -/
structure StackEnv where
  /-- `paging_create_user_dir` -/
  page_dir : UInt32
  page_dir_phys : UInt32
  /-- `kmalloc` of the kernel stack -/
  kstack : UInt32
  /-- `kmalloc` of the user stack -/
  stack_kern : UInt32
  /-- whether `vmm_virt_to_phys` finds every page of the user stack -/
  stack_mapped : Bool
  /-- the result of `setup_user_stack` -/
  user_esp : UInt32
  deriving DecidableEq, Repr

def proc_init_user_stack (p : Process) (env : StackEnv) : Bool × Process :=
  let base := USER_STACK_TOP - p.stack_size
  if env.stack_kern = 0 then (false, p.setStack p.stack_size base 0)
  else if !env.stack_mapped then (false, p.setStack p.stack_size base 0)
  else (true, p.setStack p.stack_size base env.stack_kern)

/-- Where the saved registers of a new process start. -/
def frameAddr (p : Process) : UInt32 := p.kstack_base + p.kstack_size - FRAME_SIZE

/-- `build_initial_frame`; it fails when `setup_user_stack` does. -/
def build_initial_frame (p : Process) (env : StackEnv) : Bool × Process :=
  if env.user_esp = 0 then (false, p) else (true, p.setContext (frameAddr p))

def build_kernel_frame (p : Process) : Process := p.setContext (frameAddr p)

/-- `strncpy(p->name, name, PROC_NAME_MAX - 1)` with its guard. -/
def setName (p : Process) (name : Option (List UInt8)) : Process :=
  match name with
  | none => p
  | some n => { p with name := n.take (PROC_NAME_MAX - 1) }

/-- `current_index = i; current_proc = &proc_table[i]; current_proc->state = PROC_RUNNING;` -/
def runSlot (s : ProcSys) (i : Slot) : ProcSys :=
  (s.setSlot i ((s.proc_table i).setState .RUNNING)).setCurrent (some i) i.val

/-- The end of a creation: the slot is `READY`, and takes the CPU when that is wanted and nobody has
it. -/
def publish (s : ProcSys) (i : Slot) (p : Process) (name : Option (List UInt8))
    (make_current : Bool) : ProcSys :=
  let s := s.setSlot i (setName (p.setState .READY) name)
  if make_current && s.current_proc.isNone then runSlot s i else s

/-- The slot of a new user process after `proc_cleanup` and its first assignments. -/
def newUser (pid entry : UInt32) (env : StackEnv) : Process :=
  { Process.zero with
    pid := pid
    entry := entry
    page_dir := env.page_dir
    page_dir_phys := env.page_dir_phys }

/-- The slot contents `proc_create_common` ends with, and whether it succeeds. -/
def initUser (pid entry : UInt32) (env : StackEnv) (build_frame : Bool) : Bool × Process :=
  let p := newUser pid entry env
  if env.page_dir = 0 then (false, p)
  else
    let p := p.setKstack env.kstack
    if env.kstack = 0 then (false, p.setPageDir 0 0)
    else
      match proc_init_user_stack (p.setStack PROC_STACK_SIZE 0 0) env with
      | (false, p) => (false, (p.setKstack 0).setPageDir 0 0)
      | (true, p) =>
        if build_frame then
          match build_initial_frame p env with
          | (false, p) => (false, ((p.setStack p.stack_size 0 0).setKstack 0).setPageDir 0 0)
          | (true, p) => (true, p)
        else (true, p)

/-- A slot is taken, cleaned up and filled for a user process. -/
def proc_create_common (s : ProcSys) (name : Option (List UInt8)) (entry : UInt32) (env : StackEnv)
    (make_current build_frame : Bool) : Option Slot × ProcSys :=
  match s.findSlot isFreeSlot with
  | none => (none, s)
  | some i =>
    let s' := (proc_cleanup s i).bumpPid
    match initUser s.next_pid entry env build_frame with
    | (false, p) => (none, s'.setSlot i p)
    | (true, p) => (some i, publish s' i p name make_current)

/-- What the allocators answer to `proc_create_kernel_common`, with the kernel's page directory. -/
structure KernelEnv where
  kernel_dir : UInt32
  kernel_dir_phys : UInt32
  kstack : UInt32
  deriving DecidableEq, Repr

/-- The contents that a kernel task gives to its slot. -/
def newKernel (pid entry : UInt32) (env : KernelEnv) : Process :=
  { Process.zero with
    is_kernel := true
    pid := pid
    entry := entry
    page_dir := env.kernel_dir
    page_dir_phys := env.kernel_dir_phys
    kstack_size := PROC_KSTACK_SIZE
    kstack_base := env.kstack }

/-- The same for a kernel task. -/
def proc_create_kernel_common (s : ProcSys) (name : Option (List UInt8)) (entry : UInt32)
    (env : KernelEnv) (make_current : Bool) : Option Slot × ProcSys :=
  match s.findSlot isFreeSlot with
  | none => (none, s)
  | some i =>
    let p := newKernel s.next_pid entry env
    let s' := (proc_cleanup s i).bumpPid
    if env.kstack = 0 then (none, s'.setSlot i p)
    else (some i, publish s' i (build_kernel_frame p) name make_current)

/-- `proc_create` and `proc_create_with_args` -/
def proc_create (s : ProcSys) (name : Option (List UInt8)) (entry : UInt32) (env : StackEnv) :
    Option Slot × ProcSys :=
  proc_create_common s name entry env true true

/-- `proc_spawn` and `proc_spawn_with_args` -/
def proc_spawn (s : ProcSys) (name : Option (List UInt8)) (entry : UInt32) (env : StackEnv) :
    Option Slot × ProcSys :=
  proc_create_common s name entry env false true

def proc_spawn_kernel (s : ProcSys) (name : Option (List UInt8)) (entry : UInt32) (env : KernelEnv) :
    Option Slot × ProcSys :=
  proc_create_kernel_common s name entry env false

def proc_create_pending (s : ProcSys) (name : Option (List UInt8)) (env : StackEnv)
    (make_current : Bool) : Option Slot × ProcSys :=
  proc_create_common s name 0 env make_current false

/-! ## Lookups -/

def proc_current_pid (s : ProcSys) : UInt32 :=
  match s.current_proc with
  | none => 0
  | some i => (s.proc_table i).pid

def proc_current_is_user (s : ProcSys) : Bool :=
  match s.current_proc with
  | none => false
  | some i => !(s.proc_table i).is_kernel

def proc_is_foreground_pid (s : ProcSys) (pid : UInt32) : Bool :=
  pid ≠ 0 && s.foreground_pid = pid

/-- `proc_lookup`; the first slot with the pid decides. -/
def proc_lookup (s : ProcSys) (pid : UInt32) : Option Slot :=
  if pid = 0 then none
  else (s.findSlot fun p => p.pid = pid).filter fun i => !isFreeSlot (s.proc_table i)

def proc_pid_active (s : ProcSys) (pid : UInt32) : Bool := (proc_lookup s pid).isSome

/-! ## Ending a process -/

/-- The loop of `proc_wake_vfork_parent`: the first slot with the pid is woken if it is blocked. -/
def wakeParent (s : ProcSys) (parent_pid : UInt32) : ProcSys :=
  match s.findSlot fun p => p.pid = parent_pid with
  | none => s
  | some i =>
    if (s.proc_table i).state = .BLOCKED then
      s.setSlot i ((s.proc_table i).setState .READY)
    else s

/-- The parent that waits for the child goes on. -/
def proc_wake_vfork_parent (s : ProcSys) (child : Slot) : ProcSys :=
  let parent_pid := (s.proc_table child).vfork_parent_pid
  if parent_pid = 0 then s
  else wakeParent (s.setSlot child ((s.proc_table child).setVforkParent 0)) parent_pid

/-- The current process becomes EXITED, and there is no current process. -/
def proc_exit (s : ProcSys) (exit_code : UInt32) : ProcSys :=
  match s.current_proc with
  | none => s
  | some i =>
    let foreground_pid := if s.foreground_pid = (s.proc_table i).pid then 0 else s.foreground_pid
    let s := proc_wake_vfork_parent (s.setSlot i ((s.proc_table i).setExit exit_code)) i
    { s.setCurrent none (-1) with
      foreground_pid := foreground_pid
      proc_reap_pending := s.proc_reap_pending || s.proc_reaper_enabled }

/-- `proc_kill_result_t` -/
inductive KillResult where
  | OK
  | INVALID
  | NO_SUCH
  | KERNEL
  | ALREADY_EXITED
  deriving DecidableEq, Repr

/-- `proc_kill`. The console flags that `bin_return_to_shell` sets are not part of the model. -/
def proc_kill (s : ProcSys) (pid : UInt32) (force : Bool) : KillResult × ProcSys :=
  if pid = 0 then (.INVALID, s)
  else if s.current_proc.isSome && proc_current_pid s = pid then
    if !proc_current_is_user s && !force then (.KERNEL, s)
    else (.OK, { s with kill_requested_pid := pid })
  else
    match s.findSlot fun p => p.state ≠ .UNUSED && p.pid = pid with
    | none => (.NO_SUCH, s)
    | some i =>
      if (s.proc_table i).state = .EXITED then (.ALREADY_EXITED, s)
      else if (s.proc_table i).is_kernel && !force then (.KERNEL, s)
      else
        let was_foreground := proc_is_foreground_pid s pid
        let s := proc_wake_vfork_parent (s.setSlot i ((s.proc_table i).setExit 0)) i
        (.OK, { s with
          foreground_pid := if was_foreground then 0 else s.foreground_pid
          proc_reap_pending := s.proc_reap_pending || s.proc_reaper_enabled })

/-- The stack pointer is in the process' kernel stack. -/
def proc_stack_in_use (p : Process) (esp : UInt32) : Bool :=
  if p.kstack_base = 0 || p.kstack_size = 0 then false
  else
    let last := p.kstack_base + p.kstack_size
    if last < p.kstack_base then false
    else p.kstack_base ≤ esp && esp < last

/-- One turn of the loop of `proc_reap`. -/
def reapSlot (esp : UInt32) (s : ProcSys) (i : Slot) : ProcSys :=
  let p := s.proc_table i
  if p.state ≠ .EXITED then s
  else if s.current_proc = some i then s
  else if proc_stack_in_use p esp then s
  else
    let gone := fun pid : UInt32 => if p.pid ≠ 0 && p.pid = pid then 0 else pid
    proc_cleanup (s.setReaperPids (gone s.proc_reaper_pid) (gone s.proc_watchdog_pid)) i

/-- `proc_reap`, called with the stack pointer `esp` -/
def proc_reap (s : ProcSys) (esp : UInt32) : ProcSys :=
  (List.finRange MAX_PROCS).foldl (reapSlot esp) s

/-- Reaping, if there is no reaper or it has been asked. -/
def proc_reap_background (s : ProcSys) (esp : UInt32) : ProcSys :=
  if s.proc_reaper_enabled && !s.proc_reap_pending then s
  else { proc_reap s esp with proc_reap_pending := false }

/-! ## Switching -/

/-- The index that the loop of `proc_find_next` looks at after `idx`. -/
def nextIndex (idx : Int) : Int := if idx + 1 ≥ MAX_PROCS then 0 else idx + 1

def slotAt (idx : Int) : Slot := Fin.ofNat MAX_PROCS idx.toNat

/-- The loop of `proc_find_next`, with `n` turns to go. -/
def findNextLoop (s : ProcSys) : Nat → Int → Option Slot
  | 0, _ => none
  | n + 1, idx =>
    let i := slotAt (nextIndex idx)
    if proc_is_runnable (s.proc_table i) && (s.proc_table i).context_esp ≠ 0 then some i
    else findNextLoop s n (nextIndex idx)

def proc_find_next (s : ProcSys) (start : Int) : Option Slot := findNextLoop s MAX_PROCS start

/-- `if (current_proc && current_proc->state == PROC_RUNNING) current_proc->state = PROC_READY;` -/
def demoteCurrent (s : ProcSys) : ProcSys :=
  match s.current_proc with
  | none => s
  | some c =>
    if (s.proc_table c).state = .RUNNING then
      s.setSlot c ((s.proc_table c).setState .READY)
    else s

/-- `if (save_current && current_proc) current_proc->context_esp = regs;` -/
def saveCurrent (s : ProcSys) (regs : UInt32) (save_current : Bool) : ProcSys :=
  match s.current_proc with
  | none => s
  | some c =>
    if save_current then s.setSlot c ((s.proc_table c).setContext regs) else s

/-- `proc_make_current`: a process that loses the CPU keeps the frame `regs`, or its saved one when `regs` is null. -/
def proc_make_current (s : ProcSys) (i : Slot) (regs : UInt32) : Bool × ProcSys :=
  match s.current_proc with
  | none => (true, runSlot s i)
  | some c =>
    if c = i then (true, runSlot s i)
    else if regs = 0 && (s.proc_table c).context_esp = 0 then (false, s)
    else (true, runSlot (demoteCurrent (saveCurrent s regs (regs ≠ 0))) i)

/-- `proc_schedule`, called with the stack pointer `esp` -/
def proc_schedule (s : ProcSys) (regs : UInt32) (save_current : Bool) (esp : UInt32) :
    Bool × ProcSys :=
  let s := if s.proc_reaper_enabled then s else proc_reap s esp
  match proc_find_next s s.current_index with
  | none => (false, s)
  | some next =>
    if (next.val : Int) = s.current_index && s.current_proc.isSome then (false, s)
    else
      let s := runSlot (demoteCurrent (saveCurrent s regs save_current)) next
      (true, { s with sched_next_esp := (s.proc_table next).context_esp })

/-- The next runnable process becomes the current one. -/
def proc_take_next (s : ProcSys) : Option Slot × ProcSys :=
  match proc_find_next s s.current_index with
  | none => (none, s)
  | some next => (some next, runSlot (demoteCurrent s) next)

/-! ## Kill requests and exceptions -/

def proc_request_kill (s : ProcSys) : ProcSys :=
  if s.current_proc.isSome then { s with kill_requested_pid := proc_current_pid s } else s

/-- What follows `proc_exit`: a process in the foreground returns to the shell, any other one gives the CPU away. -/
def exitAndSchedule (s : ProcSys) (exit_code : UInt32) (regs esp : UInt32) : ProcSys :=
  let foreground := proc_is_foreground_pid s (proc_current_pid s)
  let s := proc_exit s exit_code
  if foreground then s else (proc_schedule s regs false esp).2

/-- A request for the current process is carried out. -/
def proc_handle_kill (s : ProcSys) (regs esp : UInt32) : Bool × ProcSys :=
  if s.kill_requested_pid = 0 then (false, s)
  else if s.current_proc.isNone then (false, s)
  else if proc_current_pid s ≠ s.kill_requested_pid then (false, s)
  else (true, exitAndSchedule { s with kill_requested_pid := 0 } 0 regs esp)

/-- `handle_user_exception` of `cpu/isr.c`, for the interrupt `int_no` raised from the code segment
`cs` -/
def handle_user_exception (s : ProcSys) (int_no cs regs esp : UInt32) : Bool × ProcSys :=
  if int_no ≥ 32 then (false, s)
  else if cs &&& 3 ≠ 3 then (false, s)
  else if !proc_current_is_user s then (false, s)
  else (true, exitAndSchedule s int_no regs esp)

/-- System call 8 (`exit_to_shell`) of `kernel/syscall.c`. -/
def sys_exit (s : ProcSys) (exit_code regs esp : UInt32) : ProcSys :=
  exitAndSchedule s exit_code regs esp

/-! ## `fork` and `exec` -/

/-- What the allocators answer to `proc_fork`. -/
structure ForkEnv extends StackEnv where
  /-- `kmalloc` of the copy of the image -/
  image : UInt32
  /-- whether `vmm_virt_to_phys` finds every page of that copy -/
  image_mapped : Bool
  deriving DecidableEq, Repr

/-- The child's slot when `proc_fork` has taken its first fields from `cur`. -/
def forkChild (cur child : Process) (env : ForkEnv) : Process :=
  ((child.setEntry cur.entry).setImage 0 cur.image_size cur.image_load_base).setPageDir
    env.page_dir env.page_dir_phys

/-- What `proc_fork` undoes when the image or the stack cannot be copied. -/
def forkUndo (p : Process) : Process :=
  ((p.setImage 0 p.image_size p.image_load_base).setKstack 0).setPageDir 0 0

/-- The copy of the parent's image and user stack in `proc_fork`. -/
def forkCopy (cur child : Process) (env : ForkEnv) : Bool × Process :=
  if cur.stack_base = 0 || cur.stack_size = 0 then (true, child.setStack 0 0 child.stack_kern_base)
  else
    let child := child.setStack cur.stack_size 0 0
    let wantsImage := child.image_size ≠ 0 && child.image_load_base ≠ 0 && cur.image_base ≠ 0
    if wantsImage && (env.image = 0 || !env.image_mapped) then (false, forkUndo child)
    else
      let image := if wantsImage then env.image else child.image_base
      let child := child.setImage image child.image_size child.image_load_base
      match proc_init_user_stack child env.toStackEnv with
      | (false, child) => (false, forkUndo child)
      | (true, child) => (true, child)

/-- The child's slot when `proc_fork` ends, and whether it succeeds; `cur` is the parent after the clean-up of that
slot. -/
def initFork (cur child : Process) (env : ForkEnv) : Bool × Process :=
  let child := forkChild cur child env
  if env.page_dir = 0 then (false, child)
  else
    let child := (child.setVforkParent cur.pid).setKstack env.kstack
    if env.kstack = 0 then (false, child)
    else
      match forkCopy cur child env with
      | (false, child) => (false, child)
      | (true, child) =>
        (true, setName ((child.setContext (frameAddr child)).setState .READY) (some cur.name))

/-- A slot after `proc_cleanup` with its pid assigned. -/
def freshSlot (pid : UInt32) : Process := { Process.zero with pid := pid }

/-- `proc_fork` of the process in slot `c` into the free slot `i`; the parent is read after the clean-up, which matters
when `c = i`. -/
def forkInto (s : ProcSys) (c i : Slot) (env : ForkEnv) : Option Slot × ProcSys :=
  let s' := (s.setSlot i (freshSlot s.next_pid)).bumpPid
  match initFork (s'.proc_table c) (freshSlot s.next_pid) env with
  | (false, child) => (none, s'.setSlot i child)
  | (true, child) => (some i, s'.setSlot i child)

/-- `proc_fork`, called with the saved frame at `regs` -/
def proc_fork (s : ProcSys) (regs : UInt32) (env : ForkEnv) : Option Slot × ProcSys :=
  match s.current_proc with
  | none => (none, s)
  | some c =>
    if regs = 0 || (s.proc_table c).is_kernel then (none, s)
    else
      match s.findSlot isFreeSlot with
      | none => (none, s)
      | some i => forkInto s c i env

/-- System call `SYS_FORK`: the child runs first, the parent is blocked until it execs or exits. The first component is
the parent's `eax`. -/
def sys_fork (s : ProcSys) (regs : UInt32) (env : ForkEnv) : UInt32 × ProcSys :=
  let parent := s.current_proc
  match proc_fork s regs env with
  | (none, s) => (-1, s)
  | (some child, s) =>
    match proc_make_current s child regs with
    | (false, s) => (-1, s)
    | (true, s) =>
      let pid := (s.proc_table child).pid
      match parent with
      | none => (pid, { s with sched_next_esp := (s.proc_table child).context_esp })
      | some c =>
        let s := s.setSlot c ((s.proc_table c).setState .BLOCKED)
        (pid, { s with sched_next_esp := (s.proc_table child).context_esp })

/-- A loaded program: what `bin_load_image` and `elf_load_image` hand back. -/
structure Image where
  entry : UInt32
  image_base : UInt32
  image_size : UInt32
  image_load_base : UInt32
  deriving DecidableEq, Repr

/-- `proc_exec` on slot `i` -/
def proc_exec (s : ProcSys) (i : Slot) (img : Image) (env : StackEnv) : Bool × ProcSys :=
  let old := s.proc_table i
  if old.is_kernel then (false, s)
  else
    match proc_init_user_stack (old.setStack PROC_STACK_SIZE 0 0) env with
    | (false, p) =>
      (false, s.setSlot i (p.setStack old.stack_size old.stack_base old.stack_kern_base))
    | (true, p) =>
      let p := (p.setEntry img.entry).setImage img.image_base img.image_size img.image_load_base
      match build_initial_frame p env with
      | (false, p) =>
        (false, s.setSlot i
          (((p.setStack old.stack_size old.stack_base old.stack_kern_base).setImage
            old.image_base old.image_size old.image_load_base).setEntry old.entry))
      | (true, p) => (true, s.setSlot i p)

/-- System call `SYS_EXEC` after its arguments have been copied; `image` is what `bin_load_image`
returns. -/
def sys_exec (s : ProcSys) (image : Option Image) (env : StackEnv) : ProcSys :=
  match image, s.current_proc with
  | some img, some i =>
    if (s.proc_table i).is_kernel then s
    else
      match proc_exec s i img env with
      | (false, s) => s
      | (true, s) =>
        let s := proc_wake_vfork_parent s i
        { s with sched_next_esp := (s.proc_table i).context_esp }
  | _, _ => s

/-! ## Starting programs (`kernel/bin.c`) -/

def proc_build_user_frame (s : ProcSys) (i : Slot) (entry : UInt32) (env : StackEnv) :
    Bool × ProcSys :=
  if (s.proc_table i).is_kernel then (false, s)
  else
    let r := build_initial_frame ((s.proc_table i).setEntry entry) env
    (r.1, s.setSlot i r.2)

/-- The inputs of a program start. `image = none` stands for every failing load: a bad file, no memory, or an image page
without a physical page. -/
structure StartEnv where
  path : Option (List UInt8)
  env : StackEnv
  image : Option Image
  deriving DecidableEq, Repr

/-- A slot, the image, then the frame; a failure cleans up the slot. -/
def bin_create_process (s : ProcSys) (a : StartEnv) (make_current : Bool) : Option Slot × ProcSys :=
  match proc_create_pending s a.path a.env make_current with
  | (none, s) => (none, s)
  | (some i, s) =>
    match a.image with
    | none => (none, proc_cleanup s i)
    | some img =>
      match proc_build_user_frame s i img.entry a.env with
      | (false, s) => (none, proc_cleanup s i)
      | (true, s) =>
        (some i, s.setSlot i (((s.proc_table i).setImage img.image_base img.image_size
          img.image_load_base).setEntry img.entry))

/-- `start_bin` up to the jump into the program -/
def start_bin (s : ProcSys) (a : StartEnv) : ProcSys :=
  match bin_create_process s a true with
  | (none, s) => s
  | (some i, s) =>
    match proc_make_current s i s.last_irq_regs with
    | (false, s) => { s with last_irq_regs := 0 }
    | (true, s) => { s with last_irq_regs := 0, foreground_pid := (s.proc_table i).pid }

/-- `start_bin_background`; the result is the pid of the new process. -/
def start_bin_background (s : ProcSys) (a : StartEnv) : Option UInt32 × ProcSys :=
  match bin_create_process s a false with
  | (none, s) => (none, s)
  | (some i, s) => (some (s.proc_table i).pid, s)

/-- `start_init` up to the jump into `init.sys`: `bin_create_process` with `make_current` for a fixed path, and the
foreground. -/
def start_init (s : ProcSys) (env : StackEnv) (image : Option Image) : Bool × ProcSys :=
  match bin_create_process s ⟨some (cstr "/system/core/init.sys"), env, image⟩ true with
  | (none, s) => (false, s)
  | (some i, s) => (true, { s with foreground_pid := (s.proc_table i).pid })

/-- `bin_enter_process` up to the jump into the process -/
def bin_enter_process (s : ProcSys) (i : Slot) : ProcSys := (proc_make_current s i 0).2

/-- System call 10 (`spawn_thread`): the pid of the new process, or 0. -/
def sys_spawn_thread (s : ProcSys) (name : Option (List UInt8)) (entry : UInt32) (env : StackEnv) :
    UInt32 × ProcSys :=
  if entry = 0 then (0, s)
  else
    match proc_create s name entry env with
    | (none, s) => (0, s)
    | (some i, s) => ((s.proc_table i).pid, s)

/-! ## The system manager (`kernel/proc/sysmgr.c`) and the shell -/

/-- `proc_start_sysmgr_watchdog`; `entry` is the address of `sysmgr_watchdog_thread`. -/
def proc_start_sysmgr_watchdog (s : ProcSys) (entry : UInt32) (env : KernelEnv) : Bool × ProcSys :=
  if proc_pid_active s s.proc_watchdog_pid then (true, s)
  else
    match proc_spawn_kernel s (some (cstr "orion-sysmon")) entry env with
    | (none, s) => (false, s)
    | (some i, s) => (true, { s with proc_watchdog_pid := (s.proc_table i).pid })

/-- `proc_start_reaper`, for `orion-sysmgr` and for the watchdog, whose own result is ignored. -/
def proc_start_reaper (s : ProcSys) (entry : UInt32) (env : KernelEnv) (watchdog_entry : UInt32)
    (watchdog_env : KernelEnv) : Bool × ProcSys :=
  if s.proc_reaper_enabled && proc_pid_active s s.proc_reaper_pid then
    (true, (proc_start_sysmgr_watchdog s watchdog_entry watchdog_env).2)
  else
    match proc_spawn_kernel s (some (cstr "orion-sysmgr")) entry env with
    | (none, s) => (false, s)
    | (some i, s) =>
      let s := { s with proc_reaper_enabled := true, proc_reaper_pid := (s.proc_table i).pid }
      (true, (proc_start_sysmgr_watchdog s watchdog_entry watchdog_env).2)

/-- A program in the foreground gets the keyboard. -/
def sysmgr_launch_process (s : ProcSys) (a : StartEnv) (background : Bool) : ProcSys :=
  match bin_create_process s a false with
  | (none, s) => s
  | (some i, s) => if background then s else { s with foreground_pid := (s.proc_table i).pid }

/-- The part of `sysmgr_idle_loop` that runs when no process has the CPU. -/
def idleTurn (s : ProcSys) (esp : UInt32) : ProcSys :=
  if s.current_proc.isSome then s
  else
    match proc_take_next (proc_reap_background s esp) with
    | (none, s) => s
    | (some i, s) => bin_enter_process s i

/-- The `fg` command of the shell (`dispatch_fg` of `kernel/cmd.c`). -/
def dispatch_fg (s : ProcSys) (pid : UInt32) : ProcSys :=
  match proc_lookup s pid with
  | none => s
  | some i =>
    if (s.proc_table i).is_kernel || (s.proc_table i).state = .BLOCKED then s
    else
      match proc_make_current { s with foreground_pid := pid } i 0 with
      | (false, s) => s
      | (true, s) => bin_enter_process s i

/-- `proc_set_last_regs`, which `irq_handler` calls around every interrupt -/
def proc_set_last_regs (s : ProcSys) (regs : UInt32) : ProcSys := { s with last_irq_regs := regs }

end Orion.Proc
