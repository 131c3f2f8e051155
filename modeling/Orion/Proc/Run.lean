import Orion.Lib.Runs
import Orion.Proc.Table

/-!
# Runs of the process table

The entry points through which the rest of the kernel changes the process table, as one type of operations. An
operation carries the arguments of the call and what the allocators and the loader answer during it.
-/

namespace Orion.Proc

/-- An entry point of the process module, with the answers of the allocators. -/
inductive Op where
  | create (name : Option (List UInt8)) (entry : UInt32) (env : StackEnv)
  | spawn (name : Option (List UInt8)) (entry : UInt32) (env : StackEnv)
  | spawnThread (name : Option (List UInt8)) (entry : UInt32) (env : StackEnv)
  | spawnKernel (name : Option (List UInt8)) (entry : UInt32) (env : KernelEnv)
  | startReaper (entry : UInt32) (env : KernelEnv) (entry' : UInt32) (env' : KernelEnv)
  | binCreate (a : StartEnv) (make_current : Bool)
  | startBin (a : StartEnv)
  | startBinBackground (a : StartEnv)
  | startInit (env : StackEnv) (image : Option Image)
  | launch (a : StartEnv) (background : Bool)
  | fork (regs : UInt32) (env : ForkEnv)
  | exec (image : Option Image) (env : StackEnv)
  | exit (exit_code regs esp : UInt32)
  | kill (pid : UInt32) (force : Bool)
  | requestKill
  | handleKill (regs esp : UInt32)
  | exception (int_no cs regs esp : UInt32)
  | schedule (regs : UInt32) (save_current : Bool) (esp : UInt32)
  | takeNext
  | idle (esp : UInt32)
  | fg (pid : UInt32)
  | reap (esp : UInt32)
  | reapBackground (esp : UInt32)
  | setLastRegs (regs : UInt32)
  deriving DecidableEq, Repr

/-- The state after an operation. -/
def step (s : ProcSys) : Op → ProcSys
  | .create name entry env => (proc_create s name entry env).2
  | .spawn name entry env => (proc_spawn s name entry env).2
  | .spawnThread name entry env => (sys_spawn_thread s name entry env).2
  | .spawnKernel name entry env => (proc_spawn_kernel s name entry env).2
  | .startReaper entry env entry' env' => (proc_start_reaper s entry env entry' env').2
  | .binCreate a make_current => (bin_create_process s a make_current).2
  | .startBin a => start_bin s a
  | .startBinBackground a => (start_bin_background s a).2
  | .startInit env image => (start_init s env image).2
  | .launch a background => sysmgr_launch_process s a background
  | .fork regs env => (sys_fork s regs env).2
  | .exec image env => sys_exec s image env
  | .exit exit_code regs esp => sys_exit s exit_code regs esp
  | .kill pid force => (proc_kill s pid force).2
  | .requestKill => proc_request_kill s
  | .handleKill regs esp => (proc_handle_kill s regs esp).2
  | .exception int_no cs regs esp => (handle_user_exception s int_no cs regs esp).2
  | .schedule regs save_current esp => (proc_schedule s regs save_current esp).2
  | .takeNext => (proc_take_next s).2
  | .idle esp => idleTurn s esp
  | .fg pid => dispatch_fg s pid
  | .reap esp => proc_reap s esp
  | .reapBackground esp => proc_reap_background s esp
  | .setLastRegs regs => proc_set_last_regs s regs

/-- How often a run executes `next_pid++`: the number of creations it starts. -/
def creations : ProcSys → List Op → Nat
  | _, [] => 0
  | s, op :: ops => ((step s op).next_pid - s.next_pid).toNat + creations (step s op) ops

/-- The allocations of `proc_create_pending` all succeed. -/
def StackEnv.Granted (env : StackEnv) : Prop :=
  env.page_dir ≠ 0 ∧ env.kstack ≠ 0 ∧ env.stack_kern ≠ 0 ∧ env.stack_mapped = true
deriving Decidable

/-- A program start with `make_current` that takes an idle CPU for its process and then fails to load the image or to
set up the stack. -/
def FailsAsCurrent (s : ProcSys) (env : StackEnv) (image : Option Image) : Prop :=
  s.current_proc = none ∧ s.findSlot isFreeSlot ≠ none ∧ env.Granted ∧
    (image = none ∨ env.user_esp = 0)

/-- A start fails and cleans up a slot that is the current one. -/
def ReleasesCurrent (s : ProcSys) : Op → Prop
  | .binCreate a make_current => make_current = true ∧ FailsAsCurrent s a.env a.image
  | .startBin a => FailsAsCurrent s a.env a.image
  | .startInit env image => FailsAsCurrent s env image
  | _ => False

/-- What the rest of the kernel relies on. -/
structure Consistent (s : ProcSys) : Prop where
  /-- The current process is the one at `current_index`; it is running and has a pid. -/
  current : ∀ i, s.current_proc = some i →
    s.current_index = i.val ∧ (s.proc_table i).state = .RUNNING ∧ (s.proc_table i).pid ≠ 0
  /-- At most one process is running. -/
  running : ∀ i j, (s.proc_table i).state = .RUNNING → (s.proc_table j).state = .RUNNING → i = j
  /-- Every slot in use has a pid. -/
  pid_ne_zero : ∀ i, (s.proc_table i).state ≠ .UNUSED → (s.proc_table i).pid ≠ 0
  /-- No two slots in use share a pid. -/
  pid_inj : ∀ i j, (s.proc_table i).state ≠ .UNUSED → (s.proc_table j).state ≠ .UNUSED →
    (s.proc_table i).pid = (s.proc_table j).pid → i = j

/-- Every blocked process is the vfork parent of a process that has not exited, which can still wake it. -/
def NoOrphan (s : ProcSys) : Prop :=
  ∀ i, (s.proc_table i).state = .BLOCKED → ∃ j, (s.proc_table j).vfork_parent_pid = (s.proc_table i).pid ∧
    ((s.proc_table j).state = .READY ∨ (s.proc_table j).state = .RUNNING ∨ (s.proc_table j).state = .BLOCKED)

end Orion.Proc
