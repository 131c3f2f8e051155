import Orion.Proc.Moves

/-!
# The page directory in use

The directory last given to `paging_set_current_dir`. `proc_make_current` and `proc_schedule` switch to the directory
of the process that gets the CPU and `start_init` to that of its new process. All other operations go back to the
directory they found.
-/

namespace Orion.Proc

/-- `paging_set_current_dir((uint32_t*)p->page_dir, p->page_dir_phys)` -/
def paging_set_current_dir (dir : UInt32) (p : Process) : UInt32 :=
  if p.page_dir = 0 || p.page_dir_phys = 0 then dir else p.page_dir

/-- The directory after `proc_make_current`. -/
def dirMakeCurrent (dir : UInt32) (s : ProcSys) (i : Slot) (regs : UInt32) : UInt32 :=
  match proc_make_current s i regs with
  | (false, _) => dir
  | (true, s) => paging_set_current_dir dir (s.proc_table i)

/-- The directory after `proc_schedule`. -/
def dirSchedule (dir : UInt32) (s : ProcSys) (regs : UInt32) (save_current : Bool) (esp : UInt32) : UInt32 :=
  match proc_schedule s regs save_current esp with
  | (false, _) => dir
  | (true, s) =>
    match s.current_proc with
    | none => dir
    | some i => paging_set_current_dir dir (s.proc_table i)

/-- The directory after an exit: a process in the foreground returns to the shell, in its own directory. -/
def dirExit (dir : UInt32) (s : ProcSys) (exit_code regs esp : UInt32) : UInt32 :=
  if proc_is_foreground_pid s (proc_current_pid s) then dir
  else dirSchedule dir (proc_exit s exit_code) regs false esp

/-- The directory in use after an operation. -/
def dirAfter (dir : UInt32) (s : ProcSys) : Op → UInt32
  | .startBin a =>
    match bin_create_process s a true with
    | (none, _) => dir
    | (some i, s) => dirMakeCurrent dir s i s.last_irq_regs
  | .startInit env image =>
    match bin_create_process s ⟨some (cstr "/system/core/init.sys"), env, image⟩ true with
    | (none, _) => dir
    | (some i, s) => paging_set_current_dir dir (s.proc_table i)
  | .fork regs env =>
    match proc_fork s regs env with
    | (none, _) => dir
    | (some child, s) => dirMakeCurrent dir s child regs
  | .exit exit_code regs esp => dirExit dir s exit_code regs esp
  | .handleKill regs esp => if killFires s then dirExit dir (s.setRequest 0) 0 regs esp else dir
  | .exception int_no cs regs esp => if exceptionFires s int_no cs then dirExit dir s int_no regs esp else dir
  | .schedule regs save_current esp => dirSchedule dir s regs save_current esp
  | .idle esp =>
    if s.current_proc.isSome then dir
    else
      match proc_take_next (proc_reap_background s esp) with
      | (none, _) => dir
      | (some i, s) => dirMakeCurrent dir s i 0
  | .fg pid =>
    match proc_lookup s pid with
    | none => dir
    | some i =>
      if (s.proc_table i).is_kernel || (s.proc_table i).state = .BLOCKED then dir
      else
        match proc_make_current { s with foreground_pid := pid } i 0 with
        | (false, _) => dir
        | (true, s) => dirMakeCurrent (paging_set_current_dir dir (s.proc_table i)) s i 0
  | _ => dir

/-- The process table and the directory in use. -/
structure DirSys where
  sys : ProcSys
  dir : UInt32

/-- One operation with its switch of the directory. -/
def dirStep (q : DirSys) (op : Op) : DirSys := ⟨step q.sys op, dirAfter q.dir q.sys op⟩

/-- The operations that may clean up a slot: those that reap, and the creations, which take a free slot. -/
def MayClean (s : ProcSys) : Op → Prop
  | .exec .. | .kill .. | .requestKill | .takeNext | .fg _ | .setLastRegs _ => False
  | .schedule .. => s.proc_reaper_enabled = false
  | .exit .. | .handleKill .. | .exception .. =>
    proc_is_foreground_pid s (proc_current_pid s) = false ∧ s.proc_reaper_enabled = false
  | .idle _ | .reapBackground _ => (s.proc_reaper_enabled && !s.proc_reap_pending) = false
  | _ => True

/-- An exit is executed on the kernel stack of the process that exits. -/
def OnOwnStack (s : ProcSys) : Op → Prop
  | .exit _ _ esp | .handleKill _ esp | .exception _ _ _ esp =>
    ∀ i, s.current_proc = some i → proc_stack_in_use (s.proc_table i) esp = true
  | _ => True

/-- The allocators do not give out the directory in use once more. -/
def FreshDir (dir : UInt32) : Op → Prop
  | .create _ _ env | .spawn _ _ env | .spawnThread _ _ env | .startInit env _ => env.page_dir ≠ dir
  | .binCreate a _ | .startBin a | .startBinBackground a | .launch a _ => a.env.page_dir ≠ dir
  | .fork _ env => env.page_dir ≠ dir
  | _ => True

section Kernel

variable (kernel_dir : UInt32)

/-- The directory in use is the kernel's or that of a slot, which has then not been cleaned up. -/
def DirInUse (q : DirSys) : Prop :=
  q.dir = kernel_dir ∨ (q.dir ≠ 0 ∧ ∃ i, (q.sys.proc_table i).page_dir = q.dir)

/-- The CPU is still in the directory of a process that has ended. -/
def Stale (q : DirSys) : Prop :=
  q.dir ≠ kernel_dir ∧ ∃ i, isFreeSlot (q.sys.proc_table i) = true ∧ (q.sys.proc_table i).page_dir = q.dir

/-- The order of exit, switch and cleanup: after an exit, nothing cleans up before the CPU has switched to another
directory. -/
def SwitchesFirst (q : DirSys) (op : Op) : Prop :=
  ¬ReleasesCurrent q.sys op ∧ FreshDir q.dir op ∧ OnOwnStack q.sys op ∧ (Stale kernel_dir q → ¬MayClean q.sys op)

end Kernel

end Orion.Proc
