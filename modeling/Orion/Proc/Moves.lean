import Orion.Lib.Paths
import Orion.Proc.Run

/-!
# The moves of the process table

Every operation of `proc.c` is a sequence of a few kinds of moves. A claim costs one pid; all other moves are free. `ok`
is what holds of every slot whose old contents are erased.
-/

namespace Orion.Proc

open ProcSys

/-- The fields that decide what a process is are the same. -/
structure SameRole (p q : Process) : Prop where
  state : p.state = q.state
  pid : p.pid = q.pid
  vfork_parent_pid : p.vfork_parent_pid = q.vfork_parent_pid
  exit_code : p.exit_code = q.exit_code
  page_dir : p.page_dir = q.page_dir
  is_kernel : p.is_kernel = q.is_kernel

/-- The slot holds a process that has not exited. -/
def Process.live (p : Process) : Bool := !isFreeSlot p

def ProcSys.setRequest (s : ProcSys) (pid : UInt32) : ProcSys := { s with kill_requested_pid := pid }

/-- The current process has not exited. -/
def CurrentLive (s : ProcSys) : Prop := ∀ i, s.current_proc = some i → (s.proc_table i).live = true

/-- What operations do to the table, piece by piece; the number counts the pids given out. -/
inductive Move (ok : Process → Prop) : ℕ → ProcSys → ProcSys → Prop where
  /-- Variables that are not about single processes. -/
  | misc {s t : ProcSys} (htable : t.proc_table = s.proc_table) (hcur : t.current_proc = s.current_proc)
      (hindex : t.current_index = s.current_index) (hnext : t.next_pid = s.next_pid)
      (hkill : t.kill_requested_pid = s.kill_requested_pid) : Move ok 0 s t
  | edit {s : ProcSys} (i : Slot) (p : Process) (hsame : SameRole p (s.proc_table i)) :
      Move ok 0 s (s.setSlot i p)
  /-- A creation takes a free slot; the process is ready, or the slot is given back at once. -/
  | claim {s : ProcSys} (i : Slot) (p : Process) (hfree : isFreeSlot (s.proc_table i) = true)
      (hok : ok (s.proc_table i)) (hpid : p.pid = s.next_pid) (hst : p.state = .UNUSED ∨ p.state = .READY) :
      Move ok 1 s ((s.setSlot i p).bumpPid)
  /-- An exited process is reaped. -/
  | reap {s : ProcSys} (i : Slot) (hst : (s.proc_table i).state = .EXITED) (hcur : s.current_proc ≠ some i)
      (hok : ok (s.proc_table i)) : Move ok 0 s (s.setSlot i Process.zero)
  /-- A program start fails and releases its slot, which nobody has forked. -/
  | abort {s : ProcSys} (i : Slot) (hlive : (s.proc_table i).live = true)
      (hparent : (s.proc_table i).vfork_parent_pid = 0) (hok : ok (s.proc_table i)) :
      Move ok 0 s (s.setSlot i Process.zero)
  /-- An exec lets the vfork parent go on. -/
  | wake {s : ProcSys} (i : Slot) : Move ok 0 s (proc_wake_vfork_parent s i)
  | exit {s : ProcSys} (exit_code : UInt32) (hlive : CurrentLive s) : Move ok 0 s (proc_exit s exit_code)
  /-- A process that does not have the CPU is killed. -/
  | kill {s : ProcSys} (i : Slot) (hlive : (s.proc_table i).live = true) (hcur : s.current_proc ≠ some i) :
      Move ok 0 s (proc_wake_vfork_parent (s.setSlot i ((s.proc_table i).setExit 0)) i)
  | switch {s : ProcSys} (i : Slot) (hrun : proc_is_runnable (s.proc_table i) = true) :
      Move ok 0 s (runSlot (demoteCurrent s) i)
  /-- A fork lets the parent wait for its child. -/
  | block {s : ProcSys} (c j : Slot) (hcur : s.current_proc ≠ some c) (hc : (s.proc_table c).live = true)
      (hj : (s.proc_table j).live = true) (hparent : (s.proc_table j).vfork_parent_pid = (s.proc_table c).pid) :
      Move ok 0 s (s.setSlot c ((s.proc_table c).setState .BLOCKED))

/-- A sequence of moves that takes at most `b` pids. -/
abbrev Moves (ok : Process → Prop) (b : ℕ) (s t : ProcSys) : Prop := Lib.Within (Move ok) b s t

/-! ## What an operation erases -/

section Erases

variable (ok : Process → Prop) (s : ProcSys)

/-- The slot that a creation takes may be erased. -/
def ClaimOk : Prop := ∀ i, s.findSlot isFreeSlot = some i → ok (s.proc_table i)

/-- The slots that `proc_reap` would reap may be erased. -/
def ReapOk (esp : UInt32) : Prop :=
  ∀ i, (s.proc_table i).state = .EXITED → s.current_proc ≠ some i →
    proc_stack_in_use (s.proc_table i) esp = false → ok (s.proc_table i)

/-- `proc_schedule` reaps as long as there is no reaper. -/
def ScheduleOk (esp : UInt32) : Prop := s.proc_reaper_enabled = false → ReapOk ok s esp

/-- An exit in the background is followed by `proc_schedule`. -/
def ExitOk (exit_code esp : UInt32) : Prop :=
  proc_is_foreground_pid s (proc_current_pid s) = false → ScheduleOk ok (proc_exit s exit_code) esp

/-- `proc_reap_background` -/
def ReapBackgroundOk (esp : UInt32) : Prop :=
  (s.proc_reaper_enabled && !s.proc_reap_pending) = false → ReapOk ok s esp

/-- The same for the creation of the watchdog. -/
def WatchdogOk : Prop := proc_pid_active s s.proc_watchdog_pid = false → ClaimOk ok s

/-- `proc_start_reaper`: the reaper's creation and then the watchdog's. -/
def StartReaperOk (entry : UInt32) (env : KernelEnv) : Prop :=
  if s.proc_reaper_enabled && proc_pid_active s s.proc_reaper_pid then WatchdogOk ok s
  else ClaimOk ok s ∧
    match proc_spawn_kernel s (some (cstr "orion-sysmgr")) entry env with
    | (none, _) => True
    | (some _, t) => WatchdogOk ok t

/-- `proc_handle_kill` acts on a request for the current process. -/
def killFires : Bool :=
  s.kill_requested_pid ≠ 0 && s.current_proc.isSome && proc_current_pid s = s.kill_requested_pid

/-- `handle_user_exception` ends the current process. -/
def exceptionFires (int_no cs : UInt32) : Bool :=
  !decide (int_no ≥ 32) && cs &&& 3 = 3 && proc_current_is_user s

/-- All slots that an operation erases satisfy `ok`. -/
def ErasesOk : Op → Prop
  | .create .. | .spawn .. | .spawnKernel .. | .binCreate .. | .startBin _ | .startBinBackground _ => ClaimOk ok s
  | .startInit .. | .launch .. | .fork .. => ClaimOk ok s
  | .spawnThread _ entry _ => entry ≠ 0 → ClaimOk ok s
  | .startReaper entry env _ _ => StartReaperOk ok s entry env
  | .exit exit_code _ esp => ExitOk ok s exit_code esp
  | .handleKill _ esp => killFires s = true → ExitOk ok (s.setRequest 0) 0 esp
  | .exception int_no cs _ esp => exceptionFires s int_no cs = true → ExitOk ok s int_no esp
  | .schedule _ _ esp => ScheduleOk ok s esp
  | .idle esp => s.current_proc = none → ReapBackgroundOk ok s esp
  | .reap esp => ReapOk ok s esp
  | .reapBackground esp => ReapBackgroundOk ok s esp
  | .exec .. | .kill .. | .requestKill | .takeNext | .fg _ | .setLastRegs _ => True

/-- What a program start may erase again: a process with the next pid and its directory, with the CPU only in a start
that releases the current process. -/
def AbortOk (env : StackEnv) (image : Option Image) (make_current : Bool) : Prop :=
  ∀ p : Process, p.live = true → p.pid = s.next_pid → p.page_dir = env.page_dir →
    (p.state = .RUNNING → make_current = true ∧ FailsAsCurrent s env image) → ok p

/-- The same for the slot that a failed start gives back. -/
def AbortsOk : Op → Prop
  | .binCreate a make_current => AbortOk ok s a.env a.image make_current
  | .startBin a => AbortOk ok s a.env a.image true
  | .startBinBackground a | .launch a _ => AbortOk ok s a.env a.image false
  | .startInit env image => AbortOk ok s env image true
  | _ => True

end Erases

/-- The kill request after an operation. -/
def requestOf (s : ProcSys) : Op → UInt32
  | .kill pid force =>
    if pid ≠ 0 && s.current_proc.isSome && proc_current_pid s = pid && (proc_current_is_user s || force) then pid
    else s.kill_requested_pid
  | .requestKill => if s.current_proc.isSome then proc_current_pid s else s.kill_requested_pid
  | .handleKill _ _ => if killFires s then 0 else s.kill_requested_pid
  | _ => s.kill_requested_pid

/-! ## Kills that were reported as done

`proc_kill` of the process that has the CPU only records its pid in `kill_requested_pid`; the timer interrupt carries the
kill out when it finds that process on the CPU. The pids for which `proc_kill` has answered `PROC_KILL_OK` are kept
beside the process table. -/

/-- The process table and the pids that were killed. -/
structure KillSys where
  sys : ProcSys
  killed : List UInt32

def KillSys.init : KillSys := ⟨proc_init, []⟩

/-- The killed pids after an operation. -/
def recordKill (q : KillSys) : Op → List UInt32
  | .kill pid force => if (proc_kill q.sys pid force).1 = .OK then pid :: q.killed else q.killed
  | _ => q.killed

/-- One operation, with its record. -/
def killStep (q : KillSys) (op : Op) : KillSys := ⟨step q.sys op, recordKill q op⟩

/-- No process with the pid lives. -/
def Gone (s : ProcSys) (pid : UInt32) : Prop := ∀ i, (s.proc_table i).pid = pid → (s.proc_table i).live = false

/-- Every killed process is gone or is the one to be killed next. -/
def NoLostKill (q : KillSys) : Prop := ∀ pid ∈ q.killed, Gone q.sys pid ∨ q.sys.kill_requested_pid = pid

/-- The operation asks for the current process to be killed. -/
def SetsRequest (s : ProcSys) : Op → Prop
  | .kill pid force =>
    pid ≠ 0 ∧ s.current_proc.isSome = true ∧ proc_current_pid s = pid ∧ (proc_current_is_user s || force) = true
  | .requestKill => s.current_proc.isSome = true
  | _ => False

/-- The operation replaces a kill request that is still open. -/
def LosesKill (q : KillSys) (op : Op) : Prop :=
  SetsRequest q.sys op ∧ proc_current_pid q.sys ≠ q.sys.kill_requested_pid ∧
    q.sys.kill_requested_pid ∈ q.killed ∧ ¬Gone q.sys q.sys.kill_requested_pid

end Orion.Proc
