import Orion.Proc.Moves

/-!
# Waiting for an exit code

`SYS_WAIT` reads the exit code from the slot of the exited process. The codes that nobody has asked for yet
are kept beside the process table.
-/

namespace Orion.Proc

/-- `proc_pid_exited`, with the exit code. -/
def proc_pid_exited (s : ProcSys) (pid : UInt32) : Option UInt32 :=
  if pid = 0 then none
  else
    match s.findSlot fun p => p.pid = pid with
    | none => none
    | some i => if (s.proc_table i).state ≠ .EXITED then none else some (s.proc_table i).exit_code

def proc_pid_alive (s : ProcSys) (pid : UInt32) : Bool :=
  if pid = 0 then false
  else
    match s.findSlot fun p => p.pid = pid with
    | none => false
    | some i => (s.proc_table i).state ≠ .UNUSED && (s.proc_table i).state ≠ .EXITED

/-- `((uint32_t)-1)` -/
def WAIT_RUNNING : UInt32 := 0xFFFFFFFF

/-- `((uint32_t)-2)` -/
def WAIT_NO_SUCH : UInt32 := 0xFFFFFFFE

/-- System call `SYS_WAIT`: what the caller finds in `eax`. -/
def syscall_wait (s : ProcSys) (pid : UInt32) : UInt32 :=
  if pid = 0 then WAIT_NO_SUCH
  else
    match proc_pid_exited s pid with
    | some code => code
    | none => if !proc_pid_alive s pid then WAIT_NO_SUCH else WAIT_RUNNING

/-- `sys_wait` of `olibc/syscall.c`, with the states in which its calls are made; `none` while it still waits. -/
def sys_wait (pid : UInt32) : List ProcSys → Option UInt32
  | [] => none
  | s :: rest => if syscall_wait s pid = WAIT_RUNNING then sys_wait pid rest else some (syscall_wait s pid)

/-- The pid and exit code of a process that the operation ends. -/
def exits (s : ProcSys) : Op → List (UInt32 × UInt32)
  | .exit exit_code _ _ => if s.current_proc.isSome then [(proc_current_pid s, exit_code)] else []
  | .kill pid force =>
    if (proc_kill s pid force).1 = .OK && !(s.current_proc.isSome && proc_current_pid s = pid) then [(pid, 0)] else []
  | .handleKill _ _ => if killFires s then [(proc_current_pid s, 0)] else []
  | .exception int_no cs _ _ => if exceptionFires s int_no cs then [(proc_current_pid s, int_no)] else []
  | _ => []

/-- The process table and the exit codes that nobody has asked for. -/
structure WaitSys where
  sys : ProcSys
  owed : List (UInt32 × UInt32)

/-- An operation on the table or a `SYS_WAIT`. -/
inductive WaitOp where
  | op (op : Op)
  | wait (pid : UInt32)

/-- An exit is owed until somebody waits for the pid. -/
def waitStep (q : WaitSys) : WaitOp → WaitSys
  | .op op => ⟨step q.sys op, exits q.sys op ++ q.owed⟩
  | .wait pid => ⟨q.sys, q.owed.filter fun e => e.1 ≠ pid⟩

def tableOps : List WaitOp → List Op
  | [] => []
  | .op op :: ops => op :: tableOps ops
  | .wait _ :: ops => tableOps ops

/-- The first wait for a process that has exited reports its code, which is no other answer and ends the loop of
`sys_wait`. -/
def Delivers (q : WaitSys) : WaitOp → Prop
  | .op _ => True
  | .wait pid => ∀ code, (pid, code) ∈ q.owed →
    syscall_wait q.sys pid = code ∧ code ≠ WAIT_RUNNING ∧ code ≠ WAIT_NO_SUCH ∧
      ∀ later, sys_wait pid (q.sys :: later) = some code

/-- The slot holds no exit code that is still owed. -/
def Unowed (owed : List (UInt32 × UInt32)) (p : Process) : Prop := ∀ e ∈ owed, p.pid ≠ e.1

/-- The operation exits with codes that are no answers of `SYS_WAIT`, and it erases no slot whose code is owed. -/
def KeepsCodes (q : WaitSys) : WaitOp → Prop
  | .op op => ¬ReleasesCurrent q.sys op ∧ (∀ e ∈ exits q.sys op, e.2 ≠ WAIT_RUNNING ∧ e.2 ≠ WAIT_NO_SUCH) ∧
    ErasesOk (Unowed (exits q.sys op ++ q.owed)) q.sys op
  | .wait _ => True

end Orion.Proc
