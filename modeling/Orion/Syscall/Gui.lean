import Orion.Lib.Ring
import Orion.Proc.Wait

/-!
# The message channel of the GUI (`kernel/syscall.c`)

One process at a time is the GUI server. Any process can send it messages through a ring of 64 cells, and only the
server can take them out. The calls are issued by the process that has the CPU.

Beside the variables of the kernel the state remembers which messages were accepted and which were handed out since
the last bind, and the slot of the server for as long as the server lives.
-/

namespace Orion.Syscall

open Lib Proc

/-- `sys_gui_msg_t` -/
structure GuiMsg where
  sender_pid : UInt32
  type : UInt32
  a : Int32
  b : Int32
  c : Int32
  text : List UInt8
  deriving DecidableEq

abbrev GUI_QUEUE_MAX : ℕ := 64

/-- The message queue and the server's pid. -/
structure Gui where
  gui_queue : ℕ → GuiMsg
  gui_queue_head : ℕ
  gui_queue_tail : ℕ
  gui_server_pid : UInt32

def GuiMsg.zero : GuiMsg := ⟨0, 0, 0, 0, 0, []⟩

def Gui.init : Gui := ⟨fun _ => .zero, 0, 0, 0⟩

def gui_queue_push (g : Gui) (msg : GuiMsg) : Bool × Gui :=
  let next := (g.gui_queue_head + 1) % GUI_QUEUE_MAX
  if next = g.gui_queue_tail then (false, g)
  else (true, { g with gui_queue := Function.update g.gui_queue g.gui_queue_head msg, gui_queue_head := next })

def gui_queue_pop (g : Gui) : Option GuiMsg × Gui :=
  if g.gui_queue_head = g.gui_queue_tail then (none, g)
  else (some (g.gui_queue g.gui_queue_tail),
    { g with gui_queue_tail := (g.gui_queue_tail + 1) % GUI_QUEUE_MAX })

/-- System call `SYS_GUI_BIND`. -/
def sys_gui_bind (s : ProcSys) (g : Gui) : Bool × Gui :=
  let pid := proc_current_pid s
  if g.gui_server_pid ≠ 0 && g.gui_server_pid ≠ pid && proc_pid_alive s g.gui_server_pid then (false, g)
  else (true, { g with gui_server_pid := pid, gui_queue_head := 0, gui_queue_tail := 0 })

/-- System call `SYS_GUI_SEND`; `msg` is what the caller's buffer holds, or `none` when the buffer is rejected. -/
def sys_gui_send (s : ProcSys) (g : Gui) (msg : Option GuiMsg) : Bool × Gui :=
  if g.gui_server_pid = 0 then (false, g)
  else
    match msg with
    | none => (false, g)
    | some msg => gui_queue_push g { msg with sender_pid := proc_current_pid s }

/-- System call `SYS_GUI_RECV`, with the message that is copied to the caller; `buffer` says whether its buffer
is accepted. -/
def sys_gui_recv (s : ProcSys) (g : Gui) (buffer : Bool) : Option GuiMsg × Gui :=
  if proc_current_pid s ≠ g.gui_server_pid then (none, g)
  else if !buffer then (none, g)
  else gui_queue_pop g

/-! ## Runs -/

/-- The processes and the channel, with what was sent and received since it was bound. -/
structure GuiSys where
  sys : ProcSys
  gui : Gui
  /-- The accepted messages as their senders gave them, with the senders' pids. -/
  sent : List (UInt32 × GuiMsg)
  received : List GuiMsg
  /-- The slot of the process that bound the channel, while it lives. -/
  server : Option Proc.Slot

def GuiSys.init : GuiSys := ⟨proc_init, .init, [], [], none⟩

/-- An operation on processes or a system call of the current one. -/
inductive GuiOp where
  | op (op : Op)
  | bind
  | send (msg : Option GuiMsg)
  | recv (buffer : Bool)

/-- The process in slot `i` goes on living from `s` to `t`. -/
def LivesOn (s t : ProcSys) (i : Proc.Slot) : Bool :=
  (t.proc_table i).live && (t.proc_table i).pid = (s.proc_table i).pid

def bindStep (q : GuiSys) : GuiSys :=
  match sys_gui_bind q.sys q.gui with
  | (false, gui) => { q with gui := gui }
  | (true, gui) => ⟨q.sys, gui, [], [], q.sys.current_proc⟩

def sendStep (q : GuiSys) : Option GuiMsg → GuiSys
  | none => { q with gui := (sys_gui_send q.sys q.gui none).2 }
  | some msg =>
    match sys_gui_send q.sys q.gui (some msg) with
    | (false, gui) => { q with gui := gui }
    | (true, gui) => { q with gui := gui, sent := q.sent ++ [(proc_current_pid q.sys, msg)] }

def recvStep (q : GuiSys) (buffer : Bool) : GuiSys :=
  match sys_gui_recv q.sys q.gui buffer with
  | (none, gui) => { q with gui := gui }
  | (some msg, gui) => { q with gui := gui, received := q.received ++ [msg] }

/-- One operation, with its record. -/
def guiStep (q : GuiSys) : GuiOp → GuiSys
  | .op op => { q with sys := step q.sys op, server := q.server.filter (LivesOn q.sys (step q.sys op)) }
  | .bind => if q.sys.current_proc.isNone then q else bindStep q
  | .send msg => if q.sys.current_proc.isNone then q else sendStep q msg
  | .recv buffer => if q.sys.current_proc.isNone then q else recvStep q buffer

def guiTableOps : List GuiOp → List Op
  | [] => []
  | .op op :: ops => op :: guiTableOps ops
  | _ :: ops => guiTableOps ops

/-- The message as the server gets it. -/
def stamped (e : UInt32 × GuiMsg) : GuiMsg := { e.2 with sender_pid := e.1 }

/-- The messages that were not yet received. -/
def unread (q : GuiSys) : ℕ := q.sent.length - q.received.length

/-- What was received is what was sent first. -/
def InOrder (q : GuiSys) : Prop := q.received <+: q.sent.map stamped

/-- Sending fails for a full queue only, and only the server receives. -/
def KeepsContract (q : GuiSys) : GuiOp → Prop
  | .send (some msg) => q.sys.current_proc.isSome → q.gui.gui_server_pid ≠ 0 →
    ((sys_gui_send q.sys q.gui (some msg)).1 = false ↔ unread q = GUI_QUEUE_MAX - 1)
  | .recv buffer => ∀ i, q.sys.current_proc = some i → (sys_gui_recv q.sys q.gui buffer).1.isSome →
    q.server = some i ∧ (q.sys.proc_table i).live
  | _ => True

/-- No start fails as the current process. -/
def KeepsCurrent (q : GuiSys) : GuiOp → Prop
  | .op op => ¬ReleasesCurrent q.sys op
  | _ => True

end Orion.Syscall
