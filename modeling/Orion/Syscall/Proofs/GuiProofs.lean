import Orion.Syscall.Gui
import Orion.Proc.Proofs.RunProofs

/-!
# The channel is a bounded queue

The ring holds what was accepted and not handed out yet. The pid in `gui_server_pid` names the process that bound the
channel as long as pids are not used twice.
-/

namespace Orion.Syscall

open Lib Proc

variable {q : GuiSys} {ops : List GuiOp}

variable {g : Gui} {l : List GuiMsg} {msg : GuiMsg} {s : ProcSys}

def Gui.ring (g : Gui) : RingBuffer GuiMsg := ⟨fun i => some (g.gui_queue i), g.gui_queue_head, g.gui_queue_tail⟩

/-- The queue holds the messages `l`. -/
abbrev Queued (g : Gui) (l : List GuiMsg) : Prop := RingBuffer.Repr GUI_QUEUE_MAX g.ring l

theorem queued_nil (hhead : g.gui_queue_head = 0) (htail : g.gui_queue_tail = 0) : Queued g [] where
  tail_lt := by simp [Gui.ring, htail]
  head_eq := by simp [Gui.ring, hhead, htail]
  short := by simp
  cell i hi := by simp at hi

theorem push_cases (h : Queued g l) (msg : GuiMsg) :
    (l.length + 1 = GUI_QUEUE_MAX ∧ gui_queue_push g msg = (false, g)) ∨
      ∃ g', l.length + 1 < GUI_QUEUE_MAX ∧ gui_queue_push g msg = (true, g') ∧
        g'.gui_server_pid = g.gui_server_pid ∧ Queued g' (l ++ [msg]) := by
  by_cases hfull : (g.gui_queue_head + 1) % GUI_QUEUE_MAX = g.gui_queue_tail
  · have hnone : g.ring.enqueue GUI_QUEUE_MAX msg = none := if_neg (not_not.mpr hfull)
    rcases h.enqueue_cases msg with ⟨hlen, -⟩ | ⟨r, -, hsome, -⟩
    · exact .inl ⟨hlen, if_pos hfull⟩
    · rw [hnone] at hsome
      cases hsome
  · have hroom : g.ring.enqueue GUI_QUEUE_MAX msg = some (Gui.ring { g with
        gui_queue := Function.update g.gui_queue g.gui_queue_head msg
        gui_queue_head := (g.gui_queue_head + 1) % GUI_QUEUE_MAX }) := by
      refine (if_pos hfull).trans (congrArg some ?_)
      simp only [Gui.ring, RingBuffer.mk.injEq, and_self, and_true]
      exact (Function.comp_update some g.gui_queue g.gui_queue_head msg).symm
    rcases h.enqueue_cases msg with ⟨-, hnone⟩ | ⟨r, hlen, hsome, hrepr⟩
    · rw [hroom] at hnone
      cases hnone
    · rw [hroom] at hsome
      obtain rfl := Option.some.inj hsome
      exact .inr ⟨_, hlen, if_neg hfull, rfl, hrepr⟩

theorem pop_nil (h : Queued g []) : gui_queue_pop g = (none, g) := by
  have heq : g.gui_queue_head = g.gui_queue_tail := by
    have hhead := h.head_eq
    rwa [List.length_nil, Nat.add_zero, Nat.mod_eq_of_lt h.tail_lt] at hhead
  exact if_pos heq

theorem pop_cons (h : Queued g (msg :: l)) :
    ∃ g', gui_queue_pop g = (some msg, g') ∧ g'.gui_server_pid = g.gui_server_pid ∧ Queued g' l := by
  obtain ⟨hne, hfirst, hrest⟩ := h.advance
  have hmsg : g.gui_queue g.gui_queue_tail = msg := Option.some.inj hfirst
  refine ⟨{ g with gui_queue_tail := (g.gui_queue_tail + 1) % GUI_QUEUE_MAX }, ?_, rfl, hrest⟩
  have hpop : gui_queue_pop g = (some (g.gui_queue g.gui_queue_tail), _) := if_neg hne
  rw [hpop, hmsg]

/-- The ring holds the accepted messages that were not handed out, the server's pid has been given out, and a living
process with it is the server. -/
structure GuiInv (q : GuiSys) (ops : List GuiOp) : Prop where
  inv : Inv q.sys
  pids : Pids (creations q.sys (guiTableOps ops)) q.sys
  queue : ∃ l, Queued q.gui l ∧ q.sent.map stamped = q.received ++ l
  known : q.gui.gui_server_pid < q.sys.next_pid
  server : ∀ i, (q.sys.proc_table i).live = true → (q.sys.proc_table i).pid = q.gui.gui_server_pid → q.server = some i

theorem guiInv_init (hbound : creations proc_init (guiTableOps ops) < 2 ^ 32 - 1) : GuiInv .init ops where
  inv := inv_proc_init
  pids := pids_proc_init hbound
  queue := ⟨[], queued_nil rfl rfl, rfl⟩
  known := by decide
  server i hlive := absurd hlive (by simp [GuiSys.init, proc_init, Process.zero, Process.live, isFreeSlot])

/-- The living processes with a pid that has been given out before were there before. -/
def OnlyFrom (s : ProcSys) (pid : UInt32) (t : ProcSys) : Prop :=
  pid < t.next_pid ∧ ∀ i, (t.proc_table i).live = true → (t.proc_table i).pid = pid →
    (s.proc_table i).live = true ∧ (s.proc_table i).pid = pid

theorem OnlyFrom.move {ok : Process → Prop} {t u : ProcSys} {pid : UInt32} {k m : ℕ} (hmove : Move ok k t u)
    (hpids : Pids (k + m) t) (h : OnlyFrom s pid t) : OnlyFrom s pid u := by
  obtain ⟨hknown, hfrom⟩ := h
  obtain ⟨new, hslot⟩ := hmove.slot
  have hnext := hpids.next_toNat hmove
  refine ⟨?_, fun i hlive hpid => hfrom i ?_ ?_⟩
  · rw [UInt32.lt_iff_toNat_lt] at hknown ⊢
    omega
  all_goals cases hslot i with
    | kept hpid' _ _ _ hst =>
      rcases hst with heq | ⟨hlive', -⟩
      · simp_all [live_iff]
      · simp_all
    | ended _ _ _ _ hst => simp [live_iff, hst] at hlive
    | erased _ hzero => simp [hzero, Process.zero, live_iff] at hlive
    | claimed _ _ _ hpid' =>
      rw [hpid', ← UInt32.toNat_inj] at hpid
      rw [UInt32.lt_iff_toNat_lt] at hknown
      omega

theorem guiInv_op {op : Op} (h : GuiInv q (.op op :: ops))
    (hok : ¬ReleasesCurrent q.sys op) : GuiInv (guiStep q (.op op)) ops := by
  have hbudget : Budget q.sys (op :: guiTableOps ops) := ⟨h.inv, h.pids⟩
  obtain ⟨hpids, hknown, hfrom⟩ := step_keeps (K := OnlyFrom q.sys q.gui.gui_server_pid)
    (fun k m u v huv hp hu => hu.move huv hp) h.inv.currentLive (erasesOk_of_free (fun _ _ => trivial) q.sys op)
    (abortsOk_of_next fun _ _ => trivial) h.pids ⟨h.known, fun i hlive hpid => ⟨hlive, hpid⟩⟩
  refine ⟨(budget_step q.sys op _ hbudget hok).1, hpids, h.queue, hknown, fun i hlive hpid => ?_⟩
  obtain ⟨hlive', hpid'⟩ := hfrom i hlive hpid
  have hon : LivesOn q.sys (step q.sys op) i = true := by
    simp only [LivesOn, Bool.and_eq_true, decide_eq_true_eq]
    exact ⟨hlive, hpid.trans hpid'.symm⟩
  show q.server.filter _ = _
  rw [h.server i hlive' hpid', Option.filter_some, if_pos hon]

theorem GuiInv.skip {a : GuiOp} (h : GuiInv q (a :: ops))
    (htable : guiTableOps (a :: ops) = guiTableOps ops) : GuiInv q ops :=
  ⟨h.inv, htable ▸ h.pids, h.queue, h.known, h.server⟩

theorem guiInv_bind {i : Proc.Slot} (h : GuiInv q ops) (hcur : q.sys.current_proc = some i) :
    GuiInv (bindStep q) ops := by
  have hpid : proc_current_pid q.sys = (q.sys.proc_table i).pid := by rw [proc_current_pid, hcur]
  have hne : (q.sys.proc_table i).pid ≠ 0 := h.pids.used i (by simp [(h.inv.current i hcur).2])
  unfold bindStep sys_gui_bind
  dsimp only
  split_ifs with halive
  · exact h
  refine ⟨h.inv, h.pids, ⟨[], queued_nil rfl rfl, rfl⟩, ?_, fun j _ hj => ?_⟩
  · show proc_current_pid q.sys < _
    rw [hpid]
    exact h.pids.lt i
  · exact hcur.trans (congrArg some (h.pids.inj i j hne (hpid.symm.trans hj.symm)))

theorem send_cases (hq : Queued g l) (hserver : g.gui_server_pid ≠ 0) (msg : GuiMsg) :
    (l.length + 1 = GUI_QUEUE_MAX ∧ sys_gui_send s g (some msg) = (false, g)) ∨
      ∃ g', l.length + 1 < GUI_QUEUE_MAX ∧ sys_gui_send s g (some msg) = (true, g') ∧
        g'.gui_server_pid = g.gui_server_pid ∧ Queued g' (l ++ [stamped (proc_current_pid s, msg)]) := by
  rw [sys_gui_send, if_neg hserver]
  exact push_cases hq _

theorem guiInv_send (h : GuiInv q ops) (msg : Option GuiMsg) : GuiInv (sendStep q msg) ops := by
  have hsame : ∀ msg, q.gui.gui_server_pid = 0 → sys_gui_send q.sys q.gui msg = (false, q.gui) :=
    fun msg hserver => if_pos hserver
  rcases msg with _ | msg
  · have hnone : (sys_gui_send q.sys q.gui none).2 = q.gui := by
      unfold sys_gui_send
      split <;> rfl
    rw [sendStep, hnone]
    exact h
  rw [sendStep]
  obtain ⟨l, hq, hsent⟩ := h.queue
  by_cases hserver : q.gui.gui_server_pid = 0
  · rw [hsame _ hserver]
    exact h
  rcases send_cases (s := q.sys) hq hserver msg with ⟨-, heq⟩ | ⟨g', -, heq, hpid, hq'⟩ <;> rw [heq]
  · exact h
  · refine ⟨h.inv, h.pids, ⟨_, hq', ?_⟩, hpid ▸ h.known, hpid ▸ h.server⟩
    simp [hsent]

theorem guiInv_recv (h : GuiInv q ops) (buffer : Bool) : GuiInv (recvStep q buffer) ops := by
  unfold recvStep sys_gui_recv
  split_ifs with hpid hbuffer
  · exact h
  · exact h
  obtain ⟨l, hq, hsent⟩ := h.queue
  rcases l with _ | ⟨first, rest⟩
  · rw [pop_nil hq]
    exact h
  obtain ⟨g', hpop, hpid, hq'⟩ := pop_cons hq
  rw [hpop]
  refine ⟨h.inv, h.pids, ⟨rest, hq', ?_⟩, hpid ▸ h.known, hpid ▸ h.server⟩
  simp [hsent]

theorem guiInv_step (q : GuiSys) (op : GuiOp) (ops : List GuiOp) (h : GuiInv q (op :: ops))
    (hok : KeepsCurrent q op) : GuiInv (guiStep q op) ops := by
  cases op with
  | op op => exact guiInv_op h hok
  | bind =>
    have h' := h.skip rfl
    cases hcur : q.sys.current_proc with
    | none => simpa [guiStep, hcur] using h'
    | some i => simpa [guiStep, hcur] using guiInv_bind h' hcur
  | send msg =>
    rw [guiStep]
    split_ifs
    · exact h.skip rfl
    · exact guiInv_send (h.skip rfl) msg
  | recv buffer =>
    rw [guiStep]
    split_ifs
    · exact h.skip rfl
    · exact guiInv_recv (h.skip rfl) buffer

theorem GuiInv.inOrder (h : GuiInv q ops) : InOrder q := by
  obtain ⟨l, -, hsent⟩ := h.queue
  rw [InOrder, hsent]
  exact List.prefix_append _ _

theorem GuiInv.keepsContract (q : GuiSys) (op : GuiOp) (ops : List GuiOp) (h : GuiInv q (op :: ops)) :
    KeepsContract q op := by
  cases op with
  | op op => trivial
  | bind => trivial
  | send msg =>
    rcases msg with _ | msg
    · trivial
    intro _ hserver
    obtain ⟨l, hq, hsent⟩ := h.queue
    have hunread : unread q = l.length := by
      have hlen := congrArg List.length hsent
      simp only [List.length_map, List.length_append] at hlen
      rw [unread, hlen, Nat.add_sub_cancel_left]
    rcases send_cases (s := q.sys) hq hserver msg with ⟨hlen, heq⟩ | ⟨g', hlen, heq, -⟩ <;> rw [heq, hunread]
    · simp only [true_iff]
      omega
    · simp only [Bool.true_eq_false, false_iff]
      omega
  | recv buffer =>
    intro i hcur hsome
    have hlive := h.inv.currentLive i hcur
    refine ⟨h.server i hlive ?_, hlive⟩
    rw [sys_gui_recv] at hsome
    split at hsome
    · cases hsome
    · rename_i hpid
      rw [proc_current_pid, hcur] at hpid
      exact not_not.mp hpid

/-- In a run with fewer than `2 ^ 32 - 1` creations and no failing start of the current process, the channel hands the
accepted messages in order to the living server only, and refuses one exactly when 63 are unread. -/
theorem channel_reliable_throughout (ops : List GuiOp) (hbound : creations proc_init (guiTableOps ops) < 2 ^ 32 - 1)
    (hrel : EachStep guiStep KeepsCurrent .init ops) :
    Throughout guiStep InOrder .init ops ∧ EachStep guiStep KeepsContract .init ops :=
  ⟨throughout_of_inv guiInv_step (fun _ _ h => h.inOrder) (guiInv_init hbound) hrel,
    eachStep_of_inv guiInv_step (fun _ _ _ h _ => h.keepsContract) (guiInv_init hbound) hrel⟩

/-- The process 1 binds the channel, the process 2 sends a message, and the server takes it out. -/
def sendAndReceive : List GuiOp :=
  [.op (.create none 0x100 grantedEnv), .op (.spawn none 0x200 grantedEnv), .bind, .op (.schedule 0x5000 true 0),
    .send (some .zero), .op (.schedule 0x5000 true 0), .recv true]

theorem channel_reliable_sendAndReceive :
    Throughout guiStep InOrder .init sendAndReceive ∧ EachStep guiStep KeepsContract .init sendAndReceive :=
  channel_reliable_throughout sendAndReceive (by decide +kernel) ⟨id, id, trivial, id, trivial, id, trivial, trivial⟩

/-- The process 1 binds the channel and exits; the process 2 sends a message. -/
def serverExits : List GuiOp :=
  [.op (.create none 0x100 grantedEnv), .op (.spawn none 0x200 grantedEnv), .bind, .op (.exit 0 0x5000 0),
    .send (some .zero)]

/-- The answers to a creation whose page directory cannot be allocated. -/
def deniedEnv : StackEnv := { grantedEnv with page_dir := 0 }

theorem step_denied (hfind : s.findSlot isFreeSlot = some 0) :
    step s (.spawn none 0 deniedEnv) = (s.setSlot 0 (newUser s.next_pid 0 deniedEnv)).bumpPid := by
  show (proc_create_common s none 0 deniedEnv false true).2 = _
  unfold proc_create_common
  rw [hfind]
  show ((s.setSlot 0 Process.zero).setSlot 0 (newUser s.next_pid 0 deniedEnv)).bumpPid = _
  rw [setSlot_setSlot]

/-- The state after failing creations, the last one with the pid `pid`. -/
def afterDenied (q : GuiSys) (pid : UInt32) : GuiSys :=
  { q with sys := { q.sys.setSlot (slotAt 0) (newUser pid 0 deniedEnv) with next_pid := pid + 1 } }

theorem guiStep_denied (hfind : q.sys.findSlot isFreeSlot = some 0) (hserver : q.server = none) :
    guiStep q (.op (.spawn none 0 deniedEnv)) = afterDenied q q.sys.next_pid := by
  rw [guiStep, step_denied hfind, hserver, afterDenied, hserver]
  rfl

theorem guiStep_afterDenied (hserver : q.server = none) (pid : UInt32) :
    guiStep (afterDenied q pid) (.op (.spawn none 0 deniedEnv)) = afterDenied q (pid + 1) := by
  rw [guiStep_denied (q := afterDenied q pid) rfl hserver]
  simp only [afterDenied, ProcSys.setSlot]
  rw [Function.update_idem]

/-- The server is dead, `n + 1` creations fail, and the next process gets the CPU. -/
def failingCreations (n : ℕ) : List GuiOp :=
  serverExits ++ (.op (.spawn none 0 deniedEnv) :: (List.replicate n (.op (.spawn none 0 deniedEnv)) ++
    [.op (.spawn none 0x300 grantedEnv), .op (.schedule 0x5000 true 0)]))

/-- After `2 ^ 32 - 2` of them the next process has the pid 1, like the server, which has exited, and gets the message.
-/
theorem reused_pid_receives :
    ¬EachStep guiStep KeepsContract .init (failingCreations (2 ^ 32 - 3) ++ [.recv true]) := by
  intro h
  have hlast := eachStep_iff_prefix.mp h (failingCreations (2 ^ 32 - 3)) (.recv true) List.prefix_rfl
  unfold failingCreations at hlast
  have hserver : (exec guiStep .init serverExits).server = none := by decide +kernel
  have hfirst := guiStep_denied (q := exec guiStep .init serverExits) (by decide +kernel) hserver
  have hpid : (exec guiStep .init serverExits).sys.next_pid = 3 := by decide +kernel
  have hmany := exec_replicate_counter (guiStep_afterDenied hserver) (2 ^ 32 - 3) 3
  have hsum : (3 : UInt32) + UInt32.ofNat (2 ^ 32 - 3) = 0 := by decide
  rw [exec_append, exec_cons, hfirst, hpid, exec_append, hmany, hsum] at hlast
  have hgets := hlast 0 (by decide +kernel) (by decide +kernel)
  have hnone : (exec guiStep (afterDenied (exec guiStep .init serverExits) 0)
      [.op (.spawn none 0x300 grantedEnv), .op (.schedule 0x5000 true 0)]).server = none := by decide +kernel
  rw [hnone] at hgets
  cases hgets.1

end Orion.Syscall
