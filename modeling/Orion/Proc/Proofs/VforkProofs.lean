import Orion.Proc.Proofs.RunProofs

/-!
# No vfork parent is orphaned

Whatever ends the child or lets it exec wakes the process in the child's note of its parent. As long as pids are not
reused that process is the parent.
-/

namespace Orion.Proc

open ProcSys Lib

variable {ok : Process → Prop} {s t : ProcSys} {k m : ℕ} {p : Process} {i j : Slot}

theorem live_iff_states : p.live = true ↔ p.state = .READY ∨ p.state = .RUNNING ∨ p.state = .BLOCKED := by
  rw [live_iff]
  cases p.state <;> simp

/-- Every blocked process has a live child. -/
def Awaited (s : ProcSys) : Prop :=
  ∀ i, (s.proc_table i).state = .BLOCKED →
    ∃ j, (s.proc_table j).vfork_parent_pid = (s.proc_table i).pid ∧ (s.proc_table j).live = true

theorem Awaited.noOrphan (h : Awaited s) : NoOrphan s := by
  intro i hi
  obtain ⟨j, hparent, hlive⟩ := h i hi
  exact ⟨j, hparent, live_iff_states.mp hlive⟩

theorem Awaited.unmoved (h : Awaited s) (hslot : ∀ j, Unmoved (t.proc_table j) (s.proc_table j))
    (hblocked : ∀ j, (t.proc_table j).state = .BLOCKED → (s.proc_table j).state = .BLOCKED) : Awaited t := by
  intro i hi
  obtain ⟨j, hparent, hlive⟩ := h i (hblocked i hi)
  refine ⟨j, ?_, (hslot j).live hlive⟩
  rw [(hslot j).vfork_parent_pid, (hslot i).pid]
  exact hparent

theorem Awaited.setSlot (h : Awaited s) (hnew : p.state ≠ .BLOCKED)
    (hold : ∀ j, (s.proc_table j).state = .BLOCKED → (s.proc_table i).live = true →
      (s.proc_table i).vfork_parent_pid ≠ (s.proc_table j).pid) : Awaited (s.setSlot i p) := by
  intro j hj
  have hji : j ≠ i := by
    rintro rfl
    rw [setSlot_self] at hj
    exact hnew hj
  rw [setSlot_of_ne s hji] at hj ⊢
  obtain ⟨c, hparent, hlive⟩ := h j hj
  have hci : c ≠ i := by
    rintro rfl
    exact hold j hj hlive hparent
  exact ⟨c, by rw [setSlot_of_ne s hci]; exact ⟨hparent, hlive⟩⟩

theorem wakeParent_blocked {pid : UInt32} (hpid : pid ≠ 0)
    (hinj : ∀ i j, (s.proc_table i).pid ≠ 0 → (s.proc_table i).pid = (s.proc_table j).pid → i = j)
    (hj : ((wakeParent s pid).proc_table j).state = .BLOCKED) : (s.proc_table j).pid ≠ pid := by
  intro heq
  have hblocked : (s.proc_table j).state = .BLOCKED := by
    rcases (woken_wakeParent s pid j).state with hst | ⟨-, hready⟩
    · rwa [← hst]
    · rw [hready] at hj
      cases hj
  have hfind : s.findSlot (fun p => p.pid = pid) = some j := by
    cases hcase : s.findSlot (fun p => p.pid = pid) with
    | none =>
      have hnone := List.find?_eq_none.mp hcase j (List.mem_finRange j)
      simp [heq] at hnone
    | some i =>
      have hi := findSlot_some hcase
      simp only [decide_eq_true_eq] at hi
      rw [hinj i j (hi ▸ hpid) (hi.trans heq.symm)]
  unfold wakeParent at hj
  rw [hfind] at hj
  dsimp only at hj
  rw [if_pos hblocked, setSlot_self] at hj
  cases hj

theorem wake_vfork_parent_pid {c : Slot} (hci : c ≠ i) :
    ((proc_wake_vfork_parent s i).proc_table c).vfork_parent_pid = (s.proc_table c).vfork_parent_pid := by
  have hwakeParent : ∀ (u : ProcSys) pid,
      ((wakeParent u pid).proc_table c).vfork_parent_pid = (u.proc_table c).vfork_parent_pid := by
    intro u pid
    unfold wakeParent
    split
    · rfl
    split
    · rw [setSlot_apply]
      split
      · rename_i hc
        rw [hc]
        rfl
      · rfl
    · rfl
  unfold proc_wake_vfork_parent
  dsimp only
  split
  · rfl
  · rw [hwakeParent, setSlot_of_ne s hci]

/-- Waking the parent of `i` leaves no orphan, if the only child that may be gone is `i`. -/
theorem awaited_wake (hpids : Pids m s)
    (h : ∀ j, (s.proc_table j).state = .BLOCKED → ∃ c, (s.proc_table c).vfork_parent_pid = (s.proc_table j).pid ∧
      (c = i ∨ (s.proc_table c).live = true)) : Awaited (proc_wake_vfork_parent s i) := by
  intro j hj
  have hwoken := woken_wake s i
  have hblocked : (s.proc_table j).state = .BLOCKED := by
    rcases (hwoken j).state with hst | ⟨-, hready⟩
    · rwa [← hst]
    · rw [hready] at hj
      cases hj
  have hpid : (s.proc_table j).pid ≠ 0 := hpids.used j (by simp [hblocked])
  obtain ⟨c, hparent, hc⟩ := h j hblocked
  -- the child is not `i`, for then `j` would have been woken
  have hci : c ≠ i := by
    rintro rfl
    have hne : (s.proc_table c).vfork_parent_pid ≠ 0 := hparent ▸ hpid
    have hslots : ∀ l, ((s.setSlot c ((s.proc_table c).setVforkParent 0)).proc_table l).pid = (s.proc_table l).pid := by
      intro l
      rw [setSlot_apply]
      split
      · rename_i hlc
        rw [hlc]
        rfl
      · rfl
    unfold proc_wake_vfork_parent at hj
    rw [if_neg hne] at hj
    refine wakeParent_blocked hne ?_ hj ((hslots j).trans hparent.symm)
    intro a b ha hab
    rw [hslots] at ha hab
    rw [hslots] at hab
    exact hpids.inj a b ha hab
  have hlive : (s.proc_table c).live = true := by
    rcases hc with rfl | hlive
    · exact absurd rfl hci
    · exact hlive
  refine ⟨c, ?_, ?_⟩
  · rw [(hwoken j).pid, ← hparent]
    exact wake_vfork_parent_pid hci
  rcases (hwoken c).state with hst | ⟨-, hready⟩
  · unfold Process.live isFreeSlot at hlive ⊢
    rwa [hst]
  · simp [live_iff, hready]

theorem Awaited.end (h : Awaited s) (hpids : Pids m s) (hlive : (s.proc_table i).live = true) (exit_code : UInt32) :
    Awaited (proc_wake_vfork_parent (s.setSlot i ((s.proc_table i).setExit exit_code)) i) := by
  have hpid : ∀ j, ((s.setSlot i ((s.proc_table i).setExit exit_code)).proc_table j).pid = (s.proc_table j).pid := by
    intro j
    rw [setSlot_apply]
    split
    · rename_i hji
      rw [hji]
      rfl
    · rfl
  have hpids' : Pids m (s.setSlot i ((s.proc_table i).setExit exit_code)) := by
    refine ⟨fun j hj => ?_, fun j => ?_, fun a b ha hab => ?_, hpids.room⟩
    · rw [hpid]
      by_cases hji : j = i
      · rw [hji]
        exact hpids.used i (live_iff.mp hlive).1
      · rw [setSlot_of_ne s hji] at hj
        exact hpids.used j hj
    · rw [hpid]
      exact hpids.lt j
    · rw [hpid] at ha hab
      rw [hpid] at hab
      exact hpids.inj a b ha hab
  refine awaited_wake hpids' fun j hj => ?_
  have hji : j ≠ i := by
    rintro rfl
    rw [setSlot_self] at hj
    cases hj
  rw [setSlot_of_ne s hji] at hj ⊢
  obtain ⟨c, hparent, hc⟩ := h j hj
  by_cases hci : c = i
  · subst hci
    exact ⟨c, by rw [setSlot_self]; exact hparent, .inl rfl⟩
  · exact ⟨c, by rw [setSlot_of_ne s hci]; exact ⟨hparent, .inr hc⟩⟩

theorem blocked_of_runSlot_demoteCurrent
    (hj : ((runSlot (demoteCurrent s) i).proc_table j).state = .BLOCKED) : (s.proc_table j).state = .BLOCKED := by
  rw [runSlot, setCurrent_proc_table, setSlot_apply] at hj
  split at hj
  · cases hj
  unfold demoteCurrent at hj
  split at hj
  · exact hj
  split at hj
  · rw [setSlot_apply] at hj
    split at hj
    · cases hj
    · exact hj
  · exact hj

theorem Awaited.move (hmove : Move ok k s t) (hpids : Pids (k + m) s) (h : Awaited s) : Awaited t := by
  cases hmove with
  | misc htable => exact h.unmoved (fun j => htable ▸ Unmoved.refl _) (fun j hj => htable ▸ hj)
  | edit i p hsame =>
    have hslot : Unmoved p (s.proc_table i) :=
      ⟨hsame.pid, hsame.vfork_parent_pid, hsame.page_dir, fun hl => hsame.live ▸ hl⟩
    refine h.unmoved (unmoved_setSlot hslot) (fun j hj => ?_)
    rw [setSlot_apply] at hj
    split at hj
    · rename_i hji
      rw [hji, ← hsame.state]
      exact hj
    · exact hj
  | claim i p hfree hok hpid hst =>
    have hset : Awaited (s.setSlot i p) := by
      refine h.setSlot (by rcases hst with hst | hst <;> simp [hst]) fun j _ hlive => ?_
      rw [Process.live, hfree] at hlive
      cases hlive
    exact hset
  | reap i hst hcur hok =>
    refine h.setSlot (fun hb => by cases hb) fun j _ hlive => ?_
    exact absurd hst (live_iff.mp hlive).2
  | abort i hlive hparent hok =>
    refine h.setSlot (fun hb => by cases hb) fun j hj _ heq => ?_
    exact hpids.used j (by simp [hj]) (heq.symm.trans hparent)
  | wake i =>
    refine awaited_wake hpids fun j hj => ?_
    obtain ⟨c, hparent, hc⟩ := h j hj
    exact ⟨c, hparent, .inr hc⟩
  | exit exit_code hlive =>
    unfold proc_exit
    split
    · exact h
    · rename_i i hcur
      exact h.end hpids (hlive i hcur) exit_code
  | kill i hlive hcur => exact h.end hpids hlive 0
  | switch i hrun =>
    exact h.unmoved (fun j => (unmoved_runSlot i j).trans (unmoved_demoteCurrent j))
      (fun j hj => blocked_of_runSlot_demoteCurrent hj)
  | block c j hcur hc hj hparent =>
    have hsame : Unmoved ((s.proc_table c).setState .BLOCKED) (s.proc_table c) := ⟨rfl, rfl, rfl, fun _ => rfl⟩
    have hslot := unmoved_setSlot hsame
    intro l hl
    by_cases hlc : l = c
    · subst hlc
      refine ⟨j, ?_, (hslot j).live hj⟩
      rw [(hslot j).vfork_parent_pid, (hslot l).pid]
      exact hparent
    · rw [setSlot_of_ne s hlc] at hl
      obtain ⟨w, hw, hlive⟩ := h l hl
      refine ⟨w, ?_, (hslot w).live hlive⟩
      rw [(hslot w).vfork_parent_pid, (hslot l).pid]
      exact hw

/-- The invariant of a run. -/
structure VforkInv (s : ProcSys) (ops : List Op) : Prop where
  inv : Inv s
  pids : Pids (creations s ops) s
  awaited : Awaited s

theorem vforkInv_step (s : ProcSys) (op : Op) (ops : List Op) (h : VforkInv s (op :: ops))
    (hok : ¬ReleasesCurrent s op) : VforkInv (step s op) ops := by
  obtain ⟨hpids, hawaited⟩ := step_keeps (K := Awaited) (fun k m u v huv hp hu => hu.move huv hp)
    h.inv.currentLive (erasesOk_of_free (fun _ _ => trivial) s op) (abortsOk_of_next fun _ _ => trivial) h.pids h.awaited
  have hbudget : Budget s (op :: ops) := ⟨h.inv, h.pids⟩
  exact ⟨(budget_step s op ops hbudget hok).1, hpids, hawaited⟩

/-- In a run with fewer than `2 ^ 32 - 1` creations and no failing start of the current process, no blocked process is
orphaned. -/
theorem no_orphan_throughout (ops : List Op) (hbound : creations proc_init ops < 2 ^ 32 - 1)
    (hrel : EachStep step (fun s op => ¬ReleasesCurrent s op) proc_init ops) :
    Throughout step NoOrphan proc_init ops := by
  have hstart : VforkInv proc_init ops := ⟨inv_proc_init, pids_proc_init hbound, fun i hi => (by cases hi)⟩
  exact throughout_of_inv vforkInv_step (fun _ _ h => h.awaited.noOrphan) hstart hrel

def grantedFork : ForkEnv := { grantedEnv with image := 0x60000, image_mapped := true }

/-- A fork inside a fork, and the inner child exits. -/
def nestedForks : List Op :=
  [.create none 0x100 grantedEnv, .fork 0x5000 grantedFork, .fork 0x5000 grantedFork, .exit 0 0x5000 0]

theorem no_orphan_nestedForks : Throughout step NoOrphan proc_init nestedForks :=
  no_orphan_throughout nestedForks (by decide +kernel) ⟨id, id, id, id, trivial⟩

def failedFork : ForkEnv := { grantedFork with page_dir := 0 }

def oneProcess : ProcSys := step proc_init (.create none 0x100 grantedEnv)

theorem step_failedFork (hcur : s.current_proc = some 0) (hkernel : (s.proc_table 0).is_kernel = false)
    (hfind : s.findSlot isFreeSlot = some 1) :
    step s (.fork 0x5000 failedFork) =
      (s.setSlot 1 (forkChild (s.proc_table 0) (freshSlot s.next_pid) failedFork)).bumpPid := by
  have hfork : proc_fork s 0x5000 failedFork =
      (none, (s.setSlot 1 (forkChild (s.proc_table 0) (freshSlot s.next_pid) failedFork)).bumpPid) := by
    unfold proc_fork
    rw [hcur]
    dsimp only
    rw [hkernel, if_neg (by decide), hfind]
    show ((none, ((s.setSlot 1 (freshSlot s.next_pid)).setSlot 1
      (forkChild (s.proc_table 0) (freshSlot s.next_pid) failedFork)).bumpPid) : Option Slot × ProcSys) = _
    rw [setSlot_setSlot]
  show (sys_fork s 0x5000 failedFork).2 = _
  unfold sys_fork
  rw [hfork]

/-- One process that has failed to fork, the last time with the pid `pid`. -/
def afterFailedForks (pid : UInt32) : ProcSys :=
  { oneProcess.setSlot (slotAt 1) (forkChild (oneProcess.proc_table (slotAt 0)) (freshSlot pid) failedFork) with
    next_pid := pid + 1 }

theorem exec_failedForks (n : ℕ) (pid : UInt32) :
    exec step (afterFailedForks pid) (List.replicate n (.fork 0x5000 failedFork)) =
      afterFailedForks (pid + UInt32.ofNat n) := by
  refine exec_replicate_counter (fun pid => ?_) n pid
  rw [step_failedFork rfl rfl rfl]
  show ({ (oneProcess.setSlot 1 _).setSlot 1 _ with next_pid := pid + 1 + 1 } : ProcSys) = _
  rw [setSlot_setSlot]
  rfl

/-- The process with the pid 0 forks; the grandchild exits and the first process is killed. -/
def lastOps : List Op := [.fork 0x5000 grantedFork, .fork 0x5000 grantedFork, .exit 0 0x5000 0, .kill 1 false]

/-- The process 1 forks `2 ^ 32 - 2` times without success, so that its next child has the pid 0 and the child of that
one the pid 1 again. -/
def wrapRun : List Op :=
  .create none 0x100 grantedEnv :: .fork 0x5000 failedFork ::
    (List.replicate (2 ^ 32 - 3) (.fork 0x5000 failedFork) ++ lastOps)

theorem exec_wrapRun : exec step proc_init wrapRun = exec step (afterFailedForks 0xFFFFFFFF) lastOps := by
  have hfirst : step oneProcess (.fork 0x5000 failedFork) = afterFailedForks 2 := step_failedFork rfl rfl rfl
  have hmany := exec_failedForks (2 ^ 32 - 3) 2
  have hsum : (2 : UInt32) + UInt32.ofNat (2 ^ 32 - 3) = 0xFFFFFFFF := by decide
  rw [hsum] at hmany
  rw [wrapRun, exec_cons, exec_cons]
  show exec step (step oneProcess _) _ = _
  rw [hfirst, exec_append, hmany]

theorem wrap_orphans_parent : ¬Throughout step NoOrphan proc_init wrapRun := by
  intro h
  have hend := throughout_iff_prefix.mp h wrapRun List.prefix_rfl
  rw [exec_wrapRun] at hend
  have hblocked : ((exec step (afterFailedForks 0xFFFFFFFF) lastOps).proc_table 1).state = .BLOCKED := by
    decide +kernel
  have hpid : ((exec step (afterFailedForks 0xFFFFFFFF) lastOps).proc_table 1).pid = 0 := by decide +kernel
  have hnobody : ∀ j, ((exec step (afterFailedForks 0xFFFFFFFF) lastOps).proc_table j).live = true →
      ((exec step (afterFailedForks 0xFFFFFFFF) lastOps).proc_table j).vfork_parent_pid ≠ 0 := by
    decide +kernel
  obtain ⟨j, hparent, hst⟩ := hend 1 hblocked
  exact hnobody j (live_iff_states.mpr hst) (hparent.trans hpid)

end Orion.Proc
