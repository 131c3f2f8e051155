import Orion.Proc.Moves
import Orion.Proc.Proofs.RunProofs

/-!
# No kill is lost

A process that has ended stays ended, since its pid is not given out again, and no move touches the pending
request. So a kill can only be lost where an operation writes a new request over a pending one.
-/

namespace Orion.Proc

open ProcSys Lib

variable {pid : UInt32} {op : Op} {q : KillSys}

variable {ok : Process → Prop} {s t : ProcSys} {k m : ℕ} {i : Slot}

theorem Gone.move (hmove : Move ok k s t) (h : Gone s pid) (hlt : pid < s.next_pid) : Gone t pid := by
  obtain ⟨new, hslot⟩ := hmove.slot
  intro j hj
  cases hslot j with
  | kept hpid _ _ _ hst =>
    have hdead := h j (hpid ▸ hj)
    rcases hst with hst | ⟨hlive, -⟩
    · rw [← hdead]
      unfold Process.live isFreeSlot
      rw [hst]
    · rw [hdead] at hlive
      cases hlive
  | ended _ _ _ _ hst =>
    unfold Process.live isFreeSlot
    rw [hst]
    rfl
  | erased _ hzero =>
    rw [hzero]
    rfl
  | claimed _ _ _ hpid =>
    rw [← hj, hpid] at hlt
    exact absurd hlt (UInt32.lt_irrefl _)

theorem Pids.lt_next (hpids : Pids (k + m) s) (hmove : Move ok k s t) (hlt : pid < s.next_pid) : pid < t.next_pid := by
  have hnext := hpids.next_toNat hmove
  rw [UInt32.lt_iff_toNat_lt] at hlt ⊢
  omega

theorem Move.kill_requested_pid (h : Move ok k s t) : t.kill_requested_pid = s.kill_requested_pid := by
  cases h with
  | misc _ _ _ _ hkill => exact hkill
  | wake i => exact (wake_frame s i).2.2.2
  | exit exit_code =>
    unfold proc_exit
    split
    · rfl
    · exact (wake_frame _ _).2.2.2
  | kill i => exact (wake_frame _ _).2.2.2
  | switch i =>
    show (demoteCurrent s).kill_requested_pid = _
    unfold demoteCurrent
    split
    · rfl
    · split <;> rfl
  | claim | edit | reap | abort | block => rfl

/-- The pid was given out, and its process is gone or the request names it. -/
def Settled (pid request : UInt32) (s : ProcSys) : Prop :=
  pid < s.next_pid ∧ s.kill_requested_pid = request ∧ (Gone s pid ∨ request = pid)

theorem Settled.move {request : UInt32} (hmove : Move ok k s t) (hpids : Pids (k + m) s)
    (h : Settled pid request s) : Settled pid request t := by
  obtain ⟨hlt, hreq, hgone⟩ := h
  refine ⟨hpids.lt_next hmove hlt, hmove.kill_requested_pid.trans hreq, ?_⟩
  rcases hgone with hgone | heq
  · exact .inl (hgone.move hmove hlt)
  · exact .inr heq

theorem gone_end (hpids : Pids m s) (hlive : (s.proc_table i).live = true) (exit_code : UInt32) :
    Gone (proc_wake_vfork_parent (s.setSlot i ((s.proc_table i).setExit exit_code)) i) (s.proc_table i).pid := by
  intro j hj
  have hwake := woken_wake (s.setSlot i ((s.proc_table i).setExit exit_code)) i j
  have hpid : ((s.setSlot i ((s.proc_table i).setExit exit_code)).proc_table j).pid = (s.proc_table j).pid := by
    rw [setSlot_apply]
    split
    · rename_i hji
      rw [hji]
      rfl
    · rfl
  have hij : i = j := by
    refine hpids.inj i j (hpids.used i (live_iff.mp hlive).1) ?_
    rw [← hj, hwake.pid, hpid]
  subst hij
  rw [setSlot_self] at hwake
  rcases hwake.state with hst | ⟨hblocked, -⟩
  · unfold Process.live isFreeSlot
    rw [hst]
    rfl
  · cases hblocked

theorem gone_exitAndSchedule {exit_code : UInt32} (hpids : Pids m s) (hlive : CurrentLive s)
    (hcur : s.current_proc = some i) (hpid : (s.proc_table i).pid = pid) (regs esp : UInt32) :
    Gone (exitAndSchedule s exit_code regs esp) pid := by
  have hexit : Move (fun _ => True) 0 s (proc_exit s exit_code) := .exit exit_code hlive
  have hgone : Gone (proc_exit s exit_code) pid := by
    have hend := gone_end hpids (hlive i hcur) exit_code
    rw [hpid] at hend
    unfold proc_exit
    rw [hcur]
    exact hend
  have hlt : pid < (proc_exit s exit_code).next_pid := by
    have hbefore := hpids.lt i
    rw [hpid] at hbefore
    refine Pids.lt_next (k := 0) (m := m) ?_ hexit hbefore
    rwa [Nat.zero_add]
  unfold exitAndSchedule
  dsimp only
  split
  · exact hgone
  obtain ⟨n, hn, hpath⟩ : Moves (fun _ => True) 0 (proc_exit s exit_code)
      (proc_schedule (proc_exit s exit_code) regs false esp).2 :=
    moves_schedule (fun _ _ _ _ _ => trivial) regs false
  obtain rfl : n = 0 := by omega
  have hstart : Pids (0 + m) s := by rwa [Nat.zero_add]
  refine (hpath.keeps (J := fun m u => Pids m u ∧ Gone u pid ∧ pid < u.next_pid) ?_ m
    ⟨(Nat.zero_add m).symm ▸ hstart.move hexit, hgone, hlt⟩).2.1
  rintro k l u v huv ⟨hp, hg, hl⟩
  exact ⟨hp.move huv, hg.move huv hl, hp.lt_next huv hl⟩

theorem kill_ok {force : Bool} (hok : (proc_kill s pid force).1 = .OK) :
    (∃ i, s.current_proc = some i ∧ (s.proc_table i).pid = pid ∧ (proc_kill s pid force).2 = s.setRequest pid) ∨
      ∃ i, (s.proc_table i).pid = pid ∧ (s.proc_table i).live = true ∧ (proc_kill s pid force).2.proc_table =
          (proc_wake_vfork_parent (s.setSlot i ((s.proc_table i).setExit 0)) i).proc_table := by
  unfold proc_kill at hok ⊢
  split at hok
  · cases hok
  rename_i hpid
  rw [if_neg hpid]
  split at hok
  · rename_i hcur
    rw [if_pos hcur]
    split at hok
    · cases hok
    rename_i huser
    rw [if_neg huser]
    simp only [Bool.and_eq_true, decide_eq_true_eq] at hcur
    obtain ⟨i, hi⟩ := Option.isSome_iff_exists.mp hcur.1
    refine .inl ⟨i, hi, ?_, rfl⟩
    rw [← hcur.2, proc_current_pid, hi]
  · rename_i hcur
    rw [if_neg hcur]
    split at hok
    · cases hok
    rename_i i hfind
    have hmatch := findSlot_some hfind
    simp only [Bool.and_eq_true, decide_eq_true_eq] at hmatch
    split at hok
    · cases hok
    rename_i hexit
    split at hok
    · cases hok
    rename_i hkernel
    rw [if_neg hexit, if_neg hkernel]
    exact .inr ⟨i, hmatch.2, live_iff.mpr ⟨hmatch.1, hexit⟩, rfl⟩

/-- An operation works with the request it finds, records one for the current process, or carries it out. -/
theorem requestOf_cases (s : ProcSys) (op : Op) :
    requestOf s op = s.kill_requested_pid ∨ (SetsRequest s op ∧ requestOf s op = proc_current_pid s) ∨
      ∃ regs esp, op = .handleKill regs esp ∧ killFires s = true := by
  cases op with
  | kill pid force =>
    by_cases hcond : (decide (pid ≠ 0) && s.current_proc.isSome && decide (proc_current_pid s = pid) &&
        (proc_current_is_user s || force)) = true
    · have hreq : requestOf s (.kill pid force) = pid := if_pos hcond
      simp only [Bool.and_eq_true, decide_eq_true_eq] at hcond
      obtain ⟨⟨⟨hpid, hsome⟩, hcur⟩, huser⟩ := hcond
      exact .inr (.inl ⟨⟨hpid, hsome, hcur, huser⟩, hreq.trans hcur.symm⟩)
    · exact .inl (if_neg hcond)
  | requestKill =>
    by_cases hsome : s.current_proc.isSome = true
    · exact .inr (.inl ⟨hsome, if_pos hsome⟩)
    · exact .inl (if_neg hsome)
  | handleKill regs esp =>
    by_cases hfires : killFires s = true
    · exact .inr (.inr ⟨regs, esp, rfl, hfires⟩)
    · exact .inl (if_neg hfires)
  | _ => exact .inl rfl

theorem step_setsRequest (h : SetsRequest s op) : step s op = s.setRequest (proc_current_pid s) := by
  cases op with
  | kill pid force =>
    obtain ⟨hpid, hsome, hcur, huser⟩ := h
    have hnot : ¬((!proc_current_is_user s && !force) = true) := by
      rw [← Bool.not_or, huser]
      exact Bool.false_ne_true
    show (proc_kill s pid force).2 = _
    unfold proc_kill
    rw [if_neg hpid, if_pos (by simp [hsome, hcur]), if_neg hnot, hcur]
    rfl
  | requestKill =>
    show proc_request_kill s = _
    unfold proc_request_kill
    have hsome : s.current_proc.isSome = true := h
    rw [if_pos hsome]
    rfl
  | _ => exact h.elim

theorem mem_recordKill (h : pid ∈ q.killed) (op : Op) : pid ∈ recordKill q op := by
  unfold recordKill
  split
  · split
    · exact List.mem_cons_of_mem _ h
    · exact h
  · exact h

theorem mem_of_recordKill (h : pid ∈ recordKill q op) :
    pid ∈ q.killed ∨ ∃ force, op = .kill pid force ∧ (proc_kill q.sys pid force).1 = .OK := by
  unfold recordKill at h
  split at h
  · rename_i p force
    split at h
    · rename_i hok
      rcases List.mem_cons.mp h with hpid | hmem
      · subst hpid
        exact .inr ⟨force, rfl, hok⟩
      · exact .inl hmem
    · exact .inl h
  · exact .inl h

theorem not_losesKill_of_noLostKill (q : KillSys) (op : Op) (h : NoLostKill (killStep q op)) : ¬LosesKill q op := by
  rintro ⟨hsets, hne, hmem, hlive⟩
  have hstep : (killStep q op).sys = q.sys.setRequest (proc_current_pid q.sys) := step_setsRequest hsets
  rcases h _ (mem_recordKill hmem op) with hgone | hreq
  · rw [hstep] at hgone
    exact hlive hgone
  · rw [hstep] at hreq
    exact hne hreq

/-- The invariant of a run, with the pids that are still to be given out. -/
structure KillInv (q : KillSys) (ops : List Op) : Prop where
  inv : Inv q.sys
  pids : Pids (creations q.sys ops) q.sys
  given : ∀ pid ∈ q.killed, pid < q.sys.next_pid
  safe : NoLostKill q

theorem settled_step {ops : List Op} (h : KillInv q (op :: ops)) (hkeep : ¬LosesKill q op) (hmem : pid ∈ q.killed) :
    Gone (step q.sys op) pid ∨ (step q.sys op).kill_requested_pid = pid := by
  have hkeeps : Gone q.sys pid ∨ requestOf q.sys op = pid →
      Gone (step q.sys op) pid ∨ (step q.sys op).kill_requested_pid = pid := by
    intro hstart
    have hsettled : Settled pid (requestOf q.sys op) (q.sys.setRequest (requestOf q.sys op)) :=
      ⟨h.given pid hmem, rfl, hstart⟩
    obtain ⟨-, -, hreq, hend⟩ := step_keeps (K := Settled pid (requestOf q.sys op))
      (fun k m u v huv hp hu => hu.move huv hp) h.inv.currentLive (erasesOk_of_free (fun _ _ => trivial) q.sys op)
      (abortsOk_of_next fun _ _ => trivial) h.pids hsettled
    rw [hreq]
    exact hend
  rcases h.safe pid hmem with hgone | hpending
  · exact hkeeps (.inl hgone)
  rcases requestOf_cases q.sys op with hsame | ⟨hsets, hreq⟩ | ⟨regs, esp, rfl, hfires⟩
  · exact hkeeps (.inr (hsame.trans hpending))
  · -- a new request: it is for the same process, or that process is gone already
    by_cases heq : proc_current_pid q.sys = pid
    · exact hkeeps (.inr (hreq.trans heq))
    · by_cases hgone : Gone q.sys pid
      · exact hkeeps (.inl hgone)
      · exact absurd ⟨hsets, hpending ▸ heq, hpending ▸ hmem, hpending ▸ hgone⟩ hkeep
  · -- the kill is carried out
    have hpids : Pids (creations q.sys (.handleKill regs esp :: ops)) (q.sys.setRequest 0) :=
      ⟨h.pids.used, h.pids.lt, h.pids.inj, h.pids.room⟩
    obtain ⟨i, hi, hpid⟩ : ∃ i, q.sys.current_proc = some i ∧ (q.sys.proc_table i).pid = pid := by
      simp only [killFires, Bool.and_eq_true, decide_eq_true_eq] at hfires
      obtain ⟨i, hi⟩ := Option.isSome_iff_exists.mp hfires.1.2
      refine ⟨i, hi, ?_⟩
      rw [← hpending, ← hfires.2, proc_current_pid, hi]
    refine .inl ?_
    show Gone (proc_handle_kill q.sys regs esp).2 pid
    rw [handle_kill_of_fires hfires]
    exact gone_exitAndSchedule hpids h.inv.currentLive hi hpid regs esp

theorem killInv_step (q : KillSys) (op : Op) (ops : List Op) (h : KillInv q (op :: ops))
    (hok : ¬ReleasesCurrent q.sys op ∧ ¬LosesKill q op) : KillInv (killStep q op) ops := by
  obtain ⟨hpids, hgiven⟩ := step_keeps (K := fun u => ∀ pid, pid < q.sys.next_pid → pid < u.next_pid)
    (fun k m u v huv hp hu pid hpid => hp.lt_next huv (hu pid hpid)) h.inv.currentLive
    (erasesOk_of_free (fun _ _ => trivial) q.sys op) (abortsOk_of_next fun _ _ => trivial) h.pids (fun pid hpid => hpid)
  have hbudget : Budget q.sys (op :: ops) := ⟨h.inv, h.pids⟩
  refine ⟨(budget_step q.sys op ops hbudget hok.1).1, hpids, fun pid hmem => hgiven pid ?_, fun pid hmem => ?_⟩
  · rcases mem_of_recordKill hmem with hold | ⟨force, rfl, hkill⟩
    · exact h.given pid hold
    · rcases kill_ok hkill with ⟨i, -, rfl, -⟩ | ⟨i, rfl, -⟩ <;> exact h.pids.lt i
  · rcases mem_of_recordKill hmem with hold | ⟨force, rfl, hkill⟩
    · exact settled_step h hok.2 hold
    · rcases kill_ok hkill with ⟨i, -, -, hreq⟩ | ⟨i, rfl, hlive, htable⟩
      · refine .inr ?_
        show (proc_kill q.sys pid force).2.kill_requested_pid = pid
        rw [hreq]
        rfl
      · refine .inl fun j hj => ?_
        change ((proc_kill q.sys _ force).2.proc_table j).pid = _ at hj
        show ((proc_kill q.sys _ force).2.proc_table j).live = false
        rw [htable] at hj ⊢
        exact gone_end h.pids hlive 0 j hj

/-- In a run with fewer than `2 ^ 32 - 1` creations and no failing start of the current process, no kill is lost exactly
when no pending kill of a live process is overwritten. -/
theorem no_lost_kill_throughout_iff (ops : List Op) (hbound : creations proc_init ops < 2 ^ 32 - 1)
    (hrel : EachStep killStep (fun q op => ¬ReleasesCurrent q.sys op) KillSys.init ops) :
    Throughout killStep NoLostKill KillSys.init ops ↔
      EachStep killStep (fun q op => ¬LosesKill q op) KillSys.init ops := by
  constructor
  · exact eachStep_of_throughout not_losesKill_of_noLostKill
  intro hkeep
  have hstart : KillInv KillSys.init ops :=
    ⟨inv_proc_init, pids_proc_init hbound, fun pid hmem => (by cases hmem), fun pid hmem => (by cases hmem)⟩
  exact throughout_of_inv killInv_step (fun _ _ h => h.safe) hstart (hrel.and hkeep)

/-- A process kills itself, and the next interrupt carries the kill out. -/
def selfKill : List Op := [.create none 0x100 grantedEnv, .kill 1 false, .handleKill 0 0]

theorem no_lost_kill_selfKill : Throughout killStep NoLostKill KillSys.init selfKill := by
  refine (no_lost_kill_throughout_iff selfKill (by decide +kernel) ⟨id, id, id, trivial⟩).mpr ⟨?_, ?_, ?_, trivial⟩
  · exact fun h => h.1
  · rintro ⟨-, -, hmem, -⟩
    cases hmem
  · exact fun h => h.1

/-- The process 1 is killed while it has the CPU and loses it before the kill is carried out; then 2 is killed in the
same way. -/
def twoKills : List Op :=
  [.create none 0x100 grantedEnv, .spawn none 0x100 grantedEnv, .kill 1 false, .schedule 0x5000 true 0, .kill 2 false]

/-- A second request replaces the first, whose process goes on. -/
theorem second_kill_loses_first : creations proc_init twoKills < 2 ^ 32 - 1 ∧
      EachStep killStep (fun q op => ¬ReleasesCurrent q.sys op) KillSys.init twoKills ∧
      ¬Throughout killStep NoLostKill KillSys.init twoKills := by
  refine ⟨by decide +kernel, ⟨id, id, id, id, id, trivial⟩, fun h => ?_⟩
  obtain ⟨-, -, -, -, -, hend⟩ := h
  have hkilled : (1 : UInt32) ∈ (exec killStep KillSys.init twoKills).killed := by decide +kernel
  rcases hend 1 hkilled with hgone | hreq
  · have hlive : ((exec killStep KillSys.init twoKills).sys.proc_table 0).live = true := by decide +kernel
    have hpid : ((exec killStep KillSys.init twoKills).sys.proc_table 0).pid = 1 := by decide +kernel
    exact absurd ((hgone 0 hpid).symm.trans hlive) Bool.false_ne_true
  · have hother : (exec killStep KillSys.init twoKills).sys.kill_requested_pid = 2 := by decide +kernel
    exact absurd (hreq.symm.trans hother) (by decide)

end Orion.Proc
