import Mathlib.Data.Bool.AllAny
import Orion.Proc.Wait
import Orion.Proc.Proofs.RunProofs
import Orion.Proc.Proofs.KillProofs

/-!
# Exit codes are delivered

An exited process keeps its pid and its code until its slot is erased. So a code that is no answer of
`SYS_WAIT` is found by the first wait, if the slot is not erased before.
-/

namespace Orion.Proc

open ProcSys Lib List

variable {ok : Process → Prop} {s t : ProcSys} {k m : ℕ} {pid code : UInt32} {i : Slot} {op : Op} {e : UInt32 × UInt32}

/-- The exit code of the process can still be asked for. -/
def Kept (s : ProcSys) (pid code : UInt32) : Prop :=
  ∃ i, (s.proc_table i).state = .EXITED ∧ (s.proc_table i).pid = pid ∧ (s.proc_table i).exit_code = code

theorem Kept.move (hmove : Move ok k s t) (hok : ∀ p, ok p → p.pid ≠ pid) (h : Kept s pid code) : Kept t pid code := by
  obtain ⟨i, hst, hpid, hcode⟩ := h
  obtain ⟨new, hslot⟩ := hmove.slot
  have hdead : (s.proc_table i).live ≠ true := fun hlive => (live_iff.mp hlive).2 hst
  cases hslot i with
  | kept hpid' hcode' _ _ hst' =>
    rcases hst' with heq | ⟨hlive, -⟩
    · exact ⟨i, heq.trans hst, hpid'.trans hpid, hcode'.trans hcode⟩
    · exact absurd hlive hdead
  | ended _ _ _ hlive => exact absurd hlive hdead
  | erased herase => exact absurd hpid (hok _ herase)
  | claimed _ _ herase => exact absurd hpid (hok _ herase)

theorem findSlot_pid (hpids : Pids m s) (hpid : (s.proc_table i).pid ≠ 0) :
    s.findSlot (fun p => p.pid = (s.proc_table i).pid) = some i := by
  cases hfind : s.findSlot (fun p => p.pid = (s.proc_table i).pid) with
  | none =>
    have hnone := find?_eq_none.mp hfind i (mem_finRange i)
    simp at hnone
  | some j =>
    have hj := findSlot_some hfind
    simp only [decide_eq_true_eq] at hj
    rw [hpids.inj i j hpid hj.symm]

theorem Kept.syscall_wait (hpids : Pids m s) (h : Kept s pid code) : syscall_wait s pid = code := by
  obtain ⟨i, hst, rfl, rfl⟩ := h
  have hne : (s.proc_table i).pid ≠ 0 := hpids.used i (by simp [hst])
  have hexited : proc_pid_exited s (s.proc_table i).pid = some (s.proc_table i).exit_code := by
    unfold proc_pid_exited
    rw [if_neg hne, findSlot_pid hpids hne]
    dsimp only
    rw [if_neg (not_not.mpr hst)]
  unfold Proc.syscall_wait
  rw [if_neg hne, hexited]

theorem kept_end (exit_code : UInt32) :
    Kept (proc_wake_vfork_parent (s.setSlot i ((s.proc_table i).setExit exit_code)) i) (s.proc_table i).pid
      exit_code := by
  have hwake := woken_wake (s.setSlot i ((s.proc_table i).setExit exit_code)) i i
  rw [setSlot_self] at hwake
  refine ⟨i, ?_, hwake.pid, hwake.exit_code⟩
  rcases hwake.state with hst | ⟨hblocked, -⟩
  · exact hst
  · cases hblocked

theorem kept_exitAndSchedule {exit_code esp : UInt32} (hcur : s.current_proc.isSome = true)
    (hok : ExitOk ok s exit_code esp) (hpid : ∀ p, ok p → p.pid ≠ proc_current_pid s) (regs : UInt32) :
    Kept (exitAndSchedule s exit_code regs esp) (proc_current_pid s) exit_code := by
  obtain ⟨i, hi⟩ := Option.isSome_iff_exists.mp hcur
  have hexit : Kept (proc_exit s exit_code) (proc_current_pid s) exit_code := by
    have hend := kept_end (s := s) (i := i) exit_code
    unfold proc_exit proc_current_pid
    rw [hi]
    exact hend
  unfold exitAndSchedule
  dsimp only
  split
  · exact hexit
  rename_i hback
  obtain ⟨n, -, hpath⟩ := moves_schedule (hok (Bool.eq_false_of_not_eq_true hback)) regs false
  exact hpath.keeps (J := fun _ u => Kept u (proc_current_pid s) exit_code)
    (fun k m u v huv hu => hu.move huv hpid) 0 hexit

theorem mem_ite_singleton {α : Type} {c : Prop} [Decidable c] {a e : α} (h : e ∈ if c then [a] else []) : c ∧ e = a := by
  split at h
  · rename_i hc
    exact ⟨hc, mem_singleton.mp h⟩
  · cases h

theorem kept_exits (hmem : e ∈ exits s op) (hok : ErasesOk ok s op)
    (hpid : ∀ p, ok p → p.pid ≠ e.1) : Kept (step s op) e.1 e.2 := by
  cases op with
  | exit exit_code regs esp =>
    obtain ⟨hcur, rfl⟩ := mem_ite_singleton hmem
    exact kept_exitAndSchedule hcur hok hpid regs
  | kill pid force =>
    obtain ⟨hcond, rfl⟩ := mem_ite_singleton hmem
    simp only [Bool.and_eq_true, Bool.not_eq_true', decide_eq_true_eq] at hcond
    obtain ⟨hkill, hother⟩ := hcond
    rcases kill_ok hkill with ⟨i, hi, hpid', -⟩ | ⟨i, rfl, -, htable⟩
    · simp [proc_current_pid, hi, hpid'] at hother
    · obtain ⟨j, hj⟩ := kept_end (s := s) (i := i) 0
      rw [← htable] at hj
      exact ⟨j, hj⟩
  | handleKill regs esp =>
    obtain ⟨hfires, rfl⟩ := mem_ite_singleton hmem
    have hcur : (s.setRequest 0).current_proc.isSome = true := by
      simp only [killFires, Bool.and_eq_true] at hfires
      exact hfires.1.2
    show Kept (proc_handle_kill s regs esp).2 _ _
    rw [handle_kill_of_fires hfires]
    exact kept_exitAndSchedule hcur (hok hfires) hpid regs
  | exception int_no cs regs esp =>
    obtain ⟨hfires, rfl⟩ := mem_ite_singleton hmem
    have hcur : s.current_proc.isSome = true := by
      simp only [exceptionFires, Bool.and_eq_true] at hfires
      have huser := hfires.2
      unfold proc_current_is_user at huser
      split at huser
      · cases huser
      · rename_i i hi
        rw [hi]
        rfl
    show Kept (handle_user_exception s int_no cs regs esp).2 _ _
    rw [exception_of_fires hfires]
    exact kept_exitAndSchedule hcur (hok hfires) hpid regs
  | _ => cases hmem

theorem exits_pid (hmem : e ∈ exits s op) : ∃ i, (s.proc_table i).pid = e.1 ∨ e.1 = 0 := by
  have hcurrent : ∃ i, (s.proc_table i).pid = proc_current_pid s ∨ proc_current_pid s = 0 := by
    unfold proc_current_pid
    split
    · exact ⟨0, .inr rfl⟩
    · rename_i i _
      exact ⟨i, .inl rfl⟩
  cases op with
  | exit | handleKill | exception =>
    obtain ⟨-, rfl⟩ := mem_ite_singleton hmem
    exact hcurrent
  | kill pid force =>
    obtain ⟨hcond, rfl⟩ := mem_ite_singleton hmem
    simp only [Bool.and_eq_true, decide_eq_true_eq] at hcond
    rcases kill_ok hcond.1 with ⟨i, -, hpid, -⟩ | ⟨i, hpid, -⟩ <;> exact ⟨i, .inl hpid⟩
  | _ => cases hmem

/-- The invariant of a run: what is owed is kept. -/
structure WaitInv (q : WaitSys) (ops : List WaitOp) : Prop where
  inv : Inv q.sys
  pids : Pids (creations q.sys (tableOps ops)) q.sys
  kept : ∀ e ∈ q.owed, Kept q.sys e.1 e.2
  plain : ∀ e ∈ q.owed, e.2 ≠ WAIT_RUNNING ∧ e.2 ≠ WAIT_NO_SUCH

theorem waitInv_op {q : WaitSys} {ops : List WaitOp} (h : WaitInv q (.op op :: ops))
    (hok : KeepsCodes q (.op op)) : WaitInv (waitStep q (.op op)) ops := by
  obtain ⟨hrel, hplain, herase⟩ := hok
  have hbudget : Budget q.sys (op :: tableOps ops) := ⟨h.inv, h.pids⟩
  have habort : AbortsOk (Unowed (exits q.sys op ++ q.owed)) q.sys op := by
    refine abortsOk_of_next fun p hp e he hpid => ?_
    obtain ⟨i, hi⟩ : ∃ i, (q.sys.proc_table i).pid = e.1 ∨ e.1 = 0 := by
      rcases mem_append.mp he with hnew | hold
      · exact exits_pid hnew
      · obtain ⟨i, -, hi, -⟩ := h.kept e hold
        exact ⟨i, .inl hi⟩
    rcases hi with hi | hzero
    · have hlt := h.pids.lt i
      rw [hi, ← hpid, hp] at hlt
      exact absurd hlt (UInt32.lt_irrefl _)
    · exact h.pids.next_pid_ne_zero (hp.symm.trans (hpid.trans hzero))
  obtain ⟨hpids, hkept⟩ := step_keeps (K := fun u => ∀ e ∈ q.owed, Kept u e.1 e.2)
    (fun k m u v huv _ hu e he => (hu e he).move huv fun p hp => hp e (mem_append_right _ he))
    h.inv.currentLive herase habort h.pids h.kept
  refine ⟨(budget_step q.sys op _ hbudget hrel).1, hpids, fun e he => ?_, fun e he => ?_⟩
  · rcases mem_append.mp he with hnew | hold
    · exact kept_exits hnew herase fun p hp => hp e he
    · exact hkept e hold
  · rcases mem_append.mp he with hnew | hold
    · exact hplain e hnew
    · exact h.plain e hold

theorem waitInv_step (q : WaitSys) (op : WaitOp) (ops : List WaitOp) (h : WaitInv q (op :: ops))
    (hok : KeepsCodes q op) : WaitInv (waitStep q op) ops := by
  cases op with
  | op op => exact waitInv_op h hok
  | wait pid =>
    have hsub : ∀ e ∈ (waitStep q (.wait pid)).owed, e ∈ q.owed := fun e he => (mem_filter.mp he).1
    exact ⟨h.inv, h.pids, fun e he => h.kept e (hsub e he), fun e he => h.plain e (hsub e he)⟩

theorem WaitInv.delivers (q : WaitSys) (op : WaitOp) (ops : List WaitOp) (h : WaitInv q (op :: ops)) : Delivers q op := by
  cases op with
  | op op => trivial
  | wait pid =>
    intro code hmem
    have hwait : syscall_wait q.sys pid = code := (h.kept _ hmem).syscall_wait h.pids
    obtain ⟨hrunning, hnosuch⟩ := h.plain _ hmem
    refine ⟨hwait, hrunning, hnosuch, fun later => ?_⟩
    have hdone : syscall_wait q.sys pid ≠ WAIT_RUNNING := hwait ▸ hrunning
    rw [sys_wait, if_neg hdone, hwait]

/-- In a run with fewer than `2 ^ 32 - 1` creations, in which no slot is erased whose code is owed and no code is an
answer of `SYS_WAIT`, the first wait reports the code. -/
theorem exit_codes_delivered (ops : List WaitOp) (hbound : creations proc_init (tableOps ops) < 2 ^ 32 - 1)
    (hok : EachStep waitStep KeepsCodes ⟨proc_init, []⟩ ops) : EachStep waitStep Delivers ⟨proc_init, []⟩ ops := by
  have hstart : WaitInv ⟨proc_init, []⟩ ops :=
    ⟨inv_proc_init, pids_proc_init hbound, fun e he => (by cases he), fun e he => (by cases he)⟩
  exact eachStep_of_inv waitInv_step (fun q op ops h _ => h.delivers) hstart hok

/-- A process exits with the code 7, and the code is read before the slot is reaped. -/
def waitThenReap : List WaitOp :=
  [.op (.create none 0x100 grantedEnv), .op (.exit 7 0x5000 0x20004), .wait 1, .op (.reap 0)]

theorem exit_codes_waitThenReap : EachStep waitStep Delivers ⟨proc_init, []⟩ waitThenReap := by
  refine exit_codes_delivered waitThenReap (by decide +kernel) ⟨?_, ?_, trivial, ?_, trivial⟩
  · refine ⟨id, fun e he => (by cases he), fun i _ e he => ?_⟩
    cases he
  · refine ⟨id, all_iff_forall_prop.mp (by decide +kernel), fun _ _ i hi _ hstack => ?_⟩
    -- the slot whose code is owed is the only one that has exited, and its stack is in use
    have hzero : ∀ i, ((proc_exit (step proc_init (.create none 0x100 grantedEnv)) 7).proc_table i).state = .EXITED →
        proc_stack_in_use ((proc_exit (step proc_init (.create none 0x100 grantedEnv)) 7).proc_table i) 0x20004 =
          true := by
      decide +kernel
    exact absurd ((hzero i hi).symm.trans hstack) (by decide)
  · refine ⟨id, fun e he => (by cases he), fun i _ _ _ e he => ?_⟩
    have hnone : (waitStep (waitStep (waitStep ⟨proc_init, []⟩ (.op (.create none 0x100 grantedEnv)))
      (.op (.exit 7 0x5000 0x20004))) (.wait 1)).owed = [] := by decide +kernel
    rcases mem_append.mp he with hnew | hold
    · cases hnew
    · rw [hnone] at hold
      cases hold

/-- The slot is reaped first. -/
def reapThenWait : List WaitOp :=
  [.op (.create none 0x100 grantedEnv), .op (.exit 7 0x5000 0x20004), .op (.reap 0), .wait 1]

def exitMinusOne : List WaitOp :=
  [.op (.create none 0x100 grantedEnv), .op (.exit 0xFFFFFFFF 0x5000 0x20004), .wait 1]

/-- After a reap the wait answers `WAIT_NO_SUCH`, and the code `-1` is the answer `WAIT_RUNNING`. -/
theorem exit_codes_lost : ¬EachStep waitStep Delivers ⟨proc_init, []⟩ reapThenWait ∧
      ¬EachStep waitStep Delivers ⟨proc_init, []⟩ exitMinusOne := by
  constructor
  · rintro ⟨-, -, -, hwait, -⟩
    have hcode := (hwait 7 (by decide +kernel)).1
    have hnosuch : syscall_wait (waitStep (waitStep (waitStep ⟨proc_init, []⟩
      (.op (.create none 0x100 grantedEnv))) (.op (.exit 7 0x5000 0x20004))) (.op (.reap 0))).sys 1 =
        WAIT_NO_SUCH := by decide +kernel
    exact absurd (hcode.symm.trans hnosuch) (by decide)
  · rintro ⟨-, -, hwait, -⟩
    exact (hwait 0xFFFFFFFF (by decide +kernel)).2.1 rfl

end Orion.Proc
