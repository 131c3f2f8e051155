import Orion.Proc.Directory
import Orion.Proc.Proofs.RunProofs

/-!
# The page directory in use is not freed

A slot keeps its directory until it is erased, and a switch leaves a directory in use that its slot names. What an
operation erases are free slots of the state before it; only an exit adds one, that of the process whose stack it runs
on, which `proc_reap` spares.
-/

namespace Orion.Proc

open ProcSys Lib

variable {dir : UInt32} {ok : Process → Prop} {s t : ProcSys} {k m : ℕ}

/-- Some slot has the directory. -/
def Named (dir : UInt32) (s : ProcSys) : Prop := ∃ i, (s.proc_table i).page_dir = dir

theorem Named.move (hmove : Move ok k s t) (hok : ∀ p, ok p → p.page_dir ≠ dir) (h : Named dir s) : Named dir t := by
  obtain ⟨i, hdir⟩ := h
  obtain ⟨new, hslot⟩ := hmove.slot
  cases hslot i with
  | kept _ _ hdir' => exact ⟨i, hdir'.trans hdir⟩
  | ended _ hdir' => exact ⟨i, hdir'.trans hdir⟩
  | erased herase => exact absurd hdir (hok _ herase)
  | claimed _ _ herase => exact absurd hdir (hok _ herase)

/-- The directory has not changed, or it is one that a slot names. -/
def Switched (dir dir' : UInt32) (s : ProcSys) : Prop := dir' = dir ∨ (dir' ≠ 0 ∧ Named dir' s)

theorem Switched.congr {dir' : UInt32} (h : Switched dir dir' s)
    (hdir : ∀ i, (t.proc_table i).page_dir = (s.proc_table i).page_dir) : Switched dir dir' t := by
  rcases h with heq | ⟨hne, i, hi⟩
  · exact .inl heq
  · exact .inr ⟨hne, i, (hdir i).trans hi⟩

theorem Switched.trans {dir' dir'' : UInt32} (h : Switched dir dir' s) (h' : Switched dir' dir'' s) :
    Switched dir dir'' s := by
  rcases h' with rfl | h'
  · exact h
  · exact .inr h'

section

variable (dir s)

theorem switched_set (i : Slot) : Switched dir (paging_set_current_dir dir (s.proc_table i)) s := by
  unfold paging_set_current_dir
  split
  · exact .inl rfl
  · rename_i hset
    simp only [Bool.or_eq_true, decide_eq_true_eq, not_or] at hset
    exact .inr ⟨hset.1, i, rfl⟩

theorem switched_make_current (i : Slot) (regs : UInt32) :
    Switched dir (dirMakeCurrent dir s i regs) (proc_make_current s i regs).2 := by
  unfold dirMakeCurrent
  generalize proc_make_current s i regs = r
  obtain ⟨_ | _, t⟩ := r
  · exact .inl rfl
  · exact switched_set dir t i

theorem switched_schedule (regs : UInt32) (save_current : Bool) (esp : UInt32) :
    Switched dir (dirSchedule dir s regs save_current esp) (proc_schedule s regs save_current esp).2 := by
  unfold dirSchedule
  generalize proc_schedule s regs save_current esp = r
  obtain ⟨_ | _, t⟩ := r
  · exact .inl rfl
  dsimp only
  cases t.current_proc with
  | none => exact .inl rfl
  | some i => exact switched_set dir t i

theorem switched_exit (exit_code regs esp : UInt32) :
    Switched dir (dirExit dir s exit_code regs esp) (exitAndSchedule s exit_code regs esp) := by
  unfold dirExit exitAndSchedule
  dsimp only
  split
  · exact .inl rfl
  · exact switched_schedule dir _ regs false esp

theorem switched_fork (regs : UInt32) (env : ForkEnv) :
    Switched dir (dirAfter dir s (.fork regs env)) (sys_fork s regs env).2 := by
  unfold dirAfter sys_fork
  dsimp only
  generalize proc_fork s regs env = r
  obtain ⟨_ | child, t⟩ := r
  · exact .inl rfl
  have hmake := switched_make_current dir t child regs
  dsimp only at hmake ⊢
  generalize proc_make_current t child regs = r' at hmake ⊢
  obtain ⟨_ | _, u⟩ := r'
  · exact hmake
  rcases s.current_proc with _ | c
  · exact hmake
  -- the parent is blocked in its slot
  have hblock : Unmoved ((u.proc_table c).setState .BLOCKED) (u.proc_table c) := ⟨rfl, rfl, rfl, fun _ => rfl⟩
  exact hmake.congr fun i => (unmoved_setSlot hblock i).page_dir

theorem switched_start_bin (a : StartEnv) : Switched dir (dirAfter dir s (.startBin a)) (start_bin s a) := by
  unfold dirAfter start_bin
  dsimp only
  generalize bin_create_process s a true = r
  obtain ⟨_ | i, t⟩ := r
  · exact .inl rfl
  have hmake := switched_make_current dir t i t.last_irq_regs
  dsimp only at hmake ⊢
  generalize proc_make_current t i t.last_irq_regs = r' at hmake ⊢
  obtain ⟨_ | _, u⟩ := r'
  · exact hmake
  · exact hmake

theorem switched_start_init (env : StackEnv) (image : Option Image) :
    Switched dir (dirAfter dir s (.startInit env image)) (start_init s env image).2 := by
  unfold dirAfter start_init
  dsimp only
  generalize bin_create_process s _ true = r
  obtain ⟨_ | i, t⟩ := r
  · exact .inl rfl
  · exact switched_set dir t i

theorem switched_idle (esp : UInt32) : Switched dir (dirAfter dir s (.idle esp)) (idleTurn s esp) := by
  unfold dirAfter idleTurn
  dsimp only
  split
  · exact .inl rfl
  generalize proc_take_next (proc_reap_background s esp) = r
  obtain ⟨_ | i, t⟩ := r
  · exact .inl rfl
  · exact switched_make_current dir t i 0

theorem switched_fg (pid : UInt32) : Switched dir (dirAfter dir s (.fg pid)) (dispatch_fg s pid) := by
  unfold dirAfter dispatch_fg
  dsimp only
  rcases proc_lookup s pid with _ | i
  · exact .inl rfl
  dsimp only
  split
  · exact .inl rfl
  generalize proc_make_current { s with foreground_pid := pid } i 0 = r
  obtain ⟨_ | _, t⟩ := r
  · exact .inl rfl
  · have hfirst := (switched_set dir t i).congr fun j => (unmoved_make_current (s := t) i j 0).page_dir
    exact hfirst.trans (switched_make_current _ t i 0)

theorem switched_step (op : Op) : Switched dir (dirAfter dir s op) (step s op) := by
  cases op with
  | startBin a => exact switched_start_bin dir s a
  | startInit env image => exact switched_start_init dir s env image
  | fork regs env => exact switched_fork dir s regs env
  | exit exit_code regs esp => exact switched_exit dir s exit_code regs esp
  | handleKill regs esp =>
    show Switched dir _ (proc_handle_kill s regs esp).2
    by_cases hfires : killFires s = true
    · have hdir : dirAfter dir s (.handleKill regs esp) = dirExit dir (s.setRequest 0) 0 regs esp := if_pos hfires
      rw [handle_kill_of_fires hfires, hdir]
      exact switched_exit dir _ 0 regs esp
    · exact .inl (if_neg hfires)
  | exception int_no cs regs esp =>
    show Switched dir _ (handle_user_exception s int_no cs regs esp).2
    by_cases hfires : exceptionFires s int_no cs = true
    · have hdir : dirAfter dir s (.exception int_no cs regs esp) = dirExit dir s int_no regs esp := if_pos hfires
      rw [exception_of_fires hfires, hdir]
      exact switched_exit dir _ int_no regs esp
    · exact .inl (if_neg hfires)
  | schedule regs save_current esp => exact switched_schedule dir s regs save_current esp
  | idle esp => exact switched_idle dir s esp
  | fg pid => exact switched_fg dir s pid
  | _ => exact .inl rfl

end

/-! ## What is erased -/

theorem exit_exited {exit_code : UInt32} {i : Slot} (h : ((proc_exit s exit_code).proc_table i).state = .EXITED) :
    (s.current_proc = some i ∧
        proc_stack_in_use ((proc_exit s exit_code).proc_table i) = proc_stack_in_use (s.proc_table i)) ∨
      ((s.proc_table i).state = .EXITED ∧
        ((proc_exit s exit_code).proc_table i).page_dir = (s.proc_table i).page_dir) := by
  unfold proc_exit at h ⊢
  split at h
  · rename_i hcur
    rw [hcur]
    exact .inr ⟨h, rfl⟩
  rename_i c hcur
  rw [hcur]
  have hwake := woken_wake (s.setSlot c ((s.proc_table c).setExit exit_code)) c i
  by_cases hic : i = c
  · subst hic
    rw [setSlot_self] at hwake
    exact .inl ⟨rfl, hwake.stack⟩
  · rw [setSlot_of_ne _ hic] at hwake
    rcases hwake.state with hst | ⟨-, hready⟩
    · exact .inr ⟨hst.symm.trans h, hwake.page_dir⟩
    · cases hready.symm.trans h

theorem exit_reaper_enabled (s : ProcSys) (exit_code : UInt32) :
    (proc_exit s exit_code).proc_reaper_enabled = s.proc_reaper_enabled := by
  unfold proc_exit
  split
  · rfl
  show (proc_wake_vfork_parent _ _).proc_reaper_enabled = _
  unfold proc_wake_vfork_parent wakeParent
  dsimp only
  split
  · rfl
  split
  · rfl
  split <;> rfl

theorem spawn_kernel_free {name : Option (List UInt8)} {entry : UInt32} {env : KernelEnv} {i j : Slot}
    (h : proc_spawn_kernel s name entry env = (some j, t)) (hfree : isFreeSlot (t.proc_table i) = true) :
    t.proc_table i = s.proc_table i := by
  unfold proc_spawn_kernel proc_create_kernel_common at h
  split at h
  · cases h
  rename_i k hfind
  dsimp only at h
  split at h
  · cases h
  obtain ⟨hj, rfl⟩ := Prod.mk.inj h
  obtain ⟨hother, st, hnew, hst⟩ := publish_spec (proc_cleanup s k).bumpPid k
    (build_kernel_frame (newKernel s.next_pid entry env)) name false
  by_cases hik : i = k
  · -- the new process is ready
    subst hik
    obtain rfl : st = .READY := hst.resolve_right fun hrun => Bool.false_ne_true hrun.2.1
    rw [hnew, isFreeSlot_iff, (sameRole_setName name).state] at hfree
    rcases hfree with hstate | hstate <;> cases hstate
  · rw [hother i hik]
    exact setSlot_of_ne _ hik _

/-- What holds of the free slots before an operation that may clean up holds of all that it erases. -/
theorem erasesOk_of_order {op : Op} (hdir : ∀ p p' : Process, p'.page_dir = p.page_dir → ok p → ok p')
    (hstack : OnOwnStack s op)
    (hfree : MayClean s op → ∀ i, isFreeSlot (s.proc_table i) = true → ok (s.proc_table i)) : ErasesOk ok s op := by
  have hclaim : MayClean s op → ClaimOk ok s := fun hmay i hi => hfree hmay i (findSlot_some hi)
  have hreap : MayClean s op → ∀ esp, ReapOk ok s esp :=
    fun hmay _ i hi _ _ => hfree hmay i (isFreeSlot_iff.mpr (.inr hi))
  have hexit : ∀ (u : ProcSys) exit_code esp, u.proc_table = s.proc_table → u.current_proc = s.current_proc →
      (∀ i, s.current_proc = some i → proc_stack_in_use (s.proc_table i) esp = true) → MayClean s op →
      ReapOk ok (proc_exit u exit_code) esp := by
    intro u exit_code esp htable hcur hown hmay i hi _ hunused
    rcases exit_exited hi with ⟨hself, hsame⟩ | ⟨hold, hpage⟩
    · rw [hsame, htable, hown i (hcur ▸ hself)] at hunused
      cases hunused
    · rw [htable] at hold hpage
      exact hdir _ _ hpage (hfree hmay i (isFreeSlot_iff.mpr (.inr hold)))
  cases op with
  | create | spawn | spawnKernel | binCreate | startBin | startBinBackground | startInit | launch | fork =>
    exact hclaim trivial
  | spawnThread => exact fun _ => hclaim trivial
  | startReaper entry env =>
    show StartReaperOk ok s entry env
    unfold StartReaperOk
    split
    · exact fun _ => hclaim trivial
    refine ⟨hclaim trivial, ?_⟩
    split
    · trivial
    · rename_i j t hspawn
      intro _ i hi
      have hi := findSlot_some hi
      have hsame := spawn_kernel_free hspawn hi
      rw [hsame] at hi ⊢
      exact hfree trivial i hi
  | exit exit_code regs esp =>
    intro hback hoff
    exact hexit s exit_code esp rfl rfl hstack ⟨hback, (exit_reaper_enabled s exit_code).symm.trans hoff⟩
  | handleKill regs esp =>
    intro _ hback hoff
    exact hexit (s.setRequest 0) 0 esp rfl rfl hstack ⟨hback, (exit_reaper_enabled (s.setRequest 0) 0).symm.trans hoff⟩
  | exception int_no cs regs esp =>
    intro _ hback hoff
    exact hexit s int_no esp rfl rfl hstack ⟨hback, (exit_reaper_enabled s int_no).symm.trans hoff⟩
  | schedule => exact fun hoff => hreap hoff _
  | reapBackground => exact fun hpending => hreap hpending _
  | idle => exact fun _ hpending => hreap hpending _
  | reap => exact hreap trivial _
  | exec | kill | requestKill | takeNext | fg | setLastRegs => trivial

section Runs

variable {kernel_dir : UInt32}

/-- The invariant of a run, with the pids that are still to be given out. -/
structure DirInv (kernel_dir : UInt32) (q : DirSys) (ops : List Op) : Prop where
  inv : Inv q.sys
  pids : Pids (creations q.sys ops) q.sys
  inUse : DirInUse kernel_dir q

/-- No operation erases the slot whose directory is in use. -/
theorem erasesOk_of_switchesFirst {q : DirSys} {op : Op} (h : SwitchesFirst kernel_dir q op) :
    ErasesOk (fun p => q.dir = kernel_dir ∨ p.page_dir ≠ q.dir) q.sys op := by
  obtain ⟨-, -, hstack, horder⟩ := h
  refine erasesOk_of_order (fun p p' hpage => ?_) hstack fun hmay i hi => ?_
  · exact Or.imp id fun hne => hpage ▸ hne
  · by_contra hnot
    rw [not_or, not_not] at hnot
    exact horder ⟨hnot.1, i, hi, hnot.2⟩ hmay

theorem dirInUse_keep {q : DirSys} {op : Op} {ops : List Op} (h : DirInv kernel_dir q (op :: ops))
    (hok : SwitchesFirst kernel_dir q op) : DirInUse kernel_dir ⟨step q.sys op, q.dir⟩ := by
  rcases h.inUse with hkernel | ⟨hne, hnamed⟩
  · exact .inl hkernel
  by_cases hkernel : q.dir = kernel_dir
  · exact .inl hkernel
  have hfresh := hok.2.1
  have habort : AbortsOk (fun p => q.dir = kernel_dir ∨ p.page_dir ≠ q.dir) q.sys op := by
    cases op with
    | binCreate | startBin | startBinBackground | launch | startInit => exact fun p _ _ hp _ => .inr (hp ▸ hfresh)
    | _ => trivial
  have hnames := (step_keeps (K := Named q.dir)
    (fun k m u v huv _ hu => hu.move huv fun p hp => hp.resolve_left hkernel)
    h.inv.currentLive (erasesOk_of_switchesFirst hok) habort h.pids hnamed).2
  exact .inr ⟨hne, hnames⟩

theorem dirInv_step (q : DirSys) (op : Op) (ops : List Op) (h : DirInv kernel_dir q (op :: ops))
    (hok : SwitchesFirst kernel_dir q op) : DirInv kernel_dir (dirStep q op) ops := by
  have hbudget : Budget q.sys (op :: ops) := ⟨h.inv, h.pids⟩
  have hpids := (step_keeps (K := fun _ => True) (fun _ _ _ _ _ _ _ => trivial) h.inv.currentLive
    (erasesOk_of_free (fun _ _ => trivial) q.sys op) (abortsOk_of_next fun _ _ => trivial) h.pids trivial).1
  refine ⟨(budget_step q.sys op ops hbudget hok.1).1, hpids, ?_⟩
  have hkeep := dirInUse_keep h hok
  rcases switched_step q.dir q.sys op with hsame | ⟨hne, hnamed⟩
  · show DirInUse kernel_dir ⟨step q.sys op, dirAfter q.dir q.sys op⟩
    rw [hsame]
    exact hkeep
  · exact .inr ⟨hne, hnamed⟩

/-- In a run with fewer than `2 ^ 32 - 1` creations, in which nothing cleans up between an exit and the next switch, the
directory in use is always the kernel's or that of a slot. -/
theorem directory_in_use_throughout (kernel_dir : UInt32) (ops : List Op)
    (hbound : creations proc_init ops < 2 ^ 32 - 1)
    (hok : EachStep dirStep (SwitchesFirst kernel_dir) ⟨proc_init, kernel_dir⟩ ops) :
    Throughout dirStep (DirInUse kernel_dir) ⟨proc_init, kernel_dir⟩ ops := by
  have hstart : DirInv kernel_dir ⟨proc_init, kernel_dir⟩ ops := ⟨inv_proc_init, pids_proc_init hbound, .inl rfl⟩
  exact throughout_of_inv dirInv_step (fun _ _ h => h.inUse) hstart hok

end Runs

def program : StartEnv := ⟨none, grantedEnv, some ⟨0x500000, 0x30000, 0x1000, 0x500000⟩⟩

/-- A program exits in the foreground, and its slot is reaped after the reaper got the CPU. -/
def exitSwitchReap : List Op :=
  [.startReaper 0x100 ⟨0x2000, 0x2000, 0x9000⟩ 0x200 ⟨0x2000, 0x2000, 0xA0000⟩, .startBin program,
    .exit 0 0x5000 0x20004, .schedule 0x5000 false 0x20004, .reap 0]

theorem directory_in_use_exitSwitchReap : Throughout dirStep (DirInUse 0x2000) ⟨proc_init, 0x2000⟩ exitSwitchReap := by
  refine directory_in_use_throughout 0x2000 exitSwitchReap (by decide +kernel) ⟨?_, ?_, ?_, ?_, ?_, trivial⟩
  · exact ⟨id, trivial, trivial, fun hstale => absurd rfl hstale.1⟩
  · have hfresh : program.env.page_dir ≠ 0x2000 := by decide
    refine ⟨?_, hfresh, trivial, fun hstale => absurd rfl hstale.1⟩
    rintro ⟨-, -, -, himage | hstack⟩
    · cases himage
    · exact absurd hstack (by decide)
  · have hown : ∀ i, (exec dirStep ⟨proc_init, 0x2000⟩ (exitSwitchReap.take 2)).sys.current_proc = some i →
        proc_stack_in_use ((exec dirStep ⟨proc_init, 0x2000⟩ (exitSwitchReap.take 2)).sys.proc_table i) 0x20004 =
          true := by
      decide +kernel
    exact ⟨id, trivial, hown, fun _ hmay => absurd hmay.2 (by decide +kernel)⟩
  · -- there is a reaper, so that the switch cleans nothing up
    have hreaper : (exec dirStep ⟨proc_init, 0x2000⟩ (exitSwitchReap.take 3)).sys.proc_reaper_enabled ≠ false := by
      decide +kernel
    exact ⟨id, trivial, trivial, fun _ => hreaper⟩
  · have hkernel : (exec dirStep ⟨proc_init, 0x2000⟩ (exitSwitchReap.take 4)).dir = 0x2000 := by decide +kernel
    exact ⟨id, trivial, trivial, fun hstale => absurd hkernel hstale.1⟩

/-- A program exits in the foreground, and its slot is reaped. -/
def exitReap : List Op := [.startBin program, .exit 0 0x5000 0, .reap 0]

/-- A process exits, and its slot is reaped before the directory is switched. -/
theorem reap_frees_directory_in_use : creations proc_init exitReap < 2 ^ 32 - 1 ∧
      ¬Throughout dirStep (DirInUse 0x2000) ⟨proc_init, 0x2000⟩ exitReap := by
  refine ⟨by decide +kernel, fun h => ?_⟩
  obtain ⟨-, -, -, hend⟩ := h
  have hdir : (exec dirStep ⟨proc_init, 0x2000⟩ exitReap).dir = 0x1000 := by decide +kernel
  have hnone : ∀ i, ((exec dirStep ⟨proc_init, 0x2000⟩ exitReap).sys.proc_table i).page_dir ≠ 0x1000 := by
    decide +kernel
  rcases hend with hkernel | ⟨-, i, hi⟩
  · exact absurd (hkernel.symm.trans hdir) (by decide)
  · exact hnone i (hi.trans hdir)

end Orion.Proc
