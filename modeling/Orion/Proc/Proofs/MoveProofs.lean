import Orion.Proc.Proofs.TableProofs

/-!
# Every operation is a sequence of moves

One lemma per function says which moves it is made of, given that what it erases may be erased. The result
for all operations is `step_moves`.
-/

namespace Orion.Proc

open ProcSys Lib
open Bool (and_eq_true eq_false_of_not_eq_true)

variable {ok : Process → Prop} {s t : ProcSys} {p : Process} {i : Slot} {esp : UInt32}
  {env : StackEnv} {entry int_no cs : UInt32} {q : Process}

theorem live_of_runnable (h : proc_is_runnable p = true) : p.live = true := by
  unfold proc_is_runnable at h
  unfold Process.live isFreeSlot
  cases hst : p.state <;> simp_all

/-- The slot of a new process. -/
structure Newborn (s : ProcSys) (env : StackEnv) (make_current : Bool) (p : Process) : Prop where
  pid : p.pid = s.next_pid
  vfork_parent_pid : p.vfork_parent_pid = 0
  page_dir : p.page_dir = env.page_dir
  state : p.state = .READY ∨ (p.state = .RUNNING ∧ make_current = true ∧ s.current_proc = none)

theorem Newborn.runnable {make_current : Bool} (h : Newborn s env make_current p) : proc_is_runnable p = true := by
  rcases h.state with hst | ⟨hst, -⟩ <;> simp [proc_is_runnable, hst]

theorem moves_publish (hfree : isFreeSlot (s.proc_table i) = true)
    (hok : ok (s.proc_table i)) (hpid : p.pid = s.next_pid) (name : Option (List UInt8)) (make_current : Bool) :
    Moves ok 1 s (publish (proc_cleanup s i).bumpPid i p name make_current) := by
  have hrole : SameRole (setName (p.setState .READY) name) (p.setState .READY) := sameRole_setName name
  unfold publish
  dsimp only
  rw [cleanup_setSlot]
  generalize setName (p.setState .READY) name = q at hrole ⊢
  have hst : q.state = .READY := hrole.state
  have hclaim : Move ok 1 s (claim s i q) := .claim i q hfree hok (hrole.pid.trans hpid) (Or.inr hst)
  split
  · rename_i hidle
    have hcur : (claim s i q).current_proc = none := by
      simp only [and_eq_true, Option.isNone_iff_eq_none] at hidle
      exact hidle.2
    have hswitch : Move ok 0 (claim s i q) (runSlot (demoteCurrent (claim s i q)) i) := by
      refine .switch i ?_
      have hslot : (claim s i q).proc_table i = q := setSlot_self s i q
      simp [hslot, proc_is_runnable, hst]
    have hdemote : demoteCurrent (claim s i q) = claim s i q := by
      unfold demoteCurrent
      rw [hcur]
    rw [hdemote] at hswitch
    exact (Within.single hclaim).snoc hswitch
  · exact .single hclaim

theorem newborn_publish {build_frame : Bool}
    (hinit : initUser s.next_pid entry env build_frame = (true, p)) (name : Option (List UInt8)) (make_current : Bool) :
    Newborn s env make_current ((publish (proc_cleanup s i).bumpPid i p name make_current).proc_table i) := by
  obtain ⟨-, hpid, hparent, -, hdir⟩ := initUser_role s.next_pid entry env build_frame
  rw [hinit] at hpid hparent hdir
  obtain ⟨-, st, hslot, hst⟩ := publish_spec (proc_cleanup s i).bumpPid i p name make_current
  have hrole : SameRole (setName (p.setState st) name) (p.setState st) := sameRole_setName name
  rw [hslot]
  refine ⟨hrole.pid.trans hpid, hrole.vfork_parent_pid.trans hparent, hrole.page_dir.trans (hdir rfl), ?_⟩
  rw [hrole.state]
  exact hst

theorem moves_create_common (hok : ClaimOk ok s) (name : Option (List UInt8)) (entry : UInt32) (env : StackEnv)
    (make_current build_frame : Bool) :
    Moves ok 1 s (proc_create_common s name entry env make_current build_frame).2 := by
  unfold proc_create_common
  rcases hfind : s.findSlot isFreeSlot with _ | j
  · exact (Within.refl s).mono (by omega)
  have hfree := findSlot_some hfind
  obtain ⟨hst, hpid, -⟩ := initUser_role s.next_pid entry env build_frame
  dsimp only
  generalize initUser s.next_pid entry env build_frame = r at hst hpid ⊢
  obtain ⟨_ | _, p⟩ := r
  · dsimp only
    rw [cleanup_setSlot]
    exact .single (.claim j p hfree (hok j hfind) hpid (Or.inl hst))
  · exact moves_publish hfree (hok j hfind) hpid name make_current

theorem moves_spawn_kernel (hok : ClaimOk ok s) (name : Option (List UInt8)) (entry : UInt32) (env : KernelEnv) :
    Moves ok 1 s (proc_spawn_kernel s name entry env).2 := by
  unfold proc_spawn_kernel proc_create_kernel_common
  rcases hfind : s.findSlot isFreeSlot with _ | j
  · exact (Within.refl s).mono (by omega)
  have hfree := findSlot_some hfind
  dsimp only
  split
  · rw [cleanup_setSlot]
    exact .single (.claim j _ hfree (hok j hfind) rfl (Or.inl rfl))
  · exact moves_publish hfree (hok j hfind) rfl name false

/-- What a switch leaves alone in every slot. -/
structure Unmoved (p q : Process) : Prop where
  pid : p.pid = q.pid
  vfork_parent_pid : p.vfork_parent_pid = q.vfork_parent_pid
  page_dir : p.page_dir = q.page_dir
  live : q.live = true → p.live = true

theorem Unmoved.refl (p : Process) : Unmoved p p := ⟨rfl, rfl, rfl, id⟩

theorem Unmoved.trans {r : Process} (h : Unmoved p q) (h' : Unmoved q r) : Unmoved p r :=
  ⟨h.pid.trans h'.pid, h.vfork_parent_pid.trans h'.vfork_parent_pid, h.page_dir.trans h'.page_dir,
    fun hr => h.live (h'.live hr)⟩

theorem unmoved_setState {st : ProcState} (hst : st = .READY ∨ st = .RUNNING) : Unmoved (p.setState st) p := by
  refine ⟨rfl, rfl, rfl, fun _ => ?_⟩
  rcases hst with rfl | rfl <;> rfl

theorem unmoved_setSlot (h : Unmoved p (s.proc_table i)) (j : Slot) :
    Unmoved ((s.setSlot i p).proc_table j) (s.proc_table j) := by
  rw [setSlot_apply]
  split
  · rename_i hji
    rw [hji]
    exact h
  · exact Unmoved.refl _

theorem unmoved_saveCurrent (regs : UInt32) (save : Bool) (j : Slot) :
    Unmoved ((saveCurrent s regs save).proc_table j) (s.proc_table j) := by
  unfold saveCurrent
  split
  · exact Unmoved.refl _
  · split
    · exact unmoved_setSlot (p := (s.proc_table _).setContext regs) ⟨rfl, rfl, rfl, id⟩ j
    · exact Unmoved.refl _

theorem unmoved_demoteCurrent (j : Slot) : Unmoved ((demoteCurrent s).proc_table j) (s.proc_table j) := by
  unfold demoteCurrent
  split
  · exact Unmoved.refl _
  · split
    · exact unmoved_setSlot (unmoved_setState (Or.inl rfl)) j
    · exact Unmoved.refl _

theorem unmoved_runSlot (i j : Slot) : Unmoved ((runSlot s i).proc_table j) (s.proc_table j) := by
  rw [runSlot, setCurrent_proc_table]
  exact unmoved_setSlot (unmoved_setState (Or.inr rfl)) j

theorem moves_saveCurrent (regs : UInt32) (save : Bool) : Moves ok 0 s (saveCurrent s regs save) := by
  unfold saveCurrent
  split
  · exact .refl s
  · split
    · exact .single (.edit _ _ (sameRole_setContext regs))
    · exact .refl s

theorem saveCurrent_state (regs : UInt32) (save : Bool) (i : Slot) :
    ((saveCurrent s regs save).proc_table i).state = (s.proc_table i).state := by
  unfold saveCurrent
  split
  · rfl
  split
  · rw [setSlot_apply]
    split
    · rename_i hi
      rw [hi]
      rfl
    · rfl
  · rfl

theorem runnable_congr (h : p.state = q.state) : proc_is_runnable p = proc_is_runnable q := by
  unfold proc_is_runnable
  rw [h]

theorem moves_saveAndSwitch (hrun : proc_is_runnable (s.proc_table i) = true) (regs : UInt32)
    (save : Bool) : Moves ok 0 s (runSlot (demoteCurrent (saveCurrent s regs save)) i) := by
  have hmove : Move ok 0 (saveCurrent s regs save) (runSlot (demoteCurrent (saveCurrent s regs save)) i) := by
    refine .switch i ?_
    rw [runnable_congr (saveCurrent_state regs save i)]
    exact hrun
  exact (moves_saveCurrent regs save).snoc hmove

theorem runSlot_demoteCurrent (hcur : s.current_proc = none ∨ s.current_proc = some i) :
    runSlot (demoteCurrent s) i = runSlot s i := by
  unfold demoteCurrent
  rcases hcur with hcur | hcur
  · rw [hcur]
  rw [hcur]
  dsimp only
  split
  · unfold runSlot
    rw [setSlot_self, setSlot_setSlot]
    rfl
  · rfl

theorem moves_make_current (hrun : proc_is_runnable (s.proc_table i) = true) (regs : UInt32) :
    Moves ok 0 s (proc_make_current s i regs).2 := by
  have hswitch : Move ok 0 s (runSlot (demoteCurrent s) i) := .switch i hrun
  unfold proc_make_current
  split
  · rename_i hcur
    rw [runSlot_demoteCurrent (Or.inl hcur)] at hswitch
    exact .single hswitch
  · rename_i c hcur
    split
    · rename_i hci
      subst hci
      rw [runSlot_demoteCurrent (Or.inr hcur)] at hswitch
      exact .single hswitch
    · split
      · exact .refl s
      · exact moves_saveAndSwitch hrun regs _

theorem unmoved_make_current (i j : Slot) (regs : UInt32) :
    Unmoved ((proc_make_current s i regs).2.proc_table j) (s.proc_table j) := by
  unfold proc_make_current
  split
  · exact unmoved_runSlot i j
  split
  · exact unmoved_runSlot i j
  · split
    · exact Unmoved.refl _
    · exact (unmoved_runSlot i j).trans ((unmoved_demoteCurrent j).trans (unmoved_saveCurrent regs _ j))

theorem make_current_runnable (hrun : proc_is_runnable (s.proc_table i) = true) (regs : UInt32) :
    proc_is_runnable ((proc_make_current s i regs).2.proc_table i) = true := by
  have hnew : ∀ q : ProcSys, proc_is_runnable ((runSlot q i).proc_table i) = true := by
    intro q
    rw [runSlot, setCurrent_proc_table, setSlot_self]
    rfl
  unfold proc_make_current
  split
  · exact hnew s
  split
  · exact hnew s
  · split
    · exact hrun
    · exact hnew _

theorem make_current_current (i : Slot) (regs : UInt32) (h : (proc_make_current s i regs).1 = true) :
    (proc_make_current s i regs).2.current_proc = some i := by
  unfold proc_make_current at h ⊢
  split
  · rfl
  split_ifs
  · rfl
  · simp [*] at h
  · rfl

/-- The loop of `proc_reap`, by induction on the slots to be visited, which are still as they were. -/
theorem moves_reapLoop (esp : UInt32) {l : List Slot} (hnodup : l.Nodup)
    (hok : ∀ i ∈ l, (s.proc_table i).state = .EXITED → s.current_proc ≠ some i →
      proc_stack_in_use (s.proc_table i) esp = false → ok (s.proc_table i)) :
    Moves ok 0 s (l.foldl (reapSlot esp) s) := by
  induction l generalizing s with
  | nil => exact .refl s
  | cons i l ih =>
    obtain ⟨hi, hnodup⟩ := List.nodup_cons.mp hnodup
    have hfirst : Moves ok 0 s (reapSlot esp s i) ∧ (reapSlot esp s i).current_proc = s.current_proc ∧
        ∀ j, j ≠ i → (reapSlot esp s i).proc_table j = s.proc_table j := by
      unfold reapSlot
      dsimp only
      split
      · exact ⟨.refl s, rfl, fun _ _ => rfl⟩
      rename_i hst
      split
      · exact ⟨.refl s, rfl, fun _ _ => rfl⟩
      rename_i hcur
      split
      · exact ⟨.refl s, rfl, fun _ _ => rfl⟩
      rename_i huse
      have hst : (s.proc_table i).state = .EXITED := not_not.mp hst
      have hmay := hok i List.mem_cons_self hst hcur (eq_false_of_not_eq_true huse)
      have hpids : ∀ a b, Moves ok 0 s ((s.setReaperPids a b).setSlot i Process.zero) := fun a b =>
        (Within.single (.misc rfl rfl rfl rfl rfl : Move ok 0 s (s.setReaperPids a b))).snoc (.reap i hst hcur hmay)
      exact ⟨hpids _ _, rfl, fun j hj => setSlot_of_ne _ hj _⟩
    obtain ⟨hmoves, hcur, hsame⟩ := hfirst
    refine (hmoves.trans (ih hnodup fun j hj => ?_))
    have hji : j ≠ i := by
      rintro rfl
      exact hi hj
    rw [hsame j hji, hcur]
    exact hok j (List.mem_cons_of_mem i hj)

theorem moves_reap (hok : ReapOk ok s esp) : Moves ok 0 s (proc_reap s esp) :=
  moves_reapLoop esp (List.nodup_finRange _) fun i _ => hok i

theorem moves_reap_background (hok : ReapBackgroundOk ok s esp) : Moves ok 0 s (proc_reap_background s esp) := by
  unfold proc_reap_background
  split
  · exact .refl s
  rename_i hpending
  have hreap := moves_reap (hok (eq_false_of_not_eq_true hpending))
  generalize proc_reap s esp = r at hreap ⊢
  exact hreap.snoc (.misc rfl rfl rfl rfl rfl)

theorem moves_schedule (hok : ScheduleOk ok s esp) (regs : UInt32) (save_current : Bool) :
    Moves ok 0 s (proc_schedule s regs save_current esp).2 := by
  have hreap : Moves ok 0 s (if s.proc_reaper_enabled then s else proc_reap s esp) := by
    split
    · exact .refl s
    · rename_i henabled
      exact moves_reap (hok (eq_false_of_not_eq_true henabled))
  unfold proc_schedule
  generalize (if s.proc_reaper_enabled then s else proc_reap s esp) = r at hreap ⊢
  dsimp only
  split
  · exact hreap
  rename_i next hnext
  split
  · exact hreap
  have hswitch : Moves ok 0 r (runSlot (demoteCurrent (saveCurrent r regs save_current)) next) :=
    moves_saveAndSwitch (findNextLoop_runnable hnext) regs save_current
  generalize runSlot (demoteCurrent (saveCurrent r regs save_current)) next = q at hswitch ⊢
  exact (hreap.trans hswitch).snoc (.misc rfl rfl rfl rfl rfl)

theorem moves_take_next : Moves ok 0 s (proc_take_next s).2 := by
  unfold proc_take_next
  split
  · exact .refl s
  · rename_i next hnext
    exact .single (.switch next (findNextLoop_runnable hnext))

theorem moves_exitAndSchedule {exit_code : UInt32} (hlive : CurrentLive s) (hok : ExitOk ok s exit_code esp)
    (regs : UInt32) : Moves ok 0 s (exitAndSchedule s exit_code regs esp) := by
  have hexit : Moves ok 0 s (proc_exit s exit_code) := .single (.exit exit_code hlive)
  unfold exitAndSchedule
  dsimp only
  split
  · exact hexit
  · rename_i hforeground
    exact hexit.trans (moves_schedule (hok (eq_false_of_not_eq_true hforeground)) regs false)

theorem moves_bin_create (a : StartEnv) (make_current : Bool) (hok : ClaimOk ok s)
    (habort : AbortOk ok s a.env a.image make_current) :
    Moves ok 1 s (bin_create_process s a make_current).2 ∧
      ∀ i, (bin_create_process s a make_current).1 = some i →
        proc_is_runnable ((bin_create_process s a make_current).2.proc_table i) = true := by
  obtain ⟨-, heq⟩ | ⟨i, p, hfind, ⟨hinit, heq⟩ | ⟨t, hinit, rfl, hrest⟩⟩ := bin_create_cases s a make_current
  · rw [heq]
    exact ⟨(Within.refl s).mono (by omega), fun i hi => by cases hi⟩
  all_goals
    have hfree := findSlot_some hfind
    obtain ⟨hst, hpid, -⟩ := initUser_role s.next_pid 0 a.env false
    rw [hinit] at hst hpid
  · rw [heq]
    exact ⟨.single (.claim i p hfree (hok i hfind) hpid (Or.inl hst)), fun i hi => by cases hi⟩
  have hmoves := moves_publish hfree (hok i hfind) hpid a.path make_current
  have hborn := newborn_publish (i := i) hinit a.path make_current
  generalize publish (proc_cleanup s i).bumpPid i p a.path make_current = t at hmoves hborn hrest
  have hlive := live_of_runnable hborn.runnable
  rcases hrest with ⟨hfail, heq⟩ | ⟨img, -, -, heq⟩
  · rw [heq]
    refine ⟨hmoves.snoc (.abort i hlive hborn.vfork_parent_pid ?_), fun i hi => by cases hi⟩
    refine habort _ hlive hborn.pid hborn.page_dir fun hrun => ?_
    rcases hborn.state with hready | ⟨-, hmake, hidle⟩
    · rw [hready] at hrun
      cases hrun
    · refine ⟨hmake, hidle, by simp [hfind], (initUser_ok s.next_pid 0 a.env).mp ?_, hfail⟩
      rw [hinit]
  · rw [heq]
    have hrole : SameRole (loaded (t.proc_table i) img) (t.proc_table i) := ⟨rfl, rfl, rfl, rfl, rfl, rfl⟩
    refine ⟨hmoves.snoc (.edit i _ hrole), fun j hj => ?_⟩
    obtain rfl : i = j := Option.some.inj hj
    rw [setSlot_self, runnable_congr hrole.state]
    exact hborn.runnable

/-! What the four ways to start a program do behind `bin_create_process`. -/

theorem after_start_bin (a : StartEnv) : Moves ok 0 (bin_create_process s a true).2 (start_bin s a) := by
  have hclaim : ClaimOk (fun _ => True) s := fun _ _ => trivial
  have hrun := (moves_bin_create a true hclaim fun _ _ _ _ _ => trivial).2
  unfold start_bin
  generalize bin_create_process s a true = r at hrun ⊢
  obtain ⟨_ | i, t⟩ := r
  · exact .refl t
  have hmake : Moves ok 0 t _ := moves_make_current (hrun i rfl) t.last_irq_regs
  dsimp only at hmake ⊢
  generalize proc_make_current t i t.last_irq_regs = m at hmake ⊢
  obtain ⟨_ | _, u⟩ := m
  · exact hmake.snoc (.misc rfl rfl rfl rfl rfl)
  · exact hmake.snoc (.misc rfl rfl rfl rfl rfl)

theorem after_start_init (env : StackEnv) (image : Option Image) : Moves ok 0
    (bin_create_process s ⟨some (cstr "/system/core/init.sys"), env, image⟩ true).2 (start_init s env image).2 := by
  unfold start_init
  generalize bin_create_process s _ true = r
  obtain ⟨_ | i, t⟩ := r
  · exact .refl t
  · exact .single (.misc rfl rfl rfl rfl rfl)

theorem start_bin_background_eq (s : ProcSys) (a : StartEnv) :
    (start_bin_background s a).2 = (bin_create_process s a false).2 := by
  unfold start_bin_background
  generalize bin_create_process s a false = r
  obtain ⟨_ | i, t⟩ := r <;> rfl

theorem after_launch (a : StartEnv) (background : Bool) :
    Moves ok 0 (bin_create_process s a false).2 (sysmgr_launch_process s a background) := by
  unfold sysmgr_launch_process
  generalize bin_create_process s a false = r
  obtain ⟨_ | i, t⟩ := r
  · exact .refl t
  · cases background
    · exact .single (.misc rfl rfl rfl rfl rfl)
    · exact .refl t

theorem moves_spawn_thread (name : Option (List UInt8)) (entry : UInt32) (env : StackEnv)
    (hok : entry ≠ 0 → ClaimOk ok s) : Moves ok 1 s (sys_spawn_thread s name entry env).2 := by
  unfold sys_spawn_thread
  split
  · exact (Within.refl s).mono (by omega)
  rename_i hentry
  have hmoves := moves_create_common (hok hentry) name entry env true true
  unfold proc_create
  generalize proc_create_common s name entry env true true = r at hmoves ⊢
  obtain ⟨_ | i, t⟩ := r <;> exact hmoves

theorem moves_watchdog (hok : WatchdogOk ok s) (entry : UInt32) (env : KernelEnv) :
    Moves ok 1 s (proc_start_sysmgr_watchdog s entry env).2 := by
  unfold proc_start_sysmgr_watchdog
  split
  · exact (Within.refl s).mono (by omega)
  rename_i hactive
  have hmoves := moves_spawn_kernel (hok (eq_false_of_not_eq_true hactive))
    (some (cstr "orion-sysmon")) entry env
  generalize proc_spawn_kernel s _ entry env = r at hmoves ⊢
  obtain ⟨_ | i, t⟩ := r
  · exact hmoves
  · exact hmoves.snoc (.misc rfl rfl rfl rfl rfl)

theorem moves_start_reaper {env : KernelEnv} (hok : StartReaperOk ok s entry env)
    (entry' : UInt32) (env' : KernelEnv) : Moves ok 2 s (proc_start_reaper s entry env entry' env').2 := by
  unfold StartReaperOk at hok
  unfold proc_start_reaper
  split
  · rename_i hactive
    rw [if_pos hactive] at hok
    exact (moves_watchdog hok entry' env').mono (by omega)
  · rename_i hactive
    rw [if_neg hactive] at hok
    obtain ⟨hclaim, hsecond⟩ := hok
    have hmoves := moves_spawn_kernel hclaim (some (cstr "orion-sysmgr")) entry env
    generalize proc_spawn_kernel s _ entry env = r at hmoves hsecond ⊢
    obtain ⟨_ | i, t⟩ := r
    · exact hmoves.mono (by omega)
    dsimp only at hsecond ⊢
    generalize hu : ({ t with
      proc_reaper_enabled := true, proc_reaper_pid := (t.proc_table i).pid } : ProcSys) = u
    have hmisc : Move ok 0 t u := by
      rw [← hu]
      exact .misc rfl rfl rfl rfl rfl
    have hwatch : WatchdogOk ok u := by
      rw [← hu]
      exact hsecond
    exact (hmoves.snoc hmisc).trans (moves_watchdog hwatch entry' env')

theorem moves_idleTurn (hok : s.current_proc = none → ReapBackgroundOk ok s esp) : Moves ok 0 s (idleTurn s esp) := by
  unfold idleTurn
  split
  · exact .refl s
  rename_i hidle
  have hreap := moves_reap_background (hok (by simpa using hidle))
  generalize proc_reap_background s esp = q at hreap ⊢
  unfold proc_take_next
  rcases hnext : proc_find_next q q.current_index with _ | i
  · exact hreap
  have hswitch : Move ok 0 q (runSlot (demoteCurrent q) i) := .switch i (findNextLoop_runnable hnext)
  refine (hreap.snoc hswitch).trans (moves_make_current ?_ 0)
  rw [runSlot, setCurrent_proc_table, setSlot_self]
  rfl

theorem moves_dispatch_fg (pid : UInt32) : Moves ok 0 s (dispatch_fg s pid) := by
  unfold dispatch_fg
  split
  · exact .refl s
  rename_i i hlookup
  split
  · exact .refl s
  rename_i hnot
  -- `proc_lookup` answers with processes that have not exited, and this one is not blocked
  have hrun : proc_is_runnable (s.proc_table i) = true := by
    unfold proc_lookup at hlookup
    split at hlookup
    · cases hlookup
    have hfree := (Option.filter_eq_some_iff.mp hlookup).2
    unfold isFreeSlot at hfree
    unfold proc_is_runnable
    cases hst : (s.proc_table i).state <;> simp_all
  have hmisc : Moves ok 0 s { s with foreground_pid := pid } := .single (.misc rfl rfl rfl rfl rfl)
  have hmake : Moves ok 0 { s with foreground_pid := pid }
      (proc_make_current { s with foreground_pid := pid } i 0).2 :=
    moves_make_current (s := { s with foreground_pid := pid }) hrun 0
  have hcur := make_current_runnable (s := { s with foreground_pid := pid }) hrun 0
  generalize proc_make_current { s with foreground_pid := pid } i 0 = r at hmake hcur ⊢
  obtain ⟨done, u⟩ := r
  cases done
  · exact hmisc.trans hmake
  · exact (hmisc.trans hmake).trans (moves_make_current hcur 0)

theorem moves_fork (hok : ClaimOk ok s) (hlive : CurrentLive s) (regs : UInt32) (env : ForkEnv) :
    Moves ok 1 s (proc_fork s regs env).2 ∧
      ∀ i, (proc_fork s regs env).1 = some i → ∃ c, s.current_proc = some c ∧ c ≠ i ∧
        ((proc_fork s regs env).2.proc_table i).state = .READY ∧
        ((proc_fork s regs env).2.proc_table i).vfork_parent_pid = (s.proc_table c).pid ∧
        (proc_fork s regs env).2.proc_table c = s.proc_table c := by
  have hnone : Moves ok 1 s s := (Within.refl s).mono (by omega)
  unfold proc_fork
  split
  · exact ⟨hnone, fun i hi => by cases hi⟩
  rename_i c hcur
  split
  · exact ⟨hnone, fun i hi => by cases hi⟩
  split
  · exact ⟨hnone, fun i hi => by cases hi⟩
  rename_i i hfind
  have hfree := findSlot_some hfind
  -- the parent is live and the slot is free
  have hci : c ≠ i := by
    rintro rfl
    have hc := hlive c hcur
    rw [Process.live, hfree] at hc
    cases hc
  rw [forkInto_eq hci]
  obtain ⟨hpid, hst, hpar⟩ := initFork_role (s.proc_table c) (freshSlot s.next_pid) env rfl
  generalize initFork (s.proc_table c) (freshSlot s.next_pid) env = r at hpid hst hpar ⊢
  obtain ⟨_ | _, child⟩ := r
  · exact ⟨.single (.claim i child hfree (hok i hfind) hpid (Or.inl hst)), fun i hi => by cases hi⟩
  · refine ⟨.single (.claim i child hfree (hok i hfind) hpid (Or.inr hst)), fun j hj => ?_⟩
    obtain rfl : i = j := Option.some.inj hj
    have hslot : (claim s i child).proc_table i = child := setSlot_self s i child
    rw [hslot]
    exact ⟨c, hcur, hci, hst, hpar rfl, setSlot_of_ne s hci child⟩

theorem moves_sys_fork (hok : ClaimOk ok s) (hlive : CurrentLive s) (regs : UInt32) (env : ForkEnv) :
    Moves ok 1 s (sys_fork s regs env).2 := by
  obtain ⟨hfork, hchild⟩ := moves_fork hok hlive regs env
  unfold sys_fork
  dsimp only
  generalize proc_fork s regs env = r at hfork hchild ⊢
  obtain ⟨_ | i, t⟩ := r
  · exact hfork
  dsimp only at hchild
  obtain ⟨c, hc, hci, hready, hparent, hsame⟩ := hchild i rfl
  have hmake : Moves ok 0 t (proc_make_current t i regs).2 :=
    moves_make_current (by simp [proc_is_runnable, hready]) regs
  have hframe := fun j => unmoved_make_current (s := t) i j regs
  have hswitched := make_current_current (s := t) i regs
  dsimp only at hmake hframe ⊢
  rw [hc]
  generalize proc_make_current t i regs = m at hmake hframe hswitched ⊢
  obtain ⟨_ | _, u⟩ := m
  · exact hfork.trans hmake
  have hblock : Move ok 0 u (u.setSlot c ((u.proc_table c).setState .BLOCKED)) := by
    refine .block c i ?_ ((hframe c).live ?_) ((hframe i).live ?_) ?_
    · rw [hswitched rfl]
      exact fun heq => hci (Option.some.inj heq).symm
    · rw [hsame]
      exact hlive c hc
    · simp [Process.live, isFreeSlot, hready]
    · rw [(hframe i).vfork_parent_pid, (hframe c).pid, hsame]
      exact hparent
  exact ((hfork.trans hmake).snoc hblock).snoc (.misc rfl rfl rfl rfl rfl)

theorem moves_exec (i : Slot) (img : Image) (env : StackEnv) : Moves ok 0 s (proc_exec s i img env).2 := by
  unfold proc_exec
  dsimp only
  split
  · exact .refl s
  have hstack := (sameRole_init_user_stack ((s.proc_table i).setStack PROC_STACK_SIZE 0 0) env).trans
    (sameRole_setStack _ _ _)
  generalize proc_init_user_stack ((s.proc_table i).setStack PROC_STACK_SIZE 0 0) env = r at hstack ⊢
  obtain ⟨_ | _, p⟩ := r
  · exact .single (.edit i _ ((sameRole_setStack _ _ _).trans hstack))
  have hframe := (sameRole_build_initial_frame ((p.setEntry img.entry).setImage img.image_base img.image_size
    img.image_load_base) env).trans ((sameRole_setImage _ _ _).trans ((sameRole_setEntry _).trans hstack))
  dsimp only
  generalize build_initial_frame ((p.setEntry img.entry).setImage img.image_base img.image_size
    img.image_load_base) env = f at hframe ⊢
  obtain ⟨_ | _, q⟩ := f
  · exact .single (.edit i _ ((sameRole_setEntry _).trans ((sameRole_setImage _ _ _).trans
      ((sameRole_setStack _ _ _).trans hframe))))
  · exact .single (.edit i _ hframe)

theorem moves_sys_exec (image : Option Image) (env : StackEnv) : Moves ok 0 s (sys_exec s image env) := by
  unfold sys_exec
  split
  · rename_i img i _
    split
    · exact .refl s
    have hexec : Moves ok 0 s (proc_exec s i img env).2 := moves_exec i img env
    generalize proc_exec s i img env = r at hexec ⊢
    obtain ⟨_ | _, t⟩ := r
    · exact hexec
    have hwake : Move ok 0 t (proc_wake_vfork_parent t i) := .wake i
    dsimp only
    generalize proc_wake_vfork_parent t i = u at hwake ⊢
    exact (hexec.snoc hwake).snoc (.misc rfl rfl rfl rfl rfl)
  · exact .refl s

theorem moves_kill (pid : UInt32) (force : Bool) :
    Moves ok 0 (s.setRequest (requestOf s (.kill pid force))) (proc_kill s pid force).2 := by
  have hself : (decide (pid ≠ 0) && s.current_proc.isSome && decide (proc_current_pid s = pid) &&
      (proc_current_is_user s || force)) = true → requestOf s (.kill pid force) = pid := fun h => if_pos h
  have hother : (decide (pid ≠ 0) && s.current_proc.isSome && decide (proc_current_pid s = pid) &&
      (proc_current_is_user s || force)) ≠ true → requestOf s (.kill pid force) = s.kill_requested_pid :=
    fun h => if_neg h
  have hkeep : s.setRequest s.kill_requested_pid = s := rfl
  unfold proc_kill
  by_cases hpid : pid = 0
  · rw [if_pos hpid, hother (by simp [hpid]), hkeep]
    exact .refl s
  rw [if_neg hpid]
  by_cases hcur : (s.current_proc.isSome && decide (proc_current_pid s = pid)) = true
  · rw [if_pos hcur]
    simp only [and_eq_true, decide_eq_true_eq] at hcur
    by_cases huser : (proc_current_is_user s || force) = true
    · have hnot : ¬ ((!proc_current_is_user s && !force) = true) := by
        rw [← Bool.not_or, huser]
        exact Bool.false_ne_true
      rw [if_neg hnot, hself (by simp [hpid, hcur, huser])]
      exact .refl _
    · have hyes : (!proc_current_is_user s && !force) = true := by
        rw [← Bool.not_or, eq_false_of_not_eq_true huser]
        rfl
      rw [if_pos hyes, hother (fun h => huser (Bool.and_eq_true_iff.mp h).2), hkeep]
      exact .refl s
  · rw [if_neg hcur, hother ?hno, hkeep]
    case hno =>
      intro hall
      simp only [and_eq_true, decide_eq_true_eq] at hall
      exact hcur (by simp [hall.1.1.2, hall.1.2])
    split
    · exact .refl s
    rename_i i hfind
    have hmatch := findSlot_some hfind
    simp only [and_eq_true, decide_eq_true_eq] at hmatch
    split
    · exact .refl s
    rename_i hexit
    split
    · exact .refl s
    have hlive : (s.proc_table i).live = true := by
      unfold Process.live isFreeSlot
      cases hst : (s.proc_table i).state <;> simp_all
    have hi : s.current_proc ≠ some i := by
      intro hc
      refine hcur ?_
      simp only [and_eq_true, decide_eq_true_eq, proc_current_pid, hc, Option.isSome_some]
      exact ⟨trivial, hmatch.2⟩
    have hkill : Move ok 0 s (proc_wake_vfork_parent (s.setSlot i ((s.proc_table i).setExit 0)) i) :=
      .kill i hlive hi
    dsimp only
    generalize proc_wake_vfork_parent (s.setSlot i ((s.proc_table i).setExit 0)) i = t at hkill ⊢
    exact (Within.single hkill).snoc (.misc rfl rfl rfl rfl rfl)

theorem handle_kill_of_fires (hfires : killFires s = true) (regs esp : UInt32) :
    proc_handle_kill s regs esp = (true, exitAndSchedule (s.setRequest 0) 0 regs esp) := by
  simp only [killFires, and_eq_true, decide_eq_true_eq, ne_eq] at hfires
  obtain ⟨⟨hreq, hsome⟩, hpid⟩ := hfires
  have hnone : s.current_proc.isNone = false := by
    obtain ⟨c, hc⟩ := Option.isSome_iff_exists.mp hsome
    rw [hc]
    rfl
  unfold proc_handle_kill
  rw [if_neg hreq, hnone, if_neg Bool.false_ne_true, if_neg (not_not.mpr hpid)]
  rfl

theorem handle_kill_of_not_fires (hfires : ¬killFires s = true) (regs esp : UInt32) :
    proc_handle_kill s regs esp = (false, s) := by
  unfold proc_handle_kill
  split
  · rfl
  rename_i hreq
  split
  · rfl
  rename_i hsome
  split
  · rfl
  rename_i hpid
  refine absurd ?_ hfires
  simp only [killFires, and_eq_true, decide_eq_true_eq, ne_eq]
  exact ⟨⟨hreq, by simpa [Option.isSome_iff_ne_none] using hsome⟩, not_not.mp hpid⟩

theorem moves_handle_kill {regs : UInt32} (hlive : CurrentLive s)
    (hok : killFires s = true → ExitOk ok (s.setRequest 0) 0 esp) :
    Moves ok 0 (s.setRequest (requestOf s (.handleKill regs esp))) (proc_handle_kill s regs esp).2 := by
  by_cases hfires : killFires s = true
  · have hreq : requestOf s (.handleKill regs esp) = 0 := if_pos hfires
    rw [handle_kill_of_fires hfires, hreq]
    exact moves_exitAndSchedule (s := s.setRequest 0) hlive (hok hfires) regs
  · have hreq : requestOf s (.handleKill regs esp) = s.kill_requested_pid := if_neg hfires
    rw [handle_kill_of_not_fires hfires, hreq]
    exact .refl s

theorem exception_of_fires (hfires : exceptionFires s int_no cs = true) (regs esp : UInt32) :
    handle_user_exception s int_no cs regs esp = (true, exitAndSchedule s int_no regs esp) := by
  simp only [exceptionFires, and_eq_true, Bool.not_eq_true', decide_eq_true_eq, decide_eq_false_iff_not] at hfires
  obtain ⟨⟨hint, hcs⟩, huser⟩ := hfires
  unfold handle_user_exception
  rw [if_neg hint, if_neg (not_not.mpr hcs), huser, if_neg (by decide)]

theorem exception_of_not_fires (hfires : ¬exceptionFires s int_no cs = true) (regs esp : UInt32) :
    handle_user_exception s int_no cs regs esp = (false, s) := by
  unfold handle_user_exception
  split
  · rfl
  rename_i hint
  split
  · rfl
  rename_i hcs
  split
  · rfl
  rename_i huser
  refine absurd ?_ hfires
  simp only [exceptionFires, and_eq_true, Bool.not_eq_true', decide_eq_true_eq, decide_eq_false_iff_not]
  exact ⟨⟨hint, not_not.mp hcs⟩, by simpa using huser⟩

theorem moves_exception (hlive : CurrentLive s) (regs : UInt32)
    (hok : exceptionFires s int_no cs = true → ExitOk ok s int_no esp) :
    Moves ok 0 s (handle_user_exception s int_no cs regs esp).2 := by
  by_cases hfires : exceptionFires s int_no cs = true
  · rw [exception_of_fires hfires]
    exact moves_exitAndSchedule hlive (hok hfires) regs
  · rw [exception_of_not_fires hfires]
    exact .refl s

theorem step_moves {op : Op} (hlive : CurrentLive s) (hok : ErasesOk ok s op) (habort : AbortsOk ok s op) :
    Moves ok 2 (s.setRequest (requestOf s op)) (step s op) := by
  cases op with
  | create name entry env => exact (moves_create_common hok name entry env true true).mono (by omega)
  | spawn name entry env => exact (moves_create_common hok name entry env false true).mono (by omega)
  | spawnThread name entry env => exact (moves_spawn_thread name entry env hok).mono (by omega)
  | spawnKernel name entry env => exact (moves_spawn_kernel hok name entry env).mono (by omega)
  | startReaper entry env entry' env' => exact moves_start_reaper hok entry' env'
  | binCreate a make_current => exact (moves_bin_create a make_current hok habort).1.mono (by omega)
  | startBin a => exact ((moves_bin_create a true hok habort).1.trans (after_start_bin a)).mono (by omega)
  | startBinBackground a =>
    show Moves ok 2 s (start_bin_background s a).2
    rw [start_bin_background_eq]
    exact (moves_bin_create a false hok habort).1.mono (by omega)
  | startInit env image =>
    have hmoves := (moves_bin_create ⟨some (cstr "/system/core/init.sys"), env, image⟩ true hok habort).1
    exact (hmoves.trans (after_start_init env image)).mono (by omega)
  | launch a background => exact ((moves_bin_create a false hok habort).1.trans (after_launch a background)).mono (by omega)
  | fork regs env => exact (moves_sys_fork hok hlive regs env).mono (by omega)
  | exec image env => exact (moves_sys_exec image env).mono (by omega)
  | exit exit_code regs esp => exact (moves_exitAndSchedule hlive hok regs).mono (by omega)
  | kill pid force => exact (moves_kill pid force).mono (by omega)
  | requestKill =>
    have hsame : step s .requestKill = s.setRequest (requestOf s .requestKill) := by
      show proc_request_kill s = _
      unfold proc_request_kill requestOf
      split <;> rfl
    rw [hsame]
    exact (Within.refl _).mono (by omega)
  | handleKill regs esp => exact (moves_handle_kill hlive hok).mono (by omega)
  | exception int_no cs regs esp => exact (moves_exception hlive regs hok).mono (by omega)
  | schedule regs save_current esp => exact (moves_schedule hok regs save_current).mono (by omega)
  | takeNext => exact moves_take_next.mono (by omega)
  | idle esp => exact (moves_idleTurn hok).mono (by omega)
  | fg pid => exact (moves_dispatch_fg pid).mono (by omega)
  | reap esp => exact (moves_reap hok).mono (by omega)
  | reapBackground esp => exact (moves_reap_background hok).mono (by omega)
  | setLastRegs regs => exact (Within.single (.misc rfl rfl rfl rfl rfl)).mono (by omega)

end Orion.Proc
