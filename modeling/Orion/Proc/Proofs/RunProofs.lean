import Orion.Proc.Proofs.PidProofs

/-!
# Consistency of the process table over whole runs

Every move keeps the invariant `Inv`, except the release of the current process. With fewer than `2 ^ 32 - 1` creations
the counter `next_pid` never wraps.
-/

namespace Orion.Proc

open ProcSys Lib

variable {ok : Process → Prop} {s t : ProcSys} {k : ℕ} {i : Slot} {p : Process}

/-- Only the current process is running, and it is the one at `current_index`. -/
structure Inv (s : ProcSys) : Prop where
  current : ∀ i, s.current_proc = some i → s.current_index = i.val ∧ (s.proc_table i).state = .RUNNING
  running : ∀ i, (s.proc_table i).state = .RUNNING → s.current_proc = some i

theorem Inv.currentLive (h : Inv s) : CurrentLive s := by
  intro i hi
  simp [live_iff, (h.current i hi).2]

theorem Inv.consistent {m : ℕ} (h : Inv s) (hpids : Pids m s) : Consistent s := by
  refine ⟨fun i hi => ?_, fun i j hi hj => ?_, hpids.used, fun i j hi _ => hpids.inj i j (hpids.used i hi)⟩
  · obtain ⟨hindex, hrun⟩ := h.current i hi
    exact ⟨hindex, hrun, hpids.used i (by simp [hrun])⟩
  · exact Option.some.inj ((h.running i hi).symm.trans (h.running j hj))

theorem Inv.congr (h : Inv s) (hst : ∀ j, (t.proc_table j).state = .RUNNING ↔ (s.proc_table j).state = .RUNNING)
    (hcur : t.current_proc = s.current_proc) (hindex : t.current_index = s.current_index) : Inv t := by
  refine ⟨fun i hi => ?_, fun i hi => ?_⟩
  · rw [hcur] at hi
    rw [hindex, hst]
    exact h.current i hi
  · rw [hcur]
    exact h.running i ((hst i).mp hi)

theorem Inv.setSlot (h : Inv s) (hi : (s.proc_table i).state ≠ .RUNNING)
    (hp : p.state ≠ .RUNNING) : Inv (s.setSlot i p) := by
  refine h.congr (fun j => ?_) rfl rfl
  rw [setSlot_apply]
  split
  · rename_i hji
    subst hji
    simp [hi, hp]
  · rfl

theorem Inv.not_running (h : Inv s) (hi : s.current_proc ≠ some i) : (s.proc_table i).state ≠ .RUNNING :=
  fun hrun => hi (h.running i hrun)

theorem Inv.wake (h : Inv s) (i : Slot) : Inv (proc_wake_vfork_parent s i) := by
  refine h.congr (fun j => ?_) (wake_frame s i).1 (wake_frame s i).2.1
  rcases (woken_wake s i j).state with heq | ⟨hblocked, hready⟩
  · rw [heq]
  · simp [hblocked, hready]

/-- The CPU is idle, whatever `current_proc` says, and slot `i` gets it. -/
theorem inv_runSlot (h : ∀ j, (s.proc_table j).state ≠ .RUNNING) (i : Slot) : Inv (runSlot s i) := by
  refine ⟨fun j hj => ?_, fun j hj => ?_⟩
  · obtain rfl : i = j := Option.some.inj hj
    refine ⟨rfl, ?_⟩
    rw [runSlot, setCurrent_proc_table, setSlot_self]
    rfl
  · by_cases hji : j = i
    · rw [hji]
      rfl
    · rw [runSlot, setCurrent_proc_table, setSlot_of_ne s hji] at hj
      exact absurd hj (h j)

theorem Inv.idle_of_drop {c : Slot} (h : Inv s) (hc : s.current_proc = some c) (hp : p.state ≠ .RUNNING)
    (j : Slot) : ((s.setSlot c p).proc_table j).state ≠ .RUNNING := by
  rw [setSlot_apply]
  split
  · exact hp
  · rename_i hjc
    intro hrun
    exact hjc (Option.some.inj ((h.running j hrun).symm.trans hc))

theorem Inv.move (hmove : Move ok k s t) (hok : ∀ p, ok p → p.state ≠ .RUNNING) (h : Inv s) : Inv t := by
  cases hmove with
  | misc htable hcur hindex => exact h.congr (fun j => by rw [htable]) hcur hindex
  | edit i p hsame =>
    refine h.congr (fun j => ?_) rfl rfl
    rw [setSlot_apply]
    split
    · rename_i hji
      rw [hji, hsame.state]
    · rfl
  | claim i p hfree hok' hpid hst =>
    have hset : Inv (s.setSlot i p) := h.setSlot (hok _ hok') (by rcases hst with hst | hst <;> simp [hst])
    exact hset.congr (fun _ => Iff.rfl) rfl rfl
  | reap i hst hcur hok' => exact h.setSlot (hok _ hok') (fun hr => by cases hr)
  | abort i hlive hparent hok' => exact h.setSlot (hok _ hok') (fun hr => by cases hr)
  | wake i => exact h.wake i
  | exit exit_code hlive =>
    unfold proc_exit
    split
    · exact h
    rename_i i hcur
    -- nobody has the CPU afterwards
    refine ⟨fun j hj => (by cases hj), fun j hj => ?_⟩
    have hidle := h.idle_of_drop (p := (s.proc_table i).setExit exit_code) hcur (fun hr => by cases hr) j
    rcases (woken_wake (s.setSlot i ((s.proc_table i).setExit exit_code)) i j).state with heq | ⟨-, hready⟩
    · exact absurd (heq.symm.trans hj) hidle
    · exact absurd (hready.symm.trans hj) (fun hr => by cases hr)
  | kill i hlive hcur => exact (h.setSlot (h.not_running hcur) (fun hr => by cases hr)).wake i
  | switch i hrun =>
    refine inv_runSlot (fun j => ?_) i
    unfold demoteCurrent
    split
    · rename_i hnone
      exact h.not_running (by simp [hnone])
    · rename_i c hc
      rw [if_pos (h.current c hc).2]
      exact h.idle_of_drop hc (fun hr => by cases hr) j
  | block c j hcur => exact h.setSlot (h.not_running hcur) (fun hr => by cases hr)

/-- The budget of pids: what the rest of the run creates still fits into the counter. -/
def Budget (s : ProcSys) (ops : List Op) : Prop := Inv s ∧ Pids (creations s ops) s

theorem budget_step (s : ProcSys) (op : Op) (ops : List Op) (h : Budget s (op :: ops))
    (hok : ¬ReleasesCurrent s op) : Budget (step s op) ops := by
  have herases : ErasesOk (fun p => p.state ≠ .RUNNING) s op :=
    erasesOk_of_free (fun p hp hrun => by simp [isFreeSlot, hrun] at hp) s op
  have haborts : AbortsOk (fun p => p.state ≠ .RUNNING) s op := by
    cases op with
    | binCreate a make_current => exact fun p _ _ _ hfail hrun => hok (hfail hrun)
    | startBin a => exact fun p _ _ _ hfail hrun => hok (hfail hrun).2
    | startInit env image => exact fun p _ _ _ hfail hrun => hok (hfail hrun).2
    | startBinBackground a | launch a => exact fun p _ _ _ hfail hrun => by cases (hfail hrun).1
    | _ => trivial
  have hinv : Inv (s.setRequest (requestOf s op)) := h.1.congr (fun _ => Iff.rfl) rfl rfl
  exact (step_keeps (K := Inv) (fun _ _ _ _ hmove _ hu => hu.move hmove fun _ hp => hp) h.1.currentLive herases
    haborts h.2 hinv).symm

theorem inv_proc_init : Inv proc_init := ⟨fun i hi => (by cases hi), fun i hi => (by cases hi)⟩

/-- The failing start with an idle CPU: `current_proc` points at the slot just released. -/
theorem bin_create_of_fails {a : StartEnv} (hfail : FailsAsCurrent s a.env a.image) :
    (bin_create_process s a true).1 = none ∧ ¬Consistent (bin_create_process s a true).2 := by
  obtain ⟨hidle, hfree, hgranted, hload⟩ := hfail
  have hok := (initUser_ok s.next_pid 0 a.env).mpr hgranted
  obtain ⟨hnone, -⟩ | ⟨i, p, -, ⟨hinit, -⟩ | ⟨t, -, rfl, ⟨-, heq⟩ | ⟨img, himg, hesp, -⟩⟩⟩ := bin_create_cases s a true
  · exact absurd hnone hfree
  · rw [hinit] at hok
    cases hok
  · rw [heq]
    refine ⟨rfl, fun hcons => ?_⟩
    have hcur : (publish (proc_cleanup s i).bumpPid i p a.path true).current_proc = some i := by
      have hnone : (((proc_cleanup s i).bumpPid).setSlot i (setName (p.setState .READY) a.path)).current_proc = none :=
        hidle
      unfold publish
      dsimp only
      rw [hnone, if_pos (by rfl)]
      rfl
    have hrun := (hcons.current i hcur).2.1
    rw [proc_cleanup, setSlot_self] at hrun
    cases hrun
  · rcases hload with hload | hload
    · rw [himg] at hload
      cases hload
    · exact absurd hload hesp

theorem not_releasesCurrent_of_consistent (s : ProcSys) (op : Op) (hcons : Consistent (step s op)) :
    ¬ReleasesCurrent s op := by
  intro hrel
  cases op with
  | binCreate a make_current =>
    obtain ⟨rfl, hfail⟩ := hrel
    exact (bin_create_of_fails hfail).2 hcons
  | startBin a =>
    obtain ⟨hnone, hbad⟩ := bin_create_of_fails (a := a) hrel
    change Consistent (start_bin s a) at hcons
    unfold start_bin at hcons
    generalize bin_create_process s a true = r at hbad hnone hcons
    obtain ⟨r, s1⟩ := r
    obtain rfl : r = none := hnone
    exact hbad hcons
  | startInit env image =>
    obtain ⟨hnone, hbad⟩ := bin_create_of_fails (a := ⟨some (cstr "/system/core/init.sys"), env, image⟩) hrel
    change Consistent (start_init s env image).2 at hcons
    unfold start_init at hcons
    generalize bin_create_process s _ true = r at hbad hnone hcons
    obtain ⟨r, s1⟩ := r
    obtain rfl : r = none := hnone
    exact hbad hcons
  | _ => exact hrel

/-- In a run with fewer than `2 ^ 32 - 1` creations the process table is always consistent exactly when no program start
fails after it made its process current. -/
theorem consistent_throughout_iff (ops : List Op) (hbound : creations proc_init ops < 2 ^ 32 - 1) :
    Throughout step Consistent proc_init ops ↔ EachStep step (fun s op => ¬ReleasesCurrent s op) proc_init ops := by
  constructor
  · exact eachStep_of_throughout not_releasesCurrent_of_consistent
  · have hstart : Budget proc_init ops := ⟨inv_proc_init, pids_proc_init hbound⟩
    exact throughout_of_inv budget_step (fun _ _ h => h.1.consistent h.2) hstart

/-- What the allocators answer to a creation that succeeds. -/
def grantedEnv : StackEnv where
  page_dir := 0x1000
  page_dir_phys := 0x1000
  kstack := 0x20000
  stack_kern := 0x40000
  stack_mapped := true
  user_esp := 0xBFEFFFC0

/-- A kernel task gets the CPU, then a program start with `make_current` fails to load its image. -/
def failingStartBehindTask : List Op :=
  [.spawnKernel none 0x100 ⟨0x1000, 0x1000, 0x9000⟩, .takeNext,
    .binCreate ⟨none, grantedEnv, none⟩ true]

theorem consistent_failingStartBehindTask : Throughout step Consistent proc_init failingStartBehindTask := by
  refine (consistent_throughout_iff failingStartBehindTask (by decide)).mpr ⟨id, id, ?_, trivial⟩
  rintro ⟨-, hidle, -⟩
  have hcur : (step (step proc_init (.spawnKernel none 0x100 ⟨0x1000, 0x1000, 0x9000⟩))
      .takeNext).current_proc = some 0 := by decide
  rw [hcur] at hidle
  cases hidle

/-- When `init.sys` cannot be loaded, `start_init` releases the slot of the process it made current at boot, and
`current_proc` points at an unused slot. -/
theorem start_init_failure_inconsistent : creations proc_init [.startInit grantedEnv none] < 2 ^ 32 - 1 ∧
      ¬Throughout step Consistent proc_init [.startInit grantedEnv none] := by
  refine ⟨by decide, fun h => ?_⟩
  have hcons : Consistent (step proc_init (.startInit grantedEnv none)) := h.2
  have hcur : (step proc_init (.startInit grantedEnv none)).current_proc = some 0 := by decide
  have hstate : ((step proc_init (.startInit grantedEnv none)).proc_table 0).state = .UNUSED := by
    decide
  have hrun := (hcons.current 0 hcur).2.1
  rw [hstate] at hrun
  cases hrun

/-- Whoever has the pid that `p` had in slot `i` is this process, and does not live if `p` had ended. -/
def SameProcess (i : Slot) (p : Process) (s : ProcSys) : Prop :=
  p.pid < s.next_pid ∧ ∀ j, (s.proc_table j).pid = p.pid →
    j = i ∧ (s.proc_table j).page_dir = p.page_dir ∧ ((s.proc_table j).live = true → p.live = true)

theorem SameProcess.move {m : ℕ} (hmove : Move ok k s t) (hpids : Pids (k + m) s) (hpid : p.pid ≠ 0)
    (h : SameProcess i p s) : SameProcess i p t := by
  obtain ⟨hlt, h⟩ := h
  obtain ⟨new, hslot⟩ := hmove.slot
  constructor
  · have hnext := hpids.next_toNat hmove
    rw [UInt32.lt_iff_toNat_lt] at hlt ⊢
    omega
  intro j hj
  cases hslot j with
  | kept hsame _ hdir _ hst =>
    obtain ⟨hi, hdir', hlive⟩ := h j (hsame ▸ hj)
    refine ⟨hi, hdir.trans hdir', fun hlater => hlive ?_⟩
    rcases hst with hst | ⟨hbefore, -⟩
    · rwa [live_iff, ← hst, ← live_iff]
    · exact hbefore
  | ended hsame hdir _ _ hst =>
    obtain ⟨hi, hdir', -⟩ := h j (hsame ▸ hj)
    exact ⟨hi, hdir.trans hdir', fun hlater => absurd hst (live_iff.mp hlater).2⟩
  | erased _ hzero =>
    rw [hzero] at hj
    exact absurd hj.symm hpid
  | claimed _ _ _ hnext =>
    rw [← hj, hnext] at hlt
    exact absurd hlt (UInt32.lt_irrefl _)

/-- From any state of a run on, processes keep their slots and page directories, and none that ended lives again. -/
theorem identity_throughout (pre ops : List Op) (hbound : creations proc_init (pre ++ ops) < 2 ^ 32 - 1)
    (hok : EachStep step (fun s op => ¬ReleasesCurrent s op) proc_init (pre ++ ops)) (i : Slot)
    (hpid : ((exec step proc_init pre).proc_table i).pid ≠ 0) :
    Throughout step (SameProcess i ((exec step proc_init pre).proc_table i)) (exec step proc_init pre) ops := by
  have hstart : Budget proc_init (pre ++ ops) := ⟨inv_proc_init, pids_proc_init hbound⟩
  clear hbound
  generalize proc_init = s at *
  induction pre generalizing s with
  | cons op pre ih => exact ih (step s op) hok.2 hpid (budget_step s op _ hstart hok.1)
  | nil =>
    refine throughout_of_inv (J := fun u ops => Budget u ops ∧ SameProcess i (s.proc_table i) u) ?_
      (fun _ _ hJ => hJ.2) ⟨hstart, hstart.2.lt i, ?_⟩ hok
    · rintro u op ops ⟨hbudget, hsame⟩ hop
      exact ⟨budget_step u op ops hbudget hop, (step_keeps (K := SameProcess i (s.proc_table i))
        (fun _ _ _ _ huv hpids hu => hu.move huv hpids hpid) hbudget.1.currentLive
        (erasesOk_of_free (fun _ _ => trivial) u op) (abortsOk_of_next fun _ _ => trivial) hbudget.2 hsame).2⟩
    · intro j hj
      obtain rfl := hstart.2.inj j i (hj ▸ hpid) hj
      exact ⟨rfl, rfl, id⟩

theorem identity_exit_reap : let s := exec step proc_init [.create none 0 grantedEnv]
    Throughout step (SameProcess 0 (s.proc_table 0)) s [.exit 7 0 0, .reap 0] :=
  identity_throughout [.create none 0 grantedEnv] [.exit 7 0 0, .reap 0] (by decide +kernel) ⟨id, id, id, trivial⟩ 0
    (by decide +kernel)

end Orion.Proc
