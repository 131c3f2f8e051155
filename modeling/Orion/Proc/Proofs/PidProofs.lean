import Orion.Proc.Proofs.MoveProofs

/-!
# What a move does to one slot, and the pids

`Move.slot` says once what a move can do to a single slot. From it follows that pids are never shared as long as the
counter does not wrap.
-/

namespace Orion.Proc

open ProcSys Lib

variable {ok : Process → Prop} {s t : ProcSys} {k m : ℕ} {next : UInt32}
  {p q : Process} {i : Slot} {claimed : Prop} {op : Op}

/-- What one move does to one slot. Only the slot `new` can be claimed, with the pid `next`. -/
inductive SlotMove (ok : Process → Prop) (next : UInt32) (claimed : Prop) (p q : Process) : Prop where
  /-- The process goes on as it is, or stays live. -/
  | kept (hpid : q.pid = p.pid) (hcode : q.exit_code = p.exit_code) (hdir : q.page_dir = p.page_dir)
      (hkernel : q.is_kernel = p.is_kernel) (hst : q.state = p.state ∨ (p.live = true ∧ q.live = true))
  /-- The process ends. -/
  | ended (hpid : q.pid = p.pid) (hdir : q.page_dir = p.page_dir) (hkernel : q.is_kernel = p.is_kernel)
      (hlive : p.live = true) (hst : q.state = .EXITED)
  | erased (hok : ok p) (hzero : q = Process.zero)
  | claimed (hnew : claimed) (hfree : isFreeSlot p = true) (hok : ok p) (hpid : q.pid = next)
      (hst : q.state = .UNUSED ∨ q.state = .READY)

theorem SlotMove.refl (next : UInt32) (claimed : Prop) (p : Process) : SlotMove ok next claimed p p :=
  .kept rfl rfl rfl rfl (.inl rfl)

theorem live_iff : p.live = true ↔ p.state ≠ .UNUSED ∧ p.state ≠ .EXITED := by
  unfold Process.live isFreeSlot
  cases p.state <;> simp

theorem slotMove_setSlot {claimed : Slot → Prop} (h : SlotMove ok next (claimed i) (s.proc_table i) p) (j : Slot) :
    SlotMove ok next (claimed j) (s.proc_table j) ((s.setSlot i p).proc_table j) := by
  rw [setSlot_apply]
  split
  · rename_i hji
    rw [hji]
    exact h
  · exact .refl _ _ _

/-- A woken process stays live; nothing else changes but the child's note of its parent. -/
structure Woken (p q : Process) : Prop where
  pid : q.pid = p.pid
  exit_code : q.exit_code = p.exit_code
  page_dir : q.page_dir = p.page_dir
  is_kernel : q.is_kernel = p.is_kernel
  stack : proc_stack_in_use q = proc_stack_in_use p
  state : q.state = p.state ∨ (p.state = .BLOCKED ∧ q.state = .READY)

theorem Woken.refl (p : Process) : Woken p p := ⟨rfl, rfl, rfl, rfl, rfl, .inl rfl⟩

theorem woken_wakeParent (s : ProcSys) (pid : UInt32) (j : Slot) :
    Woken (s.proc_table j) ((wakeParent s pid).proc_table j) := by
  unfold wakeParent
  split
  · exact .refl _
  split
  · rename_i hblocked
    rw [setSlot_apply]
    split
    · rename_i hji
      subst hji
      exact ⟨rfl, rfl, rfl, rfl, rfl, .inr ⟨hblocked, rfl⟩⟩
    · exact .refl _
  · exact .refl _

theorem woken_wake (s : ProcSys) (i j : Slot) : Woken (s.proc_table j) ((proc_wake_vfork_parent s i).proc_table j) := by
  unfold proc_wake_vfork_parent
  dsimp only
  split
  · exact .refl _
  have hwake := woken_wakeParent (s.setSlot i ((s.proc_table i).setVforkParent 0)) (s.proc_table i).vfork_parent_pid j
  have hslot : ((s.setSlot i ((s.proc_table i).setVforkParent 0)).proc_table j) = s.proc_table j ∨
      ((s.setSlot i ((s.proc_table i).setVforkParent 0)).proc_table j) = (s.proc_table j).setVforkParent 0 := by
    rw [setSlot_apply]
    split
    · rename_i hji
      subst hji
      exact .inr rfl
    · exact .inl rfl
  rcases hslot with heq | heq <;> rw [heq] at hwake
  · exact hwake
  · exact ⟨hwake.pid, hwake.exit_code, hwake.page_dir, hwake.is_kernel, hwake.stack, hwake.state⟩

theorem Woken.slotMove (h : Woken p q) (next : UInt32) (claimed : Prop) : SlotMove ok next claimed p q := by
  refine .kept h.pid h.exit_code h.page_dir h.is_kernel ?_
  rcases h.state with hst | ⟨hblocked, hready⟩
  · exact .inl hst
  · exact .inr ⟨by simp [live_iff, hblocked], by simp [live_iff, hready]⟩

theorem slotMove_end (hlive : (s.proc_table i).live = true) (exit_code : UInt32) (j : Slot) :
    SlotMove ok next claimed (s.proc_table j)
      ((proc_wake_vfork_parent (s.setSlot i ((s.proc_table i).setExit exit_code)) i).proc_table j) := by
  have hwake := woken_wake (s.setSlot i ((s.proc_table i).setExit exit_code)) i j
  rw [setSlot_apply] at hwake
  split at hwake
  · rename_i hji
    subst hji
    rcases hwake.state with hst | ⟨hblocked, -⟩
    · exact .ended hwake.pid hwake.page_dir hwake.is_kernel hlive hst
    · cases hblocked
  · exact hwake.slotMove next claimed

theorem slotMove_switch (hrun : proc_is_runnable (s.proc_table i) = true) (j : Slot) :
    SlotMove ok next claimed (s.proc_table j) ((runSlot (demoteCurrent s) i).proc_table j) := by
  have hdemote : Woken (s.proc_table j) ((demoteCurrent s).proc_table j) ∨
      ((s.proc_table j).state = .RUNNING ∧ (demoteCurrent s).proc_table j = (s.proc_table j).setState .READY) := by
    unfold demoteCurrent
    split
    · exact .inl (.refl _)
    split
    · rename_i c _ hrunning
      rw [setSlot_apply]
      split
      · rename_i hjc
        subst hjc
        exact .inr ⟨hrunning, rfl⟩
      · exact .inl (.refl _)
    · exact .inl (.refl _)
  have hlive : j = i → (s.proc_table j).live = true := by
    rintro rfl
    exact live_of_runnable hrun
  rw [runSlot, setCurrent_proc_table, setSlot_apply]
  split
  · rename_i hji
    subst hji
    rcases hdemote with hwoken | ⟨-, heq⟩
    · exact .kept hwoken.pid hwoken.exit_code hwoken.page_dir hwoken.is_kernel (.inr ⟨hlive rfl, rfl⟩)
    · rw [heq]
      exact .kept rfl rfl rfl rfl (.inr ⟨hlive rfl, rfl⟩)
  · rcases hdemote with hwoken | ⟨hrunning, heq⟩
    · exact hwoken.slotMove next claimed
    · rw [heq]
      exact .kept rfl rfl rfl rfl (.inr ⟨by simp [live_iff, hrunning], rfl⟩)

theorem Move.slot (h : Move ok k s t) :
    ∃ new : Option Slot, ∀ j, SlotMove ok s.next_pid (new = some j ∧ k = 1) (s.proc_table j) (t.proc_table j) := by
  cases h with
  | misc htable =>
    refine ⟨none, fun j => ?_⟩
    rw [htable]
    exact .refl _ _ _
  | edit i p hsame =>
    exact ⟨none, slotMove_setSlot (.kept hsame.pid hsame.exit_code hsame.page_dir hsame.is_kernel (.inl hsame.state))⟩
  | claim i p hfree hok hpid hst =>
    exact ⟨some i, slotMove_setSlot (.claimed ⟨rfl, rfl⟩ hfree hok hpid hst)⟩
  | reap i hst hcur hok => exact ⟨none, slotMove_setSlot (.erased hok rfl)⟩
  | abort i hlive hparent hok => exact ⟨none, slotMove_setSlot (.erased hok rfl)⟩
  | wake i => exact ⟨none, fun j => (woken_wake s i j).slotMove _ _⟩
  | exit exit_code hlive =>
    refine ⟨none, fun j => ?_⟩
    unfold proc_exit
    split
    · exact .refl _ _ _
    · rename_i i hcur
      exact slotMove_end (hlive i hcur) exit_code j
  | kill i hlive hcur => exact ⟨none, fun j => slotMove_end hlive 0 j⟩
  | switch i hrun => exact ⟨none, fun j => slotMove_switch hrun j⟩
  | block c j hcur hc hj hparent => exact ⟨none, slotMove_setSlot (.kept rfl rfl rfl rfl (.inr ⟨hc, rfl⟩))⟩

theorem wake_frame (s : ProcSys) (i : Slot) : (proc_wake_vfork_parent s i).current_proc = s.current_proc ∧
      (proc_wake_vfork_parent s i).current_index = s.current_index ∧
      (proc_wake_vfork_parent s i).next_pid = s.next_pid ∧
      (proc_wake_vfork_parent s i).kill_requested_pid = s.kill_requested_pid := by
  unfold proc_wake_vfork_parent wakeParent
  dsimp only
  split
  · exact ⟨rfl, rfl, rfl, rfl⟩
  split
  · exact ⟨rfl, rfl, rfl, rfl⟩
  · split <;> exact ⟨rfl, rfl, rfl, rfl⟩

theorem Move.next_pid (h : Move ok k s t) : t.next_pid = s.next_pid + UInt32.ofNat k := by
  have hzero : ∀ n : UInt32, n + UInt32.ofNat 0 = n := UInt32.add_zero
  cases h with
  | misc _ _ _ hnext => rw [hnext, hzero]
  | claim => rfl
  | wake i => rw [(wake_frame s i).2.2.1, hzero]
  | exit exit_code =>
    rw [hzero]
    unfold proc_exit
    split
    · rfl
    · exact (wake_frame _ _).2.2.1
  | kill i =>
    rw [hzero]
    exact (wake_frame _ _).2.2.1
  | switch i =>
    rw [hzero]
    show (demoteCurrent s).next_pid = _
    unfold demoteCurrent
    split
    · rfl
    · split <;> rfl
  | edit | reap | abort | block => exact (hzero _).symm

theorem path_next_pid {n : ℕ} (h : Path (Move ok) n s t) : t.next_pid = s.next_pid + UInt32.ofNat n := by
  induction h with
  | nil s => exact (UInt32.add_zero _).symm
  | cons head _ ih => rw [ih, head.next_pid, UInt32.ofNat_add, UInt32.add_assoc]

/-- The pids in the table, when at most `m` more are taken. Slots given back keep their pids, which
`proc_wake_vfork_parent` sees. -/
structure Pids (m : ℕ) (s : ProcSys) : Prop where
  used : ∀ i, (s.proc_table i).state ≠ .UNUSED → (s.proc_table i).pid ≠ 0
  lt : ∀ i, (s.proc_table i).pid < s.next_pid
  inj : ∀ i j, (s.proc_table i).pid ≠ 0 → (s.proc_table i).pid = (s.proc_table j).pid → i = j
  room : s.next_pid.toNat + m < 2 ^ 32

theorem Pids.next_pid_ne_zero (h : Pids m s) : s.next_pid ≠ 0 := by
  intro hzero
  have hlt := h.lt 0
  rw [hzero] at hlt
  exact absurd hlt (UInt32.not_lt_zero)

theorem Pids.next_toNat (h : Pids (k + m) s) (hmove : Move ok k s t) : t.next_pid.toNat = s.next_pid.toNat + k := by
  have hroom := h.room
  rw [hmove.next_pid, UInt32.toNat_add, UInt32.toNat_ofNat']
  omega

theorem SlotMove.pid (h : SlotMove ok next claimed p q) : q.pid = p.pid ∨ q.pid = 0 ∨ (q.pid = next ∧ claimed) := by
  cases h with
  | kept hpid => exact .inl hpid
  | ended hpid => exact .inl hpid
  | erased _ hzero => exact .inr (.inl (by rw [hzero]; rfl))
  | claimed hnew _ _ hpid => exact .inr (.inr ⟨hpid, hnew⟩)

theorem Pids.move (hmove : Move ok k s t) (h : Pids (k + m) s) : Pids m t := by
  obtain ⟨new, hslot⟩ := hmove.slot
  have hnext := h.next_toNat hmove
  have hroom := h.room
  refine ⟨fun i hi => ?_, fun i => ?_, fun i j hi hij => ?_, by omega⟩
  · -- used
    cases hslot i with
    | kept hpid _ _ _ hst =>
      rw [hpid]
      refine h.used i ?_
      rcases hst with hst | ⟨hlive, -⟩
      · rwa [← hst]
      · exact (live_iff.mp hlive).1
    | ended hpid _ _ hlive =>
      rw [hpid]
      exact h.used i (live_iff.mp hlive).1
    | erased _ hzero =>
      rw [hzero] at hi
      exact absurd rfl hi
    | claimed _ _ _ hpid =>
      rw [hpid]
      exact h.next_pid_ne_zero
  · -- lt
    have hlt := h.lt i
    rw [UInt32.lt_iff_toNat_lt] at hlt ⊢
    rcases (hslot i).pid with hpid | hpid | ⟨hpid, -, hk⟩ <;> rw [hpid]
    · omega
    · have hpos := h.next_pid_ne_zero
      rw [ne_eq, ← UInt32.toNat_inj] at hpos
      simp only [UInt32.toNat_zero] at hpos ⊢
      omega
    · omega
  · -- inj: a claimed slot has a pid that no other slot had
    have hold : ∀ l, (t.proc_table l).pid = s.next_pid → (t.proc_table l).pid ≠ (s.proc_table l).pid := by
      intro l hl heq
      have hlt := h.lt l
      rw [← heq, hl] at hlt
      exact absurd hlt (UInt32.lt_irrefl _)
    rcases (hslot i).pid with hpid | hpid | ⟨hpid, hnew, -⟩
    · rcases (hslot j).pid with hpid' | hpid' | ⟨hpid', hnew', -⟩
      · exact h.inj i j (hpid ▸ hi) (by rw [← hpid, hij, hpid'])
      · exact absurd (hij.trans hpid') hi
      · exact absurd hpid (hold i (hij.trans hpid'))
    · exact absurd hpid hi
    · rcases (hslot j).pid with hpid' | hpid' | ⟨hpid', hnew', -⟩
      · exact absurd hpid' (hold j (hij.symm.trans hpid))
      · exact absurd (hij.trans hpid') hi
      · exact Option.some.inj (hnew.symm.trans hnew')

theorem pids_proc_init (hroom : m < 2 ^ 32 - 1) : Pids m proc_init where
  used i hi := absurd rfl hi
  lt i := by decide +revert
  inj i j hi := absurd rfl hi
  room := by
    have hone : proc_init.next_pid.toNat = 1 := rfl
    omega

theorem erasesOk_of_free (hok : ∀ p, isFreeSlot p = true → ok p) (s : ProcSys) (op : Op) : ErasesOk ok s op := by
  have hclaim : ∀ u : ProcSys, ClaimOk ok u := fun u i hi => hok _ (findSlot_some hi)
  have hreap : ∀ (u : ProcSys) esp, ReapOk ok u esp := fun u _ i hi _ _ => hok _ (isFreeSlot_iff.mpr (.inr hi))
  cases op with
  | create | spawn | spawnKernel | binCreate | startBin | startBinBackground | startInit | launch | fork => exact hclaim s
  | spawnThread => exact fun _ => hclaim s
  | startReaper entry env =>
    show StartReaperOk _ s entry env
    unfold StartReaperOk
    split
    · exact fun _ => hclaim s
    refine ⟨hclaim s, ?_⟩
    split
    · trivial
    · exact fun _ => hclaim _
  | exit => exact fun _ _ => hreap _ _
  | handleKill | exception => exact fun _ _ _ => hreap _ _
  | schedule | reapBackground => exact fun _ => hreap _ _
  | idle => exact fun _ _ => hreap _ _
  | reap => exact hreap _ _
  | exec | kill | requestKill | takeNext | fg | setLastRegs => trivial

theorem abortsOk_of_next (h : ∀ p : Process, p.pid = s.next_pid → ok p) : AbortsOk ok s op := by
  cases op with
  | binCreate | startBin | startBinBackground | launch | startInit => exact fun p _ hpid _ _ => h p hpid
  | _ => trivial

/-- What every move keeps, an operation keeps, with the kill request it works with; the pids stay in order. -/
theorem step_keeps {K : ProcSys → Prop} {ops : List Op}
    (hmove : ∀ k m s t, Move ok k s t → Pids (k + m) s → K s → K t) (hlive : CurrentLive s)
    (hok : ErasesOk ok s op) (habort : AbortsOk ok s op) (hpids : Pids (creations s (op :: ops)) s)
    (hK : K (s.setRequest (requestOf s op))) : Pids (creations (step s op) ops) (step s op) ∧ K (step s op) := by
  obtain ⟨n, hn, hpath⟩ := step_moves hlive hok habort
  have hcost : ((step s op).next_pid - s.next_pid).toNat = n := by
    have hnext := path_next_pid hpath
    change (step s op).next_pid = s.next_pid + UInt32.ofNat n at hnext
    rw [hnext, UInt32.add_comm, UInt32.add_sub_cancel, UInt32.toNat_ofNat']
    omega
  rw [creations, hcost] at hpids
  have hpids' : Pids (n + creations (step s op) ops) (s.setRequest (requestOf s op)) :=
    ⟨hpids.used, hpids.lt, hpids.inj, hpids.room⟩
  refine hpath.keeps (J := fun m s => Pids m s ∧ K s) ?_ _ ⟨hpids', hK⟩
  rintro k m u v huv ⟨hp, hk⟩
  exact ⟨hp.move huv, hmove k m u v huv hp hk⟩

end Orion.Proc
