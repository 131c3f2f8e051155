import Orion.Proc.Moves

/-!
# Reading the process table

What the assignments of `proc.c` leave alone, and the outcomes of the functions that fill a slot.
-/

namespace Orion.Proc

open ProcSys

section

variable (s : ProcSys)

include s

theorem setSlot_apply (i j : Slot) (p : Process) :
    (s.setSlot i p).proc_table j = if j = i then p else s.proc_table j := by
  simp only [setSlot, Function.update_apply]

@[simp] theorem setSlot_self (i : Slot) (p : Process) : (s.setSlot i p).proc_table i = p := by
  simp [setSlot]

theorem setSlot_of_ne {i j : Slot} (h : j ≠ i) (p : Process) : (s.setSlot i p).proc_table j = s.proc_table j := by
  simp [setSlot_apply, h]

@[simp] theorem setSlot_setSlot (i : Slot) (p q : Process) : (s.setSlot i p).setSlot i q = s.setSlot i q := by
  simp [setSlot]

@[simp] theorem setCurrent_proc_table (c : Option Slot) (k : Int) : (s.setCurrent c k).proc_table = s.proc_table := rfl

@[simp] theorem bumpPid_proc_table : s.bumpPid.proc_table = s.proc_table := rfl

end

section Find

variable {s : ProcSys}

theorem findSlot_some {q : Process → Bool} {i : Slot} (h : s.findSlot q = some i) : q (s.proc_table i) = true := by
  simpa using List.find?_some h

theorem findNextLoop_runnable {i : Slot} {n : Nat} {idx : Int} (hfind : findNextLoop s n idx = some i) :
    proc_is_runnable (s.proc_table i) = true := by
  induction n generalizing idx with
  | zero => cases hfind
  | succ n ih =>
    unfold findNextLoop at hfind
    dsimp only at hfind
    split at hfind
    · rename_i hrun
      obtain rfl := Option.some.inj hfind
      exact (Bool.and_eq_true_iff.mp hrun).1
    · exact ih hfind

theorem isFreeSlot_iff {p : Process} : isFreeSlot p = true ↔ p.state = .UNUSED ∨ p.state = .EXITED := by
  simp [isFreeSlot]

/-- The state after `next_pid++` and the writes to the new slot. -/
def claim (s : ProcSys) (i : Slot) (p : Process) : ProcSys := (s.setSlot i p).bumpPid

/-- `proc_cleanup` of the slot before its new contents are written leaves no trace. -/
theorem cleanup_setSlot (s : ProcSys) (i : Slot) (p : Process) : (proc_cleanup s i).bumpPid.setSlot i p = claim s i p := by
  change ((s.setSlot i Process.zero).setSlot i p).bumpPid = _
  rw [setSlot_setSlot]
  rfl

end Find

section Role

variable {p q r : Process}

theorem SameRole.refl (p : Process) : SameRole p p := ⟨rfl, rfl, rfl, rfl, rfl, rfl⟩

theorem SameRole.trans (h : SameRole p q) (h' : SameRole q r) : SameRole p r :=
  ⟨h.state.trans h'.state, h.pid.trans h'.pid, h.vfork_parent_pid.trans h'.vfork_parent_pid,
    h.exit_code.trans h'.exit_code, h.page_dir.trans h'.page_dir, h.is_kernel.trans h'.is_kernel⟩

theorem SameRole.live (h : SameRole p q) : p.live = q.live := by
  unfold Process.live isFreeSlot
  rw [h.state]

theorem sameRole_setStack (size base kern : UInt32) : SameRole (p.setStack size base kern) p :=
  ⟨rfl, rfl, rfl, rfl, rfl, rfl⟩

theorem sameRole_setImage (base size load : UInt32) : SameRole (p.setImage base size load) p :=
  ⟨rfl, rfl, rfl, rfl, rfl, rfl⟩

theorem sameRole_setEntry (entry : UInt32) : SameRole (p.setEntry entry) p :=
  ⟨rfl, rfl, rfl, rfl, rfl, rfl⟩

theorem sameRole_setContext (esp : UInt32) : SameRole (p.setContext esp) p :=
  ⟨rfl, rfl, rfl, rfl, rfl, rfl⟩

theorem sameRole_setName (name : Option (List UInt8)) : SameRole (setName p name) p := by
  cases name <;> exact ⟨rfl, rfl, rfl, rfl, rfl, rfl⟩

theorem sameRole_init_user_stack (p : Process) (env : StackEnv) : SameRole (proc_init_user_stack p env).2 p := by
  unfold proc_init_user_stack
  split_ifs <;> exact sameRole_setStack _ _ _

theorem sameRole_build_initial_frame (p : Process) (env : StackEnv) : SameRole (build_initial_frame p env).2 p := by
  unfold build_initial_frame
  split
  · exact SameRole.refl p
  · exact sameRole_setContext _

end Role

theorem initUser_role (pid entry : UInt32) (env : StackEnv) (build_frame : Bool) :
    (initUser pid entry env build_frame).2.state = .UNUSED ∧ (initUser pid entry env build_frame).2.pid = pid ∧
      (initUser pid entry env build_frame).2.vfork_parent_pid = 0 ∧
      (initUser pid entry env build_frame).2.is_kernel = false ∧
      ((initUser pid entry env build_frame).1 = true →
        (initUser pid entry env build_frame).2.page_dir = env.page_dir) := by
  unfold initUser proc_init_user_stack build_initial_frame
  dsimp only
  split_ifs <;> refine ⟨rfl, rfl, rfl, rfl, fun h => ?_⟩ <;> first | rfl | cases h

theorem initUser_ok (pid entry : UInt32) (env : StackEnv) : (initUser pid entry env false).1 = true ↔ env.Granted := by
  unfold initUser proc_init_user_stack StackEnv.Granted
  split_ifs <;> simp_all

theorem initFork_role (cur child : Process) (env : ForkEnv) (hst : child.state = .UNUSED) :
    (initFork cur child env).2.pid = child.pid ∧
      (initFork cur child env).2.state = (if (initFork cur child env).1 then .READY else .UNUSED) ∧
      ((initFork cur child env).1 = true → (initFork cur child env).2.vfork_parent_pid = cur.pid) := by
  have hstack : ∀ {p q : Process} {done : Bool}, proc_init_user_stack p env.toStackEnv = (done, q) → SameRole q p := by
    intro p q done heq
    have hrole := sameRole_init_user_stack p env.toStackEnv
    rwa [heq] at hrole
  have hcopy : ∀ p : Process, (forkCopy cur p env).2.pid = p.pid ∧ (forkCopy cur p env).2.state = p.state ∧
      (forkCopy cur p env).2.vfork_parent_pid = p.vfork_parent_pid := by
    intro p
    unfold forkCopy
    dsimp only
    split_ifs
    · exact ⟨rfl, rfl, rfl⟩
    · exact ⟨rfl, rfl, rfl⟩
    all_goals
      split
      all_goals
        rename_i q heq
        have hrole := hstack heq
        exact ⟨hrole.pid, hrole.state, hrole.vfork_parent_pid⟩
  unfold initFork
  dsimp only
  split
  · exact ⟨rfl, hst, fun h => by cases h⟩
  split
  · exact ⟨rfl, hst, fun h => by cases h⟩
  obtain ⟨hpid, hstate, hparent⟩ := hcopy (((forkChild cur child env).setVforkParent cur.pid).setKstack env.kstack)
  generalize forkCopy cur (((forkChild cur child env).setVforkParent cur.pid).setKstack env.kstack) env = r
    at hpid hstate hparent ⊢
  obtain ⟨_ | _, p⟩ := r
  · exact ⟨hpid, hstate.trans hst, fun h => by cases h⟩
  · exact ⟨hpid, rfl, fun _ => hparent⟩

/-- Unless the parent is in the slot of the child itself, it is read as it was, and the child's slot is claimed. -/
theorem forkInto_eq {s : ProcSys} {c i : Slot} (hne : c ≠ i) (env : ForkEnv) : forkInto s c i env =
    (if (initFork (s.proc_table c) (freshSlot s.next_pid) env).1 then some i else none,
      claim s i (initFork (s.proc_table c) (freshSlot s.next_pid) env).2) := by
  have hparent : (s.setSlot i (freshSlot s.next_pid)).bumpPid.proc_table c = s.proc_table c := setSlot_of_ne s hne _
  have hset : ∀ q, (s.setSlot i (freshSlot s.next_pid)).bumpPid.setSlot i q = claim s i q := by
    intro q
    show ((s.setSlot i (freshSlot s.next_pid)).setSlot i q).bumpPid = _
    rw [setSlot_setSlot]
    rfl
  unfold forkInto
  dsimp only
  rw [hparent]
  generalize initFork (s.proc_table c) (freshSlot s.next_pid) env = r
  obtain ⟨_ | _, child⟩ := r
  · exact congrArg (Prod.mk none) (hset child)
  · exact congrArg (Prod.mk (some i)) (hset child)

theorem publish_spec (s : ProcSys) (i : Slot) (p : Process) (name : Option (List UInt8)) (make_current : Bool) :
    (∀ j, j ≠ i → (publish s i p name make_current).proc_table j = s.proc_table j) ∧
      ∃ st, (publish s i p name make_current).proc_table i = setName (p.setState st) name ∧
        (st = .READY ∨ (st = .RUNNING ∧ make_current = true ∧ s.current_proc = none)) := by
  unfold publish
  dsimp only
  split
  · rename_i hidle
    simp only [Bool.and_eq_true, Option.isNone_iff_eq_none] at hidle
    refine ⟨fun j hj => ?_, .RUNNING, ?_, .inr ⟨rfl, hidle⟩⟩
    · rw [runSlot, setCurrent_proc_table, setSlot_of_ne _ hj, setSlot_of_ne _ hj]
    · rw [runSlot, setCurrent_proc_table, setSlot_self, setSlot_self]
      cases name <;> rfl
  · exact ⟨fun j hj => setSlot_of_ne _ hj _, .READY, setSlot_self _ _ _, .inl rfl⟩

/-- A slot whose image is loaded and whose first frame is built. -/
def loaded (p : Process) (img : Image) : Process :=
  (((p.setEntry img.entry).setContext (frameAddr (p.setEntry img.entry))).setImage img.image_base img.image_size
    img.image_load_base).setEntry img.entry

/-- The outcomes of `bin_create_process`: the process becomes current before its image is loaded, and a failure then
only releases its slot. -/
theorem bin_create_cases (s : ProcSys) (a : StartEnv) (make_current : Bool) :
    (s.findSlot isFreeSlot = none ∧ bin_create_process s a make_current = (none, s)) ∨
      ∃ i p, s.findSlot isFreeSlot = some i ∧
        ((initUser s.next_pid 0 a.env false = (false, p) ∧ bin_create_process s a make_current = (none, claim s i p)) ∨
          ∃ t, initUser s.next_pid 0 a.env false = (true, p) ∧
            t = publish (proc_cleanup s i).bumpPid i p a.path make_current ∧
            (((a.image = none ∨ a.env.user_esp = 0) ∧
                bin_create_process s a make_current = (none, proc_cleanup t i)) ∨
              ∃ img, a.image = some img ∧ a.env.user_esp ≠ 0 ∧
                bin_create_process s a make_current = (some i, t.setSlot i (loaded (t.proc_table i) img)))) := by
  unfold bin_create_process proc_create_pending proc_create_common
  rcases hfind : s.findSlot isFreeSlot with _ | i
  · exact .inl ⟨rfl, rfl⟩
  refine .inr ?_
  obtain ⟨-, -, -, huser, -⟩ := initUser_role s.next_pid 0 a.env false
  dsimp only
  generalize initUser s.next_pid 0 a.env false = r at huser ⊢
  obtain ⟨_ | _, p⟩ := r
  · refine ⟨i, p, rfl, .inl ⟨rfl, ?_⟩⟩
    dsimp only
    rw [cleanup_setSlot]
  refine ⟨i, p, rfl, .inr ⟨_, rfl, rfl, ?_⟩⟩
  obtain ⟨-, st, hslot, -⟩ := publish_spec (proc_cleanup s i).bumpPid i p a.path make_current
  dsimp only
  generalize publish (proc_cleanup s i).bumpPid i p a.path make_current = t at hslot ⊢
  have hkernel : (t.proc_table i).is_kernel = false := by
    rw [hslot, (sameRole_setName a.path).is_kernel]
    exact huser
  rcases himg : a.image with _ | img
  · exact .inl ⟨.inl rfl, rfl⟩
  dsimp only
  rw [proc_build_user_frame, hkernel, if_neg Bool.false_ne_true]
  by_cases hesp : a.env.user_esp = 0
  · rw [build_initial_frame, if_pos hesp]
    refine .inl ⟨.inr hesp, ?_⟩
    dsimp only
    rw [proc_cleanup, setSlot_setSlot]
    rfl
  · rw [build_initial_frame, if_neg hesp]
    refine .inr ⟨img, rfl, hesp, ?_⟩
    dsimp only
    rw [setSlot_self, setSlot_setSlot]
    rfl

end Orion.Proc
