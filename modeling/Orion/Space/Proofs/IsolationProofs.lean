import Mathlib.Data.Bool.AllAny
import Orion.Lib.Runs
import Orion.Paging.Proofs.MapProofs
import Orion.Proc.Proofs.TableProofs
import Orion.Space.Isolation

/-!
# Isolation of the address spaces

`Backed`: every entry for user code is a page of the image or of the stack. Nobody holds a buffer that is back in the
heap, and no buffer has two holders. An operation replaces one slot and its directory (`Inv.replace`).
-/

namespace Orion.Space

open Paging Proc Lib List Function

variable {i : Proc.Slot} {d : PageDir} {taken : List UInt32} {p : Process} {dir : DirEnv}

section Directories

variable {phys : UInt32 → UInt32} {m : Mapping} {key : PageKey} {buffer size virt entry : UInt32}

/-- The entry is the page of the buffer that belongs at this place. -/
def Shows (phys : UInt32 → UInt32) (buffer size virt : UInt32) (key : PageKey) (entry : UInt32) : Prop :=
  ∃ k < pageCount size, key = pageKey (pageAt virt k) ∧ entry &&& 0xFFFFF000 = phys (pageAt buffer k) &&& 0xFFFFF000

theorem Shows.inRange (h : Shows phys buffer size virt key entry) : InRange virt size key := by
  obtain ⟨k, hk, hkey, -⟩ := h
  exact ⟨k, hk, hkey⟩

theorem Shows.pageOf (h : Shows phys buffer size virt key entry) : PageOf phys buffer size (entry &&& 0xFFFFF000) := by
  obtain ⟨k, hk, -, hframe⟩ := h
  exact ⟨k, hk, hframe⟩

theorem mapBuffer_userEntry (h : UserEntry (mapBuffer phys size virt buffer m).dir key) :
    Shows phys buffer size virt key ((mapBuffer phys size virt buffer m).dir.pte key.1 key.2) ∨
      (¬InRange virt size key ∧ UserEntry m.dir key ∧
        (mapBuffer phys size virt buffer m).dir.pte key.1 key.2 = m.dir.pte key.1 key.2) := by
  rcases mapPages_userEntry phys h with ⟨k, hk, hkey, hframe⟩ | ⟨hout, hold, hsame⟩
  · exact .inl ⟨k, hk, hkey, hframe⟩
  · refine .inr ⟨?_, hold, hsame⟩
    rintro ⟨k, hk, hkey⟩
    exact hout k hk hkey

/-- Every entry for user code is new and satisfies `Q`, or it was there. -/
def Adds (m m' : Mapping) (Q : PageKey → UInt32 → Prop) : Prop :=
  ∀ {key}, UserEntry m'.dir key →
    Q key (m'.dir.pte key.1 key.2) ∨ (UserEntry m.dir key ∧ m'.dir.pte key.1 key.2 = m.dir.pte key.1 key.2)

theorem adds_guarded (guard : Bool) : Adds m (if guard then m else mapBuffer phys size virt buffer m)
    fun key entry => guard = false ∧ Shows phys buffer size virt key entry := by
  intro key h
  cases guard with
  | true => exact .inr ⟨h, rfl⟩
  | false =>
    rcases mapBuffer_userEntry h with hshows | ⟨-, hold, hsame⟩
    · exact .inl ⟨rfl, hshows⟩
    · exact .inr ⟨hold, hsame⟩

/-- The entry shows a page of the image. -/
def OfImage (phys : UInt32 → UInt32) (p : Process) (key : PageKey) (entry : UInt32) : Prop :=
  p.image_base ≠ 0 ∧ Shows phys p.image_base p.image_size p.image_load_base key entry

def OfStack (phys : UInt32 → UInt32) (p : Process) (key : PageKey) (entry : UInt32) : Prop :=
  p.stack_kern_base ≠ 0 ∧ Shows phys p.stack_kern_base p.stack_size p.stack_base key entry

theorem adds_stack : Adds m (proc_map_user_stack phys p m) (OfStack phys p) := by
  intro key h
  refine (adds_guarded _ h).imp_left fun ⟨hguard, hshows⟩ => ⟨?_, hshows⟩
  simp only [Bool.or_eq_false_iff, decide_eq_false_iff_not] at hguard
  exact hguard.1.2

theorem adds_forked_image : Adds m (mapForkedImage phys p m) (OfImage phys p) := by
  intro key h
  refine (adds_guarded _ h).imp_left fun ⟨hguard, hshows⟩ => ⟨?_, hshows⟩
  simp only [Bool.or_eq_false_iff, decide_eq_false_iff_not] at hguard
  exact hguard.1.1

/-- Every entry for user code is a page of the image or of the stack of the process, in its place. -/
def Backed (phys : UInt32 → UInt32) (d : PageDir) (p : Process) : Prop :=
  ∀ key : PageKey, key.1.val < 768 → UserEntry d key →
    OfImage phys p key (d.pte key.1 key.2) ∨ OfStack phys p key (d.pte key.1 key.2)

variable (kernel : KernelDir) (dir : DirEnv)

theorem backed_create (p : Process) : Backed phys (proc_map_user_stack phys p (newDir kernel dir)).dir p := by
  intro key hkey h
  rcases adds_stack h with hstack | ⟨hold, -⟩
  · exact .inr hstack
  · exact absurd hold (create_user_dir_no_user kernel _ _ hkey)

theorem backed_start (himage : p.image_base ≠ 0) :
    Backed phys (mapBuffer phys p.image_size p.image_load_base p.image_base
      (proc_map_user_stack phys p (newDir kernel dir))).dir p := by
  intro key hkey h
  rcases mapBuffer_userEntry h with hshows | ⟨-, hold, hsame⟩
  · exact .inl ⟨himage, hshows⟩
  · rw [hsame]
    exact backed_create kernel dir p key hkey hold

theorem backed_fork (p : Process) :
    Backed phys (proc_map_user_stack phys p (mapForkedImage phys p (newDir kernel dir))).dir p := by
  intro key hkey h
  rcases adds_stack h with hstack | ⟨hold, hsame⟩
  · exact .inr hstack
  rcases adds_forked_image hold with himage | ⟨hnew, -⟩
  · rw [hsame]
    exact .inl himage
  · exact absurd hnew (create_user_dir_no_user kernel _ _ hkey)

end Directories

/-- A slot that no process has and that holds no buffer. -/
def Vacant (p : Process) : Prop := isFreeSlot p = true ∧ buffers p = []

theorem Vacant.not_liveUser (h : Vacant p) : ¬LiveUser p := fun hlive => by
  rw [LiveUser, h.1] at hlive
  cases hlive.1

theorem Vacant.not_mem (h : Vacant p) (a : UInt32) : a ∉ buffers p := by
  rw [h.2]
  exact not_mem_nil

theorem mem_buffers {a : UInt32} : a ∈ buffers p ↔ a ≠ 0 ∧ (a = p.image_base ∨ a = p.stack_kern_base) := by
  simp [buffers, and_comm]

theorem buffers_eq_nil (himage : p.image_base = 0) (hstack : p.stack_kern_base = 0) : buffers p = [] := by
  simp [buffers, himage, hstack]

/-- A live process has no stack, or one of the usual size at the usual place. -/
def StackShape (p : Process) : Prop :=
  p.stack_size = 0 ∨ (p.stack_size = PROC_STACK_SIZE ∧ p.stack_base = USER_STACK_TOP - PROC_STACK_SIZE)

section Slots

variable {s : ProcSys} {p : Process} {env : StackEnv} {q : Process}

theorem init_user_stack_cases (p : Process) (env : StackEnv) :
    (∃ base, proc_init_user_stack p env = (false, p.setStack p.stack_size base 0)) ∨
      (env.stack_kern ≠ 0 ∧ proc_init_user_stack p env =
        (true, p.setStack p.stack_size (USER_STACK_TOP - p.stack_size) env.stack_kern)) := by
  unfold proc_init_user_stack
  dsimp only
  split
  · exact .inl ⟨_, rfl⟩
  rename_i hkern
  split
  · exact .inl ⟨_, rfl⟩
  · exact .inr ⟨hkern, rfl⟩

/-- The slot of a new user process: vacant after a failure, else without an image and with the usual stack. -/
theorem initUser_cases (pid entry : UInt32) (env : StackEnv) (build_frame : Bool) :
    (∃ p, initUser pid entry env build_frame = (false, p) ∧ Vacant p) ∨
      ∃ p, initUser pid entry env build_frame = (true, p) ∧ p.image_base = 0 ∧ p.image_size = 0 ∧
        p.stack_kern_base = env.stack_kern ∧ StackShape p := by
  unfold initUser
  dsimp only
  by_cases hdir : env.page_dir = 0
  · rw [if_pos hdir]
    exact .inl ⟨_, rfl, rfl, rfl⟩
  rw [if_neg hdir]
  by_cases hkstack : env.kstack = 0
  · rw [if_pos hkstack]
    exact .inl ⟨_, rfl, rfl, rfl⟩
  rw [if_neg hkstack]
  rcases init_user_stack_cases (((newUser pid entry env).setKstack env.kstack).setStack PROC_STACK_SIZE 0 0) env with
    ⟨base, hstack⟩ | ⟨-, hstack⟩
  · rw [hstack]
    exact .inl ⟨_, rfl, rfl, rfl⟩
  rw [hstack]
  dsimp only
  rcases build_frame with _ | _
  · exact .inr ⟨_, rfl, rfl, rfl, rfl, .inr ⟨rfl, rfl⟩⟩
  unfold build_initial_frame
  by_cases hesp : env.user_esp = 0
  · simp only [if_pos hesp]
    exact .inl ⟨_, rfl, rfl, rfl⟩
  · simp only [if_neg hesp]
    exact .inr ⟨_, rfl, rfl, rfl, rfl, .inr ⟨rfl, rfl⟩⟩

/-- The parts of a slot that concern the address space. -/
structure SameSpace (p q : Process) : Prop where
  image_base : p.image_base = q.image_base
  image_size : p.image_size = q.image_size
  image_load_base : p.image_load_base = q.image_load_base
  stack_base : p.stack_base = q.stack_base
  stack_size : p.stack_size = q.stack_size
  stack_kern_base : p.stack_kern_base = q.stack_kern_base

theorem SameSpace.buffers (h : SameSpace p q) : Space.buffers p = Space.buffers q := by
  unfold Space.buffers
  rw [h.image_base, h.stack_kern_base]

theorem SameSpace.stackShape (h : SameSpace p q) (hq : StackShape q) : StackShape p := by
  unfold StackShape
  rw [h.stack_size, h.stack_base]
  exact hq

theorem SameSpace.backed {phys : UInt32 → UInt32} (h : SameSpace p q) (hq : Backed phys d q) : Backed phys d p := by
  unfold Backed OfImage OfStack
  rw [h.image_base, h.image_size, h.image_load_base, h.stack_base, h.stack_size, h.stack_kern_base]
  exact hq

theorem sameSpace_setName (p : Process) (name : Option (List UInt8)) : SameSpace (setName p name) p := by
  cases name with
  | none => exact ⟨rfl, rfl, rfl, rfl, rfl, rfl⟩
  | some n => exact ⟨rfl, rfl, rfl, rfl, rfl, rfl⟩

theorem publish_space (s : ProcSys) (i : Proc.Slot) (p : Process) (name : Option (List UInt8)) (make_current : Bool) :
    SameSpace ((publish s i p name make_current).proc_table i) p ∧
      ∀ j, j ≠ i → (publish s i p name make_current).proc_table j = s.proc_table j := by
  obtain ⟨hother, st, hslot, -⟩ := publish_spec s i p name make_current
  have hname := sameSpace_setName (p.setState st) name
  rw [hslot]
  exact ⟨⟨hname.1, hname.2, hname.3, hname.4, hname.5, hname.6⟩, hother⟩

theorem create_cases (hfind : s.findSlot isFreeSlot = some i) (name : Option (List UInt8)) (entry : UInt32)
    (env : StackEnv) (make_current build_frame : Bool) :
    ∃ r s', proc_create_common s name entry env make_current build_frame = (r, s') ∧
      (∀ j, j ≠ i → s'.proc_table j = s.proc_table j) ∧
      ((r = none ∧ Vacant (s'.proc_table i)) ∨
        (r = some i ∧ (s'.proc_table i).image_base = 0 ∧ (s'.proc_table i).stack_kern_base = env.stack_kern ∧
          StackShape (s'.proc_table i))) := by
  unfold proc_create_common
  rw [hfind]
  dsimp only
  rcases initUser_cases s.next_pid entry env build_frame with ⟨p, hinit, hvacant⟩ | ⟨p, hinit, himage, -, hkern, hshape⟩
  · rw [hinit]
    refine ⟨_, _, rfl, fun j hj => ?_, .inl ⟨rfl, ?_⟩⟩
    · rw [setSlot_of_ne _ hj, bumpPid_proc_table, proc_cleanup, setSlot_of_ne _ hj]
    · rw [setSlot_self]
      exact hvacant
  · rw [hinit]
    obtain ⟨hsame, hother⟩ := publish_space (proc_cleanup s i).bumpPid i p name make_current
    refine ⟨_, _, rfl, fun j hj => ?_, .inr ⟨rfl, ?_, ?_, ?_⟩⟩
    · rw [hother j hj, bumpPid_proc_table, proc_cleanup, setSlot_of_ne _ hj]
    · rw [hsame.image_base, himage]
    · rw [hsame.stack_kern_base, hkern]
    · exact hsame.stackShape hshape

theorem createKernel_cases (hfind : s.findSlot isFreeSlot = some i) (name : Option (List UInt8))
    (entry : UInt32) (env : KernelEnv) (make_current : Bool) :
    (∀ j, j ≠ i → (proc_create_kernel_common s name entry env make_current).2.proc_table j = s.proc_table j) ∧
      buffers ((proc_create_kernel_common s name entry env make_current).2.proc_table i) = [] ∧
      ¬LiveUser ((proc_create_kernel_common s name entry env make_current).2.proc_table i) := by
  unfold proc_create_kernel_common
  rw [hfind]
  dsimp only
  split
  · refine ⟨fun j hj => ?_, ?_, ?_⟩
    · rw [setSlot_of_ne _ hj, bumpPid_proc_table, proc_cleanup, setSlot_of_ne _ hj]
    · rw [setSlot_self]
      rfl
    · rw [setSlot_self]
      exact fun hlive => absurd hlive.2 (by simp [newKernel])
  · obtain ⟨hsame, hother⟩ :=
      publish_space (proc_cleanup s i).bumpPid i (build_kernel_frame (newKernel s.next_pid entry env)) name make_current
    refine ⟨fun j hj => ?_, ?_, fun hlive => ?_⟩
    · rw [hother j hj, bumpPid_proc_table, proc_cleanup, setSlot_of_ne _ hj]
    · rw [hsame.buffers]
      rfl
    obtain ⟨-, st, hslot, -⟩ := publish_spec (proc_cleanup s i).bumpPid i
      (build_kernel_frame (newKernel s.next_pid entry env)) name make_current
    have huser := hlive.2
    rw [hslot, (sameRole_setName name).is_kernel] at huser
    cases huser

theorem vacant_zero : Vacant Process.zero := ⟨rfl, rfl⟩

theorem start_cases (hfind : s.findSlot isFreeSlot = some i) (a : StartEnv) (make_current : Bool) :
    (∀ j, j ≠ i → (bin_create_process s a make_current).2.proc_table j = s.proc_table j) ∧
      (Vacant ((bin_create_process s a make_current).2.proc_table i) ∨
        ((bin_create_process s a make_current).2.proc_table i).image_base ∈ imageBuffer a.image ∧
          ((bin_create_process s a make_current).2.proc_table i).stack_kern_base = a.env.stack_kern ∧
          StackShape ((bin_create_process s a make_current).2.proc_table i)) := by
  obtain ⟨hnone, -⟩ | ⟨j, p, hj, hrest⟩ := bin_create_cases s a make_current
  · rw [hfind] at hnone
    cases hnone
  obtain rfl : i = j := Option.some.inj (hfind.symm.trans hj)
  have hinit := initUser_cases s.next_pid 0 a.env false
  obtain ⟨hfail, heq⟩ | ⟨t, hdone, rfl, hload⟩ := hrest
  · rw [heq]
    obtain ⟨q, hq, hvacant⟩ | ⟨q, hq, -⟩ := hinit
    · obtain rfl : p = q := (Prod.mk.inj (hfail.symm.trans hq)).2
      refine ⟨fun j hj => setSlot_of_ne s hj p, .inl ?_⟩
      rw [claim, bumpPid_proc_table, setSlot_self]
      exact hvacant
    · cases hfail.symm.trans hq
  obtain ⟨q, hq, -⟩ | ⟨q, hq, -, -, hkern, hshape⟩ := hinit
  · cases hdone.symm.trans hq
  obtain rfl : p = q := (Prod.mk.inj (hdone.symm.trans hq)).2
  obtain ⟨hsame, hother⟩ := publish_space (proc_cleanup s i).bumpPid i p a.path make_current
  have hset : ∀ q j, j ≠ i →
      ((publish (proc_cleanup s i).bumpPid i p a.path make_current).setSlot i q).proc_table j = s.proc_table j := by
    intro q j hj
    rw [setSlot_of_ne _ hj, hother j hj, bumpPid_proc_table, proc_cleanup, setSlot_of_ne _ hj]
  obtain ⟨-, heq⟩ | ⟨img, himg, -, heq⟩ := hload
  · rw [heq]
    refine ⟨hset Process.zero, .inl ?_⟩
    rw [proc_cleanup, setSlot_self]
    exact vacant_zero
  · rw [heq, himg]
    refine ⟨hset _, .inr ?_⟩
    rw [setSlot_self]
    exact ⟨mem_singleton_self _, hsame.stack_kern_base.trans hkern, hsame.stackShape hshape⟩

theorem vacant_forkUndo (hstate : p.state = .UNUSED) (hkern : p.stack_kern_base = 0) : Vacant (forkUndo p) :=
  ⟨isFreeSlot_iff.mpr (.inl hstate), buffers_eq_nil rfl hkern⟩

theorem forkCopy_cases (cur child : Process) (env : ForkEnv) (himage : child.image_base = 0)
    (hkern : child.stack_kern_base = 0) (hstate : child.state = .UNUSED) :
    (∃ p, forkCopy cur child env = (false, p) ∧ Vacant p) ∨
      ∃ p, forkCopy cur child env = (true, p) ∧ (∀ a ∈ buffers p, a ∈ [env.image, env.stack_kern]) ∧
        (StackShape cur → StackShape p) := by
  unfold forkCopy
  dsimp only
  split
  · refine .inr ⟨_, rfl, fun a ha => ?_, fun _ => .inl rfl⟩
    have hnil : buffers (child.setStack 0 0 child.stack_kern_base) = [] := buffers_eq_nil himage hkern
    rw [hnil] at ha
    cases ha
  rename_i hstack
  simp only [Bool.or_eq_true, decide_eq_true_eq, not_or] at hstack
  split
  · exact .inl ⟨_, rfl, vacant_forkUndo hstate rfl⟩
  generalize hcopy : (child.setStack cur.stack_size 0 0).setImage _ _ _ = copy
  have hcopyImage : copy.image_base = env.image ∨ copy.image_base = 0 := by
    rw [← hcopy]
    show (if _ then _ else _) = env.image ∨ (if _ then _ else _) = (0 : UInt32)
    split
    · exact .inl rfl
    · exact .inr himage
  have hcopyState : copy.state = .UNUSED := by rw [← hcopy]; exact hstate
  have hcopySize : copy.stack_size = cur.stack_size := by rw [← hcopy]; rfl
  rcases init_user_stack_cases copy env.toStackEnv with ⟨base, hinit⟩ | ⟨-, hinit⟩
  · rw [hinit]
    exact .inl ⟨_, rfl, vacant_forkUndo hcopyState rfl⟩
  rw [hinit]
  refine .inr ⟨copy.setStack copy.stack_size (USER_STACK_TOP - copy.stack_size) env.stack_kern, rfl, fun a ha => ?_,
    fun hcur => ?_⟩
  · obtain ⟨hne, heq | heq⟩ := mem_buffers.mp ha
    · rw [Process.setStack] at heq
      rcases hcopyImage with h | h
      · rw [heq, h]
        exact mem_cons_self ..
      · exact absurd (heq.trans h) hne
    · change a = env.stack_kern at heq
      rw [heq]
      exact mem_cons_of_mem _ (mem_singleton_self _)
  · rcases hcur with hzero | ⟨hsize, -⟩
    · exact absurd hzero hstack.2
    · rw [StackShape, Process.setStack, hcopySize, hsize]
      exact .inr ⟨rfl, rfl⟩

/-- A child of the process in slot `c`, or a vacant slot. -/
theorem fork_cases {c : Proc.Slot} (hne : c ≠ i) (env : ForkEnv) :
    (∀ j, j ≠ i → (forkInto s c i env).2.proc_table j = s.proc_table j) ∧
      (Vacant ((forkInto s c i env).2.proc_table i) ∨
        (∀ a ∈ buffers ((forkInto s c i env).2.proc_table i), a ∈ [env.image, env.stack_kern]) ∧
          (StackShape (s.proc_table c) → StackShape ((forkInto s c i env).2.proc_table i))) := by
  have hslot : ∀ q, (claim s i q).proc_table i = q := fun q => setSlot_self s i q
  rw [forkInto_eq hne]
  refine ⟨fun j hj => setSlot_of_ne s hj _, ?_⟩
  dsimp only
  rw [hslot]
  unfold initFork
  dsimp only
  by_cases hdir : env.page_dir = 0
  · rw [if_pos hdir]
    exact .inl ⟨rfl, rfl⟩
  rw [if_neg hdir]
  by_cases hkstack : env.kstack = 0
  · rw [if_pos hkstack]
    exact .inl ⟨rfl, rfl⟩
  rw [if_neg hkstack]
  generalize hchild : ((forkChild (s.proc_table c) (freshSlot s.next_pid) env).setVforkParent _).setKstack _ = child
  rcases forkCopy_cases (s.proc_table c) child env (by rw [← hchild]; rfl) (by rw [← hchild]; rfl)
    (by rw [← hchild]; rfl) with ⟨p, hcopy, hvacant⟩ | ⟨p, hcopy, hbuf, hshape⟩
  · rw [hcopy]
    exact .inl hvacant
  · rw [hcopy]
    have hname := sameSpace_setName ((p.setContext (frameAddr p)).setState .READY) (some (s.proc_table c).name)
    have hsame : SameSpace (setName ((p.setContext (frameAddr p)).setState .READY) (some (s.proc_table c).name)) p :=
      ⟨hname.1, hname.2, hname.3, hname.4, hname.5, hname.6⟩
    dsimp only
    rw [hsame.buffers]
    exact .inr ⟨hbuf, fun h => hsame.stackShape (hshape h)⟩

/-- The address space of a process that executes an image, with its stack in the buffer `kern`. -/
def executing (img : Image) (kern : UInt32) : Process :=
  (Process.zero.setStack PROC_STACK_SIZE (USER_STACK_TOP - PROC_STACK_SIZE) kern).setImage img.image_base img.image_size
    img.image_load_base

theorem exec_done (c : Proc.Slot) (img : Image) (huser : (s.proc_table c).is_kernel = false) (hkern : env.stack_kern ≠ 0)
    (hmapped : env.stack_mapped = true) (hesp : env.user_esp ≠ 0) :
    ∃ p, (proc_exec s c img env).2 = s.setSlot c p ∧ SameSpace p (executing img env.stack_kern) := by
  have hinit : proc_init_user_stack ((s.proc_table c).setStack PROC_STACK_SIZE 0 0) env =
      (true, (((s.proc_table c).setStack PROC_STACK_SIZE 0 0).setStack PROC_STACK_SIZE
        (USER_STACK_TOP - PROC_STACK_SIZE) env.stack_kern)) := by
    unfold proc_init_user_stack
    rw [if_neg hkern, hmapped]
    rfl
  unfold proc_exec
  dsimp only
  rw [huser, if_neg (by decide), hinit]
  dsimp only
  unfold build_initial_frame
  rw [if_neg hesp]
  exact ⟨_, rfl, ⟨rfl, rfl, rfl, rfl, rfl, rfl⟩⟩

end Slots

/-- The invariant of a run: directories show only the buffers of their process. -/
structure Inv (phys : UInt32 → UInt32) (q : SpaceSys) : Prop where
  backed : ∀ i, LiveUser (q.sys.proc_table i) → Backed phys (q.dirs i) (q.sys.proc_table i)
  shape : ∀ i, LiveUser (q.sys.proc_table i) → StackShape (q.sys.proc_table i)
  /-- What a slot holds is not back in the heap. -/
  held : ∀ i, ∀ a ∈ buffers (q.sys.proc_table i), a ∉ q.freed
  /-- No buffer is held by two slots. -/
  apart : ∀ i j, ∀ a ∈ buffers (q.sys.proc_table i), a ∈ buffers (q.sys.proc_table j) → i = j

section Step

variable {phys : UInt32 → UInt32} {kernel : KernelDir} {q : SpaceSys}
  {c : Proc.Slot} {s : ProcSys} {tables : List UInt32} {op : SpaceOp} {env : StackEnv} {make_current : Bool}

theorem inv_spaceInit (kernel : KernelDir) : Inv phys (spaceInit kernel) where
  backed _ h := absurd h vacant_zero.not_liveUser
  shape _ h := absurd h vacant_zero.not_liveUser
  held _ a h := absurd h (vacant_zero.not_mem a)
  apart _ _ a h := absurd h (vacant_zero.not_mem a)

theorem Inv.isolated (h : Inv phys q) : Isolated phys q := by
  intro i hlive key hkey frame hframe
  obtain ⟨hentry, rfl⟩ := userEntry_of_userFrame hframe
  rcases h.backed i hlive key hkey hentry with ⟨hne, hshows⟩ | ⟨hne, hshows⟩
  · exact .inl ⟨hshows.pageOf, h.held i _ (mem_buffers.mpr ⟨hne, .inl rfl⟩)⟩
  · exact .inr ⟨hshows.pageOf, h.held i _ (mem_buffers.mpr ⟨hne, .inr rfl⟩)⟩

/-- An operation gives slot `i` new contents and a directory. -/
theorem Inv.replace (h : Inv phys q) (hother : ∀ j, j ≠ i → s.proc_table j = q.sys.proc_table j)
    (hsub : ∀ a ∈ buffers (s.proc_table i), a ∈ buffers (q.sys.proc_table i) ∨ a ∈ taken)
    (hfresh : ∀ a ∈ taken, a ≠ 0 → ∀ j, j ≠ i → a ∉ buffers (q.sys.proc_table j))
    (hnew : LiveUser (s.proc_table i) → Backed phys d (s.proc_table i) ∧ StackShape (s.proc_table i)) :
    Inv phys (q.replace s i d taken) := by
  -- what the slot holds now is held by no other slot
  have hnone : ∀ j, j ≠ i → ∀ a ∈ buffers (s.proc_table i), a ∉ buffers (q.sys.proc_table j) := by
    intro j hj a ha hin
    rcases hsub a ha with hold | htaken
    · exact hj (h.apart j i a hin hold)
    · exact hfresh a htaken (mem_buffers.mp ha).1 j hj hin
  refine ⟨fun j hlive => ?_, fun j hlive => ?_, fun j a ha => ?_, fun j k a hj hk => ?_⟩
  · by_cases hj : j = i
    · subst hj
      show Backed phys (update q.dirs j d j) _
      rw [update_self]
      exact (hnew hlive).1
    · change LiveUser (s.proc_table j) at hlive
      show Backed phys (update q.dirs i d j) (s.proc_table j)
      rw [update_of_ne hj, hother j hj]
      exact h.backed j (hother j hj ▸ hlive)
  · by_cases hj : j = i
    · subst hj
      exact (hnew hlive).2
    · change LiveUser (s.proc_table j) at hlive
      show StackShape (s.proc_table j)
      rw [hother j hj]
      exact h.shape j (hother j hj ▸ hlive)
  · change a ∈ buffers (s.proc_table j) at ha
    intro hfreed
    obtain ⟨hmem, hnot⟩ := mem_filter.mp hfreed
    rw [decide_eq_true_eq] at hnot
    have hj : j ≠ i := by
      rintro rfl
      exact hnot ha
    rw [hother j hj] at ha
    rcases mem_append.mp hmem with hmem | hfreed'
    · rcases mem_append.mp hmem with hold | htaken
      · exact hj (h.apart j i a ha hold)
      · exact hfresh a htaken (mem_buffers.mp ha).1 j hj ha
    · exact h.held j a ha hfreed'
  · change a ∈ buffers (s.proc_table j) at hj
    change a ∈ buffers (s.proc_table k) at hk
    by_cases hji : j = i
    · by_cases hki : k = i
      · rw [hji, hki]
      · rw [hother k hki] at hk
        exact absurd hk (hnone k hki a (hji ▸ hj))
    · rw [hother j hji] at hj
      by_cases hki : k = i
      · exact absurd hj (hnone j hji a (hki ▸ hk))
      · rw [hother k hki] at hk
        exact h.apart j k a hj hk

theorem Inv.replace_cases (h : Inv phys q) (hother : ∀ j, j ≠ i → s.proc_table j = q.sys.proc_table j)
    (hfresh : ∀ a ∈ taken, a ≠ 0 → ∀ j, j ≠ i → a ∉ buffers (q.sys.proc_table j))
    (hslot : Vacant (s.proc_table i) ∨ (∀ a ∈ buffers (s.proc_table i), a ∈ taken) ∧
      StackShape (s.proc_table i) ∧ Backed phys d (s.proc_table i)) :
    Inv phys (q.replace s i d taken) := by
  rcases hslot with hvacant | ⟨hbuf, hshape, hbacked⟩
  · exact h.replace hother (fun a ha => absurd ha (hvacant.not_mem a)) hfresh
      fun hlive => absurd hlive hvacant.not_liveUser
  · exact h.replace hother (fun a ha => .inr (hbuf a ha)) hfresh fun _ => ⟨hbacked, hshape⟩

/-- After a successful `exec` the stack pages replace the old ones, and the image pages all pages of the old image. -/
theorem backed_exec {old : Process} {img : Image} {kern : UInt32} (hold : Backed phys d old) (hshape : StackShape old)
    (hcover : old.image_base ≠ 0 → ∀ k < pageCount old.image_size,
      InRange img.image_load_base img.image_size (pageKey (pageAt old.image_load_base k)) ∨
        InRange (USER_STACK_TOP - PROC_STACK_SIZE) PROC_STACK_SIZE (pageKey (pageAt old.image_load_base k)))
    (himageHeld : img.image_base ≠ 0) (hkernHeld : kern ≠ 0) :
    Backed phys (mapBuffer phys PROC_STACK_SIZE (USER_STACK_TOP - PROC_STACK_SIZE) kern
      (mapBuffer phys img.image_size img.image_load_base img.image_base ⟨d, tables, []⟩)).dir (executing img kern) := by
  intro key hkey h
  rcases mapBuffer_userEntry h with hshows | ⟨hnotStack, hentry, hsame⟩
  · exact .inr ⟨hkernHeld, hshows⟩
  rcases mapBuffer_userEntry hentry with hshows | ⟨hnotImage, hentry, -⟩
  · rw [hsame]
    exact .inl ⟨himageHeld, hshows⟩
  -- an old page that neither replaced: it cannot be one of the old program
  rcases hold key hkey hentry with ⟨hne, hshows⟩ | ⟨-, hshows⟩
  · obtain ⟨k, hk, rfl⟩ := hshows.inRange
    rcases hcover hne k hk with hin | hin
    · exact absurd hin hnotImage
    · exact absurd hin hnotStack
  · rcases hshape with hzero | ⟨hsize', hbase'⟩
    · obtain ⟨k, hk, -⟩ := hshows
      rw [hzero] at hk
      exact absurd hk (by simp [pageCount])
    · have hin := hshows.inRange
      rw [hsize', hbase'] at hin
      exact absurd hin hnotStack

theorem fresh_of_heapFresh (h : HeapFresh q op) (htakes : takes q op = (some i, taken)) :
    ∀ a ∈ taken, a ≠ 0 → ∀ j, j ≠ i → a ∉ buffers (q.sys.proc_table j) := by
  intro a ha hne j hj
  have hfresh := h.1
  rw [htakes] at hfresh
  exact hfresh a ha hne j fun heq => hj (Option.some.inj heq)

theorem not_free_ne (hfind : q.sys.findSlot isFreeSlot = some i)
    (hc : isFreeSlot (q.sys.proc_table c) = false) : c ≠ i := by
  rintro rfl
  have hfree := find?_some hfind
  rw [hc] at hfree
  cases hfree

section

variable (h : Inv phys q)

include h

theorem Inv.create {name : Option (List UInt8)} {entry : UInt32} {build_frame : Bool}
    (hfresh : HeapFresh q (.create name entry env make_current build_frame dir)) :
    Inv phys (spaceStep kernel phys q (.create name entry env make_current build_frame dir)) := by
  rcases hfind : q.sys.findSlot isFreeSlot with _ | i
  · rw [spaceStep, hfind]
    exact h
  obtain ⟨r, s', hcreate, hother, hslot⟩ := create_cases hfind name entry env make_current build_frame
  simp only [spaceStep, hfind, hcreate]
  refine h.replace_cases hother (fresh_of_heapFresh hfresh (by rw [takes, hfind])) ?_
  rcases hslot with ⟨-, hvacant⟩ | ⟨-, himage, hkern, hshape⟩
  · exact .inl hvacant
  refine .inr ⟨fun a ha => ?_, hshape, backed_create kernel dir _⟩
  obtain ⟨hne, heq | heq⟩ := mem_buffers.mp ha
  · exact absurd (heq.trans himage) hne
  · exact mem_singleton.mpr (heq.trans hkern)

theorem Inv.start {a : StartEnv} (hfresh : HeapFresh q (.start a make_current dir)) :
    Inv phys (spaceStep kernel phys q (.start a make_current dir)) := by
  rcases hfind : q.sys.findSlot isFreeSlot with _ | i
  · rw [spaceStep, hfind]
    exact h
  obtain ⟨hother, hslot⟩ := start_cases hfind a make_current
  simp only [spaceStep, hfind]
  generalize (bin_create_process q.sys a make_current).2 = s' at hother hslot ⊢
  refine h.replace_cases hother (fresh_of_heapFresh hfresh (by rw [takes, hfind])) ?_
  rcases hslot with hvacant | ⟨himage, hkern, hshape⟩
  · exact .inl hvacant
  have hheld : (s'.proc_table i).image_base ≠ 0 := fun hzero => hfresh.2 (hzero ▸ himage)
  refine .inr ⟨fun b hb => ?_, hshape, backed_start kernel dir hheld⟩
  obtain ⟨-, heq | heq⟩ := mem_buffers.mp hb
  · exact mem_cons_of_mem _ (heq ▸ himage)
  · rw [heq, hkern]
    exact mem_cons_self ..

theorem Inv.fork {env : ForkEnv}
    (hfresh : HeapFresh q (.fork c env dir)) : Inv phys (spaceStep kernel phys q (.fork c env dir)) := by
  by_cases hlive : LiveUser (q.sys.proc_table c)
  · cases hfind : q.sys.findSlot isFreeSlot with
    | none =>
      simp only [spaceStep, if_pos hlive, hfind]
      exact h
    | some i =>
      obtain ⟨hother, hslot⟩ := fork_cases (s := q.sys) (not_free_ne hfind hlive.1) env
      simp only [spaceStep, if_pos hlive, hfind]
      generalize (forkInto q.sys c i env).2 = s' at hother hslot ⊢
      refine h.replace_cases hother (fresh_of_heapFresh hfresh (by rw [takes, hfind])) ?_
      rcases hslot with hvacant | ⟨hbuf, hshape⟩
      · exact .inl hvacant
      · exact .inr ⟨hbuf, hshape (h.shape c hlive), backed_fork kernel dir _⟩
  · simp only [spaceStep, if_neg hlive]
    exact h

theorem Inv.exec {image : Option Image}
    (hfresh : HeapFresh q (.exec c image env tables)) (hcovers : ExecCovers q (.exec c image env tables)) :
    Inv phys (spaceStep kernel phys q (.exec c image env tables)) := by
  by_cases hlive : LiveUser (q.sys.proc_table c)
  · cases image with
    | none =>
      simp only [spaceStep, if_pos hlive]
      exact h
    | some img =>
      obtain ⟨⟨hkern, hmapped, hesp⟩, hcover⟩ := hcovers hlive
      obtain ⟨p, hexec, hsame⟩ := exec_done c img hlive.2 hkern hmapped hesp
      have himageHeld : img.image_base ≠ 0 := fun hzero => hfresh.2.1 (hzero ▸ mem_singleton_self img.image_base)
      simp only [spaceStep, if_pos hlive, if_neg hkern, hexec]
      refine h.replace_cases (fun j hj => setSlot_of_ne _ hj _) (fresh_of_heapFresh hfresh rfl) (.inr ?_)
      rw [setSlot_self]
      refine ⟨fun a ha => ?_, hsame.stackShape (.inr ⟨rfl, rfl⟩),
        hsame.backed (backed_exec (h.backed c hlive) (h.shape c hlive) hcover himageHeld hkern)⟩
      rw [hsame.buffers] at ha
      obtain ⟨-, rfl | rfl⟩ := mem_buffers.mp ha
      · exact mem_cons_of_mem _ (mem_singleton_self _)
      · exact mem_cons_self ..
  · simp only [spaceStep, if_neg hlive]
    exact h

theorem Inv.exit (c : Proc.Slot) (exit_code : UInt32) : Inv phys (spaceStep kernel phys q (.exit c exit_code)) := by
  by_cases hfree : isFreeSlot (q.sys.proc_table c) = true
  · simp only [spaceStep, if_pos hfree]
    exact h
  simp only [spaceStep, if_neg hfree]
  generalize hs : q.sys.setSlot c ((q.sys.proc_table c).setExit exit_code) = s'
  have hbuf : ∀ j, buffers (s'.proc_table j) = buffers (q.sys.proc_table j) := by
    intro j
    rw [← hs, setSlot_apply]
    split
    · rename_i hj
      rw [hj]
      rfl
    · rfl
  have hlive : ∀ j, LiveUser (s'.proc_table j) → s'.proc_table j = q.sys.proc_table j := by
    intro j hj
    rw [← hs] at hj ⊢
    by_cases hjc : j = c
    · rw [hjc, setSlot_self] at hj
      exact absurd hj.1 (by simp [isFreeSlot, Process.setExit])
    · exact setSlot_of_ne _ hjc _
  refine ⟨fun j hj => ?_, fun j hj => ?_, fun j a ha => ?_, fun j k a ha hk => ?_⟩
  · change LiveUser (s'.proc_table j) at hj
    show Backed phys (q.dirs j) (s'.proc_table j)
    rw [hlive j hj]
    exact h.backed j (hlive j hj ▸ hj)
  · change LiveUser (s'.proc_table j) at hj
    show StackShape (s'.proc_table j)
    rw [hlive j hj]
    exact h.shape j (hlive j hj ▸ hj)
  · exact h.held j a (hbuf j ▸ ha)
  · exact h.apart j k a (hbuf j ▸ ha) (hbuf k ▸ hk)

theorem Inv.reap (c : Proc.Slot) : Inv phys (spaceStep kernel phys q (.reap c)) := by
  by_cases hexited : (q.sys.proc_table c).state = .EXITED
  · simp only [spaceStep, if_pos hexited]
    refine h.replace_cases (fun j hj => setSlot_of_ne _ hj _) (fun a ha => by cases ha) (.inl ?_)
    rw [proc_cleanup, setSlot_self]
    exact vacant_zero
  · simp only [spaceStep, if_neg hexited]
    exact h

theorem Inv.createKernel (name : Option (List UInt8)) (entry : UInt32) (env : KernelEnv)
    (make_current : Bool) : Inv phys (spaceStep kernel phys q (.createKernel name entry env make_current)) := by
  rcases hfind : q.sys.findSlot isFreeSlot with _ | i
  · rw [spaceStep, hfind]
    exact h
  obtain ⟨hother, hbuf, hnot⟩ := createKernel_cases hfind name entry env make_current
  simp only [spaceStep, hfind]
  refine h.replace hother (fun a ha => ?_) (fun a ha => by cases ha) fun hlive => absurd hlive hnot
  rw [hbuf] at ha
  cases ha

theorem Inv.step (hfresh : HeapFresh q op) (hcovers : ExecCovers q op) : Inv phys (spaceStep kernel phys q op) := by
  cases op with
  | create => exact h.create hfresh
  | createKernel => exact h.createKernel _ _ _ _
  | start => exact h.start hfresh
  | fork => exact h.fork hfresh
  | exec => exact h.exec hfresh hcovers
  | exit => exact h.exit _ _
  | reap => exact h.reap _

end

end Step

/-- As long as the heap keeps its contract and every `exec` replaces all pages of the old image, user code only reaches
its own current image and stack. -/
theorem isolated_throughout (kernel : KernelDir) (phys : UInt32 → UInt32) (ops : List SpaceOp)
    (hok : EachStep (spaceStep kernel phys) SpaceOk (spaceInit kernel) ops) :
    Throughout (spaceStep kernel phys) (Isolated phys) (spaceInit kernel) ops := by
  refine throughout_of_inv (J := fun q _ => Inv phys q) (fun q op ops hinv hq => ?_) (fun q ops hinv => ?_)
    (inv_spaceInit kernel) hok
  · exact hinv.step hq.1 hq.2
  · exact hinv.isolated

/-- A kernel without an identity mapping; the examples do not need one. -/
def bareKernel : KernelDir where
  pde _ := 0
  pte _ _ := 0
  low_kernel _ _ _ := rfl

/-- Answers of the allocators for the examples. -/
def stackAt (stack_kern : UInt32) : StackEnv := ⟨0xC1001000, 0x1000, 0xC1002000, stack_kern, true, 0xBFEFFF00⟩

/-- A program of two pages is started; the child of a `fork` replaces it by one of three pages, exits and is reaped. -/
def forkExecRun : List SpaceOp :=
  [.start ⟨none, stackAt 0xC1010000, some ⟨0x500000, 0xC1020000, 0x2000, 0x500000⟩⟩ false
      ⟨0x1000, fun _ => 0, [0x100000, 0x101000]⟩,
    .fork (slotAt 0) ⟨stackAt 0xC1030000, 0xC1040000, true⟩ ⟨0x2000, fun _ => 0, [0x102000, 0x103000]⟩,
    .exec (slotAt 1) (some ⟨0x500000, 0xC1050000, 0x3000, 0x500000⟩) (stackAt 0xC1060000) [],
    .exit (slotAt 1) 0, .reap (slotAt 1)]

theorem isolated_forkExec : EachStep (spaceStep bareKernel id) SpaceOk (spaceInit bareKernel) forkExecRun ∧
      Throughout (spaceStep bareKernel id) (Isolated id) (spaceInit bareKernel) forkExecRun := by
  have hok : EachStep (spaceStep bareKernel id) SpaceOk (spaceInit bareKernel) forkExecRun := by
    refine ⟨⟨⟨all_iff_forall_prop.mp (by decide +kernel), by decide +kernel⟩, trivial⟩,
      ⟨⟨all_iff_forall_prop.mp (by decide +kernel), trivial⟩, trivial⟩,
      ⟨⟨all_iff_forall_prop.mp (by decide +kernel), by decide +kernel,
        all_iff_forall_prop.mp (by decide +kernel)⟩, ?_⟩,
      ⟨⟨all_iff_forall_prop.mp (by decide +kernel), trivial⟩, trivial⟩,
      ⟨⟨all_iff_forall_prop.mp (by decide +kernel), trivial⟩, trivial⟩, trivial⟩
    intro _
    unfold InRange
    decide +kernel
  exact ⟨hok, isolated_throughout bareKernel id forkExecRun hok⟩

/-- A program of two pages is started and replaces itself by one of one page. -/
def shrinkingExec : List SpaceOp :=
  [.start ⟨none, stackAt 0xC1010000, some ⟨0x500000, 0xC1020000, 0x2000, 0x500000⟩⟩ false
      ⟨0x1000, fun _ => 0, [0x100000, 0x101000]⟩,
    .exec (slotAt 0) (some ⟨0x500000, 0xC1030000, 0x1000, 0x500000⟩) (stackAt 0xC1040000) []]

/-- After an exec of a smaller image a page of the old one stays visible. -/
theorem shrinking_exec_keeps_old_page :
    EachStep (spaceStep bareKernel id) HeapFresh (spaceInit bareKernel) shrinkingExec ∧
      ¬Isolated id (exec (spaceStep bareKernel id) (spaceInit bareKernel) shrinkingExec) := by
  refine ⟨⟨⟨all_iff_forall_prop.mp (by decide +kernel), by decide +kernel⟩,
    ⟨all_iff_forall_prop.mp (by decide +kernel), by decide +kernel,
      all_iff_forall_prop.mp (by decide +kernel)⟩, trivial⟩, fun h => ?_⟩
  have hpage := h 0 (by decide +kernel) (pageKey 0x501000) (by decide) 0xC1021000 (by decide +kernel)
  unfold PageOf at hpage
  revert hpage
  decide +kernel

end Orion.Space
