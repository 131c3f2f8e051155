import Orion.Paging.Proofs.MapProofs
import Orion.Proc.Proofs.TableProofs
import Orion.Space.Ledger

/-!
# What a process leaves behind

The blocks cancel on every path but for the copies of the low tables, of which no pointer is kept; the pages are only
ever taken.
-/

namespace Orion.Space

open Paging Proc List

variable {kernel : PageDir} {env : LifeEnv} {l : Ledger} {B : Multiset UInt32} {s : ProcSys}
  {m : Mapping} {buffer : UInt32} {i : Slot} {ok : Bool} {m' : Mapping} {l' : Ledger}

@[simp] theorem block_zero : block 0 = 0 := if_pos rfl

@[simp] theorem kmalloc_blocks (l : Ledger) (a : HeapAnswer) : (l.kmalloc a).blocks = l.blocks + block a.addr := rfl

@[simp] theorem kmalloc_free (l : Ledger) (a : HeapAnswer) : (l.kmalloc a).free = l.free.drop a.grown := rfl

@[simp] theorem kfree_blocks (l : Ledger) (addr : UInt32) : (l.kfree addr).blocks = l.blocks - block addr := rfl

@[simp] theorem kfree_free (l : Ledger) (addr : UInt32) : (l.kfree addr).free = l.free := rfl

theorem temporary_blocks (l : Ledger) (a : HeapAnswer) : (l.temporary a).blocks = l.blocks := by
  simp [Ledger.temporary]

theorem temporaries_blocks (as : List HeapAnswer) (l : Ledger) : (as.foldl Ledger.temporary l).blocks = l.blocks := by
  induction as generalizing l with
  | nil => rfl
  | cons a as ih => rw [foldl_cons, ih, temporary_blocks]

theorem temporaries_free (as : List HeapAnswer) (l : Ledger) :
    (as.foldl Ledger.temporary l).free.length ≤ l.free.length := by
  induction as generalizing l with
  | nil => exact le_rfl
  | cons a as ih =>
    refine (ih (l.temporary a)).trans ?_
    simp [Ledger.temporary]

theorem kfreeAll_free (addrs : List UInt32) (l : Ledger) : (l.kfreeAll addrs).free = l.free := by
  induction addrs generalizing l with
  | nil => rfl
  | cons a addrs ih => exact ih (l.kfree a)

theorem kfreeAll_blocks (addrs : List UInt32) (h : l.blocks = B + (addrs.map block).sum) :
    (l.kfreeAll addrs).blocks = B := by
  induction addrs generalizing l with
  | nil => simpa [Ledger.kfreeAll] using h
  | cons a addrs ih =>
    refine ih (l := l.kfree a) ?_
    rw [kfree_blocks, h, map_cons, sum_cons, add_left_comm, add_tsub_cancel_left]

/-- The loop over the low tables: with all copies it keeps them, without one of them it gives everything back. -/
theorem copyTables_spec {dir : UInt32} {copied : List UInt32} (answers : List HeapAnswer)
    (h : l.blocks = B + block dir + (copied.map block).sum) :
    (copyTables dir copied answers l).1 = answers.all (fun a => a.addr ≠ 0) ∧
      (copyTables dir copied answers l).2.free = l.free.drop (copiesGrowth answers) ∧
      (copyTables dir copied answers l).2.blocks = if answers.all (fun a => a.addr ≠ 0) then
          B + block dir + (copied.map block).sum + (answers.map fun a => block a.addr).sum
        else B := by
  induction answers generalizing copied l with
  | nil => simp [copyTables, copiesGrowth, h]
  | cons a answers ih =>
    rw [copyTables]
    by_cases hzero : a.addr = 0
    · have hblocks : (l.kmalloc a).blocks = B + block dir + (copied.map block).sum := by
        rw [kmalloc_blocks, h, hzero, block_zero, add_zero]
      rw [if_pos hzero]
      refine ⟨by simp [hzero], ?_, ?_⟩
      · simp [kfreeAll_free, copiesGrowth, hzero]
      · rw [kfree_blocks, kfreeAll_blocks copied hblocks, add_tsub_cancel_right]
        simp [hzero]
    · have hblocks : (l.kmalloc a).blocks = B + block dir + ((copied ++ [a.addr]).map block).sum := by
        rw [kmalloc_blocks, h, map_append, sum_append, ← add_assoc]
        simp
      rw [if_neg hzero]
      obtain ⟨hok, hfree, hrest⟩ := ih hblocks
      refine ⟨?_, ?_, ?_⟩
      · rw [hok]
        simp [hzero]
      · rw [hfree, kmalloc_free, drop_drop, copiesGrowth, if_neg hzero]
      · rw [hrest]
        simp [hzero, add_assoc]

theorem createDir_spec (kernel : PageDir) (env : LifeEnv) (l : Ledger) :
    (createDir kernel env l).1 = dirCreated kernel env ∧ (createDir kernel env l).2.free = l.free.drop
        (env.dir.grown + if env.dir.addr = 0 then 0 else copiesGrowth ((lowTables kernel).map env.low)) ∧
      (createDir kernel env l).2.blocks =
        if dirCreated kernel env then l.blocks + block env.dir.addr + lowCopies kernel env else l.blocks := by
  unfold createDir
  by_cases hdir : env.dir.addr = 0
  · rw [if_pos hdir, if_pos hdir]
    simp [dirCreated, hdir]
  rw [if_neg hdir, if_neg hdir]
  have hblocks : (l.kmalloc env.dir).blocks = l.blocks + block env.dir.addr + (([] : List UInt32).map block).sum := by
    simp
  obtain ⟨hok, hfree, hrest⟩ := copyTables_spec ((lowTables kernel).map env.low) hblocks
  have hall : ((lowTables kernel).map env.low).all (fun a => a.addr ≠ 0) = dirCreated kernel env := by
    simp [dirCreated, hdir, all_map, Function.comp_def]
  rw [hall] at hok hrest
  refine ⟨hok, ?_, ?_⟩
  · rw [hfree, kmalloc_free, drop_drop]
  · rw [hrest]
    simp [lowCopies, map_map, Function.comp_def]

theorem map_page_tables (m : Mapping) (virt page flags : UInt32) :
    (map_page m virt page flags).tables.length ≤ m.tables.length ∧
      (m.dir.pde (dirIdx virt) &&& PAGE_PRESENT = 0 → (map_page m virt page flags).tables = m.tables.tail) := by
  have htail : (pmm_alloc_page m.tables).2 = m.tables.tail := by
    cases m.tables <;> rfl
  unfold map_page
  dsimp only
  split
  · split
    · exact ⟨by simp [htail], fun _ => htail⟩
    · exact ⟨by simp [htail, Mapping.enter, Mapping.setDir], fun _ => by simp [htail, Mapping.enter, Mapping.setDir]⟩
  · rename_i hpresent
    exact ⟨le_rfl, fun habsent => absurd habsent hpresent⟩

theorem mapPages_tables (phys : UInt32 → Option UInt32) (n : ℕ) (m : Mapping) (virt buffer : UInt32) :
    (mapPages phys n m virt buffer).2.tables.length ≤ m.tables.length := by
  induction n generalizing m virt buffer with
  | zero => exact le_rfl
  | succ n ih =>
    rw [mapPages]
    split
    · exact le_rfl
    · exact (ih _ _ _).trans (map_page_tables m virt _ _).1

theorem enterPages_ledger {size virt : UInt32} (h : enterPages env l m size virt buffer = (ok, m', l')) :
    l'.blocks = l.blocks ∧ l'.free.length ≤ l.free.length := by
  cases h
  exact ⟨rfl, mapPages_tables _ _ _ _ _⟩

theorem create_user_dir_stack (kernel : PageDir) (phys : UInt32) (copies : Fin 1024 → UInt32) :
    (paging_create_user_dir kernel phys copies).pde (dirIdx (USER_STACK_TOP - PROC_STACK_SIZE)) &&& PAGE_PRESENT = 0 := by
  have hidx : dirIdx (USER_STACK_TOP - PROC_STACK_SIZE) = 767 := by decide
  rw [hidx]
  simp [paging_create_user_dir]

section

variable (h : enterPages env l m PROC_STACK_SIZE (USER_STACK_TOP - PROC_STACK_SIZE) buffer = (ok, m', l'))

include h

theorem map_stack_free (hdir : m.dir = paging_create_user_dir kernel env.dir_phys env.low_phys)
    (hphys : (env.phys buffer).isSome) : l'.free.length ≤ l.free.length - 1 := by
  obtain ⟨page, hpage⟩ := Option.isSome_iff_exists.mp hphys
  have hcount : pageCount PROC_STACK_SIZE = 3 + 1 := by decide
  cases h
  show (mapPages env.phys (pageCount PROC_STACK_SIZE) { m with tables := l.free } _ buffer).2.tables.length ≤ _
  rw [hcount, mapPages, hpage]
  dsimp only
  refine (mapPages_tables _ _ _ _ _).trans ?_
  rw [(map_page_tables _ _ _ _).2 (by rw [hdir]; exact create_user_dir_stack kernel _ _), length_tail]

theorem map_stack_fails (hphys : env.phys buffer = none) : ok = false ∧ l'.free = l.free := by
  have hcount : pageCount PROC_STACK_SIZE = 3 + 1 := by decide
  unfold enterPages at h
  rw [hcount, mapPages, hphys] at h
  cases h
  exact ⟨rfl, rfl⟩

end

def pendingBlocks (env : LifeEnv) : Multiset UInt32 :=
  block env.stack.addr + block env.kstack.addr + block env.dir.addr

theorem cleanupPending_blocks (h : l.blocks = B + pendingBlocks env) : (cleanupPending env l).blocks = B := by
  simp only [cleanupPending, kfree_blocks, h, pendingBlocks]
  rw [tsub_tsub, tsub_tsub, ← add_assoc, ← add_assoc, ← add_assoc, add_assoc B, add_assoc B, add_tsub_cancel_right]

theorem pending_blocks {l₁ : Ledger} (h : l₁.blocks = B + block env.dir.addr + lowCopies kernel env) :
    ((l₁.kmalloc env.kstack).kmalloc env.stack).blocks = (B + lowCopies kernel env) + pendingBlocks env := by
  simp only [kmalloc_blocks, h, pendingBlocks]
  abel

theorem createPending_unmapped (h : mapsStack kernel env = false) (l : Ledger) :
    ∃ l', createPending kernel env l = (none, l') ∧ l'.free = l.free.drop (setupGrowth kernel env) ∧
      l'.blocks = l.blocks + if dirCreated kernel env then lowCopies kernel env else 0 := by
  obtain ⟨hok, hfree, hblocks⟩ := createDir_spec kernel env l
  unfold createPending
  rcases hdir : createDir kernel env l with ⟨ok, l₁⟩
  rw [hdir] at hok hfree hblocks
  dsimp only at hok hfree hblocks
  rcases ok with _ | _
  · rw [← hok, if_neg (by decide)] at hblocks
    refine ⟨l₁, rfl, ?_, ?_⟩
    · rw [hfree, setupGrowth, ← hok]
      rfl
    · rw [hblocks, ← hok]
      exact (add_zero _).symm
  rw [← hok, if_pos rfl] at hblocks
  have hgrowth : ∀ n, env.kstack.grown + (if env.kstack.addr = 0 then 0 else env.stack.grown) = n →
      l₁.free.drop n = l.free.drop (setupGrowth kernel env) := by
    rintro _ rfl
    rw [hfree, drop_drop, setupGrowth, ← hok]
    rfl
  rw [← hok, if_pos rfl]
  dsimp only
  by_cases hkstack : env.kstack.addr = 0
  · rw [if_pos hkstack]
    refine ⟨_, rfl, ?_, ?_⟩
    · exact hgrowth env.kstack.grown (by rw [if_pos hkstack, add_zero])
    · rw [kfree_blocks, kmalloc_blocks, hkstack, block_zero, add_zero, hblocks, add_right_comm, add_tsub_cancel_right]
  rw [if_neg hkstack]
  have hpages : (l₁.kmalloc env.kstack |>.kmalloc env.stack).free = l.free.drop (setupGrowth kernel env) := by
    rw [kmalloc_free, kmalloc_free, drop_drop]
    exact hgrowth _ (by rw [if_neg hkstack])
  have hpending := pending_blocks hblocks
  generalize (l₁.kmalloc env.kstack).kmalloc env.stack = l₂ at hpages hpending ⊢
  by_cases hstack : env.stack.addr = 0
  · rw [if_pos hstack]
    refine ⟨_, rfl, hpages, ?_⟩
    have hclean := cleanupPending_blocks hpending
    simpa [cleanupPending, hstack] using hclean
  · rw [if_neg hstack]
    have hphys : env.phys env.stack.addr = none := by
      rw [mapsStack, ← hok] at h
      simpa [hkstack, hstack] using h
    generalize hm : (⟨paging_create_user_dir kernel env.dir_phys env.low_phys, [], []⟩ : Mapping) = m
    cases hmap : enterPages env l₂ m PROC_STACK_SIZE (USER_STACK_TOP - PROC_STACK_SIZE) env.stack.addr with
    | mk mapped rest =>
      obtain ⟨rfl, hsame⟩ := map_stack_fails hmap hphys
      exact ⟨_, rfl, hsame.trans hpages, cleanupPending_blocks ((enterPages_ledger hmap).1.trans hpending)⟩

theorem createPending_mapped (h : mapsStack kernel env = true) (l : Ledger) :
    ∃ r l', createPending kernel env l = (r, l') ∧ l'.free.length ≤ l.free.length - 1 ∧
      l'.blocks = l.blocks + lowCopies kernel env + if r.isSome then pendingBlocks env else 0 := by
  simp only [mapsStack, Bool.and_eq_true, decide_eq_true_eq] at h
  obtain ⟨⟨⟨hcreated, hkstack⟩, hstack⟩, hphys⟩ := h
  obtain ⟨hok, hfree, hblocks⟩ := createDir_spec kernel env l
  rw [hcreated] at hok
  rw [hcreated, if_pos rfl] at hblocks
  unfold createPending
  rcases hdir : createDir kernel env l with ⟨ok, l₁⟩
  rw [hdir] at hok hfree hblocks
  obtain rfl : ok = true := hok
  dsimp only at hfree hblocks ⊢
  rw [if_neg hkstack, if_neg hstack]
  have hpending := pending_blocks hblocks
  have hpages : ((l₁.kmalloc env.kstack).kmalloc env.stack).free.length ≤ l.free.length := by
    simp only [kmalloc_free, hfree, length_drop]
    omega
  generalize (l₁.kmalloc env.kstack).kmalloc env.stack = l₂ at hpending hpages ⊢
  generalize hm : (⟨paging_create_user_dir kernel env.dir_phys env.low_phys, [], []⟩ : Mapping) = m
  cases hmap : enterPages env l₂ m PROC_STACK_SIZE (USER_STACK_TOP - PROC_STACK_SIZE) env.stack.addr with
  | mk mapped rest =>
    have htaken := map_stack_free hmap (by rw [← hm]) hphys
    have hkept := (enterPages_ledger hmap).1.trans hpending
    cases mapped with
    | false =>
      refine ⟨none, cleanupPending env rest.2, rfl, ?_, ?_⟩
      · show rest.2.free.length ≤ _
        omega
      · rw [if_neg (by simp), add_zero]
        exact cleanupPending_blocks hkept
    | true =>
      refine ⟨some rest.1, rest.2, rfl, ?_, ?_⟩
      · omega
      · rw [if_pos (by simp)]
        exact hkept

theorem loadImage_spec (env : LifeEnv) (m : Mapping) (l : Ledger) :
    (loadImage env m l).2.free.length ≤ l.free.length ∧ (loadImage env m l).2.blocks = l.blocks +
      if (loadImage env m l).1.isSome then block env.load.image.addr else 0 := by
  have htemp := temporaries_free env.load.temporaries l
  have hblocks := temporaries_blocks env.load.temporaries l
  unfold loadImage
  dsimp only
  generalize env.load.temporaries.foldl Ledger.temporary l = l₁ at htemp hblocks ⊢
  have himage : (l₁.kmalloc env.load.image).free.length ≤ l.free.length := by
    rw [kmalloc_free, length_drop]
    omega
  split
  · exact ⟨htemp, by simp [hblocks]⟩
  split
  · rename_i hzero
    exact ⟨himage, by simp [hblocks, hzero]⟩
  split
  · exact ⟨himage, by simp [hblocks]⟩
  split
  · rename_i hmap
    obtain ⟨hkeep, hpages⟩ := enterPages_ledger hmap
    exact ⟨hpages.trans himage, by simp [hkeep, hblocks]⟩
  · rename_i hmap
    obtain ⟨hkeep, hpages⟩ := enterPages_ledger hmap
    exact ⟨hpages.trans himage, by simp [hkeep, hblocks]⟩

theorem createProcess_mapped (h : mapsStack kernel env = true) (l : Ledger) :
    ∃ r l', createProcess kernel env l = (r, l') ∧ (r.isSome → env.user_esp ≠ 0) ∧ l'.free.length ≤ l.free.length - 1 ∧
      l'.blocks = l.blocks + lowCopies kernel env +
        if r.isSome then pendingBlocks env + block env.load.image.addr else 0 := by
  obtain ⟨r, l₁, hpending, hfree, hblocks⟩ := createPending_mapped h l
  unfold createProcess
  rw [hpending]
  rcases r with _ | m
  · exact ⟨none, l₁, rfl, (fun hsome => by cases hsome), hfree, hblocks⟩
  rw [if_pos (by rfl)] at hblocks
  obtain ⟨hloadFree, hloadBlocks⟩ := loadImage_spec env m l₁
  dsimp only
  rcases hload : loadImage env m l₁ with ⟨r, l₂⟩
  rw [hload] at hloadFree hloadBlocks
  dsimp only at hloadFree hloadBlocks
  rcases r with _ | m'
  · rw [if_neg (by simp), add_zero] at hloadBlocks
    refine ⟨none, cleanupPending env l₂, rfl, (fun hsome => by cases hsome), ?_, ?_⟩
    · exact hloadFree.trans hfree
    · rw [if_neg (by simp), add_zero]
      exact cleanupPending_blocks (hloadBlocks.trans hblocks)
  rw [if_pos (by rfl), hblocks] at hloadBlocks
  have hargsFree : (l₂.temporary env.args).free.length ≤ l₂.free.length := temporaries_free [env.args] l₂
  have hargs := (temporary_blocks l₂ env.args).trans hloadBlocks
  dsimp only
  generalize l₂.temporary env.args = l₃ at hargsFree hargs ⊢
  by_cases hesp : env.user_esp = 0
  · rw [if_pos hesp]
    refine ⟨none, _, rfl, (fun hsome => by cases hsome), ?_, ?_⟩
    · exact (hargsFree.trans hloadFree).trans hfree
    · rw [if_neg (by simp), add_zero]
      refine cleanupPending_blocks ?_
      rw [kfree_blocks, hargs, add_tsub_cancel_right]
  · rw [if_neg hesp]
    refine ⟨some m', l₃, rfl, fun _ => hesp, (hargsFree.trans hloadFree).trans hfree, ?_⟩
    rw [if_pos (by rfl), hargs, add_assoc]

theorem started_holds (hfind : s.findSlot isFreeSlot = some i) (hdir : env.dir.addr ≠ 0)
    (hkstack : env.kstack.addr ≠ 0) (hstack : env.stack.addr ≠ 0) (hesp : env.user_esp ≠ 0) :
    heldBlocks ((bin_create_process s env.startEnv env.make_current).2.proc_table i) =
      pendingBlocks env + block env.load.image.addr := by
  obtain ⟨p, hinit, hkern, hkbase, hpage, huser⟩ : ∃ p, initUser s.next_pid 0 env.startEnv.env false = (true, p) ∧
      p.stack_kern_base = env.stack.addr ∧ p.kstack_base = env.kstack.addr ∧ p.page_dir = env.dir.addr ∧
      p.is_kernel = false := by
    have hdir' : ¬env.startEnv.env.page_dir = 0 := hdir
    have hkstack' : ¬env.startEnv.env.kstack = 0 := hkstack
    have hstack' : ¬env.startEnv.env.stack_kern = 0 := hstack
    unfold initUser proc_init_user_stack
    dsimp only
    rw [if_neg hdir', if_neg hkstack', if_neg hstack']
    exact ⟨_, rfl, rfl, rfl, rfl, rfl⟩
  obtain ⟨hnone, -⟩ | ⟨j, q, hj, hrest⟩ := bin_create_cases s env.startEnv env.make_current
  · rw [hfind] at hnone
    cases hnone
  obtain rfl : i = j := Option.some.inj (hfind.symm.trans hj)
  obtain ⟨hinit', -⟩ | ⟨t, hinit', rfl, ⟨himage | hfail, -⟩ | ⟨img, himg, -, heq⟩⟩ := hrest
  · cases hinit.symm.trans hinit'
  · cases himage
  · exact absurd hfail hesp
  obtain rfl : p = q := (Prod.mk.inj (hinit.symm.trans hinit')).2
  obtain ⟨-, st, hslot, -⟩ := publish_spec (proc_cleanup s i).bumpPid i p env.startEnv.path env.make_current
  rw [heq, setSlot_self, hslot, ← Option.some.inj himg]
  have hheld : block p.stack_kern_base + block p.kstack_base + block env.load.image.addr +
      block (if p.is_kernel then 0 else p.page_dir) = pendingBlocks env + block env.load.image.addr := by
    rw [hkern, hkbase, huser, hpage, if_neg (by decide), pendingBlocks, add_right_comm]
  cases env.startEnv.path with
  | none => exact hheld
  | some name => exact hheld

theorem ensure_user_mappings_ledger (env : LifeEnv) (p : Process) (m : Mapping) (l : Ledger) :
    (ensure_user_mappings env p m l).2.blocks = l.blocks ∧
      (ensure_user_mappings env p m l).2.free.length ≤ l.free.length := by
  unfold ensure_user_mappings
  dsimp only
  have himage : (enterPages env l m p.image_size p.image_load_base p.image_base).2.2.free.length ≤ l.free.length :=
    (enterPages_ledger rfl).2
  split <;> split
  · exact ⟨rfl, (enterPages_ledger rfl).2.trans himage⟩
  · exact ⟨rfl, (enterPages_ledger rfl).2⟩
  · exact ⟨rfl, himage⟩
  · exact ⟨rfl, le_rfl⟩

theorem enterProcess_ledger (env : LifeEnv) (p : Process) (n : ℕ) (m : Mapping) (l : Ledger) :
    (enterProcess env p n m l).blocks = l.blocks ∧ (enterProcess env p n m l).free.length ≤ l.free.length := by
  induction n generalizing m l with
  | zero => exact ⟨rfl, le_rfl⟩
  | succ n ih =>
    obtain ⟨hblocks, hfree⟩ := ensure_user_mappings_ledger env p m l
    obtain ⟨hblocks', hfree'⟩ := ih (ensure_user_mappings env p m l).1 (ensure_user_mappings env p m l).2
    exact ⟨hblocks'.trans hblocks, hfree'.trans hfree⟩

theorem cleanup_blocks (l : Ledger) (p : Process) : (l.cleanup p).blocks = l.blocks - heldBlocks p := by
  simp only [Ledger.cleanup, kfree_blocks, heldBlocks, tsub_tsub, add_assoc]

theorem lifeCycle_unmapped (hfind : s.findSlot isFreeSlot = some i) (h : mapsStack kernel env = false) :
    (lifeCycle kernel env s l).free = l.free.drop (setupGrowth kernel env) ∧
      (lifeCycle kernel env s l).blocks = l.blocks - heldBlocks (s.proc_table i) +
        if dirCreated kernel env then lowCopies kernel env else 0 := by
  obtain ⟨l', hpending, hfree, hblocks⟩ := createPending_unmapped h (l.cleanup (s.proc_table i))
  unfold lifeCycle createProcess
  rw [hfind]
  dsimp only
  rw [hpending]
  exact ⟨hfree, hblocks.trans (by rw [cleanup_blocks])⟩

/-- Where the stack is mapped, the copies of the low tables stay, whether the process runs or its creation fails later.
-/
theorem lifeCycle_mapped (hfind : s.findSlot isFreeSlot = some i) (h : mapsStack kernel env = true) :
    (lifeCycle kernel env s l).free.length ≤ l.free.length - 1 ∧
      (lifeCycle kernel env s l).blocks = l.blocks - heldBlocks (s.proc_table i) + lowCopies kernel env := by
  obtain ⟨r, l', hcreate, hesp, hfree, hblocks⟩ := createProcess_mapped h (l.cleanup (s.proc_table i))
  rw [cleanup_blocks] at hblocks
  unfold lifeCycle
  rw [hfind]
  dsimp only
  rw [hcreate]
  rcases r with _ | m
  · rw [if_neg (by simp), add_zero] at hblocks
    exact ⟨hfree, hblocks⟩
  rw [if_pos (by rfl)] at hblocks
  simp only [mapsStack, dirCreated, Bool.and_eq_true, decide_eq_true_eq] at h
  have hholds := started_holds hfind h.1.1.1.1 h.1.1.2 h.1.2 (hesp rfl)
  dsimp only
  generalize (bin_create_process s env.startEnv env.make_current).2.proc_table i = p at hholds ⊢
  obtain ⟨hrunBlocks, hrunFree⟩ := enterProcess_ledger env p env.entered m l'
  refine ⟨hrunFree.trans hfree, ?_⟩
  rw [cleanup_blocks, hrunBlocks, hblocks, hholds, add_tsub_cancel_right]

/-- Everything is back in the heap and among the free pages exactly when nothing is lost: the copies of the low tables
and every physical page stay away. -/
theorem life_conserves_iff (kernel : PageDir) (env : LifeEnv) (s : ProcSys) (l : Ledger)
    (hheld : ∀ i, heldBlocks (s.proc_table i) ≤ l.blocks) :
    lifeCycle kernel env s l = l ↔ LosesNothing kernel env s l := by
  have hext : ∀ l' : Ledger, l' = l ↔ l'.blocks = l.blocks ∧ l'.free = l.free := by
    intro l'
    cases l
    cases l'
    simp
  rcases hfind : s.findSlot isFreeSlot with _ | i
  · simp [lifeCycle, LosesNothing, hfind]
  have hcancel : ∀ A, l.blocks - heldBlocks (s.proc_table i) + A = l.blocks ↔ A = heldBlocks (s.proc_table i) := by
    intro A
    constructor
    · intro h
      nth_rewrite 2 [← tsub_add_cancel_of_le (hheld i)] at h
      exact add_left_cancel h
    · rintro rfl
      exact tsub_add_cancel_of_le (hheld i)
  rw [hext, LosesNothing, hfind]
  cases hmaps : mapsStack kernel env with
  | false =>
    obtain ⟨hfree, hblocks⟩ := lifeCycle_unmapped (l := l) hfind hmaps
    rw [hblocks, hfree, hcancel]
    refine and_congr_right fun _ => ⟨fun hdrop => ?_, ?_⟩
    · have hlength := congrArg List.length hdrop
      rw [length_drop] at hlength
      by_cases hgrowth : setupGrowth kernel env = 0
      · exact .inr ⟨hgrowth, rfl⟩
      · exact .inl (length_eq_zero_iff.mp (by omega))
    · rintro (hnil | ⟨hzero, -⟩)
      · rw [hnil, drop_nil]
      · rw [hzero, drop_zero]
  | true =>
    obtain ⟨hfree, hblocks⟩ := lifeCycle_mapped (l := l) hfind hmaps
    have hcreated : dirCreated kernel env = true := by
      simp only [mapsStack, Bool.and_eq_true] at hmaps
      exact hmaps.1.1.1
    rw [hblocks, hcancel, hcreated, if_pos rfl]
    refine and_congr_right fun _ => ⟨fun hsame => .inl ?_, ?_⟩
    · rw [hsame] at hfree
      exact length_eq_zero_iff.mp (by omega)
    rintro (hnil | ⟨-, hfalse⟩)
    · rw [hnil] at hfree ⊢
      exact length_eq_zero_iff.mp (Nat.le_zero.mp hfree)
    · cases hfalse

/-- Answers for the examples: every allocation succeeds within the committed heap. -/
def plainEnv : LifeEnv where
  path := none
  make_current := false
  dir := ⟨0xC1001000, 0⟩
  dir_phys := 0x1000
  low _ := ⟨0xC1002000, 0⟩
  low_phys _ := 0x2000
  kstack := ⟨0xC1003000, 0⟩
  stack := ⟨0xC1010000, 0⟩
  phys addr := some addr
  load := ⟨[⟨0xC1020000, 0⟩], true, ⟨0xC1030000, 0⟩, false, 0x1000, 0x500000, 0x500000⟩
  args := ⟨0xC1040000, 0⟩
  user_esp := 0xBFEFFF00
  entered := 1

def oneLowTable : PageDir where
  pde i := if i.val = 0 then 0x3 else 0
  pte _ _ := 0

theorem life_conserves_noKstack :
    (∀ i, heldBlocks (proc_init.proc_table i) ≤ (⟨{0xC1000010}, [0x100000]⟩ : Ledger).blocks) ∧
      lifeCycle ⟨fun _ => 0, fun _ _ => 0⟩ { plainEnv with kstack := ⟨0, 0⟩ } proc_init ⟨{0xC1000010}, [0x100000]⟩ =
        ⟨{0xC1000010}, [0x100000]⟩ := by
  have hheld : ∀ i, heldBlocks (proc_init.proc_table i) ≤ (⟨{0xC1000010}, [0x100000]⟩ : Ledger).blocks := by
    intro i
    exact Multiset.zero_le _
  refine ⟨hheld, (life_conserves_iff _ _ _ _ hheld).mpr ?_⟩
  exact ⟨by decide +kernel, .inr ⟨by decide +kernel, by decide +kernel⟩⟩

/-- A process leaves the copy of the low table in the heap, and the page tables for its stack and its image are not free
again. -/
theorem life_loses_tables : lifeCycle oneLowTable plainEnv proc_init ⟨{0xC1000010}, [0x100000, 0x101000, 0x102000]⟩ =
        ⟨{0xC1000010, 0xC1002000}, [0x102000]⟩ ∧
      lifeCycle oneLowTable plainEnv proc_init ⟨{0xC1000010}, [0x100000, 0x101000, 0x102000]⟩ ≠
        ⟨{0xC1000010}, [0x100000, 0x101000, 0x102000]⟩ := by
  constructor
  · decide +kernel
  · decide +kernel

end Orion.Space