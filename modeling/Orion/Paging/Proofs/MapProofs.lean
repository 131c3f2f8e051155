import Orion.Lib.Words
import Orion.Paging.Map

/-!
# What entering pages changes

`map_page` writes one table entry; it may also open the directory entry for user code or add an empty table.
-/

namespace Orion.Paging

open Lib List Function

variable {key : PageKey} {frame : UInt32} {n : ℕ}

variable {d : PageDir} {m m' : Mapping} {virt page : UInt32} {i : Fin 1024} {key' : PageKey} {buffer : UInt32}

theorem userEntry_flags (page : UInt32) : ((page &&& 0xFFFFF000) ||| USER_FLAGS) &&& PAGE_PRESENT ≠ 0 ∧
      ((page &&& 0xFFFFF000) ||| USER_FLAGS) &&& PAGE_USER ≠ 0 ∧
      ((page &&& 0xFFFFF000) ||| USER_FLAGS) &&& 0xFFFFF000 = page &&& 0xFFFFF000 := by
  refine ⟨or_and_ne_zero _ (by decide), or_and_ne_zero _ (by decide), ?_⟩
  rw [or_and_of_disjoint _ (by decide), UInt32.and_assoc, UInt32.and_self]

/-- User code may use the table. -/
def UserDir (d : PageDir) (i : Fin 1024) : Prop := d.pde i &&& PAGE_PRESENT ≠ 0 ∧ d.pde i &&& PAGE_USER ≠ 0

theorem userBit_flags (entry : UInt32) : userBit USER_FLAGS entry = entry ||| PAGE_USER := if_pos (by decide)

theorem userDir_of_pde {entry : UInt32} (hpde : d.pde i = userBit USER_FLAGS entry)
    (hpresent : entry &&& PAGE_PRESENT ≠ 0) : UserDir d i := by
  rw [userBit_flags] at hpde
  constructor
  · rw [hpde, or_and_of_disjoint _ (by decide)]
    exact hpresent
  · rw [hpde]
    exact or_and_ne_zero _ (by decide)

/-- What `map_page` does for user code when it enters the page. -/
structure Enters (m m' : Mapping) (key : PageKey) (frame : UInt32) : Prop where
  entered : m'.entered = (key, frame) :: m.entered
  userDir : UserDir m'.dir key.1
  present : m'.dir.pte key.1 key.2 &&& PAGE_PRESENT ≠ 0
  user : m'.dir.pte key.1 key.2 &&& PAGE_USER ≠ 0
  frame : m'.dir.pte key.1 key.2 &&& 0xFFFFF000 = frame
  /-- Other tables stay as they are. -/
  other : ∀ i, i ≠ key.1 → m'.dir.pde i = m.dir.pde i ∧ m'.dir.pte i = m.dir.pte i
  /-- So do the other entries of a table that was there; a new table is empty. -/
  beside : ∀ j, j ≠ key.2 →
    if m.dir.pde key.1 &&& PAGE_PRESENT = 0 then m'.dir.pte key.1 j = 0
    else m'.dir.pte key.1 j = m.dir.pte key.1 j

theorem enters_of_userDir {m₀ : Mapping} (hdir : UserDir m₀.dir (dirIdx virt)) (hentered : m₀.entered = m.entered)
    (hother : ∀ i, i ≠ dirIdx virt → m₀.dir.pde i = m.dir.pde i ∧ m₀.dir.pte i = m.dir.pte i)
    (hbeside : ∀ j, if m.dir.pde (dirIdx virt) &&& PAGE_PRESENT = 0 then m₀.dir.pte (dirIdx virt) j = 0
      else m₀.dir.pte (dirIdx virt) j = m.dir.pte (dirIdx virt) j) :
    Enters m (m₀.enter virt page USER_FLAGS) (pageKey virt) (page &&& 0xFFFFF000) := by
  obtain ⟨hp, hu, hf⟩ := userEntry_flags page
  have hself : (m₀.enter virt page USER_FLAGS).dir.pte (dirIdx virt) (tableIdx virt) =
      (page &&& 0xFFFFF000) ||| USER_FLAGS := by
    simp [Mapping.enter, PageDir.setPte, pageKey]
  refine ⟨by rw [← hentered]; rfl, hdir, ?_, ?_, ?_, fun i hi => ?_, fun j hj => ?_⟩
  · exact hself ▸ hp
  · exact hself ▸ hu
  · exact hself ▸ hf
  · refine ⟨(hother i hi).1, ?_⟩
    rw [← (hother i hi).2]
    exact update_of_ne hi _ _
  · have hkeep : (m₀.enter virt page USER_FLAGS).dir.pte (dirIdx virt) j = m₀.dir.pte (dirIdx virt) j := by
      have hj' : j ≠ tableIdx virt := hj
      simp [Mapping.enter, PageDir.setPte, pageKey, hj']
    show if m.dir.pde (dirIdx virt) &&& PAGE_PRESENT = 0 then
        (m₀.enter virt page USER_FLAGS).dir.pte (dirIdx virt) j = 0
      else (m₀.enter virt page USER_FLAGS).dir.pte (dirIdx virt) j = m.dir.pte (dirIdx virt) j
    rw [hkeep]
    exact hbeside j

theorem map_page_cases (m : Mapping) (virt page : UInt32) :
    ((map_page m virt page USER_FLAGS).dir = m.dir ∧ (map_page m virt page USER_FLAGS).entered = m.entered ∧
        m.dir.pde (dirIdx virt) &&& PAGE_PRESENT = 0) ∨
      Enters m (map_page m virt page USER_FLAGS) (pageKey virt) (page &&& 0xFFFFF000) := by
  unfold map_page
  dsimp only
  split
  · rename_i habsent
    split
    · exact .inl ⟨rfl, rfl, habsent⟩
    refine .inr (enters_of_userDir ?_ rfl (fun i hi => ⟨?_, ?_⟩) fun j => ?_)
    · refine userDir_of_pde (update_self (dirIdx virt) _ m.dir.pde) ?_
      rw [or_and_of_disjoint _ (by decide)]
      exact or_and_ne_zero _ (by decide)
    · exact update_of_ne hi _ _
    · exact update_of_ne hi _ _
    · rw [if_pos habsent]
      exact congrFun (update_self (dirIdx virt) (fun _ => (0 : UInt32)) m.dir.pte) j
  · rename_i hpresent
    refine .inr (enters_of_userDir ?_ rfl (fun i hi => ⟨?_, rfl⟩) fun j => ?_)
    · exact userDir_of_pde (update_self (dirIdx virt) _ m.dir.pde) hpresent
    · exact update_of_ne hi _ _
    · rw [if_neg hpresent]
      rfl

/-- What is known about a directory after pages were entered into `d`. -/
structure Tracks (d : PageDir) (m : Mapping) : Prop where
  /-- User code sees the pages that were entered. -/
  seen : ∀ key frame, m.entered.lookup key = some frame → m.dir.userFrame key = some frame
  /-- Tables without a new page stay as they are. -/
  untouched : ∀ i, (∀ e ∈ m.entered, e.1.1 ≠ i) → m.dir.pde i = d.pde i ∧ m.dir.pte i = d.pte i
  /-- A table that user code could reach keeps its other entries. -/
  reached : ∀ i, UserDir d i → UserDir m.dir i ∧ ∀ j, m.entered.lookup (i, j) = none → m.dir.pte i j = d.pte i j

theorem Tracks.start {tables : List UInt32} : Tracks d ⟨d, tables, []⟩ where
  seen _ _ h := by cases h
  untouched _ _ := ⟨rfl, rfl⟩
  reached _ h := ⟨h, fun _ _ => rfl⟩

theorem Enters.userFrame (h : Enters m m' key frame) : m'.dir.userFrame key = some frame := by
  have huser : m'.dir.UserAt key := ⟨⟨h.userDir.1, h.present⟩, h.userDir.2, h.user⟩
  rw [PageDir.userFrame, if_pos huser, h.frame]

theorem userFrame_eq_some (h : d.userFrame key = some frame) :
    d.UserAt key ∧ d.pte key.1 key.2 &&& 0xFFFFF000 = frame := by
  unfold PageDir.userFrame at h
  split at h
  · rename_i huser
    exact ⟨huser, Option.some.inj h⟩
  · cases h

theorem userFrame_of_userAt (h : d.UserAt key) : d.userFrame key = some (d.pte key.1 key.2 &&& 0xFFFFF000) := if_pos h

theorem Enters.userFrame_of_ne {frame' : UInt32} (h : Enters m m' key frame)
    (hne : key' ≠ key) (hseen : m.dir.userFrame key' = some frame') : m'.dir.userFrame key' = some frame' := by
  obtain ⟨⟨⟨hpde, hpte⟩, hpdeUser, hpteUser⟩, rfl⟩ := userFrame_eq_some hseen
  by_cases hdir : key'.1 = key.1
  · have htable : key'.2 ≠ key.2 := fun heq => hne (Prod.ext hdir heq)
    have hsame := h.beside key'.2 htable
    rw [← hdir, if_neg hpde] at hsame
    have hopen := h.userDir
    rw [← hdir] at hopen
    have huser : m'.dir.UserAt key' := ⟨⟨hopen.1, hsame ▸ hpte⟩, hopen.2, hsame ▸ hpteUser⟩
    rw [userFrame_of_userAt huser, hsame]
  · obtain ⟨hpde', hpte'⟩ := h.other key'.1 hdir
    have huser : m'.dir.UserAt key' := by
      unfold PageDir.UserAt
      rw [hpde', hpte']
      exact ⟨⟨hpde, hpte⟩, hpdeUser, hpteUser⟩
    rw [userFrame_of_userAt huser, hpte']

theorem lookup_cons_ne (h : key ≠ key') (l : List (PageKey × UInt32)) :
    ((key', frame) :: l).lookup key = l.lookup key := by
  have hbeq : (key == key') = false := by simpa using h
  rw [lookup_cons, hbeq]

theorem lookup_cons_self (key : PageKey) (frame : UInt32) (l : List (PageKey × UInt32)) :
    ((key, frame) :: l).lookup key = some frame := by
  rw [lookup_cons, beq_self_eq_true]

theorem Tracks.enters (h : Tracks d m) (he : Enters m m' key frame) : Tracks d m' := by
  refine ⟨fun key' frame' hlook => ?_, fun i hi => ?_, fun i hi => ?_⟩
  · -- seen
    rw [he.entered] at hlook
    by_cases hkey : key' = key
    · subst hkey
      rw [lookup_cons_self] at hlook
      rw [he.userFrame, hlook]
    · rw [lookup_cons_ne hkey] at hlook
      exact he.userFrame_of_ne hkey (h.seen key' frame' hlook)
  · -- untouched
    rw [he.entered] at hi
    have hne : i ≠ key.1 := fun heq => hi (key, frame) (mem_cons_self ..) heq.symm
    obtain ⟨hpde, hpte⟩ := he.other i hne
    obtain ⟨hpde', hpte'⟩ := h.untouched i fun e hmem => hi e (mem_cons_of_mem _ hmem)
    exact ⟨hpde.trans hpde', hpte.trans hpte'⟩
  · -- reached
    obtain ⟨hdir, hrest⟩ := h.reached i hi
    rw [he.entered]
    by_cases hkey : i = key.1
    · subst hkey
      refine ⟨he.userDir, fun j hj => ?_⟩
      have hne : j ≠ key.2 := by
        rintro rfl
        rw [lookup_cons_self] at hj
        cases hj
      have hbeside := he.beside j hne
      rw [if_neg hdir.1] at hbeside
      rw [hbeside]
      exact hrest j (by rwa [lookup_cons_ne fun heq => hne (congrArg Prod.snd heq)] at hj)
    · obtain ⟨hpde, hpte⟩ := he.other i hkey
      refine ⟨by unfold UserDir; rwa [hpde], fun j hj => ?_⟩
      rw [hpte]
      exact hrest j (by rwa [lookup_cons_ne fun heq => hkey (congrArg Prod.fst heq)] at hj)

theorem Tracks.map_page (h : Tracks d m) (virt page : UInt32) : Tracks d (map_page m virt page USER_FLAGS) := by
  rcases map_page_cases m virt page with ⟨hdir, hentered, -⟩ | he
  · exact ⟨by rw [hdir, hentered]; exact h.seen, by rw [hdir, hentered]; exact h.untouched,
      by rw [hdir, hentered]; exact h.reached⟩
  · exact h.enters he

theorem Tracks.mapPages (h : Tracks d m) (phys : UInt32 → Option UInt32) (n : ℕ) (virt buffer : UInt32) :
    Tracks d (mapPages phys n m virt buffer).2 := by
  induction n generalizing m virt buffer with
  | zero => exact h
  | succ n ih =>
    unfold Paging.mapPages
    split
    · exact h
    · exact ih (h.map_page _ _) _ _

/-- The table entry at this place is present and for user code, whether or not the directory entry lets user code
through. -/
def UserEntry (d : PageDir) (key : PageKey) : Prop :=
  d.pde key.1 &&& PAGE_PRESENT ≠ 0 ∧ d.pte key.1 key.2 &&& PAGE_PRESENT ≠ 0 ∧ d.pte key.1 key.2 &&& PAGE_USER ≠ 0

theorem userEntry_of_userFrame (h : d.userFrame key = some frame) :
    UserEntry d key ∧ d.pte key.1 key.2 &&& 0xFFFFF000 = frame := by
  obtain ⟨⟨⟨hpde, hpte⟩, -, huser⟩, hframe⟩ := userFrame_eq_some h
  exact ⟨⟨hpde, hpte, huser⟩, hframe⟩

theorem map_page_userEntry (h : UserEntry (map_page m virt page USER_FLAGS).dir key) : (key = pageKey virt ∧
      (map_page m virt page USER_FLAGS).dir.pte key.1 key.2 &&& 0xFFFFF000 = page &&& 0xFFFFF000) ∨
    (key ≠ pageKey virt ∧ UserEntry m.dir key ∧
      (map_page m virt page USER_FLAGS).dir.pte key.1 key.2 = m.dir.pte key.1 key.2) := by
  rcases map_page_cases m virt page with ⟨hdir, -, habsent⟩ | he
  · rw [hdir] at h ⊢
    refine .inr ⟨?_, h, rfl⟩
    rintro rfl
    exact h.1 habsent
  · by_cases hkey : key = pageKey virt
    · exact .inl ⟨hkey, by rw [hkey]; exact he.frame⟩
    refine .inr ⟨hkey, ?_⟩
    obtain ⟨hpde, hpte, huser⟩ := h
    by_cases hdir : key.1 = (pageKey virt).1
    · have htable : key.2 ≠ (pageKey virt).2 := fun heq => hkey (Prod.ext hdir heq)
      have hsame := he.beside key.2 htable
      rw [← hdir] at hsame
      split at hsame
      · -- a new table is empty
        rw [hsame] at hpte
        exact absurd (by decide) hpte
      · rename_i hold
        exact ⟨⟨hold, hsame ▸ hpte, hsame ▸ huser⟩, hsame⟩
    · obtain ⟨hpde', hpte'⟩ := he.other key.1 hdir
      exact ⟨⟨hpde' ▸ hpde, hpte' ▸ hpte, hpte' ▸ huser⟩, congrFun hpte' key.2⟩

@[simp] theorem pageAt_zero (base : UInt32) : pageAt base 0 = base := by simp [pageAt]

theorem pageAt_succ (base : UInt32) (k : ℕ) : pageAt (base + PAGE_SIZE) k = pageAt base (k + 1) := by
  have hone : PAGE_SIZE * UInt32.ofNat 1 = PAGE_SIZE := by decide
  unfold pageAt
  rw [UInt32.ofNat_add, UInt32.mul_add, hone, UInt32.add_assoc, UInt32.add_comm PAGE_SIZE]

/-- An entry for user code after a buffer was entered is a page of the buffer in its place, or an old one at another
place. -/
theorem mapPages_userEntry (phys : UInt32 → UInt32)
    (h : UserEntry (mapPages (fun a => some (phys a)) n m virt buffer).2.dir key) :
    (∃ k < n, key = pageKey (pageAt virt k) ∧
      (mapPages (fun a => some (phys a)) n m virt buffer).2.dir.pte key.1 key.2 &&& 0xFFFFF000 =
        phys (pageAt buffer k) &&& 0xFFFFF000) ∨
    ((∀ k < n, key ≠ pageKey (pageAt virt k)) ∧ UserEntry m.dir key ∧
      (mapPages (fun a => some (phys a)) n m virt buffer).2.dir.pte key.1 key.2 = m.dir.pte key.1 key.2) := by
  induction n generalizing m virt buffer with
  | zero => exact .inr ⟨fun k hk => absurd hk (by omega), h, rfl⟩
  | succ n ih =>
    rw [mapPages] at h ⊢
    dsimp only at h ⊢
    rcases ih h with ⟨k, hk, hkey, hframe⟩ | ⟨hrest, hentry, hpte⟩
    · rw [pageAt_succ] at hkey hframe
      exact .inl ⟨k + 1, by omega, hkey, hframe⟩
    rw [hpte]
    rcases map_page_userEntry hentry with ⟨hkey, hframe⟩ | ⟨hne, hold, hsame⟩
    · exact .inl ⟨0, by omega, by rw [pageAt_zero]; exact hkey, by rw [pageAt_zero]; exact hframe⟩
    refine .inr ⟨fun k hk => ?_, hold, hsame⟩
    cases k with
    | zero => rwa [pageAt_zero]
    | succ k =>
      rw [← pageAt_succ]
      exact hrest k (by omega)

theorem create_user_dir_no_user (kernel : KernelDir) (phys : UInt32) (copies : Fin 1024 → UInt32)
    (hkey : key.1.val < 768) : ¬UserEntry (paging_create_user_dir kernel.toPageDir phys copies) key := by
  rintro ⟨hpde, -, huser⟩
  unfold paging_create_user_dir at hpde huser
  dsimp only at hpde huser
  by_cases hlow : key.1.val < 16
  · rw [if_neg (by omega), kernel.low_kernel _ _ hlow] at huser
    exact huser rfl
  · rw [if_neg hlow, if_pos hkey] at hpde
    exact hpde (by decide)

theorem map_page_entered (m : Mapping) (virt page : UInt32) (hkey : key ≠ pageKey virt) :
    (map_page m virt page USER_FLAGS).entered.lookup key = m.entered.lookup key := by
  rcases map_page_cases m virt page with ⟨-, hentered, -⟩ | he
  · rw [hentered]
  · rw [he.entered, lookup_cons_ne hkey]

theorem mapPages_frame (phys : UInt32 → UInt32)
    (h : (mapPages (fun a => some (phys a)) n m virt buffer).2.entered.lookup key = some frame) :
    m.entered.lookup key = some frame ∨ ∃ k < n, frame = phys (pageAt buffer k) &&& 0xFFFFF000 := by
  induction n generalizing m virt buffer with
  | zero => exact .inl h
  | succ n ih =>
    rw [mapPages] at h
    rcases ih h with hold | ⟨k, hk, hframe⟩
    · by_cases hkey : key = pageKey virt
      · rcases map_page_cases m virt (phys buffer) with ⟨-, hentered, -⟩ | he
        · rw [hentered] at hold
          exact .inl hold
        · rw [he.entered, hkey, lookup_cons_self] at hold
          refine .inr ⟨0, by omega, ?_⟩
          rw [pageAt_zero]
          exact (Option.some.inj hold).symm
      · rw [map_page_entered m virt _ hkey] at hold
        exact .inl hold
    · rw [pageAt_succ] at hframe
      exact .inr ⟨k + 1, by omega, hframe⟩

/-- What holds of the pages of a buffer holds of all that is entered. -/
theorem mapPages_forall {P : UInt32 → Prop} {phys : UInt32 → Option UInt32} {n : ℕ} {virt buffer : UInt32}
    (h : ∀ e ∈ m.entered, P e.2)
    (hP : ∀ k < n, ∀ page, phys (pageAt buffer k) = some page → P (page &&& 0xFFFFF000)) :
    ∀ e ∈ (mapPages phys n m virt buffer).2.entered, P e.2 := by
  induction n generalizing m virt buffer with
  | zero => exact h
  | succ n ih =>
    unfold mapPages
    have hfirst := hP 0 (by omega)
    rw [pageAt_zero] at hfirst
    split
    · exact h
    rename_i page hpage
    refine ih (fun e he => ?_) fun k hk => ?_
    · rcases map_page_cases m virt page with ⟨-, hentered, -⟩ | hnew
      · exact h e (hentered ▸ he)
      · rw [hnew.entered] at he
        rcases List.mem_cons.mp he with rfl | hold
        · exact hfirst page hpage
        · exact h e hold
    · rw [pageAt_succ]
      exact hP (k + 1) (by omega)

theorem map_page_entered_ne (h : m.entered ≠ []) (virt page : UInt32) :
    (map_page m virt page USER_FLAGS).entered ≠ [] := by
  rcases map_page_cases m virt page with ⟨-, hentered, -⟩ | hnew
  · rwa [hentered]
  · rw [hnew.entered]
    exact List.cons_ne_nil _ _

theorem mapPages_entered_ne (h : m.entered ≠ []) (phys : UInt32 → Option UInt32) (n : ℕ) (virt buffer : UInt32) :
    (mapPages phys n m virt buffer).2.entered ≠ [] := by
  induction n generalizing m virt buffer with
  | zero => exact h
  | succ n ih =>
    unfold mapPages
    split
    · exact h
    · exact ih (map_page_entered_ne h _ _) _ _

/-- A page with a table for it is entered. -/
theorem map_page_enters (virt page : UInt32)
    (hroom : m.dir.pde (dirIdx virt) &&& PAGE_PRESENT ≠ 0 ∨ (pmm_alloc_page m.tables).1 ≠ 0) :
    (map_page m virt page USER_FLAGS).entered ≠ [] := by
  unfold map_page
  dsimp only
  split
  · rename_i habsent
    rw [if_neg (hroom.resolve_left fun hpresent => hpresent habsent)]
    exact List.cons_ne_nil _ _
  · exact List.cons_ne_nil _ _

/-- Every entry for user code was entered. -/
def AllEntered (m : Mapping) : Prop := ∀ key, UserEntry m.dir key → m.entered.lookup key ≠ none

theorem AllEntered.map_page (h : AllEntered m) (virt page : UInt32) : AllEntered (map_page m virt page USER_FLAGS) := by
  intro key hentry
  rcases map_page_cases m virt page with ⟨hdir, hentered, -⟩ | he
  · rw [hdir] at hentry
    rw [hentered]
    exact h key hentry
  · rw [he.entered]
    by_cases hkey : key = pageKey virt
    · rw [hkey, lookup_cons_self]
      exact Option.some_ne_none _
    rw [lookup_cons_ne hkey]
    rcases map_page_userEntry hentry with ⟨heq, -⟩ | ⟨-, hold, -⟩
    · exact absurd heq hkey
    · exact h key hold

theorem AllEntered.mapPages (h : AllEntered m) (phys : UInt32 → Option UInt32) (n : ℕ) (virt buffer : UInt32) :
    AllEntered (mapPages phys n m virt buffer).2 := by
  induction n generalizing m virt buffer with
  | zero => exact h
  | succ n ih =>
    unfold Paging.mapPages
    split
    · exact h
    · exact ih (h.map_page _ _) _ _

theorem AllEntered.userFrame (h : AllEntered m) (htracks : Tracks d m) (key : PageKey) :
    m.dir.userFrame key = m.entered.lookup key := by
  cases hlook : m.entered.lookup key with
  | some frame => exact htracks.seen key frame hlook
  | none =>
    cases hframe : m.dir.userFrame key with
    | none => rfl
    | some frame => exact absurd hlook (h key (userEntry_of_userFrame hframe).1)

end Orion.Paging
