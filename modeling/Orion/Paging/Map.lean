import Orion.Paging.Tables

/-!
# Entering pages into a directory

Model of `map_page` of `mm/paging.c` and of the loops that map a buffer of the kernel heap page by page into the user
part of a directory. The kernel part is shared by all directories, so that `vmm_virt_to_phys` of the buffer is a
function of its own.
-/

namespace Orion.Paging

/-- A page: its entry in the directory and in the table. -/
abbrev PageKey := Fin 1024 × Fin 1024

def pageKey (virt : UInt32) : PageKey := (dirIdx virt, tableIdx virt)

namespace PageDir

def setPde (d : PageDir) (i : Fin 1024) (entry : UInt32) : PageDir := { d with pde := Function.update d.pde i entry }

def setPte (d : PageDir) (key : PageKey) (entry : UInt32) : PageDir :=
  { d with pte := Function.update d.pte key.1 (Function.update (d.pte key.1) key.2 entry) }

/-- `memset(table, 0, PAGE_SIZE)` -/
def clearTable (d : PageDir) (i : Fin 1024) : PageDir := { d with pte := Function.update d.pte i fun _ => 0 }

/-- User code may access the page. -/
def UserAt (d : PageDir) (key : PageKey) : Prop :=
  (d.pde key.1 &&& PAGE_PRESENT ≠ 0 ∧ d.pte key.1 key.2 &&& PAGE_PRESENT ≠ 0) ∧
    d.pde key.1 &&& PAGE_USER ≠ 0 ∧ d.pte key.1 key.2 &&& PAGE_USER ≠ 0
deriving Decidable

/-- The frame that user code sees at the page. -/
def userFrame (d : PageDir) (key : PageKey) : Option UInt32 :=
  if d.UserAt key then some (d.pte key.1 key.2 &&& 0xFFFFF000) else none

end PageDir

/-- A directory, the answers of `pmm_alloc_page` to come, and the pages entered so far, the newest first. -/
structure Mapping where
  dir : PageDir
  tables : List UInt32
  entered : List (PageKey × UInt32)

/-- `pmm_alloc_page`; it answers 0 when there is no page left. -/
def pmm_alloc_page : List UInt32 → UInt32 × List UInt32
  | [] => (0, [])
  | page :: rest => (page, rest)

namespace Mapping

def setDir (m : Mapping) (d : PageDir) : Mapping := { m with dir := d }

/-- `table[table_idx] = (phys & 0xFFFFF000) | flags` -/
def enter (m : Mapping) (virt phys flags : UInt32) : Mapping :=
  { m with
    dir := m.dir.setPte (pageKey virt) ((phys &&& 0xFFFFF000) ||| flags)
    entered := (pageKey virt, phys &&& 0xFFFFF000) :: m.entered }

end Mapping

/-- `if (flags & PAGE_USER) dir[dir_idx] |= PAGE_USER;` -/
def userBit (flags entry : UInt32) : UInt32 := if flags &&& PAGE_USER ≠ 0 then entry ||| PAGE_USER else entry

/-- The page is entered; a missing table is made first. -/
def map_page (m : Mapping) (virt phys flags : UInt32) : Mapping :=
  let i := dirIdx virt
  if m.dir.pde i &&& PAGE_PRESENT = 0 then
    let (table, rest) := pmm_alloc_page m.tables
    let m := { m with tables := rest }
    if table = 0 then m
    else
      let entry := userBit flags ((table &&& 0xFFFFF000) ||| PAGE_PRESENT ||| PAGE_RW)
      (m.setDir ((m.dir.setPde i entry).clearTable i)).enter virt phys flags
  else (m.setDir (m.dir.setPde i (userBit flags (m.dir.pde i)))).enter virt phys flags

def USER_FLAGS : UInt32 := PAGE_PRESENT ||| PAGE_RW ||| PAGE_USER

/-- The loop of the loaders and of `proc_map_user_stack`: each page of `buffer` is looked up in the kernel, which may
fail, and entered at `virt`. -/
def mapPages (phys : UInt32 → Option UInt32) : ℕ → Mapping → (virt buffer : UInt32) → Bool × Mapping
  | 0, m, _, _ => (true, m)
  | n + 1, m, virt, buffer =>
    match phys buffer with
    | none => (false, m)
    | some page => mapPages phys n (map_page m virt page USER_FLAGS) (virt + PAGE_SIZE) (buffer + PAGE_SIZE)

/-- The number of pages of a buffer. -/
def pageCount (size : UInt32) : ℕ := (size.toNat + 4095) / 4096

/-- The address of page `k` of a buffer or of a range. -/
def pageAt (base : UInt32) (k : ℕ) : UInt32 := base + PAGE_SIZE * UInt32.ofNat k

/-! ## New directories -/

/-- The kernel's directory, which shows no low page to user code. -/
structure KernelDir extends PageDir where
  low_kernel : ∀ (i j : Fin 1024), i.val < 16 → pte i j &&& PAGE_USER = 0

/-- The directory that `paging_create_user_dir` fills at `phys`: its own copies of the kernel's low tables, at `copies`,
the kernel's tables from 768 on, and itself as the last entry. -/
def paging_create_user_dir (kernel : PageDir) (phys : UInt32) (copies : Fin 1024 → UInt32) : PageDir :=
  let pde (i : Fin 1024) : UInt32 :=
    if i.val < 16 then
      if kernel.pde i &&& PAGE_PRESENT = 0 then 0
      else (copies i &&& 0xFFFFF000) ||| (kernel.pde i &&& 0xFFF &&& ~~~PAGE_USER)
    else if i.val < 768 then 0
    else if i.val < 1023 then kernel.pde i
    else (phys &&& 0xFFFFF000) ||| PAGE_PRESENT ||| PAGE_RW
  { pde := pde
    pte := fun i => if i.val = 1023 then pde else kernel.pte i }

end Orion.Paging
