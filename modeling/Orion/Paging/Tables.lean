import Mathlib.Tactic
import Mathlib.Logic.Function.Basic

/-!
# Page directories and page tables

Model of the two-level translation of `mm/paging.c`. Every directory maps itself in its last entry, so that
the code reads and writes the entries of the active directory at `RECURSIVE_PD_BASE` and the table behind
entry `i` at `RECURSIVE_PT_BASE + i * PAGE_SIZE`. A `PageDir` is what it sees there.
-/

namespace Orion

/-- The size of a page, as `paging.h` defines it for the whole kernel. -/
def PAGE_SIZE : UInt32 := 4096

namespace Paging

def PAGE_PRESENT : UInt32 := 0x1
def PAGE_RW : UInt32 := 0x2
def PAGE_USER : UInt32 := 0x4

/-- A page directory with its tables. -/
structure PageDir where
  pde : Fin 1024 → UInt32
  pte : Fin 1024 → Fin 1024 → UInt32

/-- `virt >> 22` -/
def dirIdx (virt : UInt32) : Fin 1024 := Fin.ofNat 1024 (virt >>> 22).toNat

/-- `(virt >> 12) & 0x3FF` -/
def tableIdx (virt : UInt32) : Fin 1024 := Fin.ofNat 1024 ((virt >>> 12) &&& 0x3FF).toNat

namespace PageDir

def dirEntry (d : PageDir) (virt : UInt32) : UInt32 := d.pde (dirIdx virt)

def tableEntry (d : PageDir) (virt : UInt32) : UInt32 := d.pte (dirIdx virt) (tableIdx virt)

/-- The address is mapped. -/
def Present (d : PageDir) (virt : UInt32) : Prop :=
  d.dirEntry virt &&& PAGE_PRESENT ≠ 0 ∧ d.tableEntry virt &&& PAGE_PRESENT ≠ 0
deriving Decidable

/-- The address is mapped for user code. -/
def UserPage (d : PageDir) (virt : UInt32) : Prop :=
  d.Present virt ∧ d.dirEntry virt &&& PAGE_USER ≠ 0 ∧ d.tableEntry virt &&& PAGE_USER ≠ 0
deriving Decidable

end PageDir

/-- Whether paging is on, and the directory in use. -/
structure Mmu where
  enabled : Bool
  dir : PageDir

/-- `vmm_virt_to_phys`; `none` stands for the result -1. -/
def vmm_virt_to_phys (m : Mmu) (virt : UInt32) : Option UInt32 :=
  if !m.enabled then some virt
  else if m.dir.dirEntry virt &&& PAGE_PRESENT = 0 then none
  else if m.dir.tableEntry virt &&& PAGE_PRESENT = 0 then none
  else some ((m.dir.tableEntry virt &&& 0xFFFFF000) ||| (virt &&& 0xFFF))

end Paging

end Orion
