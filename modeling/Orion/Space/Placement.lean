import Orion.Elf.Loader
import Orion.Lib.Runs
import Orion.Proc.Table

/-!
# Where programs are loaded

A program with fixed addresses is loaded where its segments say, a position-independent one at `g_next_pie_base`, which
every such load moves up (elf.c). The user stack is below `USER_STACK_TOP` in every address space (proc.c).
-/

namespace Orion.Space

open Elf Proc

/-- The first address of the user stack. -/
def stackBottom : ℕ := USER_STACK_TOP.toNat - PROC_STACK_SIZE.toNat

/-- A load: what `kmalloc` answers and the file. -/
structure Load where
  kmalloc : UInt32 → UInt32
  file : Lib.Bytes
  size : UInt32

def Load.run (l : Load) (next_pie : UInt32) : Except ElfError LoadedImage × UInt32 :=
  elf_load_image l.kmalloc next_pie l.file l.size

/-- `g_next_pie_base` after a load. -/
def loadStep (next_pie : UInt32) (l : Load) : UInt32 := (l.run next_pie).2

/-- If the load succeeds, the image lies in the user area and apart from the stack. -/
def LoadsApart (next_pie : UInt32) (l : Load) : Prop :=
  ∀ img, (l.run next_pie).1 = .ok img →
    ELF_USER_VADDR_MIN.toNat ≤ img.load_base.toNat ∧
      img.load_base.toNat + img.image_size.toNat ≤ ELF_USER_VADDR_MAX.toNat + 1 ∧
      (img.load_base.toNat + img.image_size.toNat ≤ stackBottom ∨ USER_STACK_TOP.toNat ≤ img.load_base.toNat)

def roundDown (n : ℕ) : ℕ := n / 4096 * 4096

def roundUp (n : ℕ) : ℕ := (n + 4095) / 4096 * 4096

/-- The pages from the first to the last segment, put where the program belongs, miss the stack. -/
def ClearOfStack (next_pie : UInt32) (l : Load) : Prop :=
  ∀ e, (readPhdrs l.file (readEhdr l.file)).foldlM (measureSegment l.size) ⟨0xFFFFFFFF, 0⟩ = .ok e →
    let first := roundDown e.min_vaddr.toNat
    let length := roundUp (e.max_vaddr.toNat - first)
    let start := if (readEhdr l.file).e_type = ET_DYN then
      roundUp (max next_pie.toNat (max first ELF_USER_VADDR_MIN.toNat)) else first
    start + length ≤ stackBottom ∨ USER_STACK_TOP.toNat ≤ start

/-! ## Position-independent programs -/

/-- What a position-independent image asks for. -/
structure PieRequest where
  image_size : UInt32
  min_base : UInt32

/-- `g_next_pie_base` after a base was chosen. -/
def pieStep (next_pie : UInt32) (r : PieRequest) : UInt32 := (choose_pie_base next_pie r.image_size r.min_base).2

/-- The image fits into the user area from its lowest base on. -/
def PieRequest.FitsUser (r : PieRequest) : Prop :=
  ELF_USER_VADDR_MIN.toNat ≤ r.min_base.toNat ∧
    roundUp r.min_base.toNat + r.image_size.toNat ≤ ELF_USER_VADDR_MAX.toNat + 1

/-- `choose_pie_base` finds a place for every image that fits into the user area. -/
def GetsBase (next_pie : UInt32) (r : PieRequest) : Prop :=
  r.FitsUser → (choose_pie_base next_pie r.image_size r.min_base).1 ≠ 0 ∧
    r.min_base.toNat ≤ (choose_pie_base next_pie r.image_size r.min_base).1.toNat ∧
    (choose_pie_base next_pie r.image_size r.min_base).1.toNat + r.image_size.toNat ≤ ELF_USER_VADDR_MAX.toNat + 1

/-- The image also fits behind `g_next_pie_base`. -/
def StillFits (next_pie : UInt32) (r : PieRequest) : Prop :=
  r.FitsUser → roundUp (max next_pie.toNat r.min_base.toNat) + r.image_size.toNat ≤ ELF_USER_VADDR_MAX.toNat + 1

end Orion.Space
