import Orion.Mem.Kmalloc
import Orion.Paging.Map
import Mathlib.Data.Finset.Card

/-!
# The physical pages behind the heap

`heap_commit_to` maps the pages it adds one after the other with `vmm_map_page_alloc`, and moves
`heap_commit_end` once all of them are mapped. Here the page mapper is the kernel's directory with the
physical allocator, from which `map_page` also takes the tables that are missing.
-/

namespace Orion.Mem

open Lib
open Paging (PageDir Mapping PAGE_PRESENT PAGE_RW dirIdx pageKey)

/-- The directory and the allocator; `held` has the heap pages with a physical page, the newest first. -/
structure Backing where
  map : Mapping
  held : List (UInt32 × UInt32)

/-- `vmm_map_page_alloc`; `true` is the result 0, which `vmm_map_page` also has when `map_page` gives up. -/
def vmm_map_page_alloc (k : Backing) (virt : UInt32) : Bool × Backing :=
  let (phys, rest) := Paging.pmm_alloc_page k.map.tables
  let m := { k.map with tables := rest }
  if phys = 0 then (false, ⟨m, k.held⟩)
  else (true, ⟨Paging.map_page m virt phys (PAGE_PRESENT ||| PAGE_RW), (virt, phys) :: k.held⟩)

/-- The pages are mapped one after the other, up to the first failure. -/
def mapAll : List UInt32 → Backing → Bool × Backing
  | [], k => (true, k)
  | page :: pages, k =>
    match vmm_map_page_alloc k page with
    | (true, k) => mapAll pages k
    | (false, k) => (false, k)

/-- The addresses of `n` pages in a row. -/
def pagesFrom : ℕ → UInt32 → List UInt32
  | 0, _ => []
  | n + 1, addr => addr :: pagesFrom n (addr + PAGE_SIZE)

/-- The pages that the loop of `heap_commit_to` visits. It ends at a multiple of the page size, so that the address does
not wrap. -/
def newPages (h : Heap) (need_end : UInt32) : List UInt32 :=
  pagesFrom (((alignUp need_end PAGE_SIZE).toNat - h.heap_commit_end.toNat + 4095) / 4096) h.heap_commit_end

/-- The end of the new block for which `kmalloc_internal` calls `heap_commit_to`, when it does. -/
def growth (h : Heap) (size align : UInt32) : Option UInt32 :=
  if size = 0 then none
  else do
    let align ← normalize_align align
    match ← find_free_block h (ALIGN4 size) align with
    | some _ => none
    | none =>
      let payload := h.heap_curr + HEADER
      let aligned_payload := if align = 0 then payload else align_up payload align
      let last := aligned_payload - HEADER + HEADER + ALIGN4 size
      if last > h.heap_end then none else some last

/-- `kmalloc_internal` on the pages behind the heap. All it learns from `vmm_map_page_alloc` is whether
`heap_commit_to` failed. -/
def kmallocOn (h : Heap) (k : Backing) (size align : UInt32) : Option (UInt32 × Heap × Backing) :=
  let (ok, k) := match growth h size align with
    | none => (true, k)
    | some last => mapAll (newPages h last) k
  (kmalloc_internal h (fun _ => ok) size align).map fun r => (r.1, r.2, k)

/-! ## Growth that loses no page -/

/-- The pages that the physical allocator has free. -/
structure FreePages where
  pages : List UInt32
  nonzero : 0 ∉ pages

def FreePages.backing (free : FreePages) (d : PageDir) : Backing := ⟨⟨d, free.pages, []⟩, []⟩

/-- How many page tables have to be made for the pages. -/
def missingTables (d : PageDir) (pages : List UInt32) : ℕ :=
  ((pages.map dirIdx).toFinset.filter fun i => d.pde i &&& PAGE_PRESENT = 0).card

/-- The blocks and `heap_curr` are as before, every page that is held is recorded as committed, and repeating the
request with enough free pages maps each heap page once. -/
structure NothingLost (h : Heap) (size align last : UInt32) (h' : Heap) (k' : Backing) : Prop where
  list : h'.mem = h.mem ∧ h'.heap_head = h.heap_head ∧ h'.heap_tail = h.heap_tail
  curr : h'.heap_curr = h.heap_curr
  recorded : ∀ page ∈ k'.held, page.1 < h'.heap_commit_end
  retry : ∀ freed : FreePages,
    (newPages h last).length + missingTables k'.map.dir (newPages h last) ≤ freed.pages.length →
    ∀ p h'' k'', kmallocOn h' ⟨{ k'.map with tables := freed.pages }, k'.held⟩ size align = some (p, h'', k'') →
      ∀ page ∈ newPages h last, (k''.map.entered.map Prod.fst).count (pageKey page) = 1

/-- A request that fails since `heap_commit_to` fails returns null and loses nothing. -/
def LosesNoPage (h : Heap) (d : PageDir) (free : FreePages) (size align : UInt32) : Prop :=
  ∀ last, growth h size align = some last → (mapAll (newPages h last) (free.backing d)).1 = false →
    ∃ h' k', kmallocOn h (free.backing d) size align = some (0, h', k') ∧ NothingLost h size align last h' k'

/-- If the heap grows, there is no free page, or one for each heap page and each table missing in front of the last. -/
def EnoughOrNone (h : Heap) (d : PageDir) (free : FreePages) (size align : UInt32) : Prop :=
  ∀ last, growth h size align = some last →
    free.pages = [] ∨
      (newPages h last).length + missingTables d (newPages h last).dropLast ≤ free.pages.length

end Orion.Mem
