import Orion.Lib.Words
import Orion.Paging.Tables

/-!
# The kernel heap

Model of `mm/mem.c`. The heap is one doubly linked list of blocks, each a header of four words followed by its
payload. Memory is a map from the addresses of words to words: the allocator only reads and writes the words of
headers, and every header it uses is aligned to four bytes. Addresses and sizes wrap as in the source.

What `vmm_map_page_alloc` answers while pages are committed is an input (`grant`). A loop that does not end within its
bound gives `none`.
-/

namespace Orion.Mem

open Lib

def KHEAP_DEFAULT_START : UInt32 := 0xC1000000
def KHEAP_DEFAULT_SIZE : UInt32 := 64 * 1024 * 1024

/-- `sizeof(block_header_t)` -/
def HEADER : UInt32 := 16

/-- `MIN_BLOCK_SIZE`: a header and `MIN_SPLIT_SIZE` bytes. -/
def MIN_BLOCK_SIZE : UInt32 := 24

/-- The static variables of `mem.c` and the memory. -/
structure Heap where
  mem : UInt32 → UInt32
  heap_base : UInt32
  heap_curr : UInt32
  heap_commit_end : UInt32
  heap_end : UInt32
  heap_head : UInt32
  heap_tail : UInt32

namespace Heap

/-! The fields of the header at address `b`. -/

/-- The fields of a block header. -/
def size (h : Heap) (b : UInt32) : UInt32 := h.mem b
def next (h : Heap) (b : UInt32) : UInt32 := h.mem (b + 4)
def prev (h : Heap) (b : UInt32) : UInt32 := h.mem (b + 8)
def free (h : Heap) (b : UInt32) : UInt32 := h.mem (b + 12)

def store (h : Heap) (a v : UInt32) : Heap := { h with mem := Function.update h.mem a v }

def setSize (h : Heap) (b v : UInt32) : Heap := h.store b v
def setNext (h : Heap) (b v : UInt32) : Heap := h.store (b + 4) v
def setPrev (h : Heap) (b v : UInt32) : Heap := h.store (b + 8) v
def setFree (h : Heap) (b v : UInt32) : Heap := h.store (b + 12) v

def setHead (h : Heap) (b : UInt32) : Heap := { h with heap_head := b }
def setTail (h : Heap) (b : UInt32) : Heap := { h with heap_tail := b }
def setCurr (h : Heap) (a : UInt32) : Heap := { h with heap_curr := a }
def setCommitEnd (h : Heap) (a : UInt32) : Heap := { h with heap_commit_end := a }

/-- `if (b) b->prev = v;` -/
def setPrevIf (h : Heap) (b v : UInt32) : Heap := if b = 0 then h else h.setPrev b v

/-- `if (heap_tail == b) heap_tail = v;` -/
def moveTail (h : Heap) (b v : UInt32) : Heap := if h.heap_tail = b then h.setTail v else h

end Heap

def align_up (val align : UInt32) : UInt32 := if align = 0 then val else alignUp val align

def ALIGN4 (x : UInt32) : UInt32 := (x + 3) &&& ~~~3

/-- The loop of `normalize_align`, with `n` turns to go. -/
def roundLoop (align : UInt32) : Nat → UInt32 → Option UInt32
  | 0, _ => none
  | n + 1, p => if p < align then roundLoop align n (p <<< 1) else some p

/-- The step of `normalize_align` that rounds to a power of two. -/
def roundToPower (align : UInt32) : Option UInt32 :=
  if align &&& (align - 1) ≠ 0 then roundLoop align 33 1 else some align

/-- `normalize_align`; above `2 ^ 31` the loop of the source does not end. -/
def normalize_align (align : UInt32) : Option UInt32 :=
  if align < 2 then some 0
  else (roundToPower align).map fun align => if align < 4 then 4 else align

def block_end (h : Heap) (b : UInt32) : UInt32 := b + HEADER + h.size b

def blocks_adjacent (h : Heap) (a b : UInt32) : Bool := block_end h a = b

/-! ## The edits of the block list -/

/-- A free block of the given size at `b` is linked in after the block `a`. -/
def linkAfter (h : Heap) (a b size : UInt32) : Heap :=
  let h := (((h.setSize b size).setFree b 1).setPrev b a)
  let h := h.setNext b (h.next a)
  let h := (h.setPrevIf (h.next a) b).setNext a b
  h.moveTail a b

/-- A block at `b` is linked in at the end of the list. -/
def appendBlock (h : Heap) (b size free : UInt32) : Heap :=
  let h := ((h.setSize b size).setFree b free).setPrev b h.heap_tail
  let h := h.setNext b 0
  let h := if h.heap_tail = 0 then h.setHead b else h.setNext h.heap_tail b
  h.setTail b

/-- The block `a` takes over its successor `b` with its header. -/
def absorbNext (h : Heap) (a b : UInt32) : Heap :=
  let h := h.setSize a (h.size a + (HEADER + h.size b))
  let h := h.setNext a (h.next b)
  (h.setPrevIf (h.next b) a).moveTail b a

/-- The rest of a block becomes a block of its own if it is large enough. -/
def split_block (h : Heap) (block size : UInt32) : Heap :=
  if h.size block ≤ size then h
  else
    let remaining := h.size block - size
    if remaining < MIN_BLOCK_SIZE then h
    else (linkAfter h block (block + HEADER + size) (remaining - HEADER)).setSize block size

/-! ## Allocation -/

/-- `block_can_fit`: the address of the header that the allocation would get. -/
def block_can_fit (h : Heap) (block size align : UInt32) : Option UInt32 :=
  let payload := block + HEADER
  let aligned_payload := if align = 0 then payload else align_up payload align
  let aligned_header := aligned_payload - HEADER
  if aligned_payload + size > block_end h block then none
  else
    let leading := aligned_header - block
    if leading ≠ 0 && leading < MIN_BLOCK_SIZE then none else some aligned_header

/-- The loop of `find_free_block`: the block found and the header in it. The outer `none`: the list did not end within
the bound. -/
def findLoop (h : Heap) (size align : UInt32) : Nat → UInt32 → Option (Option (UInt32 × UInt32))
  | 0, _ => none
  | n + 1, cur =>
    if cur = 0 then some none
    else if h.free cur = 0 then findLoop h size align n (h.next cur)
    else
      match block_can_fit h cur size align with
      | some header => some (some (cur, header))
      | none => findLoop h size align n (h.next cur)

/-- `find_free_block`. The list has at most one block for each byte of `[heap_base, heap_curr)`. -/
def find_free_block (h : Heap) (size align : UInt32) : Option (Option (UInt32 × UInt32)) :=
  findLoop h size align ((h.heap_curr - h.heap_base).toNat + 1) h.heap_head

/-- The part of `allocate_from_block` that cuts a leading free block off. -/
def splitLeading (h : Heap) (block aligned_header : UInt32) : Heap :=
  let last := block_end h block
  let h := (h.setSize block (aligned_header - block - HEADER)).setFree block 1
  linkAfter h block aligned_header (last - (aligned_header + HEADER))

/-- The block at `aligned_header` is cut out and taken. -/
def allocate_from_block (h : Heap) (block aligned_header size : UInt32) : UInt32 × Heap :=
  let h := if aligned_header ≠ block then splitLeading h block aligned_header else h
  ((aligned_header + HEADER), (split_block h aligned_header size).setFree aligned_header 0)

/-- The loop of `heap_commit_to`, with `n` turns to go: whether every page was mapped. -/
def commitLoop (grant : UInt32 → Bool) (last : UInt32) : Nat → UInt32 → Option Bool
  | 0, _ => none
  | n + 1, addr =>
    if addr < last then
      if grant addr then commitLoop grant last n (addr + PAGE_SIZE) else some false
    else some true

/-- `heap_commit_to`; `true` stands for the result 0. -/
def heap_commit_to (h : Heap) (grant : UInt32 → Bool) (need_end : UInt32) : Option (Bool × Heap) :=
  let new_commit_end := alignUp need_end PAGE_SIZE
  if new_commit_end ≤ h.heap_commit_end then some (true, h)
  else do
    let ok ← commitLoop grant new_commit_end (new_commit_end.toNat + 1) h.heap_commit_end
    some (if ok then (true, h.setCommitEnd new_commit_end) else (false, h))

/-- What `allocate_new_block` does with the bytes between `heap_curr` and the aligned header. -/
def fillGap (h : Heap) (start aligned_header : UInt32) : Heap :=
  if aligned_header > start then
    let gap := aligned_header - start
    if gap ≥ MIN_BLOCK_SIZE then appendBlock h start (gap - HEADER) 1
    else if h.heap_tail ≠ 0 && h.free h.heap_tail ≠ 0 && blocks_adjacent h h.heap_tail start then
      h.setSize h.heap_tail (h.size h.heap_tail + gap)
    else h
  else h

/-- `allocate_new_block`; the result 0 is the null pointer. -/
def allocate_new_block (h : Heap) (grant : UInt32 → Bool) (size align : UInt32) :
    Option (UInt32 × Heap) :=
  let start := h.heap_curr
  let payload := start + HEADER
  let aligned_payload := if align = 0 then payload else align_up payload align
  let aligned_header := aligned_payload - HEADER
  let last := aligned_header + HEADER + size
  if last > h.heap_end then some (0, h)
  else do
    let (ok, h) ← heap_commit_to h grant last
    if ok then
      some (aligned_header + HEADER,
        (appendBlock (fillGap h start aligned_header) aligned_header size 0).setCurr last)
    else some (0, h)

/-- The search in the list and, without success, a new block at the end. -/
def kmalloc_internal (h : Heap) (grant : UInt32 → Bool) (size align : UInt32) :
    Option (UInt32 × Heap) :=
  if size = 0 then some (0, h)
  else do
    let size := ALIGN4 size
    let align ← normalize_align align
    match ← find_free_block h size align with
    | some (block, header) => some (allocate_from_block h block header size)
    | none => allocate_new_block h grant size align

/-- `kmalloc`; the physical address it may report does not change the heap. -/
def kmalloc (h : Heap) (grant : UInt32 → Bool) (size : UInt32) (align : Bool) :
    Option (UInt32 × Heap) :=
  kmalloc_internal h grant size (if align then PAGE_SIZE else 0)

def kmalloc_aligned (h : Heap) (grant : UInt32 → Bool) (size align : UInt32) :
    Option (UInt32 × Heap) :=
  kmalloc_internal h grant size align

/-- The `heap_base` that `kmalloc_init` chooses. -/
def initBase (heap_start : UInt32) : UInt32 :=
  if heap_start ≠ 0 then alignUp heap_start PAGE_SIZE else KHEAP_DEFAULT_START

/-- The `heap_end` that `kmalloc_init` chooses. -/
def initEnd (heap_start heap_end_addr : UInt32) : UInt32 :=
  if heap_end_addr ≠ 0 then heap_end_addr else initBase heap_start + KHEAP_DEFAULT_SIZE

/-- `kmalloc_init`; a failing first commit is only reported. -/
def kmalloc_init (mem : UInt32 → UInt32) (grant : UInt32 → Bool)
    (heap_start heap_end_addr : UInt32) : Option Heap := do
  let base := initBase heap_start
  let h : Heap :=
    { mem := mem
      heap_base := base
      heap_curr := base
      heap_commit_end := base
      heap_end := initEnd heap_start heap_end_addr
      heap_head := 0
      heap_tail := 0 }
  let (_, h) ← heap_commit_to h grant (base + 1)
  some h

/-! ## Freeing -/

/-- The first merge of `kfree`: with the next block. -/
def mergeNext (h : Heap) (block : UInt32) : Heap :=
  let next := h.next block
  if next ≠ 0 && h.free next ≠ 0 && blocks_adjacent h block next then absorbNext h block next else h

/-- The second merge of `kfree`: with the previous block. -/
def mergePrev (h : Heap) (block : UInt32) : Heap :=
  let prev := h.prev block
  if prev ≠ 0 && h.free prev ≠ 0 && blocks_adjacent h prev block then absorbNext h prev block else h

/-- The block is freed and merged with its free neighbours. -/
def kfree (h : Heap) (ptr : UInt32) : Heap :=
  if ptr = 0 then h
  else
    let block := ptr - HEADER
    mergePrev (mergeNext (h.setFree block 1) block) block

end Orion.Mem
