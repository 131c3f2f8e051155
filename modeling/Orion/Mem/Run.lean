import Orion.Lib.Runs
import Orion.Mem.Blocks

/-!
# Runs of the heap

The heap together with the pointers that its clients hold. An operation is one call into `mem.c`, with
what the page mapper grants during it, or a client's write of one word into memory that it holds.
-/

namespace Orion.Mem

/-- A pointer that was handed out and not freed. -/
structure Live where
  ptr : UInt32
  size : UInt32
  align : UInt32
  deriving DecidableEq

/-- The heap with the pointers in use. -/
structure Sys where
  heap : Heap
  live : List Live

/-- A call of the allocator, or a write of a client. -/
inductive Op where
  | kmalloc (size : UInt32) (align : Bool) (grant : UInt32 → Bool)
  | kmallocAligned (size align : UInt32) (grant : UInt32 → Bool)
  | kfree (ptr : UInt32)
  | clientWrite (addr value : UInt32)

/-- The alignment that `kmalloc` asks for. -/
def useAlign (align : Bool) : UInt32 := if align then PAGE_SIZE else 0

/-- A request was answered. -/
def Sys.record (s : Sys) (size align : UInt32) (answer : UInt32 × Heap) : Sys :=
  ⟨answer.2, if answer.1 = 0 then s.live else ⟨answer.1, size, align⟩ :: s.live⟩

/-- One operation; `none` stands for a loop that did not end within its bound. -/
def step (s : Sys) : Op → Option Sys
  | .kmalloc size align grant => (kmalloc s.heap grant size align).map (s.record size (useAlign align))
  | .kmallocAligned size align grant =>
    (kmalloc_aligned s.heap grant size align).map (s.record size align)
  | .kfree ptr => some ⟨kfree s.heap ptr, s.live.filter fun l => l.ptr ≠ ptr⟩
  | .clientWrite addr value => some ⟨s.heap.store addr value, s.live⟩

/-- One operation, if the state before it is there. -/
def next (s : Option Sys) (op : Op) : Option Sys := s.bind (step · op)

/-- The state after `kmalloc_init`. -/
def start (mem : UInt32 → UInt32) (grant : UInt32 → Bool) (heap_start heap_end_addr : UInt32) :
    Option Sys :=
  (kmalloc_init mem grant heap_start heap_end_addr).map fun h => ⟨h, []⟩

def span (h : Heap) : Nat := h.heap_end.toNat - h.heap_base.toNat

/-- What a client promises: requests of at most the heap's span, only live pointers (or null) are freed and only live
payloads written. -/
def Allowed (s : Sys) : Op → Prop
  | .kmalloc size align _ => size.toNat + (useAlign align).toNat ≤ span s.heap
  | .kmallocAligned size align _ => size.toNat + align.toNat ≤ span s.heap
  | .kfree ptr => ptr = 0 ∨ ∃ l ∈ s.live, l.ptr = ptr
  | .clientWrite addr _ =>
    4 ∣ addr.toNat ∧ ∃ l ∈ s.live, l.ptr.toNat ≤ addr.toNat ∧
      addr.toNat < l.ptr.toNat + l.size.toNat

instance (s : Sys) (op : Op) : Decidable (Allowed s op) := by
  cases op <;> unfold Allowed <;> infer_instance

/-- No address that the request makes the heap compute wraps. -/
def NoWrap (h : Heap) (size align : UInt32) : Prop :=
  h.heap_end.toNat + size.toNat + 2 * align.toNat + 32 ≤ 2 ^ 32

/-- As `Allowed`, but a request may be larger than the heap. -/
def Within (s : Sys) : Op → Prop
  | .kmalloc size align _ => NoWrap s.heap size (useAlign align)
  | .kmallocAligned size align _ => NoWrap s.heap size align
  | op => Allowed s op

instance (s : Sys) (op : Op) : Decidable (Within s op) := by
  cases op <;> unfold Within <;> unfold NoWrap <;> infer_instance

/-- The answer is null or memory that the heap has, in front of the next block, and `heap_curr` does not go
back. -/
structure HasMemory (h : Heap) (size : UInt32) (answer : UInt32 × Heap) : Prop where
  pointer : answer.1 = 0 ∨
    h.heap_base.toNat ≤ answer.1.toNat ∧ answer.1.toNat + size.toNat ≤ h.heap_end.toNat ∧
      (answer.2.next (answer.1 - HEADER) ≠ 0 →
        answer.1.toNat + size.toNat ≤ (answer.2.next (answer.1 - HEADER)).toNat)
  curr : h.heap_curr.toNat ≤ answer.2.heap_curr.toNat

/-- The request is answered, and with memory that the heap has. -/
def Answers (h : Heap) (grant : UInt32 → Bool) (size align : UInt32) : Prop :=
  ∃ answer, kmalloc_internal h grant size align = some answer ∧ HasMemory h size answer

/-- The range is not empty and leaves room above it, so that no address computed for a request of at most its span
wraps. -/
structure RangeOk (heap_start heap_end_addr : UInt32) : Prop where
  base_pos : 0 < (initBase heap_start).toNat
  base_le : (initBase heap_start).toNat ≤ (initEnd heap_start heap_end_addr).toNat
  room : (initEnd heap_start heap_end_addr).toNat +
    2 * ((initEnd heap_start heap_end_addr).toNat - (initBase heap_start).toNat) + 32 ≤ 2 ^ 32

/-- The pointer is a multiple of four and of a power of two not below the requested alignment. -/
structure AlignedAs (align ptr : UInt32) : Prop where
  four : 4 ∣ ptr.toNat
  power : ∃ k, align.toNat ≤ 2 ^ k ∧ 2 ^ k ∣ ptr.toNat
  exact : ∀ k, align.toNat = 2 ^ k → align.toNat ∣ ptr.toNat

/-- The blocks are linked both ways between `heap_head` and `heap_tail`, sorted and disjoint, headers included, in
`[heap_base, heap_curr)`. -/
structure ListOk (h : Heap) (bs : List Block) : Prop where
  repr : Repr h bs
  prev_next : ∀ b ∈ bs, h.next b.addr ≠ 0 → h.prev (h.next b.addr) = b.addr
  next_prev : ∀ b ∈ bs, h.prev b.addr ≠ 0 → h.next (h.prev b.addr) = b.addr
  sorted : bs.Pairwise fun a b => a.addr < b.addr
  disjoint : bs.Pairwise fun a b => a.last ≤ b.addr.toNat
  inside : ∀ b ∈ bs, h.heap_base.toNat ≤ b.addr.toNat ∧ b.last ≤ h.heap_curr.toNat
  curr_le : h.heap_curr ≤ h.heap_end

/-- The live pointer `l` is the payload of a block in use, as large and as aligned as requested. -/
structure Serves (bs : List Block) (l : Live) (b : Block) : Prop where
  mem : b ∈ bs
  used : b.free = false
  ptr : l.ptr.toNat = b.addr.toNat + 16
  size : l.size.toNat ≤ b.size.toNat
  aligned : AlignedAs l.align l.ptr

/-- The two payloads share no byte. -/
def PayloadsDisjoint (l m : Live) : Prop :=
  l.ptr.toNat + l.size.toNat ≤ m.ptr.toNat ∨ m.ptr.toNat + m.size.toNat ≤ l.ptr.toNat

/-- The list is sound and serves every pointer in use, each with memory of its own. -/
def WellFormed (s : Sys) : Prop :=
  ∃ bs, ListOk s.heap bs ∧ (∀ l ∈ s.live, ∃ b, Serves bs l b) ∧ s.live.Pairwise PayloadsDisjoint

end Orion.Mem
