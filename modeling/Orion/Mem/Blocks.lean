import Orion.Mem.Kmalloc

/-!
# The block list behind the heap

`Seg h p bs n` says that the headers of `bs` lie in memory, linked both ways, between the block at `p` and the block at
`n`; `Repr` is the whole list, with `heap_head` and `heap_tail` at its ends. `Layout` is the address side: blocks in
increasing order, without overlap, inside `[heap_base, heap_curr)`.
-/

namespace Orion.Mem

/-- A block of the heap list. -/
structure Block where
  addr : UInt32
  size : UInt32
  free : Bool
  deriving DecidableEq, Repr

namespace Block

def last (b : Block) : Nat := b.addr.toNat + 16 + b.size.toNat

/-- The word that `block->free` holds. -/
def flag (b : Block) : UInt32 := if b.free then 1 else 0

end Block

/-- The address of the first block of a segment that is followed by `n`. -/
def firstAddr (bs : List Block) (n : UInt32) : UInt32 :=
  match bs with
  | [] => n
  | b :: _ => b.addr

/-- The address of the last block of a segment that is preceded by `p`. -/
def lastAddr (p : UInt32) : List Block → UInt32
  | [] => p
  | b :: bs => lastAddr b.addr bs

/-- The headers of `bs` are in memory, linked both ways, after the block `p` and before the block `n`. -/
def Seg (h : Heap) (p : UInt32) : List Block → UInt32 → Prop
  | [], _ => True
  | b :: bs, n =>
    (h.size b.addr = b.size ∧ h.free b.addr = b.flag ∧ h.prev b.addr = p ∧
      h.next b.addr = firstAddr bs n) ∧ Seg h b.addr bs n

/-- The heap's list is `bs`. -/
structure Repr (h : Heap) (bs : List Block) : Prop where
  seg : Seg h 0 bs 0
  head : h.heap_head = firstAddr bs 0
  tail : h.heap_tail = lastAddr 0 bs

/-- The blocks lie in `[base, curr)` in increasing order, without overlap, on multiples of four. -/
structure Layout (base curr : Nat) (bs : List Block) : Prop where
  sorted : bs.Pairwise fun a b => a.last ≤ b.addr.toNat
  base_le : ∀ b ∈ bs, base ≤ b.addr.toNat
  last_le : ∀ b ∈ bs, b.last ≤ curr
  addr_dvd : ∀ b ∈ bs, 4 ∣ b.addr.toNat
  size_dvd : ∀ b ∈ bs, 4 ∣ b.size.toNat

/-- The four words of the header at `a`. -/
def headerWord (a w : UInt32) : Prop := w = a ∨ w = a + 4 ∨ w = a + 8 ∨ w = a + 12

end Orion.Mem
