import Orion.Paging.Tables

/-!
# Pointers from user programs

Model of the check that `kernel/syscall.c` makes on the addresses of buffers it gets from user programs.
-/

namespace Orion.Paging

/-- `addr & ~0xFFFu` -/
def pageOf (addr : UInt32) : UInt32 := addr &&& 0xFFFFF000

/-- The loop of `validate_user_buffer`; `none` when it has not ended after `n` turns. -/
def validateLoop (m : Mmu) (end_page : UInt32) : Nat → UInt32 → Option Int
  | 0, _ => none
  | n + 1, page =>
    if (vmm_virt_to_phys m page).isNone then some (-1)
    else if page = end_page then some 0
    else if page + PAGE_SIZE < page then some (-1)
    else validateLoop m end_page n (page + PAGE_SIZE)

/-- `validate_user_buffer`; there are 2^20 pages, so that the loop has at most as many turns. -/
def validate_user_buffer (m : Mmu) (addr size : UInt32) : Option Int :=
  if size = 0 then some 0
  else if addr = 0 then some (-1)
  else
    let last := addr + size - 1
    if last < addr then some (-1) else validateLoop m (pageOf last) (2 ^ 20) (pageOf addr)

/-- The buffer does not wrap around, and user code may access every byte of it. -/
def UserBuffer (d : PageDir) (addr size : UInt32) : Prop :=
  addr.toNat + size.toNat ≤ 2 ^ 32 ∧
    ∀ b, addr.toNat ≤ b → b < addr.toNat + size.toNat → d.UserPage (UInt32.ofNat b)

/-- The range is mapped, but not all of it for user code. -/
def ReachesKernelPage (m : Mmu) (addr size : UInt32) : Prop :=
  addr ≠ 0 ∧ addr.toNat + size.toNat ≤ 2 ^ 32 ∧
    (∀ b, addr.toNat ≤ b → b < addr.toNat + size.toNat → m.enabled = false ∨ m.dir.Present (UInt32.ofNat b)) ∧
    ∃ b, addr.toNat ≤ b ∧ b < addr.toNat + size.toNat ∧ ¬ m.dir.UserPage (UInt32.ofNat b)

end Orion.Paging
