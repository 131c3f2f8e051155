import Orion.Lib.Bitmap
import Orion.Lib.Runs

/-!
# The allocator of physical pages (`src/mm/pmm.c`)

One bit of `pmm_bitmap` stands for one page of 4096 bytes; a page with a set bit is in use. The array has
bits for the first 4 GiB. A bit behind it belongs to some other variable: an access to one is the result
`none`.
-/

namespace Orion.Pmm

open Lib

def MAX_PAGES : ℕ := 2 ^ 20

/-- The variables of the page allocator. -/
structure State where
  pmm_bitmap : Bytes
  total_memory : UInt64
  free_memory : UInt64
  max_physical_page : UInt64

/-! ## Single pages -/

/-- `none` is an access outside the bitmap. -/
def BIT_TEST (a : Bytes) (i : ℕ) : Option Bool := if i < MAX_PAGES then some (a.bitTest i) else none

def BIT_SET (a : Bytes) (i : ℕ) : Option Bytes := if i < MAX_PAGES then some (a.bitSet i) else none

def BIT_CLEAR (a : Bytes) (i : ℕ) : Option Bytes := if i < MAX_PAGES then some (a.bitClear i) else none

/-- Pages from `max_physical_page` on are left alone. -/
def mark_used (s : State) (p : ℕ) : Option State :=
  if p < s.max_physical_page.toNat then (BIT_SET s.pmm_bitmap p).map fun a => { s with pmm_bitmap := a } else some s

def mark_free (s : State) (p : ℕ) : Option State :=
  if p < s.max_physical_page.toNat then (BIT_CLEAR s.pmm_bitmap p).map fun a => { s with pmm_bitmap := a } else some s

/-- The loop of `find_free_page`, with `n` pages to go. -/
def scanFree (a : Bytes) : ℕ → ℕ → Option (Option ℕ)
  | 0, _ => some none
  | n + 1, i => do if ← BIT_TEST a i then scanFree a n (i + 1) else some (some i)

def find_free_page (s : State) : Option (Option ℕ) := scanFree s.pmm_bitmap s.max_physical_page.toNat 0

/-! ## Regions -/

/-- The body of the loop of `pmm_reserve_region`. -/
def reservePage (s : State) (i : ℕ) : Option State :=
  if i < s.max_physical_page.toNat then do
    let used ← BIT_TEST s.pmm_bitmap i
    mark_used (if used then s else { s with free_memory := s.free_memory - 4096 }) i
  else some s

/-- The pages of a region are marked as used. -/
def pmm_reserve_region (s : State) (start stop : UInt32) : Option State :=
  let first := (start / 4096).toNat
  let last := ((stop + 4096 - 1) / 4096).toNat
  (List.range' first (last - first)).foldlM reservePage s

/-- `multiboot_mmap_entry_t` -/
structure Entry where
  addr : UInt64
  len : UInt64
  type : UInt32

/-- The tags that `pmm_init` looks at. -/
inductive Tag where
  | mmap (entries : List Entry)
  | module (mod_start mod_end : UInt32)
  | other

/-- What the boot loader and the linker tell about memory. -/
structure Boot where
  mb_info_addr : UInt32
  total_size : UInt32
  tags : List Tag
  kernel_start : UInt32
  kernel_end : UInt32

/-- The page in which the region starts. -/
def Entry.firstPage (e : Entry) : ℕ := (e.addr / 4096).toNat

/-- The page in which the region ends. -/
def Entry.endPage (e : Entry) : ℕ := ((e.addr + e.len) / 4096).toNat

/-- The pages of a usable region are marked as free. -/
def addEntry (s : State) (e : Entry) : Option State :=
  if e.type = 1 then do
    let en := (e.addr + e.len) / 4096
    let s := if en > s.max_physical_page then { s with max_physical_page := en } else s
    let s ← (List.range' e.firstPage (min e.endPage MAX_PAGES - e.firstPage)).foldlM mark_free s
    some { s with free_memory := s.free_memory + e.len, total_memory := s.total_memory + e.len }
  else some s

def addTag (s : State) : Tag → Option State
  | .mmap entries => entries.foldlM addEntry s
  | _ => some s

def reserveTag (s : State) : Tag → Option State
  | .module mod_start mod_end => pmm_reserve_region s mod_start mod_end
  | _ => some s

def blank : State := ⟨fun _ => 0xFF, 0, 0, 0⟩

/-- Free what is usable, then reserve what is in use. -/
def pmm_init (b : Boot) : Option State := do
  let s ← b.tags.foldlM addTag blank
  let s ← pmm_reserve_region s 0 0x100000
  let s ← pmm_reserve_region s b.kernel_start b.kernel_end
  let s ← pmm_reserve_region s b.mb_info_addr (b.mb_info_addr + b.total_size)
  b.tags.foldlM reserveTag s

/-- The first free page, as an address. -/
def pmm_alloc_page (s : State) : Option (State × Option UInt32) := do
  match ← find_free_page s with
  | none => some (s, none)
  | some idx =>
    let s ← mark_used s idx
    some ({ s with free_memory := s.free_memory - 4096 }, some (UInt32.ofNat (idx * 4096)))

/-- A page that is in use becomes free. -/
def pmm_free_page (s : State) (addr : UInt32) : Option State :=
  let idx := (addr / 4096).toNat
  if idx ≥ s.max_physical_page.toNat then some s
  else do
    if ← BIT_TEST s.pmm_bitmap idx then
      let s ← mark_free s idx
      some { s with free_memory := s.free_memory + 4096 }
    else some s

/-! ## Runs -/

/-- A call of the allocator. -/
inductive Op where
  | reserve (start stop : UInt32)
  | alloc
  | free (addr : UInt32)

/-- The allocator with the pages handed out so far, those not given back, and the reserved regions. -/
structure Sys where
  pmm : State
  returned : List UInt32
  allocated : List UInt32
  reserved : List (ℕ × ℕ)

def Tag.region : Tag → Option (ℕ × ℕ)
  | .module mod_start mod_end => some (mod_start.toNat, mod_end.toNat)
  | _ => none

/-- The regions that `pmm_init` has to reserve. -/
def Boot.regions (b : Boot) : List (ℕ × ℕ) :=
  (0, 0x100000) :: (b.kernel_start.toNat, b.kernel_end.toNat) ::
    (b.mb_info_addr.toNat, b.mb_info_addr.toNat + b.total_size.toNat) :: b.tags.filterMap Tag.region

/-- The state after `pmm_init`. -/
def start (b : Boot) : Option Sys := (pmm_init b).map fun s => ⟨s, [], [], b.regions⟩

/-- A call, with what it hands out, takes back or reserves. -/
def call (s : Sys) : Op → Option Sys
  | .reserve start stop =>
    (pmm_reserve_region s.pmm start stop).map fun p =>
      { s with pmm := p, reserved := (start.toNat, stop.toNat) :: s.reserved }
  | .alloc =>
    (pmm_alloc_page s.pmm).map fun
      | (p, none) => { s with pmm := p }
      | (p, some page) => { s with pmm := p, returned := page :: s.returned, allocated := page :: s.allocated }
  | .free page =>
    (pmm_free_page s.pmm page).map fun p => { s with pmm := p, allocated := s.allocated.filter (· ≠ page) }

/-- A call, if nothing has gone out of bounds before. -/
def step (s : Option Sys) (op : Op) : Option Sys := s.bind fun s => call s op

/-! ## What callers rely on -/

/-- The page at `page` shares a byte with the region. -/
def Overlaps (page : UInt32) (r : ℕ × ℕ) : Prop := max page.toNat r.1 < min (page.toNat + 4096) r.2
deriving Decidable

def Tag.entries : Tag → List Entry
  | .mmap entries => entries
  | _ => []

/-- The regions that the memory map calls usable. -/
def Boot.usable (b : Boot) : List Entry := (b.tags.flatMap Tag.entries).filter fun e => e.type = 1

/-- The whole page lies in the region. -/
def Entry.Contains (e : Entry) (page : UInt32) : Prop :=
  e.addr.toNat ≤ page.toNat ∧ page.toNat + 4096 ≤ e.addr.toNat + e.len.toNat

/-- What a page handed out in the state `s` must satisfy. -/
structure GoodPage (b : Boot) (s : Sys) (page : UInt32) : Prop where
  fresh : page ∉ s.allocated
  unreserved : ∀ r ∈ s.reserved, ¬ Overlaps page r
  usable : ∃ e ∈ b.usable, e.Contains page

/-- The call stays inside the bitmap, and what it hands out is a good page. -/
def Sound (b : Boot) (s : Option Sys) (op : Op) : Prop :=
  ∃ s₀, s = some s₀ ∧ (call s₀ op).isSome ∧
    (op = .alloc → ∀ p page, pmm_alloc_page s₀.pmm = some (p, some page) → GoodPage b s₀ page)

/-- Only pages that were handed out are freed. -/
def FreesReturned (s : Option Sys) : Op → Prop
  | .free page => ∃ s₀ ∈ s, page ∈ s₀.returned
  | _ => True

/-- Rounding up the end of the region does not wrap. -/
def Fits (r : ℕ × ℕ) : Prop := r.2 ≤ r.1 ∨ r.2 + 4095 < 2 ^ 32
deriving Decidable

/-- Usable regions start at a page, and regions to reserve end more than a page below 4 GiB. -/
structure Boot.Regular (b : Boot) : Prop where
  aligned : ∀ e ∈ b.usable, e.addr % 4096 = 0
  fits : ∀ r ∈ b.regions, Fits r

/-- A region to reserve ends more than a page below 4 GiB, a page given back is in no reserved region, and an allocation
finds a page or the bitmap has a bit for every page. -/
def Careful (s : Option Sys) : Op → Prop
  | .reserve start stop => Fits (start.toNat, stop.toNat)
  | .free page => ∀ s₀ ∈ s, ∀ r ∈ s₀.reserved, ¬ Overlaps page r
  | .alloc => ∀ s₀ ∈ s, s₀.pmm.max_physical_page.toNat ≤ MAX_PAGES ∨
      ∃ p < MAX_PAGES, s₀.pmm.pmm_bitmap.bitTest p = false

instance (s : Option Sys) : (op : Op) → Decidable (FreesReturned s op)
  | .free page => inferInstanceAs (Decidable (∃ s₀ ∈ s, page ∈ s₀.returned))
  | .alloc | .reserve _ _ => inferInstanceAs (Decidable True)

instance (s : Option Sys) : (op : Op) → Decidable (Careful s op)
  | .reserve start stop => inferInstanceAs (Decidable (Fits (start.toNat, stop.toNat)))
  | .free page => inferInstanceAs (Decidable (∀ s₀ ∈ s, ∀ r ∈ s₀.reserved, ¬ Overlaps page r))
  | .alloc => inferInstanceAs (Decidable (∀ s₀ ∈ s, s₀.pmm.max_physical_page.toNat ≤ MAX_PAGES ∨
      ∃ p < MAX_PAGES, s₀.pmm.pmm_bitmap.bitTest p = false))

end Orion.Pmm
