import Orion.Elf.Proofs.AccessProofs
import Orion.Paging.Proofs.MapProofs
import Orion.Space.Residue

/-!
# Residue in a new process

The bytes of the stack are determined by the arguments. So what two runs can differ in is the image, and that depends
on the heap only through bytes of the file that were not read from the disk.
-/

namespace Orion.Space

open Paging Proc Elf Lib
open Option (some.inj map_some)

variable {img : LoadedImage} {heap : UInt32 → UInt8} {p p' : NewProcess} {env : CreateEnv} {heap heap' : UInt32 → UInt8}
  {base : UInt32} {k n : ℕ}

theorem and_and_user (x : UInt32) : x &&& 0xFFFFF000 &&& PAGE_USER = 0 := by
  rw [UInt32.and_assoc, show (0xFFFFF000 : UInt32) &&& PAGE_USER = 0 from by decide, UInt32.and_zero]

theorem new_dir_no_user (kernel : KernelSpace) (phys : UInt32) (copies : Fin 1024 → UInt32) (key : PageKey) :
    ¬UserEntry (paging_create_user_dir kernel.toPageDir phys copies) key := by
  rintro ⟨-, -, huser⟩
  apply huser
  unfold paging_create_user_dir
  dsimp only
  split
  · dsimp only
    split
    · split
      · decide
      · rw [or_and_distrib, and_and_user, UInt32.and_assoc _ (~~~PAGE_USER),
          show ~~~PAGE_USER &&& PAGE_USER = 0 from by decide, UInt32.and_zero]
        decide
    · split
      · decide
      · split
        · exact kernel.no_user_dir _
        · rw [or_and_distrib, or_and_distrib, and_and_user]
          decide
  · exact kernel.no_user _ _

section Pending

variable (env : CreateEnv) {key : PageKey}

theorem pending_tracks : Tracks (paging_create_user_dir env.kernel.toPageDir env.dir_phys env.copies) env.pending :=
  Tracks.start.mapPages _ _ _ _

theorem pending_allEntered : AllEntered env.pending := by
  refine AllEntered.mapPages (fun key hentry => ?_) _ _ _ _
  exact absurd hentry (new_dir_no_user env.kernel _ _ key)

theorem pending_frame {frame : UInt32} (h : env.pending.entered.lookup key = some frame) :
    ∃ k < pageCount PROC_STACK_SIZE, frame = pageAt env.stack_kern k &&& 0xFFFFF000 := by
  rcases mapPages_frame id h with hnil | hstack
  · cases hnil
  · exact hstack

theorem userFrame_image (img : LoadedImage) (key : PageKey) :
    (mapBuffer id img.image_size img.load_base img.image_base env.pending).dir.userFrame key =
      (mapBuffer id img.image_size img.load_base img.image_base env.pending).entered.lookup key :=
  ((pending_allEntered env).mapPages _ _ _ _).userFrame ((pending_tracks env).mapPages _ _ _ _) key

end Pending

theorem toNat_pageAt (hk : k < n) (hfits : base.toNat + 4096 * n ≤ 2 ^ 32) :
    (pageAt base k).toNat = base.toNat + 4096 * k := by
  have hmul : (PAGE_SIZE * UInt32.ofNat k).toNat = 4096 * k := by
    rw [UInt32.toNat_mul, UInt32.toNat_ofNat', Nat.mod_eq_of_lt (show k < 2 ^ 32 by omega)]
    exact Nat.mod_eq_of_lt (by show 4096 * k < 2 ^ 32; omega)
  rw [pageAt, UInt32.toNat_add, hmul, Nat.mod_eq_of_lt (by omega)]

theorem page_byte_bounds (hk : k < n) (haligned : base.toNat % 4096 = 0)
    (hfits : base.toNat + 4096 * n ≤ 2 ^ 32) (virt : UInt32) :
    base.toNat ≤ ((pageAt base k &&& 0xFFFFF000) + (virt &&& 0xFFF)).toNat ∧
      ((pageAt base k &&& 0xFFFFF000) + (virt &&& 0xFFF)).toNat < base.toNat + 4096 * n := by
  have hpage : (4096 : UInt32).toNat = 2 ^ 12 := rfl
  have hmask : (pageAt base k &&& 0xFFFFF000).toNat = base.toNat + 4096 * k := by
    have hround := toNat_and_not_pred hpage (pageAt base k)
    rw [show ~~~((4096 : UInt32) - 1) = 0xFFFFF000 from by decide, toNat_pageAt hk hfits,
      show (4096 : UInt32).toNat = 4096 from rfl] at hround
    omega
  have hoffset : (virt &&& 0xFFF).toNat < 4096 := by
    rw [UInt32.toNat_and]
    exact lt_of_le_of_lt Nat.and_le_right (by decide)
  rw [UInt32.toNat_add, hmask, Nat.mod_eq_of_lt (by omega)]
  omega

theorem stack_byte_bounds (env : CreateEnv) (hk : k < pageCount PROC_STACK_SIZE) (virt : UInt32) :
    env.stack_kern.toNat ≤ ((pageAt env.stack_kern k &&& 0xFFFFF000) + (virt &&& 0xFFF)).toNat ∧
      ((pageAt env.stack_kern k &&& 0xFFFFF000) + (virt &&& 0xFFF)).toNat <
        env.stack_kern.toNat + PROC_STACK_SIZE.toNat := by
  have hsize : PROC_STACK_SIZE.toNat = 4096 * pageCount PROC_STACK_SIZE := by decide
  rw [hsize]
  exact page_byte_bounds hk env.stack_aligned (hsize ▸ env.stack_fits) virt

/-- An image is in the buffer that `kmalloc` returned for it and consists of whole pages. -/
structure InBuffer (kmalloc : UInt32 → UInt32) (img : LoadedImage) : Prop where
  base : img.image_base = kmalloc img.image_size
  alloc : kmalloc img.image_size ≠ 0
  pages : 4096 ∣ img.image_size.toNat

theorem elf_load_image_base {kmalloc : UInt32 → UInt32} {next_pie size : UInt32} {file : Bytes}
    (h : (elf_load_image kmalloc next_pie file size).1 = .ok img) : InBuffer kmalloc img := by
  obtain ⟨e, -, -, -, hsize, -, hbase, halloc, -⟩ := elf_load_image_ok h
  refine ⟨hbase, halloc, ?_⟩
  rw [hsize]
  exact dvd_alignUp (show PAGE_SIZE.toNat = 2 ^ 12 from rfl) _

theorem loadProgram_base (h : loadProgram env heap = some img) : InBuffer env.kmalloc img := by
  unfold loadProgram at h
  split at h
  · unfold loadFlat at h
    dsimp only at h
    split at h
    · cases h
    split at h
    · cases h
    rename_i halloc
    obtain rfl := some.inj h
    refine ⟨rfl, halloc, ?_⟩
    have hround := toNat_and_not_pred (show (4096 : UInt32).toNat = 2 ^ 12 from rfl) (env.size + 0xFFF)
    rw [show ~~~((4096 : UInt32) - 1) = ~~~0xFFF from by decide] at hround
    exact ⟨_, hround⟩
  · split at h
    · cases h
    · rename_i img' himg
      obtain rfl := some.inj h
      exact elf_load_image_base himg

theorem byteAt_image {addr : UInt32} (hlow : p.image.image_base.toNat ≤ addr.toNat)
    (hhigh : addr.toNat < p.image.image_base.toNat + p.image.image_size.toNat) :
    p.byteAt addr = p.image.bytes (addr.toNat - p.image.image_base.toNat) := by
  unfold NewProcess.byteAt
  exact if_pos ⟨hlow, hhigh⟩

section

variable (h : createWith env heap = some p)

include h

theorem createWith_some :
    loadProgram env heap = some p.image ∧ p.stack_kern = env.stack_kern ∧
      p.dir = (mapBuffer id p.image.image_size p.image.load_base p.image.image_base env.pending).dir ∧
      ∃ esp, setup_user_stack (USER_STACK_TOP - PROC_STACK_SIZE) env.stack_kern env.argv env.args_alloc =
        some (esp, p.stack) := by
  unfold createWith at h
  split at h
  · cases h
  split at h
  · cases h
  split at h
  · cases h
  · rename_i img himg _ esp stack hstack
    obtain rfl := some.inj h
    exact ⟨himg, rfl, rfl, esp, hstack⟩

theorem byteAt_stack {addr : UInt32} (hlow : env.stack_kern.toNat ≤ addr.toNat)
    (hhigh : addr.toNat < env.stack_kern.toNat + PROC_STACK_SIZE.toNat) :
    p.byteAt addr = p.stack (addr.toNat - env.stack_kern.toNat) := by
  obtain ⟨himg, hkern, -, -⟩ := createWith_some h
  have hbuffer := loadProgram_base himg
  have hapart := env.image_apart p.image.image_size hbuffer.alloc
  unfold NewProcess.byteAt
  rw [hbuffer.base, hkern, if_neg (by omega), if_pos ⟨hlow, hhigh⟩]

theorem createWith_stack (h' : createWith env heap' = some p') : p.stack = p'.stack := by
  obtain ⟨-, -, -, esp, hstack⟩ := createWith_some h
  obtain ⟨-, -, -, esp', hstack'⟩ := createWith_some h'
  rw [hstack] at hstack'
  exact congrArg Prod.snd (some.inj hstack')

end

theorem loadProgram_congr (hfile : env.Delivered) (heap heap' : UInt32 → UInt8) :
    loadProgram env heap = loadProgram env heap' := by
  have hagree : Bytes.Agree (elfFile env heap) (elfFile env heap') 0 env.size.toNat := by
    intro k _ hk
    have hk : k < env.size.toNat := by omega
    obtain ⟨byte, hbyte⟩ := hfile.1 k hk
    simp only [elfFile, if_pos hk, hbyte]
  have hflat : loadFlat env heap = loadFlat env heap' := by
    have hbytes : (fun k => if k < env.size.toNat then flatFile env heap k else 0) =
        fun k => if k < env.size.toNat then flatFile env heap' k else 0 := by
      funext k
      split
      · rename_i hk
        unfold flatFile
        rw [if_pos hk]
        cases hbyte : env.flat k with
        | disk byte => rfl
        | unread addr => exact absurd hbyte (hfile.2 k hk addr)
        | missing => rfl
      · rfl
    unfold loadFlat
    rw [hbytes]
  unfold loadProgram
  by_cases hsmall : env.size.toNat < EHDR_SIZE
  · simp only [hsmall, decide_true, Bool.true_or, if_true]
    exact hflat
  rw [elf_ident_ok_congr hagree (by omega), hflat]
  by_cases hbase : env.file_base = 0
  · simp [hbase]
  · rw [elf_load_image_congr env.next_pie hagree (by omega) (env.file_fits hbase) fun n hn => (env.image_fits n hn).1]

/-- Two runs of a creation that differ in the bytes of the heap give processes that find the same bytes at every address,
if the bytes of the file came from the disk: the image depends on the heap only through those that did not, and the stack
not at all. -/
theorem userByte_of_delivered (env : CreateEnv) (hfile : env.Delivered) (heap heap' : UInt32 → UInt8)
    (p p' : NewProcess) (h : createWith env heap = some p) (h' : createWith env heap' = some p') (virt : UInt32) :
    p.userByte virt = p'.userByte virt := by
  obtain ⟨himg, -, hdir, -⟩ := createWith_some h
  obtain ⟨himg', -, hdir', -⟩ := createWith_some h'
  have hsame : p.image = p'.image := by
    rw [loadProgram_congr hfile heap heap', himg'] at himg
    exact (some.inj himg).symm
  have hbuffer := loadProgram_base himg
  have hfits := (env.image_fits _ hbuffer.alloc).2
  have haligned := env.image_aligned _ hbuffer.alloc
  rw [← hbuffer.base] at hfits haligned
  have hcount : 4096 * pageCount p.image.image_size = p.image.image_size.toNat := by
    obtain ⟨n, hn⟩ := hbuffer.pages
    rw [pageCount, hn]
    omega
  unfold NewProcess.userByte
  rw [hdir, hdir', ← hsame]
  cases hframe : (mapBuffer id p.image.image_size p.image.load_base p.image.image_base env.pending).dir.userFrame
      (pageKey virt) with
  | none => rfl
  | some frame =>
    have hlook := (userFrame_image env p.image (pageKey virt)).symm.trans hframe
    rw [map_some, map_some]
    rcases mapPages_frame id hlook with hstack | ⟨k, hk, rfl⟩
    · obtain ⟨k, hk, rfl⟩ := pending_frame env hstack
      obtain ⟨hlow, hhigh⟩ := stack_byte_bounds env hk virt
      rw [byteAt_stack h hlow hhigh, byteAt_stack h' hlow hhigh, createWith_stack h h']
    · obtain ⟨hlow, hhigh⟩ := page_byte_bounds hk haligned (by rw [hcount]; exact hfits) virt
      rw [hcount] at hhigh
      rw [id, byteAt_image hlow hhigh, byteAt_image (hsame ▸ hlow) (hsame ▸ hhigh), hsame]

def bareSpace : KernelSpace where
  pde _ := 0
  pte _ _ := 0
  no_user_dir _ := rfl
  no_user _ _ := rfl

/-- A program file of `size` bytes; the heap has room for an image of one page. -/
def fileEnv (size : UInt32) (hsize : size.toNat ≤ HEAP_SIZE) (file : ℕ → FileByte) : CreateEnv where
  kernel := bareSpace
  dir_phys := 0x1000
  copies _ := 0
  tables := [0x100000, 0x101000]
  stack_kern := 0xC1010000
  size := size
  file_base := 0xC1030000
  file_read := true
  file := file
  flat_read := true
  flat := file
  kmalloc := pageAlloc
  next_pie := ELF_USER_VADDR_MIN
  argv := [[0x61]]
  args_alloc := true
  stack_aligned := by decide
  stack_fits := by decide
  file_fits _ := hsize
  image_fits n hn := pageAlloc_ne hn ▸ by decide
  image_aligned n hn := pageAlloc_ne hn ▸ by decide
  image_apart n hn := pageAlloc_ne hn ▸ by decide

/-- An ELF file of 516 bytes, all of which are read from the disk. -/
def wholeElf : CreateEnv := fileEnv 516 (by decide) fun k => .disk (elfHeader.getD k 0)

/-- The same file with a chain of one cluster of 512 bytes. -/
def shortElf : CreateEnv :=
  fileEnv 516 (by decide) fun k => if k < 512 then .disk (elfHeader.getD k 0) else .missing

theorem userByte_of_delivered_wholeElf : ∃ p p', createWith wholeElf (fun _ => 0x11) = some p ∧
    createWith wholeElf (fun _ => 0x22) = some p' ∧ ∀ virt, p.userByte virt = p'.userByte virt := by
  obtain ⟨p, hp⟩ := Option.isSome_iff_exists.mp (show (createWith wholeElf fun _ => 0x11).isSome from by decide +kernel)
  obtain ⟨p', hp'⟩ := Option.isSome_iff_exists.mp (show (createWith wholeElf fun _ => 0x22).isSome from by decide +kernel)
  have hfile : wholeElf.Delivered := ⟨fun _ _ => ⟨_, rfl⟩, fun _ _ _ => FileByte.noConfusion⟩
  exact ⟨p, p', hp, hp', userByte_of_delivered wholeElf hfile _ _ p p' hp hp'⟩

/-- Of a short ELF file user code sees what the heap held before. -/
theorem short_elf_shows_residue : ∃ p p', createWith shortElf (fun _ => 0x11) = some p ∧
    createWith shortElf (fun _ => 0x22) = some p' ∧ p.userByte 0x08000200 = some 0x11 ∧
      p'.userByte 0x08000200 = some 0x22 := by
  have hbyte : ((createWith shortElf fun _ => 0x11).bind fun p => p.userByte 0x08000200) = some 0x11 := by
    decide +kernel
  have hbyte' : ((createWith shortElf fun _ => 0x22).bind fun p => p.userByte 0x08000200) = some 0x22 := by
    decide +kernel
  obtain ⟨p, hp, hseen⟩ := Option.bind_eq_some_iff.mp hbyte
  obtain ⟨p', hp', hseen'⟩ := Option.bind_eq_some_iff.mp hbyte'
  exact ⟨p, p', hp, hp', hseen, hseen'⟩

end Orion.Space
