import Orion.Elf.Proofs.AccessProofs
import Orion.Space.Placement

/-!
# Programs can be loaded over the stack, and position-independent ones wear their space out

A load that succeeds lies in the user area, but only the file and the loads before it decide whether it misses the
stack.
-/

namespace Orion.Space

open Elf Proc Lib

theorem toNat_alignDown (x : UInt32) : (alignDown x).toNat = roundDown x.toNat := by
  rw [alignDown, toNat_and_not_pred (a := PAGE_SIZE) (k := 12) rfl, roundDown, mul_comm]
  rfl

theorem toNat_alignUp_of_ne {x : UInt32} (hne : alignUp x PAGE_SIZE ≠ 0) : (alignUp x PAGE_SIZE).toNat = roundUp x.toNat := by
  have hle := le_alignUp hne
  have hlt := alignUp_lt x
  have hdvd : 4096 ∣ (alignUp x PAGE_SIZE).toNat := dvd_alignUp (a := PAGE_SIZE) (k := 12) rfl x
  rw [roundUp]
  omega

theorem alignUp_eq_zero_iff (x : UInt32) : alignUp x PAGE_SIZE = 0 ↔ roundUp x.toNat = 0 ∨ roundUp x.toNat = 2 ^ 32 := by
  have hx := x.toNat_lt
  have hdvd : 4096 ∣ (alignUp x PAGE_SIZE).toNat := dvd_alignUp (a := PAGE_SIZE) (k := 12) rfl x
  constructor
  · intro hzero
    by_contra hnot
    have hpage : PAGE_SIZE.toNat = 2 ^ 12 := rfl
    have hspec := alignUp_spec (x := x) hpage (by rw [roundUp] at hnot; omega)
    rw [hzero, UInt32.toNat_zero] at hspec
    rw [roundUp] at hnot
    omega
  · intro hround
    by_contra hne
    have heq := toNat_alignUp_of_ne hne
    have hlt := (alignUp x PAGE_SIZE).toNat_lt
    rw [← UInt32.toNat_inj, UInt32.toNat_zero] at hne
    omega

theorem toNat_max_if (a b : UInt32) : (if a < b then b else a).toNat = max a.toNat b.toNat := by
  split
  · rename_i hlt
    rw [UInt32.lt_iff_toNat_lt] at hlt
    omega
  · rename_i hle
    rw [UInt32.lt_iff_toNat_lt] at hle
    omega

theorem choose_pie_base_spec (next_pie image_size min_base : UInt32) :
    ((choose_pie_base next_pie image_size min_base).1 = 0 ∧ (max next_pie.toNat min_base.toNat = 0 ∨
        ELF_USER_VADDR_MAX.toNat + 1 < roundUp (max next_pie.toNat min_base.toNat) + image_size.toNat)) ∨
    ((choose_pie_base next_pie image_size min_base).1 ≠ 0 ∧
      (choose_pie_base next_pie image_size min_base).1.toNat = roundUp (max next_pie.toNat min_base.toNat) ∧
      roundUp (max next_pie.toNat min_base.toNat) + image_size.toNat ≤ ELF_USER_VADDR_MAX.toNat + 1) := by
  have hmax : ELF_USER_VADDR_MAX.toNat = 0xBFFFFFFF := rfl
  have hup := toNat_max_if next_pie min_base
  unfold choose_pie_base
  generalize (if next_pie < min_base then min_base else next_pie) = low at hup ⊢
  rw [← hup]
  dsimp only
  by_cases hzero : alignUp low PAGE_SIZE = 0
  · have hround := (alignUp_eq_zero_iff low).mp hzero
    refine .inl ⟨?_, ?_⟩
    · split
      · rfl
      · exact hzero
    · rw [roundUp] at hround ⊢
      omega
  · rw [toNat_alignUp_of_ne hzero]
    split
    · rename_i hover
      exact .inl ⟨rfl, .inr hover⟩
    · rename_i hover
      exact .inr ⟨hzero, toNat_alignUp_of_ne hzero, not_lt.mp hover⟩

theorem getsBase_iff (next_pie : UInt32) (r : PieRequest) : GetsBase next_pie r ↔ StillFits next_pie r := by
  refine imp_congr_right fun hfits => ?_
  obtain ⟨hmin, hend⟩ := hfits
  change 0x08000000 ≤ _ at hmin
  rcases choose_pie_base_spec next_pie r.image_size r.min_base with ⟨hzero, hfail⟩ | ⟨hne, heq, hok⟩
  · refine iff_of_false (fun h => h.1 hzero) ?_
    omega
  refine iff_of_true ⟨hne, ?_, ?_⟩ hok
  · rw [heq, roundUp]
    omega
  · rw [heq]
    exact hok

/-- After any loads, an image that fits into the user area gets a base exactly if it also fits behind all images ever
loaded. -/
theorem gets_base_after_loads_iff (history : List PieRequest) (r : PieRequest) :
    GetsBase (exec pieStep ELF_USER_VADDR_MIN history) r ↔ StillFits (exec pieStep ELF_USER_VADDR_MIN history) r :=
  getsBase_iff _ r

def largePie : PieRequest := ⟨0x2000000, ELF_USER_VADDR_MIN⟩

/-- After 91 loads of an image of 32 MiB there is no base for it. -/
theorem large_pie_gets_no_base : ¬GetsBase (exec pieStep ELF_USER_VADDR_MIN (List.replicate 91 largePie)) largePie := by
  intro h
  have hzero : (choose_pie_base (exec pieStep ELF_USER_VADDR_MIN (List.replicate 91 largePie)) largePie.image_size
      largePie.min_base).1 = 0 := by decide +kernel
  exact (h ⟨by decide, by decide⟩).1 hzero

theorem loadsApart_of_clear {next_pie : UInt32} {l : Load} (hclear : ClearOfStack next_pie l) : LoadsApart next_pie l := by
  intro img hok
  obtain ⟨e, hmeasure, hlow, hhigh, hsize, hne, -, -, -, hplace⟩ := elf_load_image_ok hok
  have hmax : ELF_USER_VADDR_MAX.toNat = 0xBFFFFFFF := rfl
  have hmin : ELF_USER_VADDR_MIN.toNat = 0x08000000 := rfl
  have hclear := hclear e hmeasure
  have hbase := toNat_alignDown e.min_vaddr
  have hle : alignDown e.min_vaddr ≤ e.max_vaddr := by
    rw [UInt32.le_iff_toNat_le, hbase, roundDown]
    omega
  have hlength : img.image_size.toNat = roundUp (e.max_vaddr.toNat - roundDown e.min_vaddr.toNat) := by
    rw [hsize] at hne ⊢
    rw [toNat_alignUp_of_ne hne, UInt32.toNat_sub_of_le _ _ hle, hbase]
  dsimp only at hclear
  rw [← hlength] at hclear
  rcases hplace with ⟨hpie, hload, heq⟩ | ⟨hfixed, heq, hfirst, hlast⟩
  · rw [if_pos hpie] at hclear
    rcases choose_pie_base_spec next_pie img.image_size (if alignDown e.min_vaddr < ELF_USER_VADDR_MIN then
      ELF_USER_VADDR_MIN else alignDown e.min_vaddr) with ⟨hzero, -⟩ | ⟨-, hat, hend⟩
    · exact absurd (heq.trans hzero) hload
    rw [toNat_max_if, hbase] at hat hend
    rw [heq, hat]
    refine ⟨?_, hend, hclear⟩
    rw [roundUp]
    omega
  · rw [if_neg hfixed] at hclear
    rw [heq, hbase]
    refine ⟨?_, ?_, hclear⟩
    · rw [roundDown]
      omega
    · rw [hlength, roundUp, roundDown]
      omega

/-- In every history of loads clear of the stack, every loaded image lies in the user area and apart from the stack. -/
theorem loads_apart_throughout (loads : List Load) (hclear : EachStep loadStep ClearOfStack ELF_USER_VADDR_MIN loads) :
    EachStep loadStep LoadsApart ELF_USER_VADDR_MIN loads :=
  eachStep_of_inv (J := fun _ _ => True) (fun _ _ _ _ _ => trivial) (fun _ _ _ _ h => loadsApart_of_clear h) trivial hclear

def onePage (vaddr : List UInt8) : Load where
  kmalloc _ := 0xC1000000
  file := Bytes.ofList ([0x7F, 0x45, 0x4C, 0x46, 1, 1, 1, 0, 0, 0, 0, 0, 0, 0, 0, 0, 2, 0, 3, 0, 1, 0, 0, 0] ++ vaddr ++
    [52, 0, 0, 0, 0, 0, 0, 0, 0, 0, 0, 0, 52, 0, 32, 0, 1, 0, 0, 0, 0, 0, 0, 0, 1, 0, 0, 0, 0, 0, 0, 0] ++ vaddr ++
    [0, 0, 0, 0, 0, 0, 0, 0, 0, 0x10, 0, 0, 0, 0, 0, 0, 0, 0, 0, 0])
  size := 84

theorem loads_apart_low : EachStep loadStep LoadsApart ELF_USER_VADDR_MIN [onePage [0, 0, 0, 8]] := by
  refine loads_apart_throughout [onePage [0, 0, 0, 8]] ⟨fun e he => ?_, trivial⟩
  have hmeasure : (readPhdrs (onePage [0, 0, 0, 8]).file (readEhdr (onePage [0, 0, 0, 8]).file)).foldlM
      (measureSegment (onePage [0, 0, 0, 8]).size) ⟨0xFFFFFFFF, 0⟩ = .ok ⟨0x08000000, 0x08001000⟩ := by rfl
  obtain rfl := Except.ok.inj (hmeasure.symm.trans he)
  have htype : (readEhdr (onePage [0, 0, 0, 8]).file).e_type ≠ ET_DYN := by decide
  dsimp only
  rw [if_neg htype]
  decide

/-- A program whose page is the lowest one of the stack is loaded there. -/
theorem loaded_over_stack : ¬EachStep loadStep LoadsApart ELF_USER_VADDR_MIN [onePage [0, 0xC0, 0xEF, 0xBF]] := by
  rintro ⟨h, -⟩
  have hload : ((onePage [0, 0xC0, 0xEF, 0xBF]).run ELF_USER_VADDR_MIN).1.toOption.map (fun img =>
      (img.load_base, img.image_size)) = some (0xBFEFC000, 0x1000) := by decide +kernel
  rcases hrun : ((onePage [0, 0xC0, 0xEF, 0xBF]).run ELF_USER_VADDR_MIN).1 with e | img
  · rw [hrun] at hload
    cases hload
  rw [hrun] at hload
  obtain ⟨hbase, hsize⟩ := Prod.mk.inj (Option.some.inj hload)
  have hapart := (h img hrun).2.2
  rw [hbase, hsize] at hapart
  exact absurd hapart (by decide)

end Orion.Space
