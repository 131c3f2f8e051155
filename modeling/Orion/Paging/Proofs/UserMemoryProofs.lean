import Orion.Lib.Words
import Orion.Paging.UserMemory

/-!
# What the check of a user buffer establishes

The entries of an address depend on its page only; so an accepted buffer is one whose bytes can all be translated.
-/

namespace Orion.Paging

open Lib

variable {m : Mmu} {d : PageDir} {a b : UInt32}

theorem toNat_pageOf (a : UInt32) : (pageOf a).toNat = 4096 * (a.toNat / 4096) := by
  unfold pageOf
  rw [UInt32.toNat_and]
  exact and_high_bits (x := a.toNat) (k := 12) (n := 32) a.toNat_lt (by norm_num)

theorem toNat_dirIdx (a : UInt32) : (dirIdx a).val = a.toNat / 2 ^ 22 % 1024 := by
  show (a >>> 22).toNat % 1024 = _
  rw [UInt32.toNat_shiftRight, Nat.shiftRight_eq_div_pow]
  rfl

theorem toNat_tableIdx (a : UInt32) : (tableIdx a).val = a.toNat / 4096 % 1024 := by
  show ((a >>> 12) &&& 0x3FF).toNat % 1024 = _
  have hmask : (0x3FF : UInt32).toNat = 2 ^ 10 - 1 := rfl
  rw [UInt32.toNat_and, hmask, Nat.and_two_pow_sub_one_eq_mod, UInt32.toNat_shiftRight, Nat.shiftRight_eq_div_pow]
  show a.toNat / 2 ^ 12 % 2 ^ 10 % 1024 = _
  omega

theorem entries_of_page (h : a.toNat / 4096 = b.toNat / 4096) : dirIdx a = dirIdx b ∧ tableIdx a = tableIdx b := by
  constructor
  · apply Fin.ext
    rw [toNat_dirIdx, toNat_dirIdx]
    omega
  · apply Fin.ext
    rw [toNat_tableIdx, toNat_tableIdx, h]

theorem present_of_page (h : a.toNat / 4096 = b.toNat / 4096) : d.Present a ↔ d.Present b := by
  obtain ⟨hdir, htable⟩ := entries_of_page h
  unfold PageDir.Present PageDir.dirEntry PageDir.tableEntry
  rw [hdir, htable]

theorem translates_iff (a : UInt32) : (vmm_virt_to_phys m a).isNone = false ↔ m.enabled = false ∨ m.dir.Present a := by
  unfold vmm_virt_to_phys PageDir.Present
  rcases m.enabled with _ | _
  · simp
  by_cases hdir : m.dir.dirEntry a &&& PAGE_PRESENT = 0
  · simp [hdir]
  · by_cases htable : m.dir.tableEntry a &&& PAGE_PRESENT = 0
    · simp [hdir, htable]
    · simp [hdir, htable]

/-- All pages from number `p` to number `q` can be translated. -/
def PagesTranslate (m : Mmu) (p q : Nat) : Prop :=
  ∀ k, p ≤ k → k ≤ q → (vmm_virt_to_phys m (UInt32.ofNat (4096 * k))).isNone = false

/-- The loop, by induction on its turns, from page `p` to page `q`, with enough turns left. -/
theorem validateLoop_spec {n p q : Nat} {page end_page : UInt32} (hpage : page.toNat = 4096 * p)
    (hend : end_page.toNat = 4096 * q) (hle : p ≤ q) (hn : q - p < n) :
    (PagesTranslate m p q ∧ validateLoop m end_page n page = some 0) ∨
      (¬ PagesTranslate m p q ∧ validateLoop m end_page n page = some (-1)) := by
  induction n generalizing p page with
  | zero => omega
  | succ n ih =>
    have hq := end_page.toNat_lt
    have hofNat : UInt32.ofNat (4096 * p) = page := by rw [← hpage, UInt32.ofNat_toNat]
    unfold validateLoop
    by_cases hnone : (vmm_virt_to_phys m page).isNone = true
    · right
      refine ⟨fun hall => ?_, by rw [if_pos hnone]⟩
      have hp := hall p le_rfl hle
      rw [hofNat, hnone] at hp
      exact Bool.noConfusion hp
    · have hsome : (vmm_virt_to_phys m page).isNone = false := Bool.eq_false_of_not_eq_true hnone
      rw [if_neg hnone]
      by_cases hpq : p = q
      · left
        have heq : page = end_page := by
          apply UInt32.toNat_inj.mp
          rw [hpage, hend, hpq]
        refine ⟨fun k hk hk' => ?_, by rw [if_pos heq]⟩
        have hkp : k = p := by omega
        rw [hkp, hofNat]
        exact hsome
      · -- the next page is still below the end, so that the addition does not wrap
        have hne : page ≠ end_page := by
          intro heq
          rw [heq, hend] at hpage
          omega
        have hnext : (page + PAGE_SIZE).toNat = 4096 * (p + 1) := by
          rw [UInt32.toNat_add, hpage]
          show (4096 * p + 4096) % 2 ^ 32 = _
          omega
        have hnowrap : ¬ page + PAGE_SIZE < page := by
          rw [UInt32.lt_iff_toNat_lt, hnext, hpage]
          omega
        rw [if_neg hne, if_neg hnowrap]
        have hsplit : PagesTranslate m p q ↔ PagesTranslate m (p + 1) q := by
          constructor
          · intro hall k hk hk'
            exact hall k (by omega) hk'
          intro hall k hk hk'
          by_cases hkp : k = p
          · rw [hkp, hofNat]
            exact hsome
          · exact hall k (by omega) hk'
        rw [hsplit]
        exact ih hnext (by omega) (by omega)

theorem pagesTranslate_iff (lo hi : Nat) (hle : lo ≤ hi) (hhi : hi < 2 ^ 32) :
    PagesTranslate m (lo / 4096) (hi / 4096) ↔
      ∀ b, lo ≤ b → b < hi + 1 → m.enabled = false ∨ m.dir.Present (UInt32.ofNat b) := by
  have hofNat : ∀ b, b < 2 ^ 32 → (UInt32.ofNat b).toNat = b := fun b hb => UInt32.toNat_ofNat_of_lt' hb
  have hpage : ∀ b k, b < 2 ^ 32 → k = b / 4096 →
      (m.dir.Present (UInt32.ofNat (4096 * k)) ↔ m.dir.Present (UInt32.ofNat b)) := by
    intro b k hb hk
    refine present_of_page ?_
    rw [hofNat b hb, hofNat _ (by omega)]
    omega
  constructor
  · intro hall b hlo hb
    rw [← hpage b (b / 4096) (by omega) rfl]
    exact (translates_iff _).mp (hall (b / 4096) (Nat.div_le_div_right hlo) (Nat.div_le_div_right (by omega)))
  · intro hall k hk hk'
    refine (translates_iff _).mpr ?_
    -- the first byte of the buffer in page `k`
    have hb := hall (max lo (4096 * k)) (le_max_left _ _) (by omega)
    rwa [← hpage (max lo (4096 * k)) k (by omega) (by omega)] at hb

/-- `validate_user_buffer` always returns, and accepts the empty buffers and those that start above 0, do not wrap
around and can be translated. -/
theorem validate_spec (m : Mmu) (addr size : UInt32) : validate_user_buffer m addr size = some 0 ∧
        (size = 0 ∨ addr ≠ 0 ∧ addr.toNat + size.toNat ≤ 2 ^ 32 ∧ ∀ b, addr.toNat ≤ b → b < addr.toNat + size.toNat →
            m.enabled = false ∨ m.dir.Present (UInt32.ofNat b)) ∨
      validate_user_buffer m addr size = some (-1) ∧ ¬ (size = 0 ∨ addr ≠ 0 ∧ addr.toNat + size.toNat ≤ 2 ^ 32 ∧
          ∀ b, addr.toNat ≤ b → b < addr.toNat + size.toNat → m.enabled = false ∨ m.dir.Present (UInt32.ofNat b)) := by
  unfold validate_user_buffer
  by_cases hsize : size = 0
  · exact Or.inl ⟨if_pos hsize, Or.inl hsize⟩
  rw [if_neg hsize]
  by_cases haddr : addr = 0
  · refine Or.inr ⟨if_pos haddr, ?_⟩
    rintro (h | ⟨h, -⟩)
    · exact hsize h
    · exact h haddr
  rw [if_neg haddr]
  have hpos : 0 < size.toNat := by
    rw [Nat.pos_iff_ne_zero]
    exact fun h => hsize (UInt32.toNat_inj.mp h)
  have hslt := size.toNat_lt
  have halt := addr.toNat_lt
  have hlast : (addr + size - 1).toNat = (addr.toNat + size.toNat - 1) % 2 ^ 32 := by
    rw [UInt32.toNat_sub, UInt32.toNat_add]
    show (2 ^ 32 - 1 + (addr.toNat + size.toNat) % 2 ^ 32) % 2 ^ 32 = _
    omega
  dsimp only
  by_cases hwrap : addr + size - 1 < addr
  · refine Or.inr ⟨if_pos hwrap, ?_⟩
    rintro (h | ⟨-, h, -⟩)
    · exact hsize h
    · rw [UInt32.lt_iff_toNat_lt, hlast] at hwrap
      omega
  rw [if_neg hwrap]
  have hfit : addr.toNat + size.toNat ≤ 2 ^ 32 := by
    rw [UInt32.lt_iff_toNat_lt, hlast] at hwrap
    omega
  have hlast : (addr + size - 1).toNat = addr.toNat + size.toNat - 1 := by omega
  have hend : (pageOf (addr + size - 1)).toNat = 4096 * ((addr.toNat + size.toNat - 1) / 4096) := by
    rw [toNat_pageOf, hlast]
  have hbytes := pagesTranslate_iff (m := m) addr.toNat (addr.toNat + size.toNat - 1) (by omega) (by omega)
  rw [Nat.sub_add_cancel (by omega)] at hbytes
  rcases validateLoop_spec (m := m) (n := 2 ^ 20) (toNat_pageOf addr) hend
      (Nat.div_le_div_right (by omega)) (by omega) with ⟨hall, heq⟩ | ⟨hall, heq⟩
  · exact Or.inl ⟨heq, Or.inr ⟨haddr, hfit, hbytes.mp hall⟩⟩
  refine Or.inr ⟨heq, ?_⟩
  rintro (h | ⟨-, -, h⟩)
  · exact hsize h
  · exact hall (hbytes.mpr h)

/-- An accepted buffer is one that user code may access, unless a page of it is not for user code. -/
theorem validate_sound_iff (m : Mmu) (addr size : UInt32) :
    (validate_user_buffer m addr size = some 0 → UserBuffer m.dir addr size) ↔ ¬ ReachesKernelPage m addr size := by
  constructor
  · rintro hsound ⟨haddr, hfit, hall, b, hlo, hhi, hkernel⟩
    rcases validate_spec m addr size with ⟨hok, -⟩ | ⟨-, hno⟩
    · exact hkernel ((hsound hok).2 b hlo hhi)
    · exact hno (Or.inr ⟨haddr, hfit, hall⟩)
  · intro hclear hok
    rcases validate_spec m addr size with ⟨-, hsize | ⟨haddr, hfit, hall⟩⟩ | ⟨hno, -⟩
    · subst hsize
      refine ⟨?_, fun b hlo hhi => ?_⟩
      · have := addr.toNat_lt
        show addr.toNat + 0 ≤ 2 ^ 32
        omega
      · have : b < addr.toNat + 0 := hhi
        omega
    · refine ⟨hfit, fun b hlo hhi => ?_⟩
      by_contra hkernel
      exact hclear ⟨haddr, hfit, hall, b, hlo, hhi, hkernel⟩
    · rw [hno] at hok
      cases hok

/-- A directory that maps the first 4 MB for the kernel alone. -/
def kernelDir : PageDir where
  pde i := if i.val = 0 then PAGE_PRESENT ||| PAGE_RW else 0
  pte _ _ := PAGE_PRESENT ||| PAGE_RW

theorem validate_accepts_kernel_page :
    validate_user_buffer ⟨true, kernelDir⟩ 0x1000 1 = some 0 ∧ ¬ UserBuffer kernelDir 0x1000 1 := by
  constructor
  · decide +kernel
  rintro ⟨-, hall⟩
  have hpage := hall 0x1000 (by decide) (by decide)
  revert hpage
  decide +kernel

end Orion.Paging
