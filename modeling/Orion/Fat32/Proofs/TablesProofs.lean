import Orion.Fat32.Tables

/-!
# Proofs: taking a cluster of a FAT32 volume

The two passes look at every entry from 3 on but for those of one sector, in front of the hint. The whole sector of the
first copy replaces those of the others.
-/

namespace Orion.Fat32

open Lib Fat List Function

namespace Tables

variable {t : Tables} {k : ℕ} {f j : ℕ}

theorem start_spec (t : Tables) : t.start = 3 ∨ 3 ≤ t.start ∧ t.start < t.size := by
  have hle : (128 * t.fat_sectors).toNat ≤ t.size := by
    rw [UInt32.toNat_mul]
    exact Nat.mod_le _ _
  unfold start
  split
  · exact .inl rfl
  rename_i hhint
  simp only [Bool.or_eq_true, decide_eq_true_eq, not_or, UInt32.lt_iff_toNat_lt, ge_iff_le, UInt32.le_iff_toNat_le,
    not_lt, not_le] at hhint
  change 3 ≤ _ ∧ _ at hhint
  exact .inr ⟨hhint.1, hhint.2.trans_le hle⟩

theorem mem_scanned : k ∈ t.scanned ↔ t.start ≤ k ∧ k < t.size ∨ 3 ≤ k ∧ k < t.start / 128 * 128 := by
  unfold scanned
  rw [mem_append, mem_range'_1, mem_range'_1]
  omega

theorem scanned_bounds (h : k ∈ t.scanned) : 3 ≤ k ∧ k < t.size := by
  have hstart := t.start_spec
  rw [mem_scanned] at h
  omega

theorem scanned_or_skipped (hlow : 3 ≤ k) (hhigh : k < t.size) :
    k ∈ t.scanned ∨ t.start / 128 * 128 ≤ k ∧ k < t.start := by
  rw [mem_scanned]
  omega

theorem mark_self {f : ℕ} (hf : f < t.copies.toNat) : t.mark k f k = 0x0FFFFFFF := by
  unfold mark
  rw [if_pos ⟨.inr hf, rfl⟩, if_pos rfl]

theorem mark_sector (hf : f < t.copies.toNat) (hj : j / 128 = k / 128) (hne : j ≠ k) : t.mark k f j = t.entry 0 j := by
  unfold mark
  rw [if_pos ⟨.inr hf, hj⟩, if_neg hne]

theorem mark_copy (hf : f < t.copies.toNat) (hj : j / 128 = k / 128) : t.mark k f j = t.mark k 0 j := by
  simp [mark, hf, hj]

theorem mark_outside (hj : j / 128 ≠ k / 128) : t.mark k f j = t.entry f j := by
  unfold mark
  exact if_neg fun h => hj h.2

theorem mark_of_same (hf : f < t.copies.toNat) (hsame : t.SameSector k) (hne : j ≠ k) : t.mark k f j = t.entry f j := by
  by_cases hj : j / 128 = k / 128
  · rw [mark_sector hf hj hne, hsame f hf j hj hne]
  · exact mark_outside hj

theorem mark_ne_of_free (hfree : t.free k = true) : t.mark k 0 k ≠ t.entry 0 k := by
  rw [mark_self t.copies_pos]
  intro heq
  unfold free at hfree
  rw [← heq] at hfree
  exact absurd hfree (by decide)

theorem alloc_none (hfind : t.scanned.find? t.free = none) : t.alloc_cluster = (0, t) := by
  unfold alloc_cluster
  rw [hfind]

theorem alloc_some (hfind : t.scanned.find? t.free = some k) :
    t.alloc_cluster = (UInt32.ofNat k, { t with entry := t.mark k, hint := UInt32.ofNat k + 1 }) := by
  unfold alloc_cluster
  rw [hfind]

theorem allocates_of_none (hfind : t.scanned.find? t.free = none) : t.Allocates ↔ t.NoneSkipped := by
  have hres := alloc_none hfind
  constructor
  · intro h k hsector hlow hstart hcount
    have hsize : k < t.size := by
      have hspec := t.start_spec
      omega
    exact (h.exhausted (by rw [hres])).1 k hlow hcount hsize
  · intro hskipped
    constructor
    · intro _
      refine ⟨fun k hlow hcount hsize => ?_, by rw [hres]⟩
      rcases scanned_or_skipped hlow hsize with hmem | ⟨hsector, hstart⟩
      · simpa using find?_eq_none.mp hfind k hmem
      · exact hskipped k hsector hlow hstart hcount
    · intro hne
      rw [hres] at hne
      exact absurd rfl hne

/-- Where an entry is found, the call is right if it belongs to a cluster and the copies agree around it. -/
theorem allocates_of_some (hfind : t.scanned.find? t.free = some k) :
    t.Allocates ↔ k < t.count + 2 ∧ t.SameSector k := by
  have hres := alloc_some hfind
  have hlow := (scanned_bounds (mem_of_find?_eq_some hfind)).1
  have hfree : t.free k = true := find?_some hfind
  have hcount := t.count_lt
  constructor
  · intro h
    -- the number that is returned is the one that was found
    have hnumber : t.alloc_cluster.1.toNat = k ∧ t.alloc_cluster.1 ≠ 0 := by
      by_cases hzero : t.alloc_cluster.1 = 0
      · have hsame := (h.exhausted hzero).2
        rw [hres] at hsame
        exact absurd (congrFun (congrFun hsame 0) k) (mark_ne_of_free hfree)
      · refine ⟨?_, hzero⟩
        by_contra hne
        have hsame := ((h.taken hzero).2.2 0 t.copies_pos).2 k (Ne.symm hne)
        rw [hres] at hsame
        exact mark_ne_of_free hfree hsame
    obtain ⟨-, hbound, hcopies⟩ := h.taken hnumber.2
    rw [hnumber.1] at hbound hcopies
    refine ⟨hbound, fun f hf j hj hne => ?_⟩
    have hsame := (hcopies f hf).2 j hne
    rw [hres] at hsame
    exact hsame.symm.trans (mark_sector hf hj hne)
  · rintro ⟨hbound, hsame⟩
    have hnumber : (UInt32.ofNat k).toNat = k := UInt32.toNat_ofNat_of_lt' (show k < 2 ^ 32 by omega)
    constructor
    · intro hzero
      rw [hres] at hzero
      have hnat := congrArg UInt32.toNat hzero
      rw [hnumber] at hnat
      change k = 0 at hnat
      omega
    · intro _
      rw [hres]
      rw [hnumber]
      exact ⟨hfree, hbound, fun f hf => ⟨mark_self hf, fun j hne => mark_of_same hf hsame hne⟩⟩

end Tables

/-- `fat32_alloc_cluster` is complete, stays in the volume and marks one entry exactly if the search skips no free entry
where it finds none, and finds a cluster where the copies agree. -/
theorem alloc_complete_iff (t : Tables) : t.Allocates ↔ t.Covered := by
  unfold Tables.Covered
  cases hfind : t.scanned.find? t.free with
  | none => exact Tables.allocates_of_none hfind
  | some k => exact Tables.allocates_of_some hfind

/-- A table of one sector: the entries in `used` are in use. -/
def oneSector (count : ℕ) (hcount : count + 2 < 2 ^ 32) (hint : UInt32) (used : ℕ → Bool) : Tables where
  fat_sectors := 1
  copies := 1
  copies_pos := by decide
  count := count
  count_lt := hcount
  entry _ k := if used k then 0x0FFFFFFF else 0
  hint := hint

/-- All entries but the one of the cluster 50 are in use, and the hint is 100. -/
def freeInFront : Tables := oneSector 126 (by decide) 100 fun k => k ≠ 50

/-- All clusters of a volume are in use, the last of which has the number 11. -/
def fullVolume : Tables := oneSector 10 (by decide) 3 fun k => k < 12

theorem free_cluster_missed : (freeInFront.alloc_cluster.1 = 0 ∧ ¬ freeInFront.Allocates) ∧
      fullVolume.alloc_cluster.1 = 12 ∧ ¬ fullVolume.Allocates := by
  have hmissed : freeInFront.alloc_cluster.1 = 0 := by decide +kernel
  have hbehind : fullVolume.alloc_cluster.1 = 12 := by decide +kernel
  refine ⟨⟨hmissed, fun h => ?_⟩, hbehind, fun h => ?_⟩
  · have hused := (h.exhausted hmissed).1 50 (by decide) (by decide) (by decide)
    revert hused
    decide
  · have hbound := (h.taken (by rw [hbehind]; decide)).2.1
    rw [hbehind] at hbound
    exact absurd hbound (by decide)

/-- The volume has the tables `t` with two copies. -/
structure HasTables (v : Vol) (t : Tables) : Prop where
  size : v.fatLen = t.size
  small : t.size < 2 ^ 32
  first : ∀ k, v.fat k = (t.entry 0 k).toNat
  second : ∀ k, v.mirror k = (t.entry 1 k).toNat
  two : t.copies = 2
  hint : v.hint = t.hint.toNat

theorem toNat_and_mask (x : UInt32) : (x &&& 0x0FFFFFFF).toNat = x.toNat % 2 ^ 28 := by
  rw [UInt32.toNat_and, ← Nat.and_two_pow_sub_one_eq_mod]
  rfl

section HasTables

variable {v : Vol} {t : Tables}

theorem HasTables.scanned (h : HasTables v t) : candidates v.hint (v.fatLen / 128) = t.scanned := by
  have hsize : v.fatLen / 128 = t.fat_sectors.toNat := by
    rw [h.size, Tables.size]
    omega
  have hproduct : (128 * t.fat_sectors).toNat = 128 * t.fat_sectors.toNat := by
    have hsmall := h.small
    unfold Tables.size at hsmall
    rw [UInt32.toNat_mul]
    exact Nat.mod_eq_of_lt hsmall
  have hstart : startCluster v.hint (v.fatLen / 128) = t.start := by
    unfold startCluster Tables.start
    rw [hsize, h.hint, ← hproduct]
    simp only [Bool.or_eq_true, decide_eq_true_eq, UInt32.lt_iff_toNat_lt, ge_iff_le, UInt32.le_iff_toNat_le]
    rfl
  unfold candidates Tables.scanned Tables.size
  rw [hstart, hsize]

theorem HasTables.free (h : HasTables v t) (k : ℕ) : decide (v.next k = 0) = t.free k := by
  unfold Tables.free Vol.next
  rw [decide_eq_decide, h.first, ← toNat_and_mask, ← UInt32.toNat_inj]
  rfl

/-- On a volume with two copies, `Orion.Fat32.alloc_cluster` takes the same cluster and leaves the same entries. -/
theorem HasTables.alloc (h : HasTables v t) : match alloc_cluster v with
    | none => t.alloc_cluster.1 = 0
    | some (c, v') => t.alloc_cluster.1 = UInt32.ofNat c ∧ HasTables v' t.alloc_cluster.2 := by
  have hfind : findCluster (fun c => v.next c = 0) v.hint (v.fatLen / 128) = t.scanned.find? t.free := by
    unfold findCluster
    rw [h.scanned]
    congr 1
    funext k
    exact h.free k
  unfold alloc_cluster
  rw [hfind]
  cases hfound : t.scanned.find? t.free with
  | none =>
    show t.alloc_cluster.1 = 0
    rw [Tables.alloc_none hfound]
  | some k =>
    have hk := Tables.scanned_bounds (mem_of_find?_eq_some hfound)
    have hcopies : t.copies.toNat = 2 := by
      rw [h.two]
      rfl
    rw [Tables.alloc_some hfound]
    have hfirst : ∀ j, update v.fat k 0x0FFFFFFF j = (t.mark k 0 j).toNat := by
      intro j
      by_cases hj : j = k
      · subst hj
        rw [update_self, Tables.mark_self t.copies_pos]
        rfl
      · rw [update_of_ne hj, h.first]
        by_cases hsector : j / 128 = k / 128
        · rw [Tables.mark_sector t.copies_pos hsector hj]
        · rw [Tables.mark_outside hsector]
    refine ⟨rfl, ⟨h.size, h.small, hfirst, ?_, h.two, ?_⟩⟩
    · intro j
      show (if j / 128 = k / 128 then update v.fat k 0x0FFFFFFF j else v.mirror j) = (t.mark k 1 j).toNat
      by_cases hsector : j / 128 = k / 128
      · rw [if_pos hsector, hfirst, Tables.mark_copy (f := 1) (by omega) hsector]
      · rw [if_neg hsector, Tables.mark_outside hsector, h.second]
    · show k + 1 = (UInt32.ofNat k + 1).toNat
      have hsmall := h.small
      rw [UInt32.toNat_add, UInt32.toNat_ofNat_of_lt' (show k < 2 ^ 32 by omega)]
      change k + 1 = (k + 1) % 2 ^ 32
      omega

end HasTables

end Orion.Fat32
