import Orion.Fat.Proofs.ScanProofs

/-!
# Proofs: what a write to the volume changes
-/

namespace Orion.Fat

open Lib List

variable {v : Vol} {b : Option ℕ} {o n c x : ℕ} {src : Bytes} {σ τ : Slot} {entry : List UInt8}

namespace Vol

theorem store_area_self : (v.store b o n src).area b = (v.area b).splice o n src := Function.update_self _ _ _

theorem store_area_of_ne {b' : Option ℕ} (h : b' ≠ b) : (v.store b o n src).area b' = v.area b' :=
  Function.update_of_ne h _ _

variable {w : Vol} {bs : List (Option ℕ)}

theorem raw_congr (h : w.area σ.1 = v.area σ.1) : w.raw σ = v.raw σ := by
  unfold raw
  rw [h]

theorem raw_store_of_ne (h : σ.1 ≠ b) : (v.store b o n src).raw σ = v.raw σ := raw_congr (store_area_of_ne h)

theorem raw_store_of_disjoint (h : 32 * σ.2 + 32 ≤ o ∨ o + n ≤ 32 * σ.2) : (v.store b o n src).raw σ = v.raw σ := by
  by_cases hb : σ.1 = b
  · funext k
    unfold raw
    split
    · subst hb
      rw [store_area_self]
      exact Bytes.splice_outside (by omega)
    · rfl
  · exact raw_store_of_ne hb

theorem raw_store_inside (hlow : o ≤ 32 * σ.2) (hhigh : 32 * σ.2 + 32 ≤ o + n) :
    (v.store σ.1 o n src).raw σ = fun k => if k < 32 then src (32 * σ.2 + k - o) else 0 := by
  funext k
  unfold raw
  split
  · rw [store_area_self]
    exact Bytes.splice_inside (by omega) (by omega)
  · rfl

theorem raw_dir_write_raw_of_ne (h : τ ≠ σ) : (v.dir_write_raw σ entry).raw τ = v.raw τ := by
  by_cases hb : τ.1 = σ.1
  · have hne : τ.2 ≠ σ.2 := fun h2 => h (Prod.ext hb h2)
    exact raw_store_of_disjoint (by omega)
  · exact raw_store_of_ne hb

theorem raw_dir_write_raw_self (h : entry.length = 32) : (v.dir_write_raw σ entry).raw σ = Bytes.ofList entry := by
  unfold dir_write_raw
  rw [raw_store_inside (le_refl _) (le_refl _)]
  funext k
  split
  · simp
  · simp only [Bytes.ofList]
    rw [getD_eq_getElem?_getD, getElem?_eq_none (by omega)]
    rfl

theorem raw_dir_mark_deleted_of_ne (h : τ ≠ σ) : (v.dir_mark_deleted σ).raw τ = v.raw τ := by
  by_cases hb : τ.1 = σ.1
  · have hne : τ.2 ≠ σ.2 := fun h2 => h (Prod.ext hb h2)
    exact raw_store_of_disjoint (by omega)
  · exact raw_store_of_ne hb

theorem raw_dir_mark_deleted_self : isFree ((v.dir_mark_deleted σ).raw σ) = true := by
  have h0 : (v.dir_mark_deleted σ).raw σ 0 = 0xE5 := by
    unfold raw dir_mark_deleted
    rw [if_pos (by omega), store_area_self]
    exact Bytes.splice_inside (by omega) (by omega)
  simp [isFree, h0]

theorem raw_zero {i : ℕ} (h : i < v.spc * 16) : (v.zero c).raw (some c, i) = fun _ => 0 := by
  have hin : 32 * i + 32 ≤ 0 + v.clusterSize := by
    unfold clusterSize
    omega
  unfold zero
  rw [show (some c : Option ℕ) = ((some c, i) : Slot).1 from rfl, raw_store_inside (Nat.zero_le _) hin]
  funext k
  split <;> rfl

theorem raw_zero_of_ne (h : σ.1 ≠ some c) : (v.zero c).raw σ = v.raw σ := raw_store_of_ne h

theorem mem_places : σ ∈ v.places bs ↔ σ.1 ∈ bs ∧ σ.2 < v.width σ.1 := by
  simp only [places, mem_flatMap, mem_map, mem_range]
  constructor
  · rintro ⟨b, hb, i, hi, rfl⟩
    exact ⟨hb, hi⟩
  · rintro ⟨hb, hi⟩
    exact ⟨σ.1, hb, σ.2, hi, rfl⟩

theorem places_append (bs bs' : List (Option ℕ)) : v.places (bs ++ bs') = v.places bs ++ v.places bs' := flatMap_append

theorem nodup_places (h : bs.Nodup) : (v.places bs).Nodup := by
  unfold places
  rw [nodup_flatMap]
  constructor
  · intro b _
    apply nodup_range.map
    intro i j hij
    exact (Prod.mk.inj hij).2
  · apply h.imp
    intro b b' hne σ hσ hσ'
    obtain ⟨i, -, rfl⟩ := mem_map.mp hσ
    obtain ⟨j, -, heq⟩ := mem_map.mp hσ'
    exact hne (Prod.mk.inj heq).1.symm

theorem places_congr (hwidth : w.width = v.width) (bs : List (Option ℕ)) : w.places bs = v.places bs := by
  unfold places
  rw [hwidth]

end Vol

section Entries

variable {short_name : List UInt8} {attr : UInt8} {first size : ℕ}

theorem length_padTo (n : ℕ) (s : List UInt8) : (padTo n s).length = n := by
  simp only [padTo, length_append, length_take, length_replicate]
  omega

section

variable (h : short_name.length = 11)

include h

theorem length_entryBytes : (entryBytes short_name attr first size).length = 32 := by
  simp [entryBytes, h]

theorem exists_eleven :
    ∃ a₀ a₁ a₂ a₃ a₄ a₅ a₆ a₇ a₈ a₉ a₁₀, short_name = [a₀, a₁, a₂, a₃, a₄, a₅, a₆, a₇, a₈, a₉, a₁₀] := by
  match short_name, h with
  | [a₀, a₁, a₂, a₃, a₄, a₅, a₆, a₇, a₈, a₉, a₁₀], _ =>
    exact ⟨a₀, a₁, a₂, a₃, a₄, a₅, a₆, a₇, a₈, a₉, a₁₀, rfl⟩

theorem shortName_entryBytes : shortName (Bytes.ofList (entryBytes short_name attr first size)) = short_name := by
  obtain ⟨a₀, a₁, a₂, a₃, a₄, a₅, a₆, a₇, a₈, a₉, a₁₀, rfl⟩ := exists_eleven h
  rfl

theorem attr_entryBytes : Bytes.ofList (entryBytes short_name attr first size) 11 = attr := by
  obtain ⟨a₀, a₁, a₂, a₃, a₄, a₅, a₆, a₇, a₈, a₉, a₁₀, rfl⟩ := exists_eleven h
  rfl

theorem firstLow_entryBytes : firstLow (Bytes.ofList (entryBytes short_name attr first size)) = first % 2 ^ 16 := by
  obtain ⟨a₀, a₁, a₂, a₃, a₄, a₅, a₆, a₇, a₈, a₉, a₁₀, rfl⟩ := exists_eleven h
  have h26 : Bytes.ofList (entryBytes [a₀, a₁, a₂, a₃, a₄, a₅, a₆, a₇, a₈, a₉, a₁₀] attr first size) 26 =
      UInt8.ofNat (first / 256 ^ 0) := rfl
  have h27 : Bytes.ofList (entryBytes [a₀, a₁, a₂, a₃, a₄, a₅, a₆, a₇, a₈, a₉, a₁₀] attr first size) (26 + 1) =
      UInt8.ofNat (first / 256 ^ 1) := rfl
  unfold firstLow Bytes.get16
  rw [h26, h27]
  simp only [UInt8.toNat_ofNat', UInt16.toNat_ofNat']
  omega

theorem fileSize_entryBytes : fileSize (Bytes.ofList (entryBytes short_name attr first size)) = size % 2 ^ 32 := by
  obtain ⟨a₀, a₁, a₂, a₃, a₄, a₅, a₆, a₇, a₈, a₉, a₁₀, rfl⟩ := exists_eleven h
  have hbyte : ∀ k < 4,
      Bytes.ofList (entryBytes [a₀, a₁, a₂, a₃, a₄, a₅, a₆, a₇, a₈, a₉, a₁₀] attr first size) (28 + k) =
        UInt8.ofNat (size / 256 ^ k) := by
    intro k hk
    interval_cases k <;> rfl
  have h0 := hbyte 0 (by omega)
  rw [Nat.add_zero] at h0
  unfold fileSize Bytes.get32
  rw [h0, hbyte 1 (by omega), hbyte 2 (by omega), hbyte 3 (by omega)]
  simp only [UInt8.toNat_ofNat', UInt32.toNat_ofNat']
  omega

end

theorem length_lfnEntry (long_name : List UInt8) (checksum : UInt8) (count i : ℕ) :
    (lfnEntry long_name checksum count i).length = 32 := rfl

theorem attr_lfnEntry (long_name : List UInt8) (checksum : UInt8) (count i : ℕ) :
    Bytes.ofList (lfnEntry long_name checksum count i) 11 = 0x0F := rfl

end Entries

end Orion.Fat
