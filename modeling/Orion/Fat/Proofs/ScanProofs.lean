import Orion.Fat.Volume

/-!
# Proofs: what reading a directory finds
-/

namespace Orion.Fat

open Lib List

variable {rd rd' : Slot → Bytes} {l L : List Slot} {st : LfnState} {σ τ : Slot} {item : Item}
  {name : List UInt8} {r : Bytes} {needed : ℕ} {run slots : List Slot}

/-- An item stands for a live entry of the places `L`, and its long entries are long entries there. -/
structure ItemOf (rd : Slot → Bytes) (L : List Slot) (item : Item) : Prop where
  slot : item.slot ∈ L
  entry : item.entry = rd item.slot
  live : isFree item.entry = false
  short : item.entry 11 ≠ 0x0F
  lfn : ∀ τ ∈ item.lfn_slots, τ ∈ L ∧ rd τ 11 = 0x0F

theorem isFree_eq_false : isFree r = false ↔ r 0 ≠ 0 ∧ r 0 ≠ 0xE5 := by
  simp [isFree]

theorem lfnStart_slots (h : τ ∈ (lfnStart st r).slots) : τ ∈ st.slots := by
  unfold lfnStart at h
  split at h
  · cases h
  · exact h

theorem lfnPart_slots (h : τ ∈ (lfnPart st r σ).slots) : τ = σ ∨ τ ∈ st.slots := by
  simp only [lfnPart] at h
  split_ifs at h
  · exact .inr h
  · cases h
  · cases h
  · cases h
  · rcases mem_append.mp h with h | h
    · exact .inr h
    · exact .inl (mem_singleton.mp h)
  · exact .inr h

theorem lfn_push_slots (h : τ ∈ (lfn_push st r σ).slots) : τ = σ ∨ τ ∈ st.slots :=
  (lfnPart_slots h).imp_right lfnStart_slots

@[simp] theorem LfnState.item_entry (st : LfnState) (r : Bytes) (σ : Slot) : (st.item r σ).entry = r := by
  unfold LfnState.item
  split_ifs <;> rfl

@[simp] theorem LfnState.item_slot (st : LfnState) (r : Bytes) (σ : Slot) : (st.item r σ).slot = σ := by
  unfold LfnState.item
  split_ifs <;> rfl

theorem LfnState.item_of (hσ : σ ∈ L) (hlive : isFree (rd σ) = false) (hshort : rd σ 11 ≠ 0x0F)
    (hst : ∀ τ ∈ st.slots, τ ∈ L ∧ rd τ 11 = 0x0F) : ItemOf rd L (st.item (rd σ) σ) := by
  unfold LfnState.item
  split_ifs
  · exact ⟨hσ, rfl, hlive, hshort, hst⟩
  · exact ⟨hσ, rfl, hlive, hshort, fun τ hτ => absurd hτ (by simp)⟩

theorem mem_iterate_dir (hl : l ⊆ L) (hst : ∀ τ ∈ st.slots, τ ∈ L ∧ rd τ 11 = 0x0F)
    (h : item ∈ iterate_dir rd st l) : ItemOf rd L item := by
  have hreset : ∀ τ ∈ lfn_reset.slots, τ ∈ L ∧ rd τ 11 = 0x0F := fun τ hτ => absurd hτ (by simp [lfn_reset])
  induction l generalizing st with
  | nil => cases h
  | cons σ l ih =>
    have hσ : σ ∈ L := hl mem_cons_self
    have hl' : l ⊆ L := fun τ hτ => hl (mem_cons_of_mem _ hτ)
    unfold iterate_dir at h
    split_ifs at h with h0 hE5 hlfn
    · cases h
    · exact ih hl' hreset h
    · refine ih hl' (fun τ hτ => ?_) h
      rcases lfn_push_slots hτ with rfl | hτ
      · exact ⟨hσ, hlfn⟩
      · exact hst τ hτ
    · rcases mem_cons.mp h with rfl | h
      · exact LfnState.item_of hσ (isFree_eq_false.mpr ⟨h0, hE5⟩) hlfn hst
      · exact ih hl' hreset h

theorem find_entry_slot_spec (h : find_entry_slot rd l name = some item) :
    ItemOf rd l item ∧ dir_item_matches item name = true := by
  have hreset : ∀ τ ∈ lfn_reset.slots, τ ∈ l ∧ rd τ 11 = 0x0F := fun τ hτ => absurd hτ (by simp [lfn_reset])
  exact ⟨mem_iterate_dir (List.Subset.refl l) hreset (mem_of_find?_eq_some h), by
    simpa using find?_some h⟩

theorem iterate_dir_congr (h : ∀ σ ∈ l, rd σ = rd' σ) : iterate_dir rd st l = iterate_dir rd' st l := by
  induction l generalizing st with
  | nil => rfl
  | cons σ l ih =>
    have ih' : ∀ st', iterate_dir rd st' l = iterate_dir rd' st' l := fun st' =>
      ih fun τ hτ => h τ (mem_cons_of_mem _ hτ)
    simp only [iterate_dir, h σ mem_cons_self, ih']

theorem find_entry_slot_congr (h : ∀ σ ∈ l, rd σ = rd' σ) : find_entry_slot rd l name = find_entry_slot rd' l name := by
  unfold find_entry_slot
  rw [iterate_dir_congr h]

theorem freeRun_spec (hl : l ⊆ L)
    (hrun : ∀ σ ∈ run, σ ∈ L ∧ isFree (rd σ) = true) (h : freeRun rd needed run l = some slots) :
    slots.length = needed ∧ ∀ σ ∈ slots, σ ∈ L ∧ isFree (rd σ) = true := by
  induction l generalizing run with
  | nil => cases h
  | cons σ l ih =>
    have hl' : l ⊆ L := fun τ hτ => hl (mem_cons_of_mem _ hτ)
    unfold freeRun at h
    split_ifs at h with hfree hlen
    · have hrun' : ∀ τ ∈ run ++ [σ], τ ∈ L ∧ isFree (rd τ) = true := by
        intro τ hτ
        rcases mem_append.mp hτ with hτ | hτ
        · exact hrun τ hτ
        · obtain rfl := mem_singleton.mp hτ
          exact ⟨hl mem_cons_self, hfree⟩
      obtain rfl := Option.some.inj h
      exact ⟨hlen, hrun'⟩
    · refine ih hl' (fun τ hτ => ?_) h
      rcases mem_append.mp hτ with hτ | hτ
      · exact hrun τ hτ
      · obtain rfl := mem_singleton.mp hτ
        exact ⟨hl mem_cons_self, hfree⟩
    · exact ih hl' (fun τ hτ => absurd hτ (by simp)) h

theorem freeRun_middle (h : freeRun rd needed run l = some slots) : ∃ pre post, run ++ l = pre ++ (slots ++ post) := by
  induction l generalizing run with
  | nil => cases h
  | cons σ l ih =>
    unfold freeRun at h
    split_ifs at h with hfree hlen
    · obtain rfl := Option.some.inj h
      exact ⟨[], l, by simp⟩
    · obtain ⟨pre, post, heq⟩ := ih h
      exact ⟨pre, post, by rw [← heq, append_assoc, singleton_append]⟩
    obtain ⟨pre, post, heq⟩ := ih h
    refine ⟨run ++ σ :: pre, post, ?_⟩
    rw [nil_append] at heq
    rw [heq, append_assoc, cons_append]

theorem short_name_exists_head (h0 : rd σ 0 ≠ 0) (hE5 : rd σ 0 ≠ 0xE5) (hlfn : rd σ 11 ≠ 0x0F)
    (hname : shortName (rd σ) = name) : short_name_exists rd name (σ :: l) = true := by
  simp only [short_name_exists, if_neg h0, if_neg hE5, if_neg hlfn, if_pos hname]

end Orion.Fat
