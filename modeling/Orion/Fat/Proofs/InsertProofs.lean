import Orion.Fat.Aliases
import Orion.Fat.Proofs.ScanProofs

/-!
# Reading a directory into which an entry was written

A new entry stands in places that were free. It is read exactly if no place in front of it was never used, and the
other places are read as before.
-/

namespace Orion.Fat

open Lib List

variable {rd rd' : Slot → Bytes} {pre l post : List Slot} {τ : Slot} {st : LfnState}

theorem iterate_dir_stop (h : ∃ σ ∈ pre, rd σ 0 = 0) : iterate_dir rd st (pre ++ post) = iterate_dir rd st pre := by
  induction pre generalizing st with
  | nil =>
    obtain ⟨σ, hσ, -⟩ := h
    cases hσ
  | cons σ pre ih =>
    rw [cons_append]
    by_cases hend : rd σ 0 = 0
    · unfold iterate_dir
      rw [if_pos hend, if_pos hend]
    have hrest : ∃ τ ∈ pre, rd τ 0 = 0 := by
      obtain ⟨τ, hτ, hzero⟩ := h
      rcases mem_cons.mp hτ with rfl | hτ
      · exact absurd hzero hend
      · exact ⟨τ, hτ, hzero⟩
    simp only [iterate_dir, ih hrest]

/-- The reader goes through places that are or were used; what it reads behind them depends on a state only. -/
theorem iterate_dir_append (h : ∀ σ ∈ pre, rd σ 0 ≠ 0) (st : LfnState) :
    ∃ st', ∀ rd', (∀ σ ∈ pre, rd' σ = rd σ) → ∀ rest,
      iterate_dir rd' st (pre ++ rest) = iterate_dir rd st pre ++ iterate_dir rd' st' rest := by
  induction pre generalizing st with
  | nil => exact ⟨st, fun rd' _ rest => rfl⟩
  | cons σ pre ih =>
    have hne := h σ mem_cons_self
    have hrest : ∀ τ ∈ pre, rd τ 0 ≠ 0 := fun τ hτ => h τ (mem_cons_of_mem σ hτ)
    by_cases hdeleted : rd σ 0 = 0xE5
    · obtain ⟨st', hst'⟩ := ih hrest lfn_reset
      refine ⟨st', fun rd' hsame rest => ?_⟩
      have hσ := hsame σ mem_cons_self
      simp only [cons_append, iterate_dir, hσ, if_neg hne, if_pos hdeleted]
      exact hst' rd' (fun τ hτ => hsame τ (mem_cons_of_mem σ hτ)) rest
    by_cases hlong : rd σ 11 = 0x0F
    · obtain ⟨st', hst'⟩ := ih hrest (lfn_push st (rd σ) σ)
      refine ⟨st', fun rd' hsame rest => ?_⟩
      have hσ := hsame σ mem_cons_self
      simp only [cons_append, iterate_dir, hσ, if_neg hne, if_neg hdeleted, if_pos hlong]
      exact hst' rd' (fun τ hτ => hsame τ (mem_cons_of_mem σ hτ)) rest
    · obtain ⟨st', hst'⟩ := ih hrest lfn_reset
      refine ⟨st', fun rd' hsame rest => ?_⟩
      have hσ := hsame σ mem_cons_self
      simp only [cons_append, iterate_dir, hσ, if_neg hne, if_neg hdeleted, if_neg hlong]
      rw [hst' rd' (fun τ hτ => hsame τ (mem_cons_of_mem σ hτ)) rest]

theorem iterate_dir_entry (hl : ∀ σ ∈ l, rd σ 0 ≠ 0) (hτ : rd τ 0 ≠ 0 ∧ rd τ 0 ≠ 0xE5 ∧ rd τ 11 ≠ 0x0F)
    (st : LfnState) :
    iterate_dir rd st ((l ++ [τ]) ++ post) = iterate_dir rd st (l ++ [τ]) ++ iterate_dir rd lfn_reset post := by
  obtain ⟨st', hst'⟩ := iterate_dir_append hl st
  have hsame : ∀ σ ∈ l, rd σ = rd σ := fun _ _ => rfl
  rw [append_assoc, hst' rd hsame, hst' rd hsame, append_assoc]
  congr 1
  simp only [cons_append, nil_append, iterate_dir, if_neg hτ.1, if_neg hτ.2.1, if_neg hτ.2.2]

theorem iterate_dir_free (hne : l ≠ []) (h : ∀ σ ∈ l, isFree (rd σ) = true) (st : LfnState) :
    iterate_dir rd st (l ++ post) = [] ∨ iterate_dir rd st (l ++ post) = iterate_dir rd lfn_reset post := by
  induction l generalizing st with
  | nil => exact absurd rfl hne
  | cons σ l ih =>
    have hfree := h σ mem_cons_self
    rw [cons_append]
    by_cases hend : rd σ 0 = 0
    · left
      rw [iterate_dir, if_pos hend]
    have hdeleted : rd σ 0 = 0xE5 := by
      have hcase : rd σ 0 = 0 ∨ rd σ 0 = 0xE5 := by simpa [isFree] using hfree
      exact hcase.resolve_left hend
    rw [iterate_dir, if_neg hend, if_pos hdeleted]
    by_cases hl : l = []
    · subst hl
      exact .inr rfl
    · exact ih hl (fun τ hτ => h τ (mem_cons_of_mem σ hτ)) lfn_reset

/-- Between `rd` and `rd'` an entry was written to the free places `l ++ [τ]`, between `pre` and `post`. -/
structure Inserted (rd rd' : Slot → Bytes) (pre l : List Slot) (τ : Slot) (post : List Slot) : Prop where
  nodup : (pre ++ ((l ++ [τ]) ++ post)).Nodup
  front : ∀ σ ∈ pre, rd' σ = rd σ
  behind : ∀ σ ∈ post, rd' σ = rd σ
  free : ∀ σ ∈ l ++ [τ], isFree (rd σ) = true
  parts : ∀ σ ∈ l, rd' σ 0 ≠ 0
  entry : rd' τ 0 ≠ 0 ∧ rd' τ 0 ≠ 0xE5 ∧ rd' τ 11 ≠ 0x0F

namespace Inserted

variable (h : Inserted rd rd' pre l τ post)

include h

theorem reached (hpre : ∀ σ ∈ pre, rd σ 0 ≠ 0) :
    ∃ st rest, iterate_dir rd lfn_reset (pre ++ ((l ++ [τ]) ++ post)) = iterate_dir rd lfn_reset pre ++ rest ∧
      (rest = [] ∨ rest = iterate_dir rd lfn_reset post) ∧
      iterate_dir rd' lfn_reset (pre ++ ((l ++ [τ]) ++ post)) =
        iterate_dir rd lfn_reset pre ++ (iterate_dir rd' st (l ++ [τ]) ++ iterate_dir rd lfn_reset post) := by
  obtain ⟨st, hst⟩ := iterate_dir_append hpre lfn_reset
  refine ⟨st, _, hst rd (fun _ _ => rfl) _, iterate_dir_free (by simp) h.free st, ?_⟩
  rw [hst rd' h.front, iterate_dir_entry h.parts h.entry, iterate_dir_congr h.behind]

theorem notReached (hpre : ∃ σ ∈ pre, rd σ 0 = 0) : iterate_dir rd' lfn_reset (pre ++ ((l ++ [τ]) ++ post)) =
      iterate_dir rd lfn_reset (pre ++ ((l ++ [τ]) ++ post)) := by
  have hpre' : ∃ σ ∈ pre, rd' σ 0 = 0 := by
    obtain ⟨σ, hσ, hzero⟩ := hpre
    exact ⟨σ, hσ, by rw [h.front σ hσ, hzero]⟩
  rw [iterate_dir_stop hpre, iterate_dir_stop hpre', iterate_dir_congr h.front]

theorem kept {item : Item} (hitem : item ∈ entries rd (pre ++ ((l ++ [τ]) ++ post))) :
    item ∈ entries rd' (pre ++ ((l ++ [τ]) ++ post)) := by
  unfold entries at hitem ⊢
  by_cases hpre : ∀ σ ∈ pre, rd σ 0 ≠ 0
  · obtain ⟨st, rest, hold, hrest, hnew⟩ := h.reached hpre
    rw [hold] at hitem
    rw [hnew]
    rcases mem_append.mp hitem with hitem | hitem
    · exact mem_append_left _ hitem
    · rcases hrest with rfl | rfl
      · cases hitem
      · exact mem_append_right _ (mem_append_right _ hitem)
  · rw [h.notReached (by push Not at hpre; exact hpre)]
    exact hitem

/-- A search that found nothing finds the new entry exactly if the reader comes to it and the search accepts it. -/
theorem find_iff {p : Item → Bool} {new : LfnState → Item} {accepted : Bool}
    (hnew : ∀ st, iterate_dir rd' st (l ++ [τ]) = [new st]) (hslot : ∀ st, (new st).slot = τ)
    (haccepted : ∀ st, p (new st) = accepted) (hold : (entries rd (pre ++ ((l ++ [τ]) ++ post))).find? p = none) :
    (∃ item, (entries rd' (pre ++ ((l ++ [τ]) ++ post))).find? p = some item ∧ item.slot = τ) ↔
      (∀ σ ∈ pre, rd σ 0 ≠ 0) ∧ accepted = true := by
  unfold entries at hold ⊢
  by_cases hpre : ∀ σ ∈ pre, rd σ 0 ≠ 0
  · obtain ⟨st, rest, hbefore, -, hafter⟩ := h.reached hpre
    rw [hbefore, find?_append, Option.or_eq_none_iff] at hold
    rw [hafter, hnew, find?_append, hold.1, Option.none_or, singleton_append, find?_cons, haccepted]
    cases accepted with
    | true => exact ⟨fun _ => ⟨hpre, rfl⟩, fun _ => ⟨new st, rfl, hslot st⟩⟩
    | false =>
      simp only [Bool.false_eq_true, and_false, iff_false]
      rintro ⟨item, hfound, hitem⟩
      -- what is found behind the new entry has another place
      have hmem := mem_iterate_dir (List.Subset.refl post) (by simp [lfn_reset]) (mem_of_find?_eq_some hfound)
      have hdisjoint := (nodup_append.mp (nodup_append.mp h.nodup).2.1).2.2
      exact hdisjoint τ (by simp) item.slot hmem.slot hitem.symm
  · rw [h.notReached (by push Not at hpre; exact hpre), hold]
    constructor
    · rintro ⟨item, hfound, -⟩
      cases hfound
    · rintro ⟨hreach, -⟩
      exact absurd hreach hpre

end Inserted

end Orion.Fat
