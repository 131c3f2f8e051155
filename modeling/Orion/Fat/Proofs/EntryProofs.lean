import Orion.Fat.Proofs.LongNameProofs

/-!
# Proofs: new and removed entries

What the places of a directory hold after the entries of a name are written or deleted, and what is known about
the names of a new entry.
-/

namespace Orion.Fat

open Lib List

variable {u v w : Vol} {L : List Slot} {σ τ : Slot} {entry : List UInt8}

/-- Only the places in `L` have changed. -/
structure WritesAt (v w : Vol) (L : List Slot) : Prop where
  same : w = { v with area := w.area }
  raw : ∀ τ, τ ∉ L → w.raw τ = v.raw τ
  area : ∀ b, (∀ σ ∈ L, σ.1 ≠ b) → w.area b = v.area b

namespace WritesAt

theorem refl (v : Vol) (L : List Slot) : WritesAt v v L := ⟨rfl, fun _ _ => rfl, fun _ _ => rfl⟩

theorem trans (huv : WritesAt u v L) (hvw : WritesAt v w L) : WritesAt u w L where
  same := by
    rw [hvw.same, huv.same]
  raw τ hτ := (hvw.raw τ hτ).trans (huv.raw τ hτ)
  area b hb := (hvw.area b hb).trans (huv.area b hb)

section

variable (h : WritesAt v w L)

include h

theorem fat : w.fat = v.fat := by rw [h.same]

theorem spc : w.spc = v.spc := by rw [h.same]

theorem rootLen : w.rootLen = v.rootLen := by rw [h.same]

theorem cwd : w.cwd = v.cwd := by rw [h.same]

end

theorem dir_write_raw (v : Vol) (entry : List UInt8) (hσ : σ ∈ L) : WritesAt v (v.dir_write_raw σ entry) L where
  same := rfl
  raw _ hτ := Vol.raw_dir_write_raw_of_ne fun h => hτ (h ▸ hσ)
  area _ hb := Vol.store_area_of_ne fun h => hb σ hσ h.symm

theorem dir_mark_deleted (v : Vol) (hσ : σ ∈ L) : WritesAt v (v.dir_mark_deleted σ) L where
  same := rfl
  raw _ hτ := Vol.raw_dir_mark_deleted_of_ne fun h => hτ (h ▸ hσ)
  area _ hb := Vol.store_area_of_ne fun h => hb σ hσ h.symm

theorem foldl {α : Type} {f : Vol → α → Vol} {l : List α} (hf : ∀ v, ∀ a ∈ l, WritesAt v (f v a) L) (v : Vol) :
    WritesAt v (l.foldl f v) L := by
  induction l generalizing v with
  | nil => exact refl v L
  | cons a l ih =>
    have hhead := hf v a mem_cons_self
    exact hhead.trans (ih (fun v b hb => hf v b (mem_cons_of_mem _ hb)) (f v a))

end WritesAt

variable {n : NewName} {slots : List Slot} {rd : Slot → Bytes} {make83 : List UInt8 → List UInt8} {name : List UInt8}

theorem getD_mem (hlen : slots.length = n.lfn_count + 1) {i : ℕ} (hi : i ≤ n.lfn_count) :
    slots.getD i (none, 0) ∈ slots := by
  have hlt : i < slots.length := by omega
  rw [getD_eq_getElem?_getD, getElem?_eq_getElem hlt, Option.getD_some]
  exact getElem_mem hlt

theorem writeEntries_writesAt (v : Vol) (entry : List UInt8) (hlen : slots.length = n.lfn_count + 1) :
    WritesAt v (writeEntries v n slots entry) slots := by
  refine WritesAt.trans (WritesAt.foldl ?_ v) (WritesAt.dir_write_raw _ _ (getD_mem hlen le_rfl))
  intro v i hi
  have hlt := mem_range.mp hi
  exact WritesAt.dir_write_raw v _ (getD_mem hlen (by omega))

theorem raw_writeEntries_congr (hentry : entry.length = 32) (h : w.raw τ = v.raw τ) :
    (writeEntries w n slots entry).raw τ = (writeEntries v n slots entry).raw τ := by
  have hwrite : ∀ {v w : Vol} (σ : Slot) {e : List UInt8}, e.length = 32 → w.raw τ = v.raw τ →
      (w.dir_write_raw σ e).raw τ = (v.dir_write_raw σ e).raw τ := by
    intro v w σ e he hsame
    by_cases hτ : τ = σ
    · subst hτ
      rw [Vol.raw_dir_write_raw_self he, Vol.raw_dir_write_raw_self he]
    · rw [Vol.raw_dir_write_raw_of_ne hτ, Vol.raw_dir_write_raw_of_ne hτ, hsame]
  unfold writeEntries
  apply hwrite _ hentry
  generalize List.range n.lfn_count = l
  induction l generalizing v w with
  | nil => exact h
  | cons i l ih => exact ih (hwrite _ (length_lfnEntry _ _ _ _) h)

theorem raw_writeEntries_entry (v : Vol) (hentry : entry.length = 32) :
    (writeEntries v n slots entry).raw (slots.getD n.lfn_count (none, 0)) = Bytes.ofList entry :=
  Vol.raw_dir_write_raw_self hentry

theorem writeEntries_long (v : Vol) (entry : List UInt8) (hlen : slots.length = n.lfn_count + 1) (hτ : τ ∈ slots)
    (hne : τ ≠ slots.getD n.lfn_count (none, 0)) : (writeEntries v n slots entry).raw τ 11 = 0x0F := by
  unfold writeEntries
  rw [Vol.raw_dir_write_raw_of_ne hne]
  obtain ⟨i, hi, rfl⟩ := getElem_of_mem hτ
  have hget : slots.getD i (none, 0) = slots[i] := by
    rw [getD_eq_getElem?_getD, getElem?_eq_getElem hi, Option.getD_some]
  have hlt : i < n.lfn_count := by
    by_contra hge
    have hlast : i = n.lfn_count := by omega
    subst hlast
    exact hne hget.symm
  -- the place is written in the round `i`, and later rounds write long entries only
  have hrounds : ∀ m, i < m → ((List.range m).foldl (fun v i => v.dir_write_raw (slots.getD i (none, 0))
      (lfnEntry n.long_name (lfn_checksum n.short_name) n.lfn_count i)) v).raw slots[i] 11 = 0x0F := by
    intro m
    induction m with
    | zero =>
      intro hm
      omega
    | succ m ih =>
      intro hm
      rw [range_succ, foldl_append, foldl_cons, foldl_nil]
      by_cases hsame : slots[i] = slots.getD m (none, 0)
      · rw [hsame, Vol.raw_dir_write_raw_self (length_lfnEntry _ _ _ _)]
        exact attr_lfnEntry _ _ _ _
      rw [Vol.raw_dir_write_raw_of_ne hsame]
      apply ih
      have him : i ≠ m := by
        rintro rfl
        exact hsame hget.symm
      omega
  exact hrounds n.lfn_count hlt

theorem generate_not_taken {taken : List UInt8 → Bool} {long short : List UInt8}
    (h : generate_short_name taken long = some short) : taken short = false := by
  unfold generate_short_name at h
  generalize extract_base_ext 32 8 long = pair at h
  obtain ⟨base, ext⟩ := pair
  dsimp only at h
  generalize (if base = [] then [0x46, 0x49, 0x4C, 0x45] else base) = full at h
  split at h
  · rename_i hfree
    obtain rfl := Option.some.inj h
    simpa using hfree
  · obtain ⟨k, -, hk⟩ := exists_of_findSome?_eq_some h
    split at hk
    · rename_i hfree
      obtain rfl := Option.some.inj hk
      simpa using hfree
    · cases hk

theorem newName_cases (h : newName rd L make83 name = some n) :
    find_entry_slot rd L name = none ∧ ((name_needs_lfn name = true ∧ lfn_prepare_name name = some n.long_name ∧
          generate_short_name (fun s => short_name_exists rd s L) n.long_name = some n.short_name ∧
          n.lfn_count = lfnCount n.long_name ∧ n.lfn_count ≤ 20) ∨
        name_needs_lfn name = false ∧ n = ⟨make83 name, name.take 255, 0⟩ ∧
          short_name_exists rd (make83 name) L = false) := by
  unfold newName at h
  dsimp only at h
  split at h
  · cases h
  rename_i hnew
  refine ⟨by simpa using hnew, ?_⟩
  split at h
  · rename_i hlong
    left
    split at h
    · cases h
    rename_i long hprepared
    split at h
    · cases h
    rename_i short hshort
    split at h
    · cases h
    rename_i hcount
    obtain rfl := Option.some.inj h
    exact ⟨hlong, hprepared, hshort, rfl, by show lfnCount long ≤ 20; omega⟩
  · rename_i hlong
    right
    split at h
    · cases h
    rename_i htaken
    exact ⟨by simpa using hlong, (Option.some.inj h).symm, by simpa using htaken⟩

theorem newName_spec
    (hmake : is_valid_short_name name = true → Visible (make83 name)) (h : newName rd L make83 name = some n) :
    Visible n.short_name ∧ short_name_exists rd n.short_name L = false := by
  obtain ⟨-, ⟨-, -, hshort, -⟩ | ⟨hlong, rfl, htaken⟩⟩ := newName_cases h
  · exact ⟨visible_of_generate hshort, generate_not_taken hshort⟩
  have hvalid : is_valid_short_name name = true := by
    by_contra hinvalid
    simp [name_needs_lfn, hinvalid] at hlong
  exact ⟨hmake hvalid, htaken⟩

theorem deleteItem_writesAt (v : Vol) (item : Item) : WritesAt v (deleteItem v item) (item.slot :: item.lfn_slots) :=
  WritesAt.trans (WritesAt.foldl (fun v _ hσ => WritesAt.dir_mark_deleted v (mem_cons_of_mem _ hσ)) v)
    (WritesAt.dir_mark_deleted _ mem_cons_self)

theorem isFree_dir_mark_deleted (h : isFree (v.raw τ) = true) : isFree ((v.dir_mark_deleted σ).raw τ) = true := by
  by_cases hτ : τ = σ
  · subst hτ
    exact Vol.raw_dir_mark_deleted_self
  · rw [Vol.raw_dir_mark_deleted_of_ne hτ]
    exact h

theorem isFree_deleteItem (v : Vol) (item : Item) (hτ : τ ∈ item.slot :: item.lfn_slots) :
    isFree ((deleteItem v item).raw τ) = true := by
  unfold deleteItem
  rcases mem_cons.mp hτ with rfl | hτ
  · exact Vol.raw_dir_mark_deleted_self
  apply isFree_dir_mark_deleted
  generalize item.lfn_slots = l at hτ
  induction l generalizing v with
  | nil => cases hτ
  | cons ρ l ih =>
    rw [foldl_cons]
    by_cases hmem : τ ∈ l
    · exact ih _ hmem
    obtain rfl : τ = ρ := (mem_cons.mp hτ).resolve_right hmem
    have hfold := WritesAt.foldl (L := l) (fun v σ hσ => WritesAt.dir_mark_deleted v hσ) (v.dir_mark_deleted τ)
    rw [hfold.raw τ hmem]
    exact Vol.raw_dir_mark_deleted_self

end Orion.Fat
