import Mathlib.Data.Bool.AllAny
import Orion.Fat.Aliases
import Orion.Fat.Proofs.LongNameProofs
import Orion.Fat.Proofs.ScanProofs
import Orion.Fat16.Files

/-!
# Which long names get a short alias

The 9999 turns of the loop over the numbers try only four names, so that the function is a search among five.
-/

namespace Orion.Fat

open Lib List

variable {n : ℕ} {α β : Type*} {s base long_name : List UInt8}

theorem count_digits_eq {k : ℕ} (hlow : 10 ^ k ≤ n) (hhigh : n < 10 ^ (k + 1)) : count_digits n = k + 1 := by
  unfold count_digits
  have hle : (Nat.toDigits 10 n).length ≤ k + 1 := (Nat.length_toDigits_le_iff (by omega) (by omega)).mpr hhigh
  have hpos : 0 < (Nat.toDigits 10 n).length := Nat.length_toDigits_pos
  rcases Nat.eq_zero_or_pos k with rfl | hk
  · omega
  have hnot : ¬ (Nat.toDigits 10 n).length ≤ k := by
    rw [Nat.length_toDigits_le_iff (by omega) hk]
    omega
  omega

theorem findSome?_const {f : α → Option β} {x : Option β} {l : List α} (hne : l ≠ [])
    (h : ∀ a ∈ l, f a = x) : l.findSome? f = x := by
  induction l with
  | nil => exact absurd rfl hne
  | cons a l ih =>
    rw [findSome?_cons, h a mem_cons_self]
    cases x with
    | some b => rfl
    | none =>
      by_cases hl : l = []
      · subst hl
        rfl
      · exact ih hl fun b hb => h b (mem_cons_of_mem a hb)

theorem range'_by_digits :
    List.range' 1 9999 = List.range' 1 9 ++ (List.range' 10 90 ++ (List.range' 100 900 ++ List.range' 1000 9000)) := by
  rw [List.range'_append_1, List.range'_append_1, List.range'_append_1]

theorem findSome?_digits {f : ℕ → Option β} {g : ℕ → Option β} (h : ∀ n, f n = g (count_digits n)) :
    (List.range' 1 9999).findSome? f = [1, 10, 100, 1000].findSome? f := by
  have hpart (k len : ℕ) (hlen : 0 < len) (hhigh : 10 ^ k + len ≤ 10 ^ (k + 1)) :
      (List.range' (10 ^ k) len).findSome? f = f (10 ^ k) := by
    apply findSome?_const
    · simp only [ne_eq, List.range'_eq_nil_iff]
      omega
    · intro n hn
      rw [mem_range'_1] at hn
      rw [h, h, count_digits_eq hn.1 (by omega), count_digits_eq (le_refl (10 ^ k)) (by omega)]
  have h1 : (List.range' 1 9).findSome? f = f 1 := hpart 0 9 (by omega) (by omega)
  have h2 : (List.range' 10 90).findSome? f = f 10 := hpart 1 90 (by omega) (by omega)
  have h3 : (List.range' 100 900).findSome? f = f 100 := hpart 2 900 (by omega) (by omega)
  have h4 : (List.range' 1000 9000).findSome? f = f 1000 := hpart 3 9000 (by omega) (by omega)
  rw [range'_by_digits]
  simp only [findSome?_append, h1, h2, h3, h4, findSome?_cons, findSome?_nil]
  cases f 1 with
  | some b => rfl
  | none =>
    cases f 10 with
    | some b => rfl
    | none =>
      cases f 100 with
      | some b => rfl
      | none => cases f 1000 <;> rfl

theorem findSome?_ite (f : α → β) (p : β → Bool) (l : List α) :
    (l.findSome? fun a => if p (f a) = true then some (f a) else none) = (l.map f).find? p := by
  induction l with
  | nil => rfl
  | cons a l ih =>
    rw [findSome?_cons, map_cons, find?_cons]
    cases hp : p (f a) with
    | true => rfl
    | false => exact ih

theorem generate_short_name_eq (taken : List UInt8 → Bool) (long_name : List UInt8) :
    generate_short_name taken long_name = (triedAliases long_name).find? fun s => !taken s := by
  unfold generate_short_name triedAliases aliasParts
  generalize extract_base_ext 32 8 long_name = parts
  obtain ⟨base, ext⟩ := parts
  dsimp only
  generalize (if base = [] then [0x46, 0x49, 0x4C, 0x45] else base) = full
  rw [find?_cons]
  rcases htaken : taken (make_short_name_from_base_ext full ext) with _ | _
  · rfl
  -- a number only tells how much of the base is left
  let cut (digits : ℕ) : List UInt8 := (full.take (8 - (digits + 1)) ++ [0x7E, 0x25, 0x75]).take 8
  have hdigits := findSome?_digits
    (f := fun n => if (!taken (make_short_name_from_base_ext (aliasBase full n) ext)) = true then
      some (make_short_name_from_base_ext (aliasBase full n) ext) else none)
    (g := fun k => if (!taken (make_short_name_from_base_ext (cut k) ext)) = true then
      some (make_short_name_from_base_ext (cut k) ext) else none) fun n => rfl
  have himage := findSome?_ite (fun n => make_short_name_from_base_ext (aliasBase full n) ext) (fun s => !taken s)
    [1, 10, 100, 1000]
  exact hdigits.trans himage

theorem toNat_toupper (c : UInt8) :
    (toupper c).toNat = if 97 ≤ c.toNat ∧ c.toNat ≤ 122 then c.toNat - 32 else c.toNat := by
  unfold toupper
  simp only [UInt8.le_iff_toNat_le, UInt8.reduceToNat]
  split_ifs with h
  · rw [UInt8.toNat_sub_of_le]
    · rfl
    · simp only [UInt8.le_iff_toNat_le, UInt8.reduceToNat]
      omega
  · rfl

theorem toupper_idem (c : UInt8) : toupper (toupper c) = toupper c := by
  apply UInt8.toNat_inj.mp
  have h := toNat_toupper c
  rw [toNat_toupper (toupper c)]
  split_ifs at h ⊢ <;> omega

theorem toupper_eq_dot (h : toupper c = dot) : c = dot := by
  have hc := toNat_toupper c
  have hdot : dot.toNat = 46 := rfl
  rw [h, hdot] at hc
  apply UInt8.toNat_inj.mp
  split_ifs at hc <;> omega

/-- A character that a part of an alias may have: only the dot is not valid among them. -/
def Clean (c : UInt8) : Prop := shortForbidden (toupper c) = false
deriving Decidable

theorem clean_sanitize (h : c ∈ sanitize_component n s) : Clean c := by
  have hmem := mem_of_mem_take h
  rw [mem_filter, mem_map] at hmem
  obtain ⟨⟨x, -, rfl⟩, hok⟩ := hmem
  unfold Clean
  rw [toupper_idem]
  simpa using hok

theorem clean_aliasBase (hbase : ∀ c ∈ base, Clean c) (hc : c ∈ aliasBase base n) : Clean c := by
  have hmark : ∀ c ∈ ([0x7E, 0x25, 0x75] : List UInt8), shortForbidden (toupper c) = false :=
    all_iff_forall_prop.mp (by decide)
  rcases mem_append.mp (mem_of_mem_take hc) with hc | hc
  · exact hbase c (mem_of_mem_take hc)
  · exact hmark c hc

theorem clean_aliasParts (long_name : List UInt8) :
    (∀ c ∈ (aliasParts long_name).1, Clean c) ∧ ∀ c ∈ (aliasParts long_name).2, Clean c := by
  have hfile : ∀ c ∈ ([0x46, 0x49, 0x4C, 0x45] : List UInt8), shortForbidden (toupper c) = false :=
    all_iff_forall_prop.mp (by decide)
  have hbase : ∀ c ∈ (extract_base_ext 32 8 long_name).1, Clean c := fun c hc => clean_sanitize hc
  have hext : ∀ c ∈ (extract_base_ext 32 8 long_name).2, Clean c := fun c hc => clean_sanitize hc
  unfold aliasParts
  generalize extract_base_ext 32 8 long_name = parts at hbase hext
  obtain ⟨base, ext⟩ := parts
  refine ⟨?_, hext⟩
  intro c hc
  dsimp only at hc hbase
  split_ifs at hc with hempty
  · exact hfile c hc
  · exact hbase c hc

theorem mem_triedAliases (h : s ∈ triedAliases long_name) :
    ∃ base, (base = (aliasParts long_name).1 ∨ ∃ n, base = aliasBase (aliasParts long_name).1 n) ∧
      s = make_short_name_from_base_ext base (aliasParts long_name).2 := by
  simp only [triedAliases, mem_cons, mem_map] at h
  rcases h with rfl | ⟨n, -, rfl⟩
  · exact ⟨_, .inl rfl, rfl⟩
  · exact ⟨_, .inr ⟨n, rfl⟩, rfl⟩

theorem mem_padTo (hc : c ∈ padTo n s) : c = blank ∨ c ∈ s := by
  rcases mem_append.mp hc with hc | hc
  · exact .inr (mem_of_mem_take hc)
  · exact .inl (eq_of_mem_replicate hc)

theorem clean_base (h : base = (aliasParts long_name).1 ∨ ∃ n, base = aliasBase (aliasParts long_name).1 n) :
    ∀ c ∈ base, Clean c := by
  have hclean := (clean_aliasParts long_name).1
  rcases h with rfl | ⟨n, rfl⟩
  · exact hclean
  · intro c hc
    exact clean_aliasBase hclean hc

theorem triedAliases_spec (h : s ∈ triedAliases long_name) : s.length = 11 ∧ ∀ c ∈ s, c = blank ∨ Clean c := by
  obtain ⟨base, hbase, rfl⟩ := mem_triedAliases h
  refine ⟨by simp [make_short_name_from_base_ext, length_padTo], ?_⟩
  intro c hc
  rcases mem_append.mp hc with hc | hc
  · exact (mem_padTo hc).imp_right (clean_base hbase c)
  · exact (mem_padTo hc).imp_right ((clean_aliasParts long_name).2 c)

theorem valid_iff_no_dot (h : ∀ c ∈ s, c = blank ∨ Clean c) :
    (∀ c ∈ s, c = blank ∨ short_valid_char c = true) ↔ dot ∉ s := by
  constructor
  · intro hvalid hdot
    rcases hvalid dot hdot with hc | hc
    · exact absurd hc (by decide)
    · exact absurd hc (by decide)
  · intro hdot c hc
    rcases h c hc with hblank | hok
    · exact .inl hblank
    right
    have hne : toupper c ≠ dot := by
      intro hc'
      rw [toupper_eq_dot hc'] at hc
      exact hdot hc
    unfold Clean at hok
    simp [short_valid_char, hok, hne]

section Directory

variable {rd : Slot → Bytes} {l : List Slot} {c : UInt8}

theorem short_name_exists_eq_false {s : List UInt8} (st : LfnState) :
    short_name_exists rd s l = false ↔ ∀ item ∈ iterate_dir rd st l, shortName item.entry ≠ s := by
  induction l generalizing st with
  | nil => simp [short_name_exists, iterate_dir]
  | cons σ l ih =>
    unfold short_name_exists iterate_dir
    split_ifs with hend hdeleted hlong hname
    · simp
    · exact ih lfn_reset
    · exact ih (lfn_push st (rd σ) σ)
    · simp [hname]
    · simp only [forall_mem_cons, LfnState.item_entry, ne_eq, hname, not_false_eq_true, true_and]
      exact ih lfn_reset

/-- A long name gets an alias exactly if one of the five names is free and the first such name has no dot. -/
theorem aliasGiven_iff_freeTried (long_name : List UInt8) : AliasGiven rd l long_name ↔ FreeTried rd l long_name := by
  unfold AliasGiven FreeTried
  rw [generate_short_name_eq]
  constructor
  · rintro ⟨s, hs, hgood⟩
    have hspec := triedAliases_spec (mem_of_find?_eq_some hs)
    exact ⟨s, hs, (valid_iff_no_dot hspec.2).mp hgood.valid⟩
  · rintro ⟨s, hs, hdot⟩
    have hspec := triedAliases_spec (mem_of_find?_eq_some hs)
    have hfree : short_name_exists rd s l = false := by simpa using find?_some hs
    exact ⟨s, hs, hspec.1, (short_name_exists_eq_false lfn_reset).mp hfree, (valid_iff_no_dot hspec.2).mpr hdot⟩

end Directory

/-- A long name with fewer than 9999 collisions gets an alias exactly if one of the five names that are tried is free
and the first such name has no dot. -/
theorem alias_given_iff (v : Vol) (dir : ℕ) (long_name : List UInt8) :
    (collisions v.raw (Fat16.dirSlots v dir) long_name < 9999 → AliasGiven v.raw (Fat16.dirSlots v dir) long_name) ↔
      (9999 ≤ collisions v.raw (Fat16.dirSlots v dir) long_name ∨
        FreeTried v.raw (Fat16.dirSlots v dir) long_name) := by
  rw [aliasGiven_iff_freeTried, ← not_lt]
  exact imp_iff_not_or

theorem collisions_le_length (rd : Slot → Bytes) (l : List Slot) (long_name : List UInt8) :
    collisions rd l long_name ≤ (entries rd l).length :=
  countP_le_length

/-- A file `LongnameN`, as it stands in a directory: its long entry and its entry. -/
def longnameFile (digit : UInt8) (short_name : List UInt8) (first : ℕ) : List UInt8 :=
  lfnEntry [0x4C, 0x6F, 0x6E, 0x67, 0x6E, 0x61, 0x6D, 0x65, digit] (lfn_checksum short_name) 1 0 ++
    entryBytes short_name 0x20 first 0

/-- `LONGNAME`, `LONGNA~%`, `LONGN~%u`, `LONG~%u` and `LON~%u`. -/
def longnameAliases : List (List UInt8) :=
  [[0x4C, 0x4F, 0x4E, 0x47, 0x4E, 0x41, 0x4D, 0x45, 0x20, 0x20, 0x20],
    [0x4C, 0x4F, 0x4E, 0x47, 0x4E, 0x41, 0x7E, 0x25, 0x20, 0x20, 0x20],
    [0x4C, 0x4F, 0x4E, 0x47, 0x4E, 0x7E, 0x25, 0x75, 0x20, 0x20, 0x20],
    [0x4C, 0x4F, 0x4E, 0x47, 0x7E, 0x25, 0x75, 0x20, 0x20, 0x20, 0x20],
    [0x4C, 0x4F, 0x4E, 0x7E, 0x25, 0x75, 0x20, 0x20, 0x20, 0x20, 0x20]]

/-- The root directory after `Longname1` to `Longname5` were created in it. -/
def fiveLongnames : Vol :=
  let files := (longnameAliases.zipIdx 1).flatMap fun (s, i) => longnameFile (0x30 + UInt8.ofNat i) s (i + 1)
  let root := Bytes.ofList files
  ⟨1, 256, 16, fun c => if c < 7 then 0xFFFF else 0, fun b => if b = none then root else fun _ => 0, 7, 0⟩

/-- `Longname6` gets no alias next to five files, since no number is ever written into one. -/
theorem sixth_longname_without_alias :
    let long_name : List UInt8 := [0x4C, 0x6F, 0x6E, 0x67, 0x6E, 0x61, 0x6D, 0x65, 0x36]
    let slots := Fat16.dirSlots fiveLongnames 0
    lfn_prepare_name long_name = some long_name ∧ triedAliases long_name = longnameAliases ∧
      (entries fiveLongnames.raw slots).length = 5 ∧ collisions fiveLongnames.raw slots long_name < 9999 ∧
      generate_short_name (fun s => short_name_exists fiveLongnames.raw s slots) long_name = none := by
  intro long_name slots
  have hlength : (entries fiveLongnames.raw slots).length = 5 := by decide +kernel
  have htried : (triedAliases long_name).find? (fun s => !short_name_exists fiveLongnames.raw s slots) = none := by
    decide +kernel
  refine ⟨by decide +kernel, by decide +kernel, hlength, ?_, ?_⟩
  · have hle := collisions_le_length fiveLongnames.raw slots long_name
    omega
  · rw [generate_short_name_eq, htried]

-- even in an empty directory `a.b.c` gets an alias with a dot in its base
example : generate_short_name (fun _ => false) [0x61, dot, 0x62, dot, 0x63] =
    some (make_short_name_from_base_ext [0x41, dot, 0x42] [0x43]) := by
  decide +kernel

end Orion.Fat
