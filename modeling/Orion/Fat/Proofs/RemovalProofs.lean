import Orion.Fat.Removal

/-!
# Which removals respect the kinds of entries

Each of the four removals is as good as the test it makes on the entry. That of `rm` is always passed; that of `rmdir`
looks at a part of the directory.
-/

namespace Orion.Fat

open Lib

section Shape

variable {V : Type*} {v : V} {found : Option Item} {test : Item → Bool} {change : Item → V} {ok : Prop}

/-- A removal of the entry `found`, if it passes the test. -/
def removeIf (v : V) (found : Option Item) (test : Item → Bool) (change : Item → V) : Bool × V :=
  match found with
  | none => (false, v)
  | some item => if test item then (true, change item) else (false, v)

theorem refusals_eq {α : Type*} {x y : α} (a b : Bool) :
    (if !a then x else if !b then x else y) = if a && b then y else x := by
  rcases a with _ | _
  · rfl
  cases b with
  | false => rfl
  | true => rfl

theorem guarded_removeIf_iff :
    Guarded ok v (removeIf v found test change) ↔ ∀ item, found = some item → test item = true → ok := by
  unfold removeIf
  rcases found with _ | item
  · constructor
    · intro _ item hitem
      cases hitem
    · intro _
      exact ⟨nofun, fun _ => rfl⟩
  simp only [Option.some.injEq, forall_eq']
  cases htest : test item with
  | true =>
    constructor
    · intro hguarded _
      exact hguarded.only rfl
    · intro hok
      exact ⟨fun _ => hok rfl, nofun⟩
  | false =>
    constructor
    · intro _ h
      cases h
    · intro _
      exact ⟨nofun, fun _ => rfl⟩

theorem guarded_untested_iff {kind : Item → Prop} :
    Guarded (∃ item, found = some item ∧ kind item) v (removeIf v found (fun _ => true) change) ↔
      ∀ item, found = some item → kind item := by
  rw [guarded_removeIf_iff]
  constructor
  · intro h item hitem
    obtain ⟨item', hitem', hkind⟩ := h item hitem rfl
    rw [hitem] at hitem'
    rwa [Option.some.inj hitem']
  · intro h item hitem _
    exact ⟨item, hitem, h item hitem⟩

/-- A removal that tests for directories in which nothing is seen is guarded exactly if something is seen in every one
that is not empty. -/
theorem guarded_unseen_iff {dir : Item → Bool} {empty seen : Item → Prop} {unseen : Item → Bool}
    (hunseen : ∀ item, unseen item = true ↔ ¬ seen item) :
    Guarded (∃ item, found = some item ∧ dir item = true ∧ empty item) v
        (removeIf v found (fun item => dir item && unseen item) change) ↔
      ∀ item, found = some item → dir item = true → empty item ∨ seen item := by
  rw [guarded_removeIf_iff]
  constructor
  · intro h item hitem hdir
    by_cases hseen : seen item
    · exact .inr hseen
    left
    have htest : (dir item && unseen item) = true := by rw [hdir, (hunseen item).mpr hseen, Bool.and_self]
    obtain ⟨item', hitem', -, hempty⟩ := h item hitem htest
    rw [hitem] at hitem'
    rwa [Option.some.inj hitem']
  · intro h item hitem htest
    rw [Bool.and_eq_true] at htest
    rcases h item hitem htest.1 with hempty | hseen
    · exact ⟨item, hitem, htest.1, hempty⟩
    · exact absurd hseen ((hunseen item).mp htest.2)

end Shape

section Scan

variable {isLong : Bytes → Prop} {rd : Slot → Bytes} {σ : Slot} {l : List Slot}

theorem not_seenIn_nil : ¬ SeenIn isLong rd [] := by
  rintro ⟨σ, hσ, -⟩
  cases hσ

theorem not_seenIn_end (h : rd σ 0 = 0) : ¬ SeenIn isLong rd (σ :: l) := by
  rintro ⟨τ, hτ, -⟩
  rw [List.takeWhile_cons_of_neg (by simp [h])] at hτ
  cases hτ

theorem seenIn_cons (h : rd σ 0 ≠ 0) : SeenIn isLong rd (σ :: l) ↔
      (rd σ 0 ≠ 0xE5 ∧ ¬ isLong (rd σ) ∧ ¬ looksLikeDot (rd σ)) ∨ SeenIn isLong rd l := by
  unfold SeenIn
  rw [List.takeWhile_cons_of_pos (by simp [h])]
  simp only [List.exists_mem_cons_iff]

/-- A scan that passes over deleted, long and dot entries and stops at the first place never used or at any other entry.
-/
theorem scan_iff [DecidablePred isLong] {scan : List Slot → Bool} (hnil : scan [] = true)
    (hcons : ∀ σ l, scan (σ :: l) = if rd σ 0 = 0 then true
      else if rd σ 0 = 0xE5 then scan l
      else if isLong (rd σ) then scan l
      else if looksLikeDot (rd σ) then scan l
      else false)
    (l : List Slot) : scan l = true ↔ ¬ SeenIn isLong rd l := by
  induction l with
  | nil => simp [hnil, not_seenIn_nil]
  | cons σ l ih =>
    rw [hcons]
    split_ifs with hend hdeleted hlong hdot
    · simp [not_seenIn_end hend]
    · rw [ih, seenIn_cons hend]
      simp [hdeleted]
    · rw [ih, seenIn_cons hend]
      simp [hlong]
    · rw [ih, seenIn_cons hend]
      simp [hdot]
    · rw [seenIn_cons hend]
      simp [hdeleted, hlong, hdot]

end Scan

end Orion.Fat

namespace Orion.Fat16

open Lib Fat

variable (v : Vol) (path : List UInt8)

theorem is_dir_empty_iff (item : Item) :
    is_dir_empty v.raw (v.places [some (clusterOrFirst (firstLow item.entry))]) = true ↔ ¬ SeenEntry v item :=
  scan_iff rfl (fun _ _ => rfl) _

theorem rm_eq : rm v path = removeIf v (findTarget v path) (fun _ => true) fun item =>
      deleteItem (freeChain true eoc (firstLow item.entry) v) item := by
  unfold rm findTarget removeIf
  generalize split_path path = parts
  obtain ⟨dir, name⟩ := parts
  dsimp only
  by_cases hname : name = []
  · simp only [if_pos hname]
  by_cases hdir : resolve_dir v dir = 0xFFFF
  · simp only [if_neg hname, if_pos hdir]
  simp only [if_neg hname, if_neg hdir]
  cases find_entry_slot v (resolve_dir v dir) name with
  | none => rfl
  | some item => rfl

theorem rmdir_eq : rmdir v path = removeIf v (findTarget v path) (fun item => isDirectory item.entry &&
        is_dir_empty v.raw (v.places [some (clusterOrFirst (firstLow item.entry))]))
      fun item => deleteItem (freeChain false eoc (firstLow item.entry) v) item := by
  unfold rmdir findTarget removeIf
  generalize split_path path = parts
  obtain ⟨dir, name⟩ := parts
  dsimp only
  by_cases hname : name = []
  · simp only [if_pos hname]
  by_cases hdir : resolve_dir v dir = 0xFFFF
  · simp only [if_neg hname, if_pos hdir]
  simp only [if_neg hname, if_neg hdir]
  cases find_entry_slot v (resolve_dir v dir) name with
  | none => rfl
  | some item => exact refusals_eq _ _

end Orion.Fat16

namespace Orion.Fat32

open Lib Fat

variable (v : Vol) (path : List UInt8)

theorem is_dir_empty_iff (item : Item) :
    is_dir_empty v.raw ((List.range' 2 14).map fun j => (some (firstCluster item.entry), j)) = true ↔
      ¬ SeenEntry v item :=
  scan_iff rfl (fun _ _ => rfl) _

theorem rm_eq : rm v path = removeIf v (findTarget v path) (fun _ => true) fun item =>
      (freeChain true eoc (firstCluster item.entry) v).onBase fun b => deleteItem b item := by
  unfold rm removeIf
  cases findTarget v path with
  | none => rfl
  | some item => rfl

theorem rmdir_eq : rmdir v path = removeIf v (findTarget v path) (fun item => isDirectory item.entry &&
        is_dir_empty v.raw ((List.range' 2 14).map fun j => (some (firstCluster item.entry), j)))
      fun item => (freeChain false eoc (firstCluster item.entry) v).onBase fun b => deleteItem b item := by
  unfold rmdir removeIf
  cases findTarget v path with
  | none => rfl
  | some item => exact refusals_eq _ _

end Orion.Fat32

namespace Orion.Fat

open Lib

/-- `rm` respects kinds exactly if the path leads to no directory and no label, `rmdir` exactly if it leads to no
directory whose entries are all out of the driver's sight. -/
theorem removal_respects_kinds_iff (v : Vol) (w : Fat32.Vol) (path : List UInt8) :
    ((Guarded (Fat16.NamesFile v path) v (Fat16.rm v path) ↔
        ∀ item, Fat16.findTarget v path = some item → isRegular item.entry) ∧
      (Guarded (Fat16.NamesEmptyDir v path) v (Fat16.rmdir v path) ↔
        ∀ item, Fat16.findTarget v path = some item → isDirectory item.entry = true →
          Fat16.EmptyDir v (firstLow item.entry) ∨ Fat16.SeenEntry v item)) ∧
    (Guarded (Fat32.NamesFile w path) w (Fat32.rm w path) ↔
        ∀ item, Fat32.findTarget w path = some item → isRegular item.entry) ∧
      (Guarded (Fat32.NamesEmptyDir w path) w (Fat32.rmdir w path) ↔
        ∀ item, Fat32.findTarget w path = some item → isDirectory item.entry = true →
          Fat32.EmptyDir w (Fat32.namedDir w item.entry) ∨ Fat32.SeenEntry w item) := by
  refine ⟨⟨?_, ?_⟩, ?_, ?_⟩
  · rw [Fat16.rm_eq]
    exact guarded_untested_iff
  · rw [Fat16.rmdir_eq]
    exact guarded_unseen_iff (Fat16.is_dir_empty_iff v)
  · rw [Fat32.rm_eq]
    exact guarded_untested_iff
  · rw [Fat32.rmdir_eq]
    exact guarded_unseen_iff (Fat32.is_dir_empty_iff w)

/-- The directory `D` has two clusters: the first holds its dot entries and fourteen deleted ones, the second the file
`F`. -/
def longDir (first parent : ℕ) : Option ℕ → Bytes := fun b =>
  if b = some first then
    Bytes.ofList (dotSector first parent ++ (List.replicate 14 (0xE5 :: List.replicate 31 0)).flatten)
  else if b = some (first + 1) then Bytes.ofList (entryBytes (padTo 11 [0x46]) 0x20 (first + 2) 0)
  else Bytes.ofList (entryBytes (padTo 11 [0x44]) 0x10 first 0)

/-- A FAT16 volume with a directory of two clusters. -/
def longDir16 : Vol :=
  ⟨1, 256, 16, fun c => if c = 2 then 3 else if c = 3 ∨ c = 4 then 0xFFFF else 0, longDir 2 0, 5, 0⟩

def longDir32 : Fat32.Vol :=
  let table := fun c => if c = 3 then 4 else if c = 2 ∨ c = 4 ∨ c = 5 then 0x0FFFFFFF else 0
  ⟨⟨1, 256, 0, table, longDir 3 2, 6, 2⟩, table, 2⟩

/-- `rm /D` and `rmdir /D` succeed on a directory in which the file `F` is listed. -/
theorem directory_with_file_removed : let path : List UInt8 := [slash, 0x44]
    let names : List (List UInt8) := [padTo 11 [dot], padTo 11 [dot, dot], padTo 11 [0x46]]
    ((Fat16.findTarget longDir16 path).map fun item => (isDirectory item.entry, firstLow item.entry)) = some (true, 2) ∧
      (Fat16.rm longDir16 path).1 = true ∧ (Fat16.rmdir longDir16 path).1 = true ∧
      ((iterate_dir longDir16.raw lfn_reset (Fat16.dirSlots longDir16 2)).map fun item => shortName item.entry) =
        names ∧
      ((Fat32.findTarget longDir32 path).map fun item => (isDirectory item.entry, Fat32.firstCluster item.entry)) =
        some (true, 3) ∧
      (Fat32.rm longDir32 path).1 = true ∧ (Fat32.rmdir longDir32 path).1 = true ∧
      ((iterate_dir longDir32.raw lfn_reset (Fat32.dirSlots longDir32 3)).map fun item => shortName item.entry) =
        names := by
  decide +kernel

end Orion.Fat
