import Orion.Fat16.Proofs.CreationProofs
import Orion.Syscall.Cwd

/-!
# Proofs: the current directory of FAT16

A walk of `fat16_resolve_dir` that does not fail has led through directories only, or to a file as the last component.
-/

namespace Orion.Fat16

open Lib Fat

variable {v : Vol} {H : List (List ℕ)} {d e : ℕ} {names : List (List UInt8)} {path : List UInt8}

theorem IsDir.ne_failure (hs : Tree.Inv eoc (tree v) none H) (hd : IsDir v none d) : d ≠ 0xFFFF := by
  intro hfail
  have hcell := hs.dir_cell hd (by omega)
  rw [hfail] at hcell
  exact absurd hcell (by decide)

theorem leads_of_not_endsInFile (hfile : endsInFile v d names = false) :
    resolveFrom v d names = 0xFFFF ∨ Leads v d names (resolveFrom v d names) := by
  induction names generalizing d with
  | nil => exact Or.inr rfl
  | cons name names ih =>
    rcases hfind : find_entry_slot v d name with _ | item
    · exact Or.inl (by simp only [resolveFrom, hfind])
    rcases hdir : isDirectory item.entry with _ | _
    · have hmore : names ≠ [] := by simpa [endsInFile, hfind, hdir] using hfile
      exact Or.inl (by simp [resolveFrom, hfind, hdir, hmore])
    have hstep : resolveFrom v d (name :: names) = resolveFrom v (firstLow item.entry) names := by
      simp [resolveFrom, hfind, hdir]
    have hrest : endsInFile v (firstLow item.entry) names = false := by
      simpa [endsInFile, hfind, hdir] using hfile
    rw [hstep]
    rcases ih hrest with hfail | hleads
    · exact Or.inl hfail
    · exact Or.inr ⟨item, hfind, hdir, hleads⟩

theorem resolveFrom_of_endsInFile (hs : Tree.Inv eoc (tree v) none H) (hd : IsDir v none d)
    (hfile : endsInFile v d names = true) : resolveFrom v d names ≠ 0xFFFF ∧ ∀ e, ¬ Leads v d names e := by
  induction names generalizing d with
  | nil => cases hfile
  | cons name names ih =>
    rcases hfind : find_entry_slot v d name with _ | item
    · simp [endsInFile, hfind] at hfile
    cases hdir : isDirectory item.entry with
    | false =>
      have hlast : names = [] := by simpa [endsInFile, hfind, hdir] using hfile
      constructor
      · simpa [resolveFrom, hfind, hdir, hlast] using hd.ne_failure hs
      rintro e ⟨item', hfind', hdir', -⟩
      obtain rfl : item = item' := Option.some.inj (hfind.symm.trans hfind')
      rw [hdir] at hdir'
      cases hdir'
    | true =>
      have hrest : endsInFile v (firstLow item.entry) names = true := by
        simpa [endsInFile, hfind, hdir] using hfile
      obtain ⟨hok, hno⟩ := ih (dir_of_found hs hd hfind hdir) hrest
      constructor
      · simpa [resolveFrom, hfind, hdir] using hok
      · rintro e ⟨item', hfind', -, hleads⟩
        obtain rfl : item = item' := Option.some.inj (hfind.symm.trans hfind')
        exact hno e hleads

theorem resolve_dir_eq (v : Vol) (path : List UInt8) :
    resolve_dir v path = resolveFrom v (startDir v path) (tokens slash path) := by
  unfold resolve_dir
  split
  · rename_i hroot
    subst hroot
    rfl
  · rfl

theorem resolvesSoundly_iff (hv : WellFormed v) (path : List UInt8) : ResolvesSoundly v path ↔
      path.length ≤ 255 ∧ endsInFile v (Fat16.startDir v path) (tokens slash path) = false := by
  constructor
  · rintro ⟨hroom, hsound⟩
    refine ⟨hroom, Bool.eq_false_iff.mpr fun hfile => ?_⟩
    obtain ⟨hok, hno⟩ := resolveFrom_of_endsInFile hv.sound (Fat16.startDir_dir hv.cwd path) hfile
    rw [← resolve_dir_eq] at hok
    exact hno _ (hsound hok)
  · rintro ⟨hroom, hfile⟩
    refine ⟨hroom, fun hok => ?_⟩
    rw [resolve_dir_eq] at hok ⊢
    exact (leads_of_not_endsInFile hfile).resolve_left hok

theorem resolveFrom_cwd (v : Vol) (c d : ℕ) (names : List (List UInt8)) :
    resolveFrom { v with cwd := c } d names = resolveFrom v d names := by
  induction names generalizing d with
  | nil => rfl
  | cons name names ih =>
    have hslot : find_entry_slot { v with cwd := c } d name = find_entry_slot v d name := rfl
    rw [resolveFrom, resolveFrom, hslot]
    simp only [ih]

theorem resolve_dir_cwd (v : Vol) (c : ℕ) (habs : path.head? = some slash) :
    resolve_dir { v with cwd := c } path = resolve_dir v path := by
  rw [resolve_dir_eq, resolve_dir_eq, Fat16.startDir, Fat16.startDir, if_pos habs, if_pos habs, resolveFrom_cwd]

end Orion.Fat16

namespace Orion.Syscall

open Lib Fat

variable {v : Fat.Vol} {current_path path normalized : Path}

theorem foldl_join_head (parts : List Path) {out : Path} (hout : out.head? = some slash) :
    (parts.foldl (fun out part => out ++ slash :: part.take (255 - (out.length + 1))) out).head? = some slash := by
  induction parts generalizing out with
  | nil => exact hout
  | cons part parts ih =>
    apply ih
    rw [List.head?_append, hout]
    rfl

theorem joinParts_head {parts : List Path} (hne : parts ≠ []) : (joinParts parts).head? = some slash := by
  cases parts with
  | nil => exact absurd rfl hne
  | cons part parts => exact foldl_join_head parts rfl

/-- What `normalize_path` writes is an absolute path that fits into `current_path`. -/
theorem normalize_path_spec (h : normalize_path current_path path = some normalized) :
    normalized.head? = some slash ∧ normalized.length ≤ 255 := by
  unfold normalize_path at h
  dsimp only at h
  generalize (if path.head? = some slash then [] else Fat32.partsFrom current_path []) = start at h
  split_ifs at h with hdeep hempty hlong
  · obtain rfl := Option.some.inj h
    exact ⟨rfl, by decide⟩
  · obtain rfl := Option.some.inj h
    exact ⟨joinParts_head hempty, not_lt.mp hlong⟩

theorem fat16Step_of_agrees (h : Fat16Agrees (some (v, current_path)))
    (hfits : Fat16Fits (some (v, current_path)) path) : Fat16Agrees (fat16Step (some (v, current_path)) path) := by
  rcases hfits with hempty | hsome
  · simpa [fat16Step, fat16_cd, hempty] using h
  obtain ⟨normalized, hnorm⟩ := Option.isSome_iff_exists.mp hsome
  obtain ⟨habs, hlen⟩ := normalize_path_spec hnorm
  by_cases hempty : path = []
  · simpa [fat16Step, fat16_cd, hempty] using h
  by_cases hfail : Fat16.resolve_dir v normalized = 0xFFFF
  · simpa [fat16Step, fat16_cd, hempty, hnorm, hfail] using h
  have hstep : fat16Step (some (v, current_path)) path =
      some ({ v with cwd := Fat16.resolve_dir v normalized }, normalized) := by
    simp [fat16Step, fat16_cd, hempty, hnorm, hfail, List.take_of_length_le hlen]
  rw [hstep]
  exact ⟨habs, Fat16.resolve_dir_cwd v _ habs⟩

theorem fat16Fits_of_agrees {s : Fat16Cwd} (h : Fat16Agrees (fat16Step s path)) : Fat16Fits s path := by
  rcases s with _ | ⟨v, current_path⟩
  · exact h.elim
  by_cases hempty : path = []
  · exact Or.inl hempty
  · cases hnorm : normalize_path current_path path with
    | none => simp [fat16Step, fat16_cd, hempty, hnorm, Fat16Agrees] at h
    | some normalized => exact Or.inr (by rw [hnorm]; rfl)

theorem fat16_cds_agree_iff (v : Fat.Vol) (paths : List Path) :
    Throughout fat16Step Fat16Agrees (fat16Mounted v) paths ↔ EachStep fat16Step Fat16Fits (fat16Mounted v) paths := by
  refine throughout_iff_eachStep (fun _ h => h) ?_ (fun _ _ _ h => fat16Fits_of_agrees h) ⟨rfl, rfl⟩
  rintro (_ | ⟨v, current_path⟩) path h hfits
  · exact h.elim
  · exact fat16Step_of_agrees h hfits

/-- `fat16_resolve_dir` is sound exactly for the paths that fit and do not end in a file; text and cluster of the
current directory agree as long as `normalize_path` stays within its buffers. -/
theorem fat16_paths_agree_iff (v : Fat.Vol) (hv : Fat16.WellFormed v) (path : Path) (paths : List Path) :
    (Fat16.ResolvesSoundly v path ↔
      path.length ≤ 255 ∧ Fat16.endsInFile v (Fat16.startDir v path) (tokens slash path) = false) ∧
    (Throughout fat16Step Fat16Agrees (fat16Mounted v) paths ↔ EachStep fat16Step Fat16Fits (fat16Mounted v) paths) :=
  ⟨Fat16.resolvesSoundly_iff hv path, fat16_cds_agree_iff v paths⟩

instance : ∀ (s : Fat16Cwd) (path : Path), Decidable (Fat16Fits s path)
  | none, _ => isFalse id
  | some (_, _), _ => inferInstanceAs (Decidable (_ ∨ _))

/-- Into the directory `D`, up again and back with a relative path. -/
def intoAndOut : List Path := [[slash, 0x44], [dot, dot], [0x44]]

theorem fat16_paths_agree_intoAndOut : Fat16.ResolvesSoundly Fat16.nearlyFull [slash, 0x44] ∧
    Throughout fat16Step Fat16Agrees (fat16Mounted Fat16.nearlyFull) intoAndOut ∧
      (exec fat16Step (fat16Mounted Fat16.nearlyFull) intoAndOut).map (fun s => (s.1.cwd, s.2)) =
        some (2, [slash, 0x44]) := by
  have hboth := fat16_paths_agree_iff Fat16.nearlyFull Fat16.wellFormed_nearlyFull [slash, 0x44] intoAndOut
  refine ⟨hboth.1.mpr ⟨by decide, ?_⟩, hboth.2.mpr ?_, ?_⟩
  · decide +kernel
  · decide +kernel
  · decide +kernel

def fiveParts : Path := (List.replicate 5 (slash :: List.replicate 63 0x41)).flatten

theorem fiveParts_ne : fiveParts ≠ [] := by
  decide +kernel

theorem normalize_fiveParts : normalize_path [slash] fiveParts = none := by
  decide +kernel

theorem fat16Step_fiveParts (v : Fat.Vol) : fat16Step (fat16Mounted v) fiveParts = none := by
  simp only [fat16Step, fat16Mounted, Option.bind_some, fat16_cd, if_neg fiveParts_ne, normalize_fiveParts,
    Option.map_none]

/-- `fat16_resolve_dir` takes the file `F` for its directory, so that `fat16_cd` goes to a file. Five parts of 63 bytes
are put together to 256 bytes, one too many. -/
theorem fat16_file_resolved : Fat16.WellFormed Fat16.oneFile ∧ Fat16.resolve_dir Fat16.oneFile [slash, 0x46] = 0 ∧
      ¬ Fat16.ResolvesSoundly Fat16.oneFile [slash, 0x46] ∧
      (fat16_cd Fat16.oneFile [slash] [slash, 0x46]).map (fun r => (r.1, r.2.1.cwd, r.2.2)) =
        some (true, 0, [slash, 0x46]) ∧
      ¬ Fat16Agrees (fat16Step (fat16Mounted Fat16.oneFile) fiveParts) := by
  have hdir : Fat16.resolve_dir Fat16.oneFile [slash, 0x46] = 0 := by decide +kernel
  refine ⟨Fat16.wellFormed_oneFile, hdir, ?_, by decide +kernel, ?_⟩
  · intro hsound
    have hfile := ((Fat16.resolvesSoundly_iff Fat16.wellFormed_oneFile [slash, 0x46]).mp hsound).2
    have hends : Fat16.endsInFile Fat16.oneFile 0 [[0x46]] = true := by decide +kernel
    exact absurd (hends.symm.trans hfile) (by decide)
  · rw [fat16Step_fiveParts]
    exact id

end Orion.Syscall
