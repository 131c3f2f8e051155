import Orion.Syscall.Normalize

/-!
# Proofs: what `normalize_path` makes of its texts
-/

namespace Orion.Syscall

open Lib Fat Fat32 List

variable {cwd path : Path} {part : Path} {parts : List Path} {s cur : Path} {p : Piece}

/-- The loop over the path, which sees no empty components, is a run of the stack. -/
theorem normalizeParts_filter (stack parts : List Path) : normalizeParts stack (parts.filter (· ≠ [])) =
    parts.foldl (stackStep componentEffect 64) stack := by
  unfold normalizeParts
  rw [foldl_filter]
  congr 1
  funext stack part
  unfold stackStep componentEffect
  by_cases hempty : part = []
  · simp [hempty]
  by_cases hdot : part = [dot]
  · simp [hdot]
  by_cases hdots : part = [dot, dot]
  · simp [hdots]
  · simp [hempty, hdot, hdots]

theorem joinParts_concat (parts : List Path) (part : Path) : joinParts (parts ++ [part]) =
    joinParts parts ++ slash :: part.take (255 - ((joinParts parts).length + 1)) := by
  unfold joinParts
  rw [foldl_append]
  rfl

/-- Up to 255 bytes the text is as long as the components with a slash each. -/
theorem length_joinParts (parts : List Path) :
    min 255 (joinParts parts).length = min 255 (parts.map fun part => part.length + 1).sum := by
  induction parts using List.reverseRecOn with
  | nil => rfl
  | append_singleton parts part ih =>
    rw [joinParts_concat, map_append, sum_append, length_append, length_cons, length_take]
    simp only [map_cons, map_nil, sum_cons, sum_nil]
    omega

theorem joinParts_fits_iff (parts : List Path) : (joinParts parts).length ≤ 255 ↔
    (parts.dropLast.map fun part => part.length + 1).sum ≤ 254 := by
  rcases eq_nil_or_concat parts with rfl | ⟨front, part, rfl⟩
  · exact ⟨fun _ => Nat.zero_le _, fun _ => Nat.zero_le _⟩
  have hlen := length_joinParts front
  rw [concat_eq_append, dropLast_concat, joinParts_concat, length_append, length_cons, length_take]
  omega

theorem map_text_piecesFrom (ofCwd : Bool) (i : ℕ) (s cur : Path) :
    (piecesFrom ofCwd i s cur).map Piece.text = partsFrom s cur := by
  induction s generalizing i cur with
  | nil =>
    rw [piecesFrom, partsFrom]
    split
    · rfl
    · rfl
  | cons c s ih =>
    rw [piecesFrom, partsFrom]
    split
    · rw [map_append, ih]
      congr 1
      split
      · rfl
      · rfl
    · split
      · rw [map_cons, ih]
      · exact ih i (cur ++ [c])

theorem mem_piecesFrom {ofCwd : Bool} {i : ℕ} (h : p ∈ piecesFrom ofCwd i s cur) : p.ofCwd = ofCwd ∧ p.text ≠ [] := by
  induction s generalizing i cur with
  | nil =>
    rw [piecesFrom, mem_ite_nil_left, mem_singleton] at h
    obtain ⟨hcur, rfl⟩ := h
    exact ⟨rfl, hcur⟩
  | cons c s ih =>
    rw [piecesFrom] at h
    split at h
    · rw [mem_append, mem_ite_nil_left, mem_singleton] at h
      rcases h with ⟨hcur, rfl⟩ | h
      · exact ⟨rfl, hcur⟩
      · exact ih h
    · split at h
      · rcases mem_cons.mp h with rfl | h
        · exact ⟨rfl, by simp⟩
        · exact ih h
      · exact ih h

theorem effect_cwdPieces (h : p ∈ cwdPieces cwd path) : p.effect = .put := by
  rw [cwdPieces, mem_ite_nil_left] at h
  rw [Piece.effect, (mem_piecesFrom h.2).1, if_pos rfl]

theorem left_cwdPieces : left Piece.effect (cwdPieces cwd path) = cwdPieces cwd path := by
  rw [left_eq_filter fun p hp => by rw [effect_cwdPieces hp]; exact nofun, filter_eq_self]
  intro p hp
  simpa using effect_cwdPieces hp

theorem map_text_foldl {ps : List Piece} (stack : List Piece) (h : ∀ p ∈ ps, p.ofCwd = false ∧ p.text ≠ []) :
    (ps.foldl (stackStep Piece.effect 64) stack).map Piece.text =
      normalizeParts (stack.map Piece.text) (ps.map Piece.text) := by
  have hfilter : (ps.map Piece.text).filter (· ≠ []) = ps.map Piece.text := by
    rw [filter_eq_self]
    intro part hpart
    obtain ⟨p, hp, rfl⟩ := mem_map.mp hpart
    simpa using (h p hp).2
  rw [← hfilter, normalizeParts_filter]
  clear hfilter
  induction ps generalizing stack with
  | nil => rfl
  | cons p ps ih =>
    rw [foldl_cons, ih _ fun q hq => h q (mem_cons_of_mem _ hq), map_cons, foldl_cons]
    congr 1
    have heffect : p.effect = componentEffect p.text := by
      rw [Piece.effect, (h p mem_cons_self).1]
      rfl
    unfold stackStep
    rw [heffect, length_map]
    cases componentEffect p.text with
    | skip => rfl
    | back => exact map_dropLast
    | put =>
      show (if _ then _ else _ : List Piece).map Piece.text = if _ then _ else _
      split
      · exact map_append
      · rfl

theorem map_text_cwdPieces : (cwdPieces cwd path).map Piece.text =
    if path.head? = some slash then [] else partsFrom cwd [] := by
  unfold cwdPieces
  split
  · rfl
  · exact map_text_piecesFrom true 0 cwd []

theorem map_text_rows (cwd path : Path) : (rows cwd path).map Piece.text =
    normalizeParts ((cwdPieces cwd path).map Piece.text) (partsFrom path []) := by
  rw [rows, map_text_foldl _ fun _ => mem_piecesFrom, map_text_piecesFrom]

theorem normalize_path_isSome_iff (cwd path : Path) : (normalize_path cwd path).isSome = true ↔
    (cwdPieces cwd path).length ≤ 64 ∧ (joinParts ((rows cwd path).map Piece.text)).length ≤ 255 := by
  unfold normalize_path
  dsimp only
  rw [← map_text_cwdPieces, length_map, ← map_text_rows]
  by_cases hdepth : (cwdPieces cwd path).length ≤ 64
  · rw [if_neg (by omega)]
    by_cases hempty : (rows cwd path).map Piece.text = []
    · simp [hempty, hdepth, joinParts]
    rw [if_neg hempty]
    by_cases hlong : (joinParts ((rows cwd path).map Piece.text)).length > 255
    · simp [hlong]
    · rw [if_neg hlong]
      simp only [Option.isSome_some, true_iff]
      exact ⟨hdepth, by omega⟩
  · rw [if_pos (by omega)]
    simp [hdepth]

theorem rows_eq_keptPieces (cwd path : Path) : rows cwd path = keptPieces cwd path := by
  unfold rows keptPieces
  rw [← foldl_stackStep, left_cwdPieces]

/-- `normalize_path` keeps to its buffers and splits no component exactly if the pieces of its texts fit. -/
theorem staysInside_iff (cwd path : Path) : StaysInside cwd path ↔ PiecesFit cwd path := by
  have hroom := joinParts_fits_iff ((keptPieces cwd path).map Piece.text)
  rw [← map_dropLast, map_map] at hroom
  have hbuffers := normalize_path_isSome_iff cwd path
  rw [rows_eq_keptPieces, hroom] at hbuffers
  constructor
  · intro h
    obtain ⟨hdepth, hsum⟩ := hbuffers.mp h.buffers
    exact ⟨hdepth, hsum, rows_eq_keptPieces cwd path ▸ h.unsplit⟩
  · intro h
    exact ⟨hbuffers.mpr ⟨h.depth, h.room⟩, (rows_eq_keptPieces cwd path).symm ▸ h.unsplit⟩

def deepCwd : Path := (List.replicate 65 [slash, 0x61]).flatten

def longCwd : Path := (List.replicate 3 (slash :: List.replicate 63 0x61)).flatten ++ slash :: List.replicate 62 0x61

/-- The 65th component of `cwd` goes behind the stack, the zero behind a `cwd` of 255 bytes behind the buffer, and a
component of 64 bytes becomes two. -/
theorem normalize_path_overruns : deepCwd.length = 130 ∧ longCwd.length = 255 ∧ (cwdPieces deepCwd [0x62]).length = 65 ∧
      (joinParts ((rows longCwd [0x62]).map Piece.text)).length = 256 ∧
      normalize_path [slash] (List.replicate 64 0x61) = some (slash :: List.replicate 63 0x61 ++ [slash, 0x61]) ∧
      ¬ StaysInside deepCwd [0x62] ∧ ¬ StaysInside longCwd [0x62] ∧ ¬ StaysInside [slash] (List.replicate 64 0x61) := by
  refine ⟨by decide +kernel, by decide +kernel, by decide +kernel, by decide +kernel, by decide +kernel, ?_, ?_, ?_⟩
  · intro h
    exact absurd h.buffers (by decide +kernel)
  · intro h
    exact absurd h.buffers (by decide +kernel)
  intro h
  have hsplit := h.unsplit
  revert hsplit
  unfold Unsplit
  decide +kernel

theorem components_cons (c : UInt8) (s : Path) : components (c :: s) =
    if c = slash then [] :: components s else (components s).modifyHead (c :: ·) := by
  rw [components, List.splitOn, splitOnP_cons_eq_if_modifyHead]
  simp only [beq_iff_eq]
  rfl

theorem components_append (s t : Path) : components (s ++ slash :: t) = components s ++ components t :=
  splitOnP_append_cons s t (beq_self_eq_true slash)

/-- Where no component is longer than 63 bytes, none is cut; `cur` is what has been read of the next one. -/
theorem partsFrom_eq_filter (hshort : ∀ part ∈ (components s).modifyHead (cur ++ ·), part.length ≤ 63) :
    partsFrom s cur = ((components s).modifyHead (cur ++ ·)).filter (· ≠ []) := by
  induction s generalizing cur with
  | nil =>
    have hnil : (components []).modifyHead (cur ++ ·) = [cur] := by simp [components]
    rw [hnil, partsFrom]
    by_cases hcur : cur = []
    · simp [hcur]
    · simp [hcur]
  | cons c s ih =>
    obtain ⟨first, rest, hsplit⟩ := exists_cons_of_ne_nil (splitOnP_ne_nil (· == slash) s)
    change components s = first :: rest at hsplit
    rw [components_cons] at hshort ⊢
    rw [hsplit] at hshort ih ⊢
    rw [partsFrom]
    by_cases hc : c = slash
    · rw [if_pos hc] at hshort ⊢
      have hrest : partsFrom s [] = (first :: rest).filter (· ≠ []) := by
        apply ih
        intro part hpart
        exact hshort part (mem_cons_of_mem _ hpart)
      rw [if_pos hc, hrest]
      by_cases hcur : cur = []
      · simp [hcur]
      · simp [hcur]
    · rw [if_neg hc] at hshort ⊢
      rw [if_neg hc]
      have hmove : cur ++ c :: first = (cur ++ [c]) ++ first := by simp
      simp only [modifyHead_cons, hmove] at hshort ih ⊢
      by_cases hfull : cur.length = 62
      · -- the component ends here
        have hlen := hshort _ mem_cons_self
        have hnil : first = [] := by
          rw [← length_eq_zero_iff]
          simp only [length_append, length_singleton] at hlen
          omega
        subst hnil
        have hrest : partsFrom s [] = ([] :: rest).filter (· ≠ []) := by
          apply ih
          intro part hpart
          rcases mem_cons.mp hpart with rfl | hpart
          · exact Nat.zero_le _
          · exact hshort part (mem_cons_of_mem _ hpart)
        rw [if_pos hfull, hrest]
        simp
      · rw [if_neg hfull]
        exact ih hshort

theorem partsFrom_components (hshort : ∀ part ∈ components path, part.length ≤ 63) :
    partsFrom path [] = (components path).filter (· ≠ []) := by
  have hid : (components path).modifyHead ([] ++ ·) = components path := by
    cases components path with
    | nil => rfl
    | cons first rest => rfl
  rw [← hid] at hshort ⊢
  exact partsFrom_eq_filter hshort

theorem slash_not_mem_of_mem_components (h : part ∈ components path) : slash ∉ part := by
  induction path generalizing part with
  | nil =>
    obtain rfl : part = [] := mem_singleton.mp h
    exact not_mem_nil
  | cons c s ih =>
    rw [components_cons] at h
    split_ifs at h with hc
    · rcases mem_cons.mp h with rfl | h
      · exact not_mem_nil
      · exact ih h
    · cases hsplit : components s with
      | nil => simp [hsplit] at h
      | cons first rest =>
        rw [hsplit] at h ih
        rcases mem_cons.mp h with rfl | h
        · simp [Ne.symm hc, ih mem_cons_self]
        · exact ih (mem_cons_of_mem _ h)

theorem names_left (path : Path) : Names (left componentEffect (components path)) := by
  intro part hpart
  obtain ⟨hmem, hput⟩ := mem_of_mem_left hpart
  refine ⟨slash_not_mem_of_mem_components hmem, ?_, ?_, ?_⟩
  · rintro rfl
    cases hput
  · rintro rfl
    cases hput
  · rintro rfl
    cases hput

theorem Names.effect (h : Names parts) (hpart : part ∈ parts) : componentEffect part = .put := by
  obtain ⟨-, hempty, hdot, hdots⟩ := h part hpart
  simp [componentEffect, hempty, hdot, hdots]

theorem components_flatMap (h : Names parts) : components (parts.flatMap (slash :: ·)) = [] :: parts := by
  induction parts using List.reverseRecOn with
  | nil => rfl
  | append_singleton parts part ih =>
    have hsingle : components part = [part] := by
      have hsplit : ([slash].intercalate [part]).splitOn slash = [part] :=
        splitOn_intercalate slash (by simpa using (h part (by simp)).1) (by simp)
      simpa [components] using hsplit
    have hrest := ih fun other hother => h other (mem_append_left _ hother)
    rw [flatMap_append, flatMap_singleton, components_append, hrest, hsingle]
    rfl

/-- The components of a canonical path are its names, and empty ones. -/
theorem components_absolute (h : Names parts) : (components (absolute parts)).filter (· ≠ []) = parts ∧
    ∀ part ∈ components (absolute parts), part = [] ∨ componentEffect part = .put := by
  unfold absolute
  split_ifs with hparts
  · subst hparts
    exact ⟨by decide, by decide⟩
  rw [components_flatMap h]
  constructor
  · rw [filter_cons_of_neg (by simp), filter_eq_self]
    intro part hpart
    simpa using (h part hpart).2.1
  · intro part hpart
    rcases mem_cons.mp hpart with hempty | hpart
    · exact .inl hempty
    · exact .inr (h.effect hpart)

/-- The components of a canonical path are left as they are, but for the empty ones. -/
theorem left_eq_filter_nonempty (h : ∀ part ∈ parts, part = [] ∨ componentEffect part = .put) :
    left componentEffect parts = parts.filter (· ≠ []) := by
  rw [left_eq_filter]
  · apply filter_congr
    intro part hpart
    rcases h part hpart with rfl | hput
    · rfl
    have hne : part ≠ [] := by
      rintro rfl
      cases hput
    simp [hput, hne]
  · intro part hpart hback
    rcases h part hpart with rfl | hput
    · cases hback
    · rw [hput] at hback
      cases hback

theorem joinParts_eq_flatMap (h : (parts.flatMap (slash :: ·)).length ≤ 255) :
    joinParts parts = parts.flatMap (slash :: ·) := by
  induction parts using List.reverseRecOn with
  | nil => rfl
  | append_singleton parts part ih =>
    rw [flatMap_append, length_append] at h
    have hjoin := ih (by omega)
    rw [joinParts_concat, hjoin, flatMap_append, take_of_length_le]
    · simp
    · simp only [flatMap_singleton, length_cons] at h
      omega

/-- Where the stack starts with what is left of `before`, and neither it nor the text grows too large, the result is
what is left of all components. -/
theorem normalize_path_of_start (before : List Path)
    (hstart : (if path.head? = some slash then [] else partsFrom cwd []) = left componentEffect before)
    (hshort : ∀ part ∈ components path, part.length ≤ 63)
    (hdepth : ∀ m, m <+: before ++ components path → (left componentEffect m).length ≤ 64)
    (hlen : (absolute (left componentEffect (before ++ components path))).length ≤ 255) :
    normalize_path cwd path = some (absolute (left componentEffect (before ++ components path))) := by
  have hrun : normalizeParts (left componentEffect before) (partsFrom path []) =
      left componentEffect (before ++ components path) := by
    rw [partsFrom_components hshort, normalizeParts_filter, foldl_stackStep, foldl_accept]
    intro m hm
    exact hdepth _ ((prefix_append_right_inj before).mpr hm)
  have hbefore := hdepth before (prefix_append _ _)
  unfold normalize_path
  rw [hstart, if_neg (by omega), hrun]
  unfold absolute at hlen ⊢
  by_cases hempty : left componentEffect (before ++ components path) = []
  · rw [if_pos hempty, if_pos hempty]
  · rw [if_neg hempty] at hlen ⊢
    rw [if_neg hempty, joinParts_eq_flatMap hlen, if_neg (by omega)]

theorem normalize_path_fromRoot (hcwd : Canonical cwd)
    (hshort : ∀ part ∈ components (fromRoot cwd path), part.length ≤ 63)
    (hdepth : ∀ m, m <+: components (fromRoot cwd path) → (left componentEffect m).length ≤ 64)
    (hlen : (lexicalForm (fromRoot cwd path)).length ≤ 255) :
    normalize_path cwd path = some (lexicalForm (fromRoot cwd path)) := by
  unfold lexicalForm at hlen ⊢
  unfold fromRoot at hshort hdepth hlen ⊢
  by_cases habs : path.head? = some slash
  · rw [if_pos habs] at hshort hdepth hlen ⊢
    exact normalize_path_of_start [] (if_pos habs) hshort hdepth hlen
  rw [if_neg habs, components_append] at hshort hdepth hlen ⊢
  refine normalize_path_of_start _ ?_ (fun part hpart => hshort part (mem_append_right _ hpart)) hdepth hlen
  obtain ⟨parts, hnames, rfl⟩ := hcwd
  rw [if_neg habs, left_eq_filter_nonempty (components_absolute hnames).2,
    partsFrom_components fun part hpart => hshort part (mem_append_left _ hpart)]

theorem normalize_path_absolute (cwd : Path) (h : Names parts) (hshort : ∀ part ∈ parts, part.length ≤ 63)
    (hdepth : parts.length ≤ 64) (hlen : (absolute parts).length ≤ 255) :
    normalize_path cwd (absolute parts) = some (absolute parts) := by
  obtain ⟨hfilter, heffect⟩ := components_absolute h
  have hleft : left componentEffect (components (absolute parts)) = parts := by
    rw [left_eq_filter_nonempty heffect, hfilter]
  have hresult : normalize_path cwd (absolute parts) = some (absolute (left componentEffect (components (absolute parts)))) :=
    normalize_path_of_start [] ?_ ?_ ?_ ?_
  · rw [hresult, hleft]
  · cases parts with
    | nil => rfl
    | cons part parts => rfl
  · intro part hpart
    by_cases hempty : part = []
    · simp [hempty]
    · rw [← hfilter] at hshort
      exact hshort part (by simpa [hempty] using hpart)
  · intro m hm
    rw [left_eq_filter_nonempty fun part hpart => heffect part (hm.subset hpart)]
    rw [← hfilter] at hdepth
    exact ((hm.sublist.filter _).length_le).trans hdepth
  · rwa [nil_append, hleft]

/-- Within its buffers `normalize_path` gives the lexical normal form of the path; it is canonical and normalised to
itself. -/
theorem normalize_path_lexical (cwd path : Path) (hcwd : Canonical cwd)
    (hshort : ∀ part ∈ components (fromRoot cwd path), part.length ≤ 63)
    (hdepth : ∀ m, m <+: components (fromRoot cwd path) → (left componentEffect m).length ≤ 64)
    (hlen : (lexicalForm (fromRoot cwd path)).length ≤ 255) :
    normalize_path cwd path = some (lexicalForm (fromRoot cwd path)) ∧ Canonical (lexicalForm (fromRoot cwd path)) ∧
      ∀ other, normalize_path other (lexicalForm (fromRoot cwd path)) = some (lexicalForm (fromRoot cwd path)) := by
  have hnames := names_left (fromRoot cwd path)
  refine ⟨normalize_path_fromRoot hcwd hshort hdepth hlen, ⟨_, hnames, rfl⟩, fun other => ?_⟩
  refine normalize_path_absolute other hnames (fun part hpart => hshort part (mem_of_mem_left hpart).1) ?_ hlen
  exact hdepth _ (prefix_refl _)

/-- From "/a" the path "../b/./c//" leads to "/b/c". -/
theorem normalize_path_lexical_bc :
    normalize_path [slash, 0x61] [dot, dot, slash, 0x62, slash, dot, slash, 0x63, slash, slash] =
        some [slash, 0x62, slash, 0x63] ∧
      Canonical [slash, 0x62, slash, 0x63] := by
  have hcwd : Canonical [slash, 0x61] := ⟨[[0x61]], by unfold Names; decide, rfl⟩
  have hinits : ∀ m ∈ (components (fromRoot [slash, 0x61]
      [dot, dot, slash, 0x62, slash, dot, slash, 0x63, slash, slash])).inits,
      (left componentEffect m).length ≤ 64 := by decide +kernel
  have hnormal := normalize_path_lexical _ _ hcwd (by decide +kernel)
    (fun m hm => hinits m ((mem_inits _ _).mpr hm)) (by decide +kernel)
  exact ⟨hnormal.1, hnormal.2.1⟩

end Orion.Syscall
