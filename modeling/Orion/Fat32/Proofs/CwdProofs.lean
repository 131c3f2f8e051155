import Orion.Fat.Proofs.MatchProofs
import Orion.Fat32.Cwd

/-!
# Proofs: the current directory of FAT32

The names on the way from the root to the current directory are the components of the text; `..` takes the last one
away again.
-/

namespace Orion.Fat32

open Lib Fat List

variable {v : Vol} {c d : ℕ} {name text : List UInt8} {names : List (List UInt8)} {r : Bytes}

/-- A component of a path that is neither `.` nor `..`. -/
structure IsName (name : List UInt8) : Prop where
  ne : name ≠ []
  noSlash : slash ∉ name
  noZero : 0 ∉ name
  notDot : name ≠ [dot]
  notDots : name ≠ [dot, dot]

/-- The directories and names from the root to a directory. -/
inductive Walk (v : Vol) : List (List UInt8) → ℕ → Prop
  | root : Walk v [] v.root
  | step {names : List (List UInt8)} {d : ℕ} {name : List UInt8} : Walk v names d → IsName name →
      isCell eoc (find_dir_cluster v d name) → Walk v (names ++ [name]) (find_dir_cluster v d name)

def joined (names : List (List UInt8)) : List UInt8 := names.flatMap (slash :: ·)

/-- The path of a directory as a text. -/
def textOf (names : List (List UInt8)) : List UInt8 := if names = [] then [slash] else joined names

/-- The text names the directory `c` and fits the buffer. -/
def Located (v : Vol) (c : ℕ) (text : List UInt8) : Prop :=
  ∃ names, Walk v names c ∧ text = textOf names ∧ text.length ≤ 255

theorem joined_snoc (names : List (List UInt8)) (name : List UInt8) :
    joined (names ++ [name]) = joined names ++ slash :: name := by
  simp [joined]

theorem textOf_snoc (names : List (List UInt8)) (name : List UInt8) :
    textOf (names ++ [name]) = joined names ++ slash :: name := by
  rw [textOf, if_neg (by simp), joined_snoc]

theorem joined_ne_nil (hne : names ≠ []) : joined names ≠ [] := by
  cases names with
  | nil => exact absurd rfl hne
  | cons name names => simp [joined]

theorem textOf_head (names : List (List UInt8)) : (textOf names).head? = some slash := by
  cases names with
  | nil => rfl
  | cons name names => rfl

theorem textOf_snoc_ne_slash (hname : name ≠ []) : textOf (names ++ [name]) ≠ [slash] := by
  rw [textOf_snoc]
  intro heq
  have hlen := congrArg List.length heq
  have hpos := length_pos_iff.mpr hname
  simp only [length_append, length_cons, length_nil] at hlen
  omega

theorem splitLast_none (h : slash ∉ name) : splitLast slash name = none := by
  rcases splitLast_spec slash name with ⟨hnone, -⟩ | ⟨b, e, -, rfl, -⟩
  · exact hnone
  · exact absurd (by simp) h

theorem splitLast_append (front : List UInt8) (h : slash ∉ name) :
    splitLast slash (front ++ slash :: name) = some (front, name) := by
  induction front with
  | nil => simp [splitLast, splitLast_none h]
  | cons a front ih => simp [splitLast, ih]

theorem cutText_snoc (hname : IsName name) : cutText (textOf (names ++ [name])) = textOf names := by
  rw [cutText, if_neg (textOf_snoc_ne_slash hname.ne), textOf_snoc, splitLast_append _ hname.noSlash]
  by_cases hne : names = []
  · subst hne
    rfl
  · simp only [if_neg (joined_ne_nil hne), textOf, if_neg hne]

theorem longer_eq (hnames : ∀ n ∈ names, IsName n) (segment : List UInt8) :
    (if textOf names = [slash] then slash :: segment else textOf names ++ slash :: segment) =
      textOf (names ++ [segment]) := by
  rcases eq_nil_or_concat names with rfl | ⟨front, last, rfl⟩
  · have hroot : textOf [] = [slash] := rfl
    rw [if_pos hroot, textOf_snoc]
    rfl
  · rw [concat_eq_append] at hnames ⊢
    have hlast : IsName last := hnames last (by simp)
    rw [if_neg (textOf_snoc_ne_slash hlast.ne), textOf_snoc (front ++ [last]), joined_snoc, textOf_snoc]

theorem appendText_eq (segment : List UInt8)
    (hroom : (if text = [slash] then slash :: segment else text ++ slash :: segment).length ≤ 255) :
    appendText text segment = if text = [slash] then slash :: segment else text ++ slash :: segment := by
  unfold appendText
  split_ifs at hroom ⊢ with hroot
  · rw [hroot, take_of_length_le (by simpa using hroom)]
    rfl
  simp only [length_append, length_cons] at hroom
  have hslash : (text ++ [slash]).take 255 = text ++ [slash] := take_of_length_le (by simp; omega)
  rw [hslash, append_assoc, take_of_length_le (by simp; omega)]
  rfl

theorem trimText_textOf (hnames : ∀ n ∈ names, IsName n) : trimText (textOf names) = textOf names := by
  rcases eq_nil_or_concat names with rfl | ⟨front, last, rfl⟩
  · rfl
  rw [concat_eq_append] at hnames ⊢
  have hlast : IsName last := hnames last (by simp)
  obtain ⟨init, b, rfl⟩ : ∃ init b, last = init ++ [b] := by
    rcases eq_nil_or_concat last with hnil | ⟨init, b, hinit⟩
    · exact absurd hnil hlast.ne
    · exact ⟨init, b, by rw [hinit, concat_eq_append]⟩
  have hb : b ≠ slash := by
    rintro rfl
    exact hlast.noSlash (by simp)
  rw [textOf_snoc]
  -- the first byte of the text is kept in any case, and `b` is behind it
  cases hfront : joined front with
  | nil => simp [trimText, hb]
  | cons a s => simp [trimText, hb]

theorem tokensFrom_name {cur rest : List UInt8} (hslash : slash ∉ name) (hzero : 0 ∉ name) :
    tokensFrom slash cur (name ++ rest) = tokensFrom slash (cur ++ name) rest := by
  induction name generalizing cur with
  | nil => simp
  | cons a name ih =>
    simp only [mem_cons, not_or] at hslash hzero
    rw [cons_append, tokensFrom, if_neg (Ne.symm hzero.1), if_neg (Ne.symm hslash.1), ih hslash.2 hzero.2]
    simp

theorem tokensFrom_joined (hnames : ∀ n ∈ names, IsName n) (cur : List UInt8) :
    tokensFrom slash cur (joined names) = lastToken cur ++ names := by
  induction names generalizing cur with
  | nil => simp [joined, tokensFrom]
  | cons name names ih =>
    have hname := hnames name mem_cons_self
    have hrest : ∀ n ∈ names, IsName n := fun n hn => hnames n (mem_cons_of_mem name hn)
    have htoken : lastToken name = [name] := by simp [lastToken, hname.ne]
    have hjoin : joined (name :: names) = slash :: (name ++ joined names) := by simp [joined]
    rw [hjoin, tokensFrom, if_neg (by decide), if_pos rfl, tokensFrom_name hname.noSlash hname.noZero,
      nil_append, ih hrest, htoken]
    rfl

theorem eq_of_dot_match (hshort : isDotName (shortName r))
    (hmatch : strcasecmpEq (build_short_name_str (shortName r)) name = true) : name = [dot] ∨ name = [dot, dot] := by
  rcases hshort with hdot | hdots
  · rw [hdot, strcasecmpEq_iff] at hmatch
    have hupper : [dot] = name.map toupper := hmatch
    obtain ⟨a, rfl, ha⟩ := map_eq_singleton_iff.mp hupper.symm
    exact Or.inl (by rw [toupper_eq_dot ha])
  · rw [hdots, strcasecmpEq_iff] at hmatch
    have hupper : [dot, dot] = name.map toupper := hmatch
    obtain ⟨a, rest, rfl, ha, hrest⟩ := map_eq_cons_iff.mp hupper.symm
    obtain ⟨b, rfl, hb⟩ := map_eq_singleton_iff.mp hrest
    exact Or.inr (by rw [toupper_eq_dot ha, toupper_eq_dot hb])

theorem find_dir_cluster_spec (hv : WellFormed v) (hd : IsDir v d) (hname : IsName name)
    (hcell : isCell eoc (find_dir_cluster v d name)) :
    ∃ item ∈ items v d, IsSubdir item ∧ firstCluster item.entry = find_dir_cluster v d name := by
  rw [find_dir_cluster, if_neg hname.ne, if_neg hname.notDot, if_neg hname.notDots] at hcell ⊢
  cases hfind : (iterate_dir v.raw lfn_reset (dirSlots v d)).find? fun item =>
      isDirectory item.entry && dir_item_matches item name && isCell eoc (firstCluster item.entry) with
  | none =>
    rw [hfind] at hcell
    exact absurd hcell (by decide)
  | some item =>
    have hmem : item ∈ items v d := mem_of_find?_eq_some hfind
    have hfound := find?_some hfind
    simp only [Bool.and_eq_true, decide_eq_true_eq] at hfound
    obtain ⟨⟨hdir, hmatch⟩, hfirst⟩ := hfound
    refine ⟨item, hmem, ⟨hdir, ?_, hfirst⟩, rfl⟩
    intro hdot
    have hlong := hv.dots d item hd hmem hdot
    rcases (dir_item_matches_iff hname.ne).mp hmatch with ⟨long, hsome, -⟩ | hshort
    · rw [hlong] at hsome
      cases hsome
    · rcases eq_of_dot_match hdot hshort with h | h
      · exact hname.notDot h
      · exact hname.notDots h

theorem Walk.isName (h : Walk v names c) : ∀ n ∈ names, IsName n := by
  induction h with
  | root => simp
  | step _ hname _ ih =>
    intro n hn
    rcases mem_append.mp hn with hn | hn
    · exact ih n hn
    · rw [mem_singleton.mp hn]
      exact hname

theorem Walk.isDir (hv : WellFormed v) (h : Walk v names c) : IsDir v c := by
  induction h with
  | root => exact .root
  | step _ hname hcell ih =>
    obtain ⟨item, hmem, hsub, hfirst⟩ := find_dir_cluster_spec hv ih hname hcell
    rw [← hfirst]
    exact .sub ih hmem hsub

/-- `..` leads back over the last step of the walk, which has not led to the root. -/
theorem Walk.parent (hv : WellFormed v) (h : Walk v names d) (hname : IsName name)
    (hcell : isCell eoc (find_dir_cluster v d name)) :
    find_dir_cluster v d name ≠ v.root ∧ parentOf v (find_dir_cluster v d name) = d := by
  have hd := h.isDir hv
  obtain ⟨item, hmem, hsub, hfirst⟩ := find_dir_cluster_spec hv hd hname hcell
  obtain ⟨hself, hroot⟩ := hv.below d item hd hmem hsub
  have hparent := hv.parent d item hd hmem hsub
  rw [hfirst] at hself hroot hparent
  refine ⟨hroot, ?_⟩
  unfold parentOf
  rcases hparent with heq | ⟨hzero, rfl⟩
  · have hd2 : 2 ≤ d := by
      cases h with
      | root => exact hv.root.1
      | step _ _ hlast => exact hlast.1
    simp only [heq]
    rw [if_neg]
    rintro (hlt | hsame)
    · omega
    · exact hself hsame.symm
  · simp [hzero]

theorem Walk.resolveFrom_append (h : Walk v names c) (rest : List (List UInt8)) :
    resolveFrom v v.root (names ++ rest) = resolveFrom v c rest := by
  induction h generalizing rest with
  | root => rfl
  | @step names d name _ _ hcell ih =>
    rw [append_assoc, singleton_append, ih, resolveFrom]
    exact if_pos hcell

variable {segment current_path new_path path : List UInt8} {segments : List (List UInt8)} {s : Cwd}

/-- A string without a slash, as the loop cuts it out of the path. -/
structure IsSegment (segment : List UInt8) : Prop where
  ne : segment ≠ []
  noSlash : slash ∉ segment
  noZero : 0 ∉ segment

/-- Every part has bytes of the path, and no slash; by induction on the path. -/
theorem partsFrom_isSegment {cur : List UInt8} (hzero : 0 ∉ path) (hcur : slash ∉ cur ∧ 0 ∉ cur) :
    ∀ segment ∈ partsFrom path cur, IsSegment segment := by
  induction path generalizing cur with
  | nil =>
    intro segment hmem
    rw [partsFrom, mem_ite_nil_left] at hmem
    obtain ⟨hne, hmem⟩ := hmem
    obtain rfl := mem_singleton.mp hmem
    exact ⟨hne, hcur.1, hcur.2⟩
  | cons a path ih =>
    simp only [mem_cons, not_or] at hzero
    have hnil : slash ∉ ([] : List UInt8) ∧ (0 : UInt8) ∉ ([] : List UInt8) := by simp
    intro segment hmem
    rw [partsFrom] at hmem
    split_ifs at hmem with hslash hempty hfull
    · exact ih hzero.2 hnil segment hmem
    · rcases mem_append.mp hmem with hmem | hmem
      · obtain rfl := mem_singleton.mp hmem
        exact ⟨hempty, hcur.1, hcur.2⟩
      · exact ih hzero.2 hnil segment hmem
    · have hlonger : slash ∉ cur ++ [a] ∧ 0 ∉ cur ++ [a] := by
        simp [hcur.1, hcur.2, hzero.1, Ne.symm hslash]
      rcases mem_cons.mp hmem with rfl | hmem
      · exact ⟨by simp, hlonger.1, hlonger.2⟩
      · exact ih hzero.2 hnil segment hmem
    · have hlonger : slash ∉ cur ++ [a] ∧ 0 ∉ cur ++ [a] := by
        simp [hcur.1, hcur.2, hzero.1, Ne.symm hslash]
      exact ih hzero.2 hlonger segment hmem

theorem mem_of_mem_cleanPath {a : UInt8} (h : a ∈ cleanPath path) : a ∈ path := by
  have hsuffix := (dropWhile_suffix fun c => c = slash || c = blank).subset (mem_reverse.mp h)
  exact mem_of_mem_take (mem_reverse.mp hsuffix)

theorem Located.root (v : Vol) : Located v v.root [slash] := ⟨[], .root, rfl, by decide⟩

theorem Located.up (hv : WellFormed v) (h : Located v c text) (hroot : c ≠ v.root) :
    Located v (parentOf v c) (cutText text) := by
  obtain ⟨names, hwalk, rfl, hlen⟩ := h
  cases hwalk with
  | root => exact absurd rfl hroot
  | @step names d name hwalk hname hcell =>
    obtain ⟨-, hparent⟩ := hwalk.parent hv hname hcell
    rw [hparent, cutText_snoc hname]
    refine ⟨names, hwalk, rfl, ?_⟩
    rw [textOf_snoc, length_append, length_cons] at hlen
    unfold textOf
    split
    · decide
    · omega

theorem Located.down (h : Located v c text) (hname : IsName segment) (hcell : isCell eoc (find_dir_cluster v c segment))
    (hroom : (if text = [slash] then slash :: segment else text ++ slash :: segment).length ≤ 255) :
    Located v (find_dir_cluster v c segment) (appendText text segment) := by
  obtain ⟨names, hwalk, rfl, -⟩ := h
  refine ⟨names ++ [segment], hwalk.step hname hcell, ?_, ?_⟩
  · rw [appendText_eq segment hroom, longer_eq hwalk.isName]
  · rw [appendText_eq segment hroom]
    exact hroom

theorem Located.cdTextFrom (hv : WellFormed v) (hsegments : ∀ segment ∈ segments, IsSegment segment)
    (h : Located v c text) (hroom : roomFrom v c text segments = true) {r : ℕ × List UInt8}
    (hrun : cdTextFrom v c text segments = some r) : Located v r.1 r.2 := by
  induction segments generalizing c text with
  | nil =>
    obtain rfl := Option.some.inj hrun
    exact h
  | cons segment segments ih =>
    have hsegment := hsegments segment mem_cons_self
    have hrest : ∀ s ∈ segments, IsSegment s := fun s hs => hsegments s (mem_cons_of_mem segment hs)
    rw [Fat32.cdTextFrom] at hrun
    rw [roomFrom] at hroom
    by_cases hdot : segment = [dot]
    · rw [if_pos hdot] at hrun hroom
      exact ih hrest h hroom hrun
    rw [if_neg hdot] at hrun hroom
    by_cases hdots : segment = [dot, dot]
    · rw [if_pos hdots] at hrun hroom
      by_cases hroot : c = v.root ∨ c < 2
      · rw [if_pos hroot] at hrun hroom
        exact ih hrest (.root v) hroom hrun
      · rw [if_neg hroot] at hrun hroom
        exact ih hrest (h.up hv fun hc => hroot (Or.inl hc)) hroom hrun
    · rw [if_neg hdots] at hrun hroom
      by_cases hcell : isCell eoc (find_dir_cluster v c segment)
      · rw [if_pos hcell] at hrun hroom
        have hname : IsName segment := ⟨hsegment.ne, hsegment.noSlash, hsegment.noZero, hdot, hdots⟩
        obtain ⟨hfits, hroom⟩ := Bool.and_eq_true_iff.mp hroom
        have hlen := of_decide_eq_true hfits
        rw [← appendText_eq segment hlen] at hroom
        exact ih hrest (h.down hname hcell hlen) hroom hrun
      · rw [if_neg hcell] at hrun
        cases hrun

theorem cdTextFrom_at (v : Vol) (x : ℕ) : ∀ c text segments,
    cdTextFrom (v.at x) c text segments = cdTextFrom v c text segments := by
  intro c text segments
  induction segments generalizing c text with
  | nil => rfl
  | cons segment segments ih =>
    have hfind : find_dir_cluster (v.at x) c segment = find_dir_cluster v c segment := rfl
    have hparent : parentOf (v.at x) c = parentOf v c := rfl
    have hroot : (v.at x).root = v.root := rfl
    simp only [cdTextFrom, hfind, hparent, hroot, ih]

theorem resolveFrom_at (v : Vol) (x : ℕ) (d : ℕ) (names : List (List UInt8)) :
    resolveFrom (v.at x) d names = resolveFrom v d names := by
  induction names generalizing d with
  | nil => rfl
  | cons name names ih =>
    have hfind : find_dir_cluster (v.at x) d name = find_dir_cluster v d name := rfl
    simp only [resolveFrom, hfind, ih]

theorem cdTextFrom_map_fst (v : Vol) (c : ℕ) (text text' : List UInt8) (segments : List (List UInt8)) :
    (cdTextFrom v c text segments).map Prod.fst = (cdTextFrom v c text' segments).map Prod.fst := by
  induction segments generalizing c text text' with
  | nil => rfl
  | cons segment segments ih =>
    simp only [cdTextFrom]
    split_ifs
    · exact ih c text text'
    · rfl
    · exact ih _ _ _
    · exact ih _ _ _
    · rfl

/-- The text in `current_path` does not decide where a path leads. -/
theorem fat32_cd_eq (v : Vol) (current_path path : List UInt8) :
    ((fat32_cd v current_path path).1, (fat32_cd v current_path path).2.1) = cd v path := by
  unfold cd fat32_cd
  by_cases hempty : path = []
  · rw [if_pos hempty, if_pos hempty]
  by_cases hroot : path = [slash]
  · rw [if_neg hempty, if_pos hroot, if_neg hempty, if_pos hroot]
  rw [if_neg hempty, if_neg hroot, if_neg hempty, if_neg hroot]
  dsimp only
  by_cases hhead : (cleanPath path).head? = some slash
  · rw [if_pos hhead, if_pos hhead]
    cases cdTextFrom v v.root [slash] (partsFrom (cleanPath path) []) with
    | none => rfl
    | some r => rfl
  · rw [if_neg hhead, if_neg hhead]
    have hsame := cdTextFrom_map_fst v v.cwd current_path [] (partsFrom (cleanPath path) [])
    dsimp only
    generalize cdTextFrom v v.cwd current_path _ = run at hsame ⊢
    generalize cdTextFrom v v.cwd [] _ = run' at hsame ⊢
    rcases run with _ | ⟨c, t⟩
    · rcases run' with _ | r
      · rfl
      · cases hsame
    · rcases run' with _ | ⟨c', t'⟩
      · cases hsame
      · obtain rfl : c = c' := Option.some.inj hsame
        rfl

theorem Located.agrees (hv : WellFormed v) (h : Located v s.1 s.2) : Agrees v s := by
  obtain ⟨names, hwalk, htext, -⟩ := h
  refine ⟨by rw [htext, textOf_head], ?_, hwalk.isDir hv⟩
  have hresolved : resolveFrom v v.root names = s.1 := by
    have happend := hwalk.resolveFrom_append []
    rwa [append_nil] at happend
  rcases hnames : names with _ | ⟨name, rest⟩
  · rw [hnames] at hresolved htext
    rw [htext]
    exact hresolved
  have hne : names ≠ [] := by simp [hnames]
  have htokens : tokens slash (textOf names) = names := by
    rw [textOf, if_neg hne]
    exact tokensFrom_joined hwalk.isName []
  have hslash : textOf names ≠ [slash] := by
    intro hroot
    rw [hroot] at htokens
    exact hne htokens.symm
  have hempty : textOf names ≠ [] := fun h => by simpa [h] using textOf_head names
  unfold resolve_dir
  simp only [htext, if_neg hempty, if_neg hslash, textOf_head, if_true, htokens, resolveFrom_at]
  exact hresolved

theorem Located.recorded (h : Located v c text) : (trimText text).take 255 = text := by
  obtain ⟨names, hwalk, rfl, hlen⟩ := h
  rw [trimText_textOf hwalk.isName, take_of_length_le hlen]

/-- A call fails and changes nothing, goes to the root, or records what the loop has come to. -/
theorem cdStep_cases (v : Vol) (s : Cwd) (path : Str) : let clean := cleanPath path.val
    let start := startOf v s clean
    let r := fat32_cd (v.at s.1) s.2 path.val
    (r.1 = false ∧ cdStep v s path = s) ∨ (r.1 = true ∧ cdStep v s path = mountedCwd v) ∨
      ∃ t, cdTextFrom v start.1 start.2 (partsFrom clean []) = some t ∧ r.1 = true ∧
        cdStep v s path = (t.1, (trimText t.2).take 255) := by
  intro clean start r
  by_cases hempty : path.val = []
  · have hr : r = (false, v.at s.1, s.2) := if_pos hempty
    exact Or.inl ⟨congrArg Prod.fst hr, congrArg (fun r => (r.2.1.cwd, r.2.2)) hr⟩
  by_cases hroot : path.val = [slash]
  · have hr : r = (true, v.at v.root, [slash]) := (if_neg hempty).trans (if_pos hroot)
    exact Or.inr (Or.inl ⟨congrArg Prod.fst hr, congrArg (fun r => (r.2.1.cwd, r.2.2)) hr⟩)
  have hstart : (if clean.head? = some slash then ((v.at s.1).root, [slash]) else ((v.at s.1).cwd, s.2)) = start := rfl
  rcases hrun : cdTextFrom v start.1 start.2 (partsFrom clean []) with _ | t
  · have hr : r = (false, v.at s.1, s.2) := by
      show fat32_cd (v.at s.1) s.2 path.val = _
      rw [fat32_cd, if_neg hempty, if_neg hroot]
      dsimp only
      rw [hstart, cdTextFrom_at, hrun]
    exact Or.inl ⟨congrArg Prod.fst hr, congrArg (fun r => (r.2.1.cwd, r.2.2)) hr⟩
  have hr : r = (true, v.at t.1, (trimText t.2).take 255) := by
    show fat32_cd (v.at s.1) s.2 path.val = _
    rw [fat32_cd, if_neg hempty, if_neg hroot]
    dsimp only
    rw [hstart, cdTextFrom_at, hrun]
    rfl
  exact Or.inr (Or.inr ⟨t, rfl, congrArg Prod.fst hr, congrArg (fun r => (r.2.1.cwd, r.2.2)) hr⟩)

theorem failureKeeps (v : Vol) (s : Cwd) (path : Str) : FailureKeeps v s path := by
  intro hfailed
  rcases cdStep_cases v s path with ⟨-, hsame⟩ | ⟨hok, -⟩ | ⟨t, -, hok, -⟩
  · exact hsame
  · rw [hok] at hfailed
    cases hfailed
  · rw [hok] at hfailed
    cases hfailed

theorem Located.cdStep (hv : WellFormed v) (h : Located v s.1 s.2) {path : Str} (hroom : HasRoom v s path) :
    Located v (cdStep v s path).1 (cdStep v s path).2 := by
  have hsegments : ∀ segment ∈ partsFrom (cleanPath path.val) [], IsSegment segment :=
    partsFrom_isSegment (fun hzero => path.property (mem_of_mem_cleanPath hzero)) (by simp)
  rcases cdStep_cases v s path with ⟨-, hsame⟩ | ⟨-, hroot⟩ | ⟨t, hrun, -, hnew⟩
  · rw [hsame]
    exact h
  · rw [hroot]
    exact .root v
  rw [hnew]
  have hstart : Located v (startOf v s (cleanPath path.val)).1 (startOf v s (cleanPath path.val)).2 := by
    unfold startOf
    split
    · exact .root v
    · exact h
  have ht := hstart.cdTextFrom hv hsegments hroom hrun
  rw [ht.recorded]
  exact ht

/-- As long as the text has room, text and cluster agree after every call, and a call that fails changes neither. -/
theorem fat32_cds_agree (v : Vol) (hv : WellFormed v) (paths : List Str)
    (hroom : EachStep (cdStep v) (HasRoom v) (mountedCwd v) paths) :
    Throughout (cdStep v) (Agrees v) (mountedCwd v) paths ∧
      EachStep (cdStep v) (FailureKeeps v) (mountedCwd v) paths := by
  constructor
  · exact throughout_of_inv (J := fun s _ => Located v s.1 s.2) (fun s path _ h hroom => h.cdStep hv hroom)
      (fun s _ h => h.agrees hv) (Located.root v) hroom
  · exact eachStep_of_inv (J := fun _ _ => True) (fun _ _ _ h _ => h) (fun s path _ _ _ => failureKeeps v s path)
      trivial hroom

def longest83 : List UInt8 := [0x41, 0x42, 0x43, 0x44, 0x45, 0x46, 0x47, 0x48, dot, 0x49, 0x4A, 0x4B]

/-- The entry with that name for the directory in the cluster `c`. -/
def belowEntry (c : ℕ) : List UInt8 :=
  entryBytes [0x41, 0x42, 0x43, 0x44, 0x45, 0x46, 0x47, 0x48, 0x49, 0x4A, 0x4B] 0x10 c 0

/-- The first two entries of the directory in the cluster `c`. -/
def dotEntries (c : ℕ) : List UInt8 :=
  entryBytes (padTo 11 [dot]) 0x10 c 0 ++ entryBytes (padTo 11 [dot, dot]) 0x10 (if c = 3 then 0 else c - 1) 0

/-- The root in cluster 2 and twenty directories, each of them below the one before. -/
def nested : Vol where
  spc := 1
  fatLen := 128
  rootLen := 0
  fat _ := 0x0FFFFFFF
  area b := b.elim (fun _ => 0) fun c =>
    Bytes.ofList ((if c = 2 then [] else dotEntries c) ++ if c < 22 then belowEntry (c + 1) else [])
  hint := 23
  cwd := 2
  mirror _ := 0x0FFFFFFF
  root := 2

theorem nested_links : ∀ d ∈ List.range' 2 21, ∀ item ∈ items nested d,
    (IsSubdir item → (firstCluster item.entry ≠ d ∧ firstCluster item.entry ≠ nested.root) ∧
      NamesParent nested (firstCluster item.entry) d ∧ firstCluster item.entry ∈ List.range' 2 21) ∧
    (isDotName (shortName item.entry) → item.long_name = none) := by
  decide +kernel

theorem nested_dirs (h : IsDir nested d) : d ∈ List.range' 2 21 := by
  induction h with
  | root => decide
  | sub _ hmem hsub ih => exact ((nested_links _ ih _ hmem).1 hsub).2.2

theorem wellFormed_nested : WellFormed nested where
  root := by decide
  below d item hd hmem hsub := ((nested_links d (nested_dirs hd) item hmem).1 hsub).1
  parent d item hd hmem hsub := ((nested_links d (nested_dirs hd) item hmem).1 hsub).2.1
  dots d item hd hmem hdot := (nested_links d (nested_dirs hd) item hmem).2 hdot

/-- The path with `n + 1` such components. -/
def downPath : ℕ → List UInt8
  | 0 => longest83
  | n + 1 => longest83 ++ slash :: downPath n

theorem downPath_noZero (n : ℕ) : 0 ∉ downPath n := by
  induction n with
  | zero => decide
  | succ n ih =>
    have hname : 0 ∉ longest83 := by decide
    have hslash : (0 : UInt8) ≠ slash := by decide
    simp [downPath, hname, hslash, ih]

def down (n : ℕ) : Str := ⟨downPath n, downPath_noZero n⟩

theorem fat32_cds_agree_nested :
    Throughout (cdStep nested) (Agrees nested) (mountedCwd nested) [down 0, ⟨[dot, dot], by decide⟩] ∧
      EachStep (cdStep nested) (FailureKeeps nested) (mountedCwd nested) [down 0, ⟨[dot, dot], by decide⟩] := by
  refine fat32_cds_agree nested wellFormed_nested _ ⟨?_, ?_, trivial⟩
  · decide +kernel
  · decide +kernel

/-- Nine, nine and two steps down: the text of 260 bytes is cut, and its end names no directory. -/
theorem deep_text_cut : let s := exec (cdStep nested) (mountedCwd nested) [down 8, down 8, down 1]
    WellFormed nested ∧ s.1 = 22 ∧ s.2.length = 255 ∧ resolve_dir (nested.at s.1) s.2 = 0 ∧ ¬ Agrees nested s := by
  intro s
  have hs : s = (22, (joined (List.replicate 20 longest83)).take 255) := by decide +kernel
  rw [hs]
  have hresolved : resolve_dir (nested.at 22) ((joined (List.replicate 20 longest83)).take 255) = 0 := by decide +kernel
  refine ⟨wellFormed_nested, rfl, by decide +kernel, hresolved, fun hagrees => ?_⟩
  have heq := hresolved.symm.trans hagrees.resolved
  cases heq

end Orion.Fat32
