import Mathlib.Data.List.TakeWhile
import Orion.Fat.Proofs.AliasProofs

/-!
# Which new entries match their names

A short name is read as it was given. A long name is stored without the blanks and dots around it and read back
without the eighth bit; its alias never makes up for that.
-/

namespace Orion.Fat

open Lib List

variable {name long short base ext s t : List UInt8} {c : UInt8} {n : ℕ}

theorem strcasecmpEq_iff : strcasecmpEq s t = true ↔ s.map toupper = t.map toupper := by
  induction s generalizing t with
  | nil =>
    cases t with
    | nil => simp [strcasecmpEq]
    | cons b t => simp [strcasecmpEq]
  | cons a s ih =>
    rcases t with _ | ⟨b, t⟩
    · simp [strcasecmpEq]
    rw [strcasecmpEq, map_cons, map_cons, List.cons.injEq]
    by_cases hab : toupper a = toupper b
    · simp [hab, ih]
    · simp [hab]

theorem dir_item_matches_iff {item : Item} (hname : name ≠ []) :
    dir_item_matches item name = true ↔ (∃ long, item.long_name = some long ∧ strcasecmpEq long name = true) ∨
      strcasecmpEq (build_short_name_str (shortName item.entry)) name = true := by
  unfold dir_item_matches
  simp [hname, Option.any_eq_true]

theorem clean_ne_blank (h : Clean c) : c ≠ blank := by
  rintro rfl
  exact absurd h (by decide)

theorem clean_ne_zero (h : Clean c) : c ≠ 0 := by
  rintro rfl
  exact absurd h (by decide)

theorem dropWhile_replicate_append {k : ℕ} (h : ∀ c ∈ s, c ≠ blank) :
    (List.replicate k blank ++ s).dropWhile (· = blank) = s := by
  induction k with
  | zero =>
    rcases s with _ | ⟨c, s⟩
    · rfl
    rw [replicate_zero, nil_append, dropWhile_cons_of_neg]
    simpa using h c mem_cons_self
  | succ k ih =>
    rw [replicate_succ, cons_append, dropWhile_cons_of_pos (by simp)]
    exact ih

theorem trim_padTo (h : ∀ c ∈ s, Clean c) : cstr ((padTo n s).reverse.dropWhile (· = blank)).reverse = s.take n := by
  have hblank : ∀ c ∈ (s.take n).reverse, c ≠ blank := by
    intro c hc
    exact clean_ne_blank (h c (mem_of_mem_take (mem_reverse.mp hc)))
  have hzero : (0 : UInt8) ∉ s.take n := fun hc => clean_ne_zero (h 0 (mem_of_mem_take hc)) rfl
  unfold padTo
  rw [reverse_append, reverse_replicate, dropWhile_replicate_append hblank, reverse_reverse]
  simpa using cstr_append_zeros hzero 0

theorem build_short_name_str_make (hbase : ∀ c ∈ base, Clean c) (hext : ∀ c ∈ ext, Clean c) :
    build_short_name_str (make_short_name_from_base_ext base ext) =
      if ext.take 3 = [] then base.take 8 else base.take 8 ++ [dot] ++ ext.take 3 := by
  have h8 : (padTo 8 base).length = 8 := length_padTo 8 base
  have h3 : (padTo 3 ext).length = 3 := length_padTo 3 ext
  have hfirst : (padTo 8 base ++ padTo 3 ext).take 8 = padTo 8 base := take_left' h8
  have hsecond : ((padTo 8 base ++ padTo 3 ext).drop 8).take 3 = padTo 3 ext := by
    rw [drop_left' h8, take_of_length_le (by omega)]
  unfold build_short_name_str make_short_name_from_base_ext
  simp only [hfirst, hsecond, trim_padTo hbase, trim_padTo hext]

theorem splitLast_spec (sep : UInt8) (s : List UInt8) : (splitLast sep s = none ∧ sep ∉ s) ∨
      ∃ b e, splitLast sep s = some (b, e) ∧ s = b ++ sep :: e ∧ sep ∉ e := by
  induction s with
  | nil => exact .inl ⟨rfl, by simp⟩
  | cons c s ih =>
    unfold splitLast
    rcases ih with ⟨hnone, hnot⟩ | ⟨b, e, hsome, rfl, hnot⟩
    · rw [hnone]
      by_cases hc : c = sep
      · subst hc
        exact .inr ⟨[], s, by simp, rfl, hnot⟩
      left
      refine ⟨if_neg hc, ?_⟩
      rw [mem_cons, not_or]
      exact ⟨Ne.symm hc, hnot⟩
    · rw [hsome]
      exact .inr ⟨c :: b, e, rfl, rfl, hnot⟩

theorem format83From_base {n : List UInt8} {rest : List UInt8} (hdot : dot ∉ s) (hlen : n.length + s.length ≤ 8) :
    format83From (s ++ rest) false n [] = format83From rest false (n ++ s.map toupper) [] := by
  induction s generalizing n with
  | nil => simp
  | cons c s ih =>
    rw [mem_cons, not_or] at hdot
    rw [length_cons] at hlen
    have hroom : n.length < 8 := by omega
    rw [cons_append, format83From, if_pos (.inl hroom), if_neg (Ne.symm hdot.1), if_pos ⟨rfl, hroom⟩,
      ih hdot.2 (by rw [length_append, length_singleton]; omega), append_assoc]
    rfl

theorem format83From_ext {n e : List UInt8} (hdot : dot ∉ s) (hlen : e.length + s.length ≤ 3) :
    format83From s true n e = (n, e ++ s.map toupper) := by
  induction s generalizing e with
  | nil => simp [format83From]
  | cons c s ih =>
    rw [mem_cons, not_or] at hdot
    rw [length_cons] at hlen
    have hroom : e.length < 3 := by omega
    rw [format83From, if_pos (.inr hroom), if_neg (Ne.symm hdot.1), if_neg (by simp), if_pos ⟨rfl, hroom⟩,
      ih hdot.2 (by rw [length_append, length_singleton]; omega), append_assoc]
    rfl

theorem clean_toupper (h : short_valid_char c = true) : Clean (toupper c) := by
  unfold short_valid_char at h
  unfold Clean
  rw [toupper_idem]
  simp only [Bool.and_eq_true, Bool.not_eq_true'] at h
  exact h.1

theorem valid_ne_dot (h : short_valid_char c = true) : c ≠ dot := by
  rintro rfl
  exact absurd h (by decide)

theorem format_83_two (hbase : ∀ c ∈ base, short_valid_char c = true) (hext : ∀ c ∈ ext, short_valid_char c = true)
    (hblen : base.length ≤ 8) (helen : ext.length ≤ 3) :
    format_83 (base ++ dot :: ext) = make_short_name_from_base_ext (base.map toupper) (ext.map toupper) := by
  have hbdot : dot ∉ base := fun h => valid_ne_dot (hbase dot h) rfl
  have hedot : dot ∉ ext := fun h => valid_ne_dot (hext dot h) rfl
  unfold format_83
  rw [format83From_base hbdot (by rw [length_nil]; omega), format83From, if_pos (.inr (by decide)), if_pos rfl,
    format83From_ext hedot (by rw [length_nil]; omega)]
  rfl

theorem format_83_one (hbase : ∀ c ∈ base, short_valid_char c = true) (hblen : base.length ≤ 8) :
    format_83 base = make_short_name_from_base_ext (base.map toupper) [] := by
  have hbdot : dot ∉ base := fun h => valid_ne_dot (hbase dot h) rfl
  have hlen : ([] : List UInt8).length + base.length ≤ 8 := by simpa using hblen
  have hscan : format83From (base ++ []) false [] [] = format83From [] false ([] ++ base.map toupper) [] :=
    format83From_base hbdot hlen
  rw [append_nil] at hscan
  unfold format_83
  rw [hscan]
  rfl

theorem clean_map_toupper (h : ∀ c ∈ s, short_valid_char c = true) : ∀ c ∈ s.map toupper, Clean c := by
  intro c hc
  obtain ⟨x, hx, rfl⟩ := mem_map.mp hc
  exact clean_toupper (h x hx)

theorem map_toupper_toupper : (s.map toupper).map toupper = s.map toupper := by
  rw [map_map]
  apply map_congr_left
  intro c _
  exact toupper_idem c

theorem short_name_matches (hvalid : is_valid_short_name name = true) (hdot : name ≠ [dot]) (hdots : name ≠ [dot, dot]) :
    strcasecmpEq (build_short_name_str (format_83 name)) name = true := by
  rw [strcasecmpEq_iff]
  unfold is_valid_short_name at hvalid
  split at hvalid
  · cases hvalid
  rw [if_neg (by rw [not_or]; exact ⟨hdot, hdots⟩)] at hvalid
  rcases splitLast_spec dot name with ⟨hnone, -⟩ | ⟨b, e, hsome, rfl, -⟩
  · simp only [hnone] at hvalid
    split at hvalid
    · cases hvalid
    have hbase : ∀ c ∈ name, short_valid_char c = true := all_eq_true.mp hvalid
    rw [format_83_one hbase (by omega), build_short_name_str_make (clean_map_toupper hbase) (by simp), if_pos take_nil,
      take_of_length_le (by rw [length_map]; omega), map_toupper_toupper]
  · simp only [hsome] at hvalid
    split at hvalid
    · cases hvalid
    rename_i hparts
    split at hvalid
    · cases hvalid
    rw [Bool.and_eq_true] at hvalid
    have hbase : ∀ c ∈ b, short_valid_char c = true := all_eq_true.mp hvalid.1
    have hext : ∀ c ∈ e, short_valid_char c = true := all_eq_true.mp hvalid.2
    have hne : e ≠ [] := fun h => hparts (.inr (.inl h))
    have htake : (e.map toupper).take 3 = e.map toupper := take_of_length_le (by rw [length_map]; omega)
    have htake' : (b.map toupper).take 8 = b.map toupper := take_of_length_le (by rw [length_map]; omega)
    rw [format_83_two hbase hext (by omega) (by omega),
      build_short_name_str_make (clean_map_toupper hbase) (clean_map_toupper hext), htake, htake',
      if_neg (by simpa using hne)]
    simp only [map_append, map_toupper_toupper, map_cons, append_assoc, singleton_append]

theorem prepared_split (h : lfn_prepare_name name = some long) :
    ∃ lead trail, name = lead ++ (long ++ trail) ∧ (∀ c ∈ lead, c = blank) ∧
      (∀ c ∈ trail, c = blank ∨ c = dot) ∧ ∀ c, long.getLast? = some c → ¬ (c = blank ∨ c = dot) := by
  unfold lfn_prepare_name at h
  dsimp only at h
  generalize hm : (name.reverse.dropWhile fun c => c = blank ∨ c = dot) = m at h
  have hlong : m.reverse.dropWhile (· = blank) = long := by
    split_ifs at h
    exact Option.some.inj h
  have hname : name = m.reverse ++ (name.reverse.takeWhile fun c => c = blank ∨ c = dot).reverse := by
    rw [← reverse_append, ← hm, takeWhile_append_dropWhile, reverse_reverse]
  have hsplit : m.reverse = m.reverse.takeWhile (· = blank) ++ long := by
    rw [← hlong, takeWhile_append_dropWhile]
  refine ⟨m.reverse.takeWhile (· = blank), (name.reverse.takeWhile fun c => c = blank ∨ c = dot).reverse, ?_, ?_, ?_, ?_⟩
  · rw [← append_assoc, ← hsplit]
    exact hname
  · intro c hc
    simpa using mem_takeWhile_imp hc
  · intro c hc
    simpa using mem_takeWhile_imp (mem_reverse.mp hc)
  intro c hc
  have hlast : m.reverse.getLast? = some c := by
    rw [hsplit, getLast?_append, hc, Option.some_or]
  rw [getLast?_reverse] at hlast
  have hhead := head?_dropWhile_not (fun c => decide (c = blank ∨ c = dot)) name.reverse
  rw [hm, hlast] at hhead
  simpa using hhead

theorem toupper_of_high (h : ¬ c ≤ 0x7F) : toupper c = c := by
  unfold toupper
  rw [if_neg]
  rintro ⟨-, hle⟩
  have hz : (0x7A : UInt8) ≤ 0x7F := by decide
  exact h (UInt8.le_trans hle hz)

theorem prepared_eq_of_length (h : lfn_prepare_name name = some long) (hlen : long.length = name.length) : long = name := by
  obtain ⟨lead, trail, hname, -⟩ := prepared_split h
  rw [hname, length_append, length_append] at hlen
  obtain rfl : lead = [] := length_eq_zero_iff.mp (by omega)
  obtain rfl : trail = [] := length_eq_zero_iff.mp (by omega)
  simpa using hname.symm

theorem narrow_matches_iff (h : lfn_prepare_name name = some long) :
    strcasecmpEq (long.map narrow) name = true ↔ long = name ∧ ∀ c ∈ name, c ≤ 0x7F := by
  rw [strcasecmpEq_iff]
  constructor
  · intro heq
    have hlen := congrArg List.length heq
    simp only [length_map] at hlen
    obtain rfl := prepared_eq_of_length h hlen
    refine ⟨rfl, ?_⟩
    rw [map_map, map_inj_left] at heq
    intro c hc
    by_contra hhigh
    have hc' : toupper (narrow c) = toupper c := heq c hc
    have hmark : toupper 0x3F = 0x3F := by decide
    rw [narrow, if_neg hhigh, hmark, toupper_of_high hhigh] at hc'
    exact hhigh (by rw [← hc']; decide)
  · rintro ⟨rfl, hlow⟩
    rw [map_narrow_eq_iff.mpr hlow]

theorem dot_notMem_sanitize (h : dot ∉ s) : dot ∉ sanitize_component n s := by
  intro hmem
  have hmem' := (mem_filter.mp (mem_of_mem_take hmem)).1
  obtain ⟨c, hc, hup⟩ := mem_map.mp hmem'
  rw [toupper_eq_dot hup] at hc
  exact h hc

theorem aliasParts_ext (long : List UInt8) : dot ∉ (aliasParts long).2 := by
  show dot ∉ sanitize_component 8 (((splitLast dot long).getD (long, [])).2.take 255)
  rcases splitLast_spec dot long with ⟨hnone, -⟩ | ⟨b, e, hsome, -, hnot⟩
  · rw [hnone]
    simp [sanitize_component]
  · rw [hsome]
    exact dot_notMem_sanitize fun h => hnot (mem_of_mem_take h)

theorem aliasBase_getLast (h : (aliasBase base n).getLast? = some c) : c ∈ ([0x7E, 0x25, 0x75] : List UInt8) := by
  have hpos : 0 < count_digits n := Nat.length_toDigits_pos
  have hlen : (base.take (8 - (count_digits n + 1))).length < 8 := by
    rw [length_take]
    omega
  obtain ⟨k, hk⟩ : ∃ k, 8 - (base.take (8 - (count_digits n + 1))).length = k + 1 :=
    ⟨8 - (base.take (8 - (count_digits n + 1))).length - 1, by omega⟩
  rw [aliasBase, take_append, getLast?_append, hk, take_succ_cons] at h
  obtain ⟨d, hd⟩ : ∃ d, ((0x7E : UInt8) :: List.take k [0x25, 0x75]).getLast? = some d :=
    ⟨_, getLast?_eq_some_getLast (by simp)⟩
  rw [hd, Option.some_or, Option.some.injEq] at h
  subst h
  have hmem := mem_of_getLast? hd
  rcases mem_cons.mp hmem with rfl | hmem
  · simp
  · exact mem_cons_of_mem _ (mem_of_mem_take hmem)

theorem aliasParts_ext_ne_nil {b e : List UInt8} (hsome : splitLast dot long = some (b, e)) (hne : e ≠ [])
    (hclean : ∀ c ∈ e, Clean c) : (aliasParts long).2 ≠ [] := by
  show sanitize_component 8 (((splitLast dot long).getD (long, [])).2.take 255) ≠ []
  rw [hsome]
  obtain ⟨c, e, rfl⟩ := exists_cons_of_ne_nil hne
  have hc : shortForbidden (toupper c) = false := hclean c mem_cons_self
  simp [sanitize_component, hc]

theorem alias_ends_with_dot (hbase : base = (aliasParts long).1 ∨ ∃ n, base = aliasBase (aliasParts long).1 n)
    (hext : (aliasParts long).2 = []) (hlast : (base.take 8).getLast? = some dot)
    (hend : ∀ c, long.getLast? = some c → ¬ (c = blank ∨ c = dot)) : ∃ c ∈ long, ¬ Clean c := by
  rcases hbase with rfl | ⟨n, rfl⟩
  · by_contra hall
    push Not at hall
    have hdot : dot ∈ (aliasParts long).1 := mem_of_mem_take (mem_of_getLast? hlast)
    rcases splitLast_spec dot long with ⟨hnone, hnot⟩ | ⟨b, e, hsome, rfl, -⟩
    · -- without a dot in the name there is none in the base
      have hbase : dot ∉ (extract_base_ext 32 8 long).1 := by
        show dot ∉ sanitize_component 32 (((splitLast dot long).getD (long, [])).1.take 255)
        rw [hnone]
        exact dot_notMem_sanitize fun h => hnot (mem_of_mem_take h)
      unfold aliasParts at hdot
      generalize extract_base_ext 32 8 long = parts at hdot hbase
      obtain ⟨base, ext⟩ := parts
      dsimp only at hdot hbase
      split_ifs at hdot
      · exact absurd hdot (by decide)
      · exact hbase hdot
    · have hne : e ≠ [] := by
        rintro rfl
        exact hend dot (by simp) (.inr rfl)
      refine aliasParts_ext_ne_nil hsome hne ?_ hext
      intro c hc
      exact hall c (mem_append_right b (mem_cons_of_mem dot hc))
  · have htake : (aliasBase (aliasParts long).1 n).take 8 = aliasBase (aliasParts long).1 n := by
      rw [aliasBase, take_take, Nat.min_self]
    rw [htake] at hlast
    exact absurd (aliasBase_getLast hlast) (by decide)

theorem clean_low (h : Clean c) : c ≤ 0x7F := by
  by_contra hhigh
  unfold Clean at h
  rw [toupper_of_high hhigh] at h
  have hgt : (0x7E : UInt8) < c := by
    simp only [UInt8.le_iff_toNat_le, UInt8.lt_iff_toNat_lt, UInt8.reduceToNat] at hhigh ⊢
    omega
  simp [shortForbidden, hgt] at h

/-- The text of an alias: only clean characters, and a dot at the end only where one is at the end of the base. -/
theorem alias_text (hshort : short ∈ triedAliases long) :
    (∀ c ∈ build_short_name_str short, Clean c) ∧ (build_short_name_str short).length ≤ 12 ∧
      ((build_short_name_str short).getLast? = some dot → (∀ c, long.getLast? = some c → ¬ (c = blank ∨ c = dot)) →
        ∃ c ∈ long, ¬ Clean c) := by
  obtain ⟨base, hbase, rfl⟩ := mem_triedAliases hshort
  have hcb := clean_base hbase
  have hce := (clean_aliasParts long).2
  have hdot : Clean dot := by decide
  rw [build_short_name_str_make hcb hce]
  split_ifs with hempty
  · refine ⟨fun c hc => hcb c (mem_of_mem_take hc), ?_, ?_⟩
    · rw [length_take]
      omega
    · intro hlast hend
      exact alias_ends_with_dot hbase (by simpa using hempty) hlast hend
  · refine ⟨?_, ?_, ?_⟩
    · intro c hc
      rcases mem_append.mp hc with hc | hc
      · rcases mem_append.mp hc with hc | hc
        · exact hcb c (mem_of_mem_take hc)
        · rw [mem_singleton.mp hc]
          exact hdot
      · exact hce c (mem_of_mem_take hc)
    · simp only [length_append, length_take, length_singleton]
      omega
    · intro hlast
      -- the extension has no dot
      obtain ⟨x, hx⟩ : ∃ x, ((aliasParts long).2.take 3).getLast? = some x := ⟨_, getLast?_eq_some_getLast hempty⟩
      rw [getLast?_append, hx, Option.some_or, Option.some.injEq] at hlast
      rw [hlast] at hx
      exact absurd (mem_of_mem_take (mem_of_getLast? hx)) (aliasParts_ext long)

theorem storable_of_alias_matches (hname : lfn_prepare_name name = some long) (hshort : short ∈ triedAliases long)
    (hmatch : strcasecmpEq (build_short_name_str short) name = true) : Storable name := by
  obtain ⟨hclean, hlen, hends⟩ := alias_text hshort
  rw [strcasecmpEq_iff] at hmatch
  generalize build_short_name_str short = text at hclean hlen hends hmatch
  have hcleanName : ∀ c ∈ name, Clean c := by
    intro c hc
    have hmem : toupper c ∈ text.map toupper := by
      rw [hmatch]
      exact mem_map_of_mem hc
    obtain ⟨x, hx, hxc⟩ := mem_map.mp hmem
    have hxclean := hclean x hx
    unfold Clean at hxclean ⊢
    rwa [hxc] at hxclean
  have hlength : name.length ≤ 12 := by
    have heq := congrArg List.length hmatch
    simp only [length_map] at heq
    omega
  obtain ⟨lead, trail, hsplit, hlead, htrail, hend⟩ := prepared_split hname
  have hlead' : lead = [] := by
    apply eq_nil_iff_forall_not_mem.mpr
    intro c hc
    have hcn : c ∈ name := by
      rw [hsplit]
      exact mem_append_left _ hc
    exact clean_ne_blank (hcleanName c hcn) (hlead c hc)
  have htrail' : trail = [] := by
    by_contra hne
    obtain ⟨c, hc⟩ : ∃ c, trail.getLast? = some c := ⟨_, getLast?_eq_some_getLast hne⟩
    have hlast : name.getLast? = some c := by
      rw [hsplit, getLast?_append, getLast?_append, hc, Option.some_or, Option.some_or]
    have hcdot : c = dot := by
      rcases htrail c (mem_of_getLast? hc) with hb | hd
      · exact absurd hb (clean_ne_blank (hcleanName c (mem_of_getLast? hlast)))
      · exact hd
    have htext : text.getLast? = some dot := by
      have hmap : (text.map toupper).getLast? = some dot := by
        rw [hmatch, getLast?_map, hlast, hcdot]
        rfl
      rw [getLast?_map, Option.map_eq_some_iff] at hmap
      obtain ⟨x, hx, hxdot⟩ := hmap
      rw [hx, toupper_eq_dot hxdot]
    obtain ⟨x, hx, hdirty⟩ := hends htext hend
    apply hdirty
    apply hcleanName
    rw [hsplit]
    exact mem_append_right _ (mem_append_left _ hx)
  have hlong : long = name := by
    rw [hsplit, hlead', htrail', nil_append, append_nil]
  subst hlong
  exact ⟨hname, by omega, fun c hc => clean_low (hcleanName c hc)⟩

theorem long_name_matches_iff (hname : lfn_prepare_name name = some long) (hshort : short ∈ triedAliases long) :
    ((lfnCount long ≤ 19 ∧ strcasecmpEq (long.map narrow) name = true) ∨
      strcasecmpEq (build_short_name_str short) name = true) ↔ Storable name := by
  constructor
  · rintro (⟨hcount, hmatch⟩ | hmatch)
    · obtain ⟨rfl, hlow⟩ := (narrow_matches_iff hname).mp hmatch
      unfold lfnCount at hcount
      exact ⟨hname, by omega, hlow⟩
    · exact storable_of_alias_matches hname hshort hmatch
  · rintro ⟨hsame, hlen, hlow⟩
    left
    obtain rfl : long = name := Option.some.inj (hname.symm.trans hsame)
    refine ⟨?_, (narrow_matches_iff hname).mpr ⟨rfl, hlow⟩⟩
    unfold lfnCount
    omega

end Orion.Fat
