import Orion.Fat16.Scans

/-!
# Proofs: when the scans of a directory end

For each scan: which lists of places stop it, by induction on the list, and from this, with the rule for loops along
links, which tables and directories it ends on.
-/

namespace Orion.Fat16

open Lib Fat List

variable {v : Vol} {rd : Slot → Bytes} {l : List Slot} {turns : ℕ} {needed run : UInt32} {σ : Slot}

theorem places_cons (v : Vol) (b : Option ℕ) (bs : List (Option ℕ)) : v.places (b :: bs) = v.places [b] ++ v.places bs := by
  simp [Vol.places]

theorem foldlM_visitPlaces {σ β : Type} (place : σ → Slot → Except β σ) (s : σ) (cells : List ℕ) :
    cells.foldlM (visitPlaces v place) s = (v.places (cells.map some)).foldlM place s := by
  induction cells generalizing s with
  | nil => rfl
  | cons c cells ih =>
    rw [map_cons, places_cons, foldlM_append, foldlM_cons]
    congr 1
    funext s'
    exact ih s'

theorem iteratePlace_stops (s : IterState) (l : List Slot) :
    (∃ b, l.foldlM (iteratePlace rd) s = .error b) ↔ ∃ σ ∈ l, rd σ 0 = 0 := by
  induction l generalizing s with
  | nil => simp [pure, Except.pure]
  | cons σ l ih =>
    rw [foldlM_cons]
    by_cases hzero : rd σ 0 = 0
    · have hstop : iteratePlace rd s σ = .error s.2 := if_pos hzero
      rw [hstop]
      exact ⟨fun _ => ⟨σ, mem_cons_self, hzero⟩, fun _ => ⟨s.2, rfl⟩⟩
    · obtain ⟨s', hs'⟩ : ∃ s', iteratePlace rd s σ = .ok s' := by
        unfold iteratePlace
        rw [if_neg hzero]
        split
        · exact ⟨_, rfl⟩
        · split <;> exact ⟨_, rfl⟩
      have hrest : (∃ τ ∈ σ :: l, rd τ 0 = 0) ↔ ∃ τ ∈ l, rd τ 0 = 0 := by simp [hzero]
      rw [hs', hrest]
      exact ih s'

theorem itemsOf_iterate (st : LfnState) (items : List Item) (l : List Slot) :
    itemsOf (l.foldlM (iteratePlace rd) (st, items)) = items ++ Fat.iterate_dir rd st l := by
  induction l generalizing st items with
  | nil => simp [Fat.iterate_dir, itemsOf, pure, Except.pure]
  | cons σ l ih =>
    rw [foldlM_cons, Fat.iterate_dir]
    unfold iteratePlace
    split
    · simp [itemsOf, bind, Except.bind]
    split
    · exact ih lfn_reset items
    · split
      · exact ih _ items
      · exact (ih lfn_reset _).trans (append_assoc _ _ _)

theorem iterate_dir_ends_iff (v : Vol) (dir : ℕ) : (∃ turns, fat16_iterate_dir v turns dir ≠ none) ↔
      dir = 0 ∨ (∃ k, ¬ isCell eoc (v.fat^[k] dir)) ∨ ∃ n, ∃ σ ∈ placesAlong v dir n, v.raw σ 0 = 0 := by
  unfold fat16_iterate_dir
  by_cases hdir : dir = 0
  · simp [hdir]
  simp only [hdir, if_false, false_or, ne_eq, Option.map_eq_none_iff]
  rw [follow_ends_iff]
  simp only [foldlM_visitPlaces, iteratePlace_stops]
  rfl

/-- A loop that has ended gives the items that `Fat.iterate_dir` reads from the list of the places. -/
theorem fat16_iterate_dir_eq {dir : ℕ} {items : List Item} (hdir : dir ≠ 0)
    (h : fat16_iterate_dir v turns dir = some items) :
    items = Fat.iterate_dir v.raw lfn_reset (v.places ((walk eoc v.fat turns dir).map some)) := by
  rw [fat16_iterate_dir, if_neg hdir] at h
  obtain ⟨r, hr, rfl⟩ := Option.map_eq_some_iff.mp h
  rw [← follow_walk hr, foldlM_visitPlaces]
  exact itemsOf_iterate lfn_reset [] _

theorem stretch_pos (needed : UInt32) : 0 < stretch needed := by
  unfold stretch
  split
  · decide
  · next h => exact Nat.pos_of_ne_zero fun hzero => h (UInt32.toNat_inj.mp hzero)

theorem stretch_le (needed : UInt32) : stretch needed ≤ 2 ^ 32 := by
  unfold stretch
  split
  · exact Nat.le_refl _
  · exact needed.toNat_lt.le

/-- The counter shows `needed` exactly at the end of the stretch. -/
theorem run_eq_iff (h : run.toNat < stretch needed) : run + 1 = needed ↔ run.toNat + 1 = stretch needed := by
  rw [← UInt32.toNat_inj, UInt32.toNat_add, UInt32.toNat_one]
  unfold stretch at h ⊢
  split at h
  · next hzero =>
    subst hzero
    rw [if_pos rfl, UInt32.toNat_zero]
    omega
  · next hne =>
    rw [if_neg hne]
    have hneeded := needed.toNat_lt
    omega

/-- The counter is the length of the longest stretch of free places at the end of `l`. -/
structure CountsRun (rd : Slot → Bytes) (l : List Slot) (run : UInt32) : Prop where
  free : ∃ r, r <:+ l ∧ r.length = run.toNat ∧ ∀ σ ∈ r, isFree (rd σ)
  longest : ∀ r, r <:+ l → (∀ σ ∈ r, isFree (rd σ)) → r.length ≤ run.toNat

theorem CountsRun.used (hσ : ¬ isFree (rd σ)) : CountsRun rd (l ++ [σ]) 0 where
  free := ⟨[], nil_suffix, rfl, fun τ hτ => absurd hτ not_mem_nil⟩
  longest := by
    intro r hr hfree
    rcases suffix_concat_iff.mp hr with rfl | ⟨t, rfl, -⟩
    · exact Nat.le_refl 0
    · exact absurd (hfree σ (mem_append_right t mem_cons_self)) hσ

theorem CountsRun.snoc (h : CountsRun rd l run) (hσ : isFree (rd σ)) :
    ∃ r, r <:+ l ++ [σ] ∧ r.length = run.toNat + 1 ∧ ∀ τ ∈ r, isFree (rd τ) := by
  obtain ⟨r, ⟨t, ht⟩, hlen, hfree⟩ := h.free
  refine ⟨r ++ [σ], ⟨t, by rw [← ht, append_assoc]⟩, by rw [length_append, hlen]; rfl, ?_⟩
  intro τ hτ
  rcases mem_append.mp hτ with hτ | hτ
  · exact hfree τ hτ
  · rw [mem_singleton.mp hτ]
    exact hσ

theorem CountsRun.more (h : CountsRun rd l run) (hσ : isFree (rd σ))
    (hrun : (run + 1).toNat = run.toNat + 1) : CountsRun rd (l ++ [σ]) (run + 1) where
  free := by
    rw [hrun]
    exact h.snoc hσ
  longest := by
    intro r hr hfree
    rw [hrun]
    rcases suffix_concat_iff.mp hr with rfl | ⟨t, rfl, ht⟩
    · exact Nat.zero_le _
    · have hlen := h.longest t ht fun τ hτ => hfree τ (mem_append_left _ hτ)
      rw [length_append, length_singleton]
      omega

theorem freePlace_scan (needed : UInt32) (l : List Slot) :
    ((∃ b, l.foldlM (freePlace rd needed) (0, []) = .error b) ∧ HasStretch rd needed l) ∨
      ∃ s, l.foldlM (freePlace rd needed) (0, []) = .ok s ∧ CountsRun rd l s.1 ∧ s.1.toNat < stretch needed ∧
        ¬ HasStretch rd needed l := by
  induction l using List.reverseRecOn with
  | nil =>
    refine .inr ⟨(0, []), rfl, ⟨⟨[], suffix_rfl, rfl, by simp⟩, ?_⟩, stretch_pos needed, ?_⟩
    · intro r hr _
      rw [suffix_nil.mp hr]
      exact Nat.le_refl 0
    · rintro ⟨r, hr, hlen, -⟩
      rw [infix_nil.mp hr] at hlen
      exact absurd hlen (stretch_pos needed).ne
  | append_singleton l σ ih =>
    rw [foldlM_append]
    rcases ih with ⟨⟨b, hb⟩, r, hr, hlen, hfree⟩ | ⟨s, hs, hcount, hlt, hnone⟩
    · rw [hb]
      exact .inl ⟨⟨b, rfl⟩, r, hr.trans (prefix_append l [σ]).isInfix, hlen, hfree⟩
    rw [hs]
    -- a stretch in the longer list is one at its end
    have hend : HasStretch rd needed (l ++ [σ]) →
        ∃ r, r <:+ l ++ [σ] ∧ r.length = stretch needed ∧ ∀ τ ∈ r, isFree (rd τ) := by
      rintro ⟨r, hr, hrest⟩
      rcases infix_concat_iff.mp hr with hsuffix | hinfix
      · exact ⟨r, hsuffix, hrest⟩
      · exact absurd ⟨r, hinfix, hrest⟩ hnone
    by_cases hσ : isFree (rd σ)
    · obtain ⟨r, hr, hlen, hfree⟩ := hcount.snoc hσ
      by_cases hfull : s.1 + 1 = needed
      · refine .inl ⟨?_, r, hr.isInfix, hlen.trans ((run_eq_iff hlt).mp hfull), hfree⟩
        simp [freePlace, hσ, hfull, bind, Except.bind]
      have hshort : s.1.toNat + 1 < stretch needed := by
        have hne := mt (run_eq_iff hlt).mpr hfull
        omega
      have hrun : (s.1 + 1).toNat = s.1.toNat + 1 := by
        rw [UInt32.toNat_add, UInt32.toNat_one]
        exact Nat.mod_eq_of_lt (hshort.trans_le (stretch_le needed))
      have hmore := hcount.more hσ hrun
      refine .inr ⟨_, by simp [freePlace, hσ, hfull, bind, Except.bind]; rfl, hmore, ?_, ?_⟩
      · exact hrun ▸ hshort
      intro hstretch
      obtain ⟨t, ht, htlen, htfree⟩ := hend hstretch
      have hle := hmore.longest t ht htfree
      omega
    · have hzero := CountsRun.used (l := l) hσ
      refine .inr ⟨(0, []), by simp [freePlace, hσ, bind, Except.bind]; rfl, hzero, stretch_pos needed, ?_⟩
      intro hstretch
      obtain ⟨t, ht, htlen, htfree⟩ := hend hstretch
      have hle := hzero.longest t ht htfree
      have hpos := stretch_pos needed
      rw [htlen, UInt32.toNat_zero] at hle
      omega

theorem freePlace_stops (needed : UInt32) (l : List Slot) :
    (∃ b, l.foldlM (freePlace rd needed) (0, []) = .error b) ↔ HasStretch rd needed l := by
  rcases freePlace_scan needed l with ⟨hstop, hstretch⟩ | ⟨s, hs, -, -, hnone⟩
  · exact iff_of_true hstop hstretch
  refine iff_of_false ?_ hnone
  rintro ⟨b, hb⟩
  rw [hs] at hb
  cases hb

/-- As every cluster has places, the loop over the new clusters is done after `needed` of them. -/
theorem takePlaces_stops (hspc : v.spc ≠ 0) {cells : List ℕ} {remaining : ℕ} (slots : List Slot) (hpos : 0 < remaining)
    (hlen : remaining ≤ cells.length) : ∃ b, cells.foldlM (takePlaces v) (remaining, slots) = .error b := by
  induction cells generalizing remaining slots with
  | nil => exact absurd hlen (Nat.not_le.mpr hpos)
  | cons c cells ih =>
    rw [foldlM_cons]
    set taken := (v.places [some c]).take remaining with htaken
    have htake : taken.length ≠ 0 := by
      have hwidth : (v.places [some c]).length = v.spc * 16 := by simp [Vol.places, Vol.width]
      rw [htaken, length_take, hwidth]
      omega
    by_cases hdone : remaining - taken.length = 0
    · have hstop : takePlaces v (remaining, slots) c = .error (slots ++ taken) := if_pos hdone
      rw [hstop]
      exact ⟨_, rfl⟩
    · have hmore : takePlaces v (remaining, slots) c = .ok (remaining - taken.length, slots ++ taken) := if_neg hdone
      rw [hmore]
      rw [length_cons] at hlen
      exact ih (slots ++ taken) (by omega) (by omega)

theorem slotsInNew_ends (hspc : v.spc ≠ 0) (hpos : 0 < needed.toNat)
    (hturns : needed.toNat ≤ turns) (grown : List ℕ × Bool × Vol) : slotsInNew v turns needed grown ≠ none := by
  obtain ⟨l, ok, v'⟩ := grown
  rcases ok with _ | _
  · simp [slotsInNew]
  have hlen : needed.toNat ≤ (List.iterate v'.fat (l.headD 0) turns).length := by rwa [length_iterate]
  obtain ⟨b, hb⟩ := takePlaces_stops hspc [] hpos hlen
  have hends : follow (isCell eoc) v'.fat (takePlaces v) turns (needed.toNat, []) (l.headD 0) ≠ none :=
    follow_of_stops hb
  obtain ⟨r, hr⟩ := Option.ne_none_iff_exists'.mp hends
  rw [slotsInNew, hr]
  cases r <;> simp

theorem extendDir_ends (last : ℕ) (hturns : needed.toNat ≤ turns) : extendDir v turns last needed ≠ none := by
  unfold extendDir
  split
  · simp
  next hneeded =>
  split
  · simp
  · next hspc =>
    have hpos : 0 < needed.toNat := Nat.pos_of_ne_zero fun h => hneeded (UInt32.toNat_inj.mp h)
    exact slotsInNew_ends hspc hpos hturns _

theorem find_free_slots_ends_iff (v : Vol) (dir : ℕ) (needed : UInt32) :
    (∃ turns, fat16_find_free_slots v turns dir needed ≠ none) ↔
      dir = 0 ∨ (∃ k, ¬ isCell eoc (v.fat^[k] dir)) ∨ ∃ n, HasStretch v.raw needed (placesAlong v dir n) := by
  unfold fat16_find_free_slots
  by_cases hdir : dir = 0
  · simp only [hdir, if_true, true_or, iff_true]
    refine ⟨0, ?_⟩
    split <;> simp
  · simp only [hdir, if_false, false_or]
    have hscan : ((∃ k, ¬ isCell eoc (v.fat^[k] dir)) ∨ ∃ n, HasStretch v.raw needed (placesAlong v dir n)) ↔
        ∃ n, follow (isCell eoc) v.fat (visitPlaces v (freePlace v.raw needed)) n (0, []) dir ≠ none := by
      rw [follow_ends_iff]
      simp only [foldlM_visitPlaces, freePlace_stops]
      rfl
    rw [hscan]
    constructor
    · rintro ⟨turns, h⟩
      refine ⟨turns, fun hnone => h ?_⟩
      rw [hnone]
    · rintro ⟨n, hn⟩
      obtain ⟨r, hr⟩ := Option.ne_none_iff_exists'.mp hn
      refine ⟨max n needed.toNat, ?_⟩
      rw [follow_mono hr (le_max_left _ _)]
      cases r with
      | error slots => simp
      | ok s => exact extendDir_ends _ (le_max_right _ _)

theorem length_listedIn_cons (σ : Slot) (l : List Slot) :
    (listedIn rd (σ :: l)).length = (if isListed (rd σ) then 1 else 0) + (listedIn rd l).length := by
  unfold listedIn
  rw [filter_cons]
  split
  · rw [length_cons, Nat.add_comm]
  · rw [Nat.zero_add]

/-- A list of places stops `fat16_read_dir` only at an entry never used; else it is read to its end, while there is
room. -/
theorem listPlace_scan (max : ℤ) (out : List Bytes) (l : List Slot) :
    ((∃ b, l.foldlM (listPlace rd max) out = .error b) ∧ ∃ σ ∈ l, rd σ 0 = 0) ∨
      ∃ out', l.foldlM (listPlace rd max) out = .ok out' ∧ out'.length ≤ out.length + (listedIn rd l).length ∧
        (max ≤ out'.length ∨ (∀ σ ∈ l, rd σ 0 ≠ 0) ∧ out'.length = out.length + (listedIn rd l).length) := by
  induction l generalizing out with
  | nil => exact .inr ⟨out, rfl, Nat.le_refl _, .inr ⟨by simp, rfl⟩⟩
  | cons σ l ih =>
    rw [foldlM_cons, length_listedIn_cons]
    by_cases hfull : max ≤ out.length
    · have hstep : listPlace rd max out σ = .ok out := if_pos hfull
      rw [hstep]
      rcases ih out with ⟨hstop, τ, hτ, hzero⟩ | ⟨out', hrun, hle, hrest⟩
      · exact .inl ⟨hstop, τ, mem_cons_of_mem _ hτ, hzero⟩
      · refine .inr ⟨out', hrun, by omega, .inl ?_⟩
        rcases hrest with h | ⟨-, h⟩ <;> omega
    · by_cases hzero : rd σ 0 = 0
      · have hstep : listPlace rd max out σ = .error out := by rw [listPlace, if_neg hfull, if_pos hzero]
        rw [hstep]
        exact .inl ⟨⟨out, rfl⟩, σ, mem_cons_self, hzero⟩
      · obtain ⟨next, hstep, hnext⟩ : ∃ next, listPlace rd max out σ = .ok next ∧
            next.length = out.length + if isListed (rd σ) then 1 else 0 := by
          rw [listPlace, if_neg hfull, if_neg hzero]
          split
          · exact ⟨_, rfl, by rw [length_append]; rfl⟩
          · exact ⟨_, rfl, rfl⟩
        rw [hstep]
        rcases ih next with ⟨hstop, τ, hτ, hmark⟩ | ⟨out', hrun, hle, hrest⟩
        · exact .inl ⟨hstop, τ, mem_cons_of_mem _ hτ, hmark⟩
        refine .inr ⟨out', hrun, by omega, ?_⟩
        rcases hrest with h | ⟨hnone, h⟩
        · exact .inl h
        · exact .inr ⟨forall_mem_cons.mpr ⟨hzero, hnone⟩, by omega⟩

/-- The same for clusters, which stop `fat16_read_dir` also where there is no room for more. -/
theorem listCluster_scan (max : ℤ) (out : List Bytes) (cells : List ℕ) :
    ((∃ b, cells.foldlM (listCluster v max) out = .error b) ∧ ((∃ σ ∈ v.places (cells.map some), v.raw σ 0 = 0) ∨
          max ≤ out.length + (listedIn v.raw (v.places (cells.map some))).length)) ∨
      ∃ out', cells.foldlM (listCluster v max) out = .ok out' ∧
        (max ≤ out'.length ∨ (∀ σ ∈ v.places (cells.map some), v.raw σ 0 ≠ 0) ∧
          out'.length = out.length + (listedIn v.raw (v.places (cells.map some))).length) := by
  induction cells generalizing out with
  | nil => exact .inr ⟨out, rfl, .inr ⟨by simp [Vol.places], by simp [Vol.places, listedIn]⟩⟩
  | cons c cells ih =>
    have hlen : (listedIn v.raw (v.places ((c :: cells).map some))).length =
        (listedIn v.raw (v.places [some c])).length + (listedIn v.raw (v.places (cells.map some))).length := by
      rw [map_cons, places_cons, listedIn, filter_append, length_append]
      rfl
    have hmem : ∀ σ, σ ∈ v.places ((c :: cells).map some) ↔ σ ∈ v.places [some c] ∨ σ ∈ v.places (cells.map some) := by
      intro σ
      rw [map_cons, places_cons, mem_append]
    rw [foldlM_cons, hlen]
    by_cases hfull : max ≤ out.length
    · have hstop : listCluster v max out c = .error out := if_pos hfull
      rw [hstop]
      exact .inl ⟨⟨out, rfl⟩, .inr (by omega)⟩
    · have hvisit : listCluster v max out c = (v.places [some c]).foldlM (listPlace v.raw max) out := if_neg hfull
      rw [hvisit]
      rcases listPlace_scan max out (v.places [some c]) with ⟨⟨b, hb⟩, σ, hσ, hzero⟩ | ⟨next, hnext, hle, hcase⟩
      · rw [hb]
        exact .inl ⟨⟨b, rfl⟩, .inl ⟨σ, (hmem σ).mpr (.inl hσ), hzero⟩⟩
      rw [hnext]
      rcases ih next with ⟨hstop, hwhy⟩ | ⟨out', hrun, hrest⟩
      · refine .inl ⟨hstop, ?_⟩
        rcases hwhy with ⟨σ, hσ, hzero⟩ | hroom
        · exact .inl ⟨σ, (hmem σ).mpr (.inr hσ), hzero⟩
        · exact .inr (by omega)
      · refine .inr ⟨out', hrun, ?_⟩
        rcases hrest with h | ⟨hnone, h⟩
        · exact .inl h
        rcases hcase with hfull' | ⟨hfirst, hcount⟩
        · exact .inl (by omega)
        refine .inr ⟨fun σ hσ => ?_, by omega⟩
        rcases (hmem σ).mp hσ with hσ | hσ
        · exact hfirst σ hσ
        · exact hnone σ hσ

theorem read_dir_ends_iff (v : Vol) (dir : ℕ) (max : ℤ) : (∃ turns, fat16_read_dir v turns dir max ≠ none) ↔
      dir = 0 ∨ (∃ k, eoc ≤ v.fat^[k] dir) ∨
        ∃ n, (∃ σ ∈ placesAlong v dir n, v.raw σ 0 = 0) ∨ max ≤ (listedIn v.raw (placesAlong v dir n)).length := by
  unfold fat16_read_dir
  by_cases hdir : dir = 0
  · simp [hdir]
  simp only [hdir, if_false, false_or, ne_eq, Option.map_eq_none_iff]
  rw [follow_ends_iff]
  simp only [Nat.not_lt]
  refine or_congr_right ⟨?_, ?_⟩
  · rintro ⟨n, b, hb⟩
    rcases listCluster_scan max [] (List.iterate v.fat dir n) with ⟨-, hwhy⟩ | ⟨out', hrun, -⟩
    · refine ⟨n, hwhy.imp_right fun hroom => ?_⟩
      simpa [placesAlong] using hroom
    · rw [hrun] at hb
      cases hb
  · rintro ⟨n, hn⟩
    rcases listCluster_scan max [] (List.iterate v.fat dir n) with ⟨⟨b, hb⟩, -⟩ | ⟨out', hrun, hcase⟩
    · exact ⟨n, b, hb⟩
    -- all that fits has been copied, so the loop ends in front of the next cluster
    have hfull : max ≤ out'.length := by
      rcases hcase with h | ⟨hnone, hlen⟩
      · exact h
      rcases hn with ⟨σ, hσ, hzero⟩ | hroom
      · exact absurd hzero (hnone σ hσ)
      · rw [hlen]
        simpa [placesAlong] using hroom
    refine ⟨n + 1, out', ?_⟩
    have hstop : ∀ c, listCluster v max out' c = .error out' := fun c => if_pos hfull
    rw [iterate_add, foldlM_append, hrun]
    simp [List.iterate, hstop, bind, Except.bind]

/-- Where the scans of a directory end: at the end of the links, at an entry never used (not for free places), at enough
free places in a row, or when as many entries are listed as asked for. -/
theorem scans_end_iff (v : Vol) (dir : ℕ) (needed : UInt32) (max_entries : ℤ) :
    ((∃ turns, fat16_iterate_dir v turns dir ≠ none) ↔
      dir = 0 ∨ (∃ k, ¬ isCell eoc (v.fat^[k] dir)) ∨ ∃ n, ∃ σ ∈ placesAlong v dir n, v.raw σ 0 = 0) ∧
    ((∃ turns, fat16_find_free_slots v turns dir needed ≠ none) ↔
      dir = 0 ∨ (∃ k, ¬ isCell eoc (v.fat^[k] dir)) ∨ ∃ n, HasStretch v.raw needed (placesAlong v dir n)) ∧
    ((∃ turns, fat16_read_dir v turns dir max_entries ≠ none) ↔ dir = 0 ∨ (∃ k, eoc ≤ v.fat^[k] dir) ∨
        ∃ n, (∃ σ ∈ placesAlong v dir n, v.raw σ 0 = 0) ∨
          max_entries ≤ (listedIn v.raw (placesAlong v dir n)).length) :=
  ⟨iterate_dir_ends_iff v dir, find_free_slots_ends_iff v dir needed, read_dir_ends_iff v dir max_entries⟩

/-- A directory in cluster 2 that leads to itself and is full of long entries. -/
def loopedDir : Vol where
  spc := 1
  fatLen := 256
  rootLen := 512
  fat := fun _ => 2
  area := fun _ _ => 0x0F
  hint := 2
  cwd := 0

theorem scans_never_end : (¬ ∃ turns, fat16_iterate_dir loopedDir turns 2 ≠ none) ∧
    (¬ ∃ turns, fat16_find_free_slots loopedDir turns 2 1 ≠ none) ∧
      ¬ ∃ turns, fat16_read_dir loopedDir turns 2 10 ≠ none := by
  have hfat : ∀ k, loopedDir.fat^[k] 2 = 2 := fun k => Function.iterate_fixed rfl k
  have hcell : ¬ ∃ k, ¬ isCell eoc (loopedDir.fat^[k] 2) := by
    rintro ⟨k, hk⟩
    rw [hfat] at hk
    exact hk (by decide)
  have hraw : ∀ σ, loopedDir.raw σ 0 = 0x0F ∧ loopedDir.raw σ 11 = 0x0F := fun _ => ⟨rfl, rfl⟩
  have hzero : ∀ σ, loopedDir.raw σ 0 ≠ 0 := fun σ => by simp [(hraw σ).1]
  refine ⟨?_, ?_, ?_⟩
  · intro hends
    rcases (iterate_dir_ends_iff loopedDir 2).mp hends with h | h | ⟨n, σ, -, hσ⟩
    · exact absurd h (by decide)
    · exact hcell h
    · exact hzero σ hσ
  · intro hends
    rcases (find_free_slots_ends_iff loopedDir 2 1).mp hends with h | h | ⟨n, r, -, hlen, hfree⟩
    · exact absurd h (by decide)
    · exact hcell h
    · cases r with
      | nil => exact absurd hlen (by decide)
      | cons σ r => exact absurd (hfree σ mem_cons_self) (by simp [isFree, (hraw σ).1])
  · intro hends
    rcases (read_dir_ends_iff loopedDir 2 10).mp hends with h | ⟨k, hk⟩ | ⟨n, ⟨σ, -, hσ⟩ | hroom⟩
    · exact absurd h (by decide)
    · rw [hfat] at hk
      exact absurd hk (by decide)
    · exact hzero σ hσ
    have hnone : listedIn loopedDir.raw (placesAlong loopedDir 2 n) = [] :=
      filter_eq_nil_iff.mpr fun σ _ => by simp [isListed, hraw σ]
    rw [hnone] at hroom
    exact absurd hroom (by decide)

end Orion.Fat16
