import Orion.Fat.Proofs.InsertProofs
import Orion.Fat.Proofs.MatchProofs
import Orion.Fat16.Outcomes
import Orion.Fat16.Proofs.FailureProofs

/-!
# When a created entry is found

The reader stops at a place in front of the new entry that was never used; otherwise it reads the entry, which matches
the name if nothing of the name was lost.
-/

namespace Orion.Fat16

open Lib Fat List

variable {v w u : Vol} {d k wd : ℕ} {path name : List UInt8} {slots : List Slot} {N : NewName}
  {entry : List UInt8} {pre post : List Slot}

/-- In `w` the places of the directory `d` hold what they hold in `u` after the entry is written. -/
structure Views (u w : Vol) (d : ℕ) (name : NewName) (slots : List Slot) (entry : List UInt8) : Prop where
  places : dirSlots w d = dirSlots u d
  raw : ∀ σ ∈ dirSlots u d, w.raw σ = (writeEntries u name slots entry).raw σ

theorem dirSlots_writeEntries (hlen : slots.length = N.lfn_count + 1) :
    dirSlots (writeEntries v N slots entry) d = dirSlots v d := by
  have hw := writeEntries_writesAt v entry hlen
  have hwidth : (writeEntries v N slots entry).width = v.width := by
    funext b
    cases b with
    | none => exact hw.rootLen
    | some c => exact congrArg (· * 16) hw.spc
  unfold dirSlots
  rw [hw.fat, Vol.places_congr hwidth]

theorem views_of_keeps (hlen : slots.length = N.lfn_count + 1)
    (hentry : entry.length = 32) (hk : Keeps u v none) (hd : IsDir u none d) :
    Views u (writeEntries v N slots entry) d N slots entry := by
  refine ⟨(dirSlots_writeEntries hlen).trans (dirSlots_keeps hk hd), ?_⟩
  intro σ hσ
  exact raw_writeEntries_congr hentry (hk.raw hd (mem_dirSlots.mp hσ).1)

theorem views_of_run (hI : Inv wd u none []) (hd : IsDir u none d) (hlen : slots.length = N.lfn_count + 1)
    (hreserve : reserve v path = (some (d, N, slots), u)) (hshort : Visible N.short_name) (what : Creation)
    (hok : (what.run v path).1 = true) :
    ∃ attr first size, attr ≠ 0x0F ∧
      Views u (what.run v path).2 d N slots (entryBytes N.short_name attr first size) := by
  obtain ⟨c, t, halloc⟩ : ∃ c t, alloc_cluster u = (c, t) := ⟨_, _, rfl⟩
  obtain ⟨hkeep, -, hcase⟩ := hI.alloc halloc
  have hentry (attr : UInt8) (first size : ℕ) : (entryBytes N.short_name attr first size).length = 32 :=
    length_entryBytes hshort.1
  rcases hcase with ⟨hc, -⟩ | ⟨hcell, hfree, hfat, hIt⟩
  · -- without a cluster the call fails
    cases what with
    | file mem initial_size =>
      simp only [Creation.run, create_file, hreserve, halloc, if_pos hc] at hok
      cases hok
    | directory =>
      simp only [Creation.run, mkdir, hreserve, halloc, if_pos hc] at hok
      cases hok
  · have hno : ¬ noCluster c := fun h => noCluster_iff.mp h hcell
    have hmark : t.setFat c 0xFFFF = t := by
      apply setFat_self
      rw [hfat, Function.update_self]
    cases what with
    | file mem initial_size =>
      obtain ⟨m, -, hgrown⟩ := growFile_spec mem ((initial_size + t.clusterSize - 1) % 2 ^ 32 / t.clusterSize - 1) hIt
        (p := c) (by simp)
      refine ⟨0x20, c, initial_size, by decide, ?_⟩
      simp only [Creation.run, create_file, hreserve, halloc, if_neg hno, hmark]
      exact views_of_keeps hlen (hentry _ _ _) (hkeep.trans hgrown) hd
    | directory =>
      refine ⟨0x10, c, 0, by decide, ?_⟩
      simp only [Creation.run, mkdir, hreserve, halloc, if_neg hno, hmark]
      have hviews := views_of_keeps hlen (hentry 0x10 c 0) hkeep hd
      refine ⟨hviews.places, ?_⟩
      intro σ hσ
      have hother : σ.1 ≠ some c := by
        intro hσc
        have hb := (mem_dirSlots.mp hσ).1
        rw [hσc, Tree.mem_blocks_some] at hb
        exact (hI.sound.dir_sound hd).linked.next_ne_zero hb hfree
      rw [Vol.raw_store_of_ne hother, Vol.raw_store_of_ne hother]
      exact hviews.raw σ hσ

theorem reserve_some (h : reserve v path = (some (d, N, slots), u)) :
    ((split_path path).2 ≠ [] ∧ (split_path path).2 ≠ [dot] ∧ (split_path path).2 ≠ [dot, dot]) ∧ d = resolve_dir v (split_path path).1 ∧
      d ≠ 0xFFFF ∧ newName v d (split_path path).2 = some N ∧
      find_free_slots v d (N.lfn_count + 1) = (some slots, u) := by
  unfold reserve at h
  generalize split_path path = parts at h ⊢
  obtain ⟨dir, name⟩ := parts
  dsimp only at h ⊢
  split at h
  · cases h
  rename_i hname
  split at h
  · cases h
  rename_i hresolved
  split at h
  · cases h
  rename_i N' hN
  generalize hfind : find_free_slots v (resolve_dir v dir) (N'.lfn_count + 1) = found at h
  obtain ⟨r, t⟩ := found
  rcases r with _ | found
  · cases h
  cases h
  refine ⟨⟨?_, ?_, ?_⟩, rfl, hresolved, hN, hfind⟩
  · exact fun h => hname (.inl h)
  · exact fun h => hname (.inr (.inl h))
  · exact fun h => hname (.inr (.inr h))

theorem Placed.entries_eq (hpl : Placed v u d slots k) :
    entries u.raw (dirSlots u d) = entries v.raw (dirSlots v d) := by
  obtain ⟨extra, hslots, hzero⟩ := hpl.grown
  unfold entries
  rw [hslots, ← iterate_dir_congr hpl.same]
  rcases extra with _ | ⟨σ, extra⟩
  · rw [append_nil]
  by_cases hend : ∃ τ ∈ dirSlots v d, u.raw τ 0 = 0
  · exact iterate_dir_stop hend
  · push Not at hend
    obtain ⟨st, hst⟩ := iterate_dir_append hend lfn_reset
    rw [hst u.raw (fun _ _ => rfl), iterate_dir, if_pos (hzero σ mem_cons_self), append_nil]

theorem nodup_dirSlots (hs : Tree.Inv eoc (tree u) none []) (hd : IsDir u none d) : (dirSlots u d).Nodup := by
  apply Vol.nodup_places
  split
  · exact nodup_singleton none
  · exact (hs.dir_sound hd).nodup.map fun _ _ h => Option.some.inj h

theorem Placed.inserted {l : List Slot} {τ : Slot} {attr : UInt8}
    (hpl : Placed v u d (l ++ [τ]) (N.lfn_count + 1)) (first size : ℕ) (hnodup : (pre ++ ((l ++ [τ]) ++ post)).Nodup)
    (hshort : Visible N.short_name) (hcount : N.lfn_count ≤ 20) (hattr : attr ≠ 0x0F) :
    Inserted u.raw (writeEntries u N (l ++ [τ]) (entryBytes N.short_name attr first size)).raw pre l τ post := by
  have hmid : (l ++ [τ]).Nodup := (nodup_append.mp (nodup_append.mp hnodup).2.1).1
  have hlen : l.length = N.lfn_count := by simpa using hpl.length
  have hother := (writeEntries_writesAt u (entryBytes N.short_name attr first size) hpl.length).raw
  have hbytes : (entryBytes N.short_name attr first size).length = 32 := length_entryBytes hshort.1
  obtain ⟨hparts, hentry⟩ := raw_writeEntries (v := u) (n := N) hmid hlen hbytes
  refine ⟨hnodup, ?_, ?_, hpl.free, ?_, ?_⟩
  · intro σ hσ
    apply hother
    intro hmem
    exact (nodup_append.mp hnodup).2.2 σ hσ σ (mem_append_left _ hmem) rfl
  · intro σ hσ
    apply hother
    intro hmem
    exact (nodup_append.mp (nodup_append.mp hnodup).2.1).2.2 σ hmem σ hσ rfl
  · intro σ hσ
    obtain ⟨i, hi⟩ := getElem?_of_mem hσ
    have hlt : i < N.lfn_count := hlen ▸ (List.getElem?_eq_some_iff.mp hi).1
    rw [hparts i σ hi]
    exact (isPart_lfnEntry N.long_name (lfn_checksum N.short_name) hcount hlt).ne_zero
  · rw [hentry, attr_entryBytes hshort.1]
    exact ⟨(hshort.entryBytes_head attr first size).1, (hshort.entryBytes_head attr first size).2, hattr⟩

section NewEntry

variable {l : List Slot} {τ : Slot} {attr : UInt8} {first size : ℕ}

theorem read_long (u : Vol) (first size : ℕ) {short long : List UInt8} {taken : List UInt8 → Bool} (hname : name ≠ [])
    (hprepared : lfn_prepare_name name = some long) (hshort : generate_short_name taken long = some short)
    (hcount : lfnCount long ≤ 20) (hattr : attr ≠ 0x0F) (hnodup : (l ++ [τ]).Nodup) (hlen : l.length = lfnCount long) :
    ∃ item : Item, (∀ st, iterate_dir (withName u short long (l ++ [τ]) attr first size).raw st (l ++ [τ]) = [item]) ∧
      item.slot = τ ∧ (dir_item_matches item name = true ↔ Storable name) := by
  have hvisible := visible_of_generate hshort
  obtain ⟨hzero, hne, -⟩ := prepared_spec hprepared
  have htried : short ∈ triedAliases long := by
    rw [generate_short_name_eq] at hshort
    exact mem_of_find?_eq_some hshort
  have hmatches := long_name_matches_iff hprepared htried
  by_cases hfits : lfnCount long ≤ 19
  · refine ⟨_, fun st => iterate_of_fits first size u hvisible hattr hnodup hlen hzero hne hfits st, rfl, ?_⟩
    rw [dir_item_matches_iff hname, shortName_entryBytes hvisible.1, ← hmatches]
    simp [hfits]
  · refine ⟨_, fun st => iterate_of_too_long first size u hvisible hattr hnodup hlen hne (by omega) st, rfl, ?_⟩
    rw [dir_item_matches_iff hname, shortName_entryBytes hvisible.1, ← hmatches]
    simp [hfits]

theorem read_new (u : Vol) (first size : ℕ) (hN : newName v d name = some N) (hname : name ≠ [] ∧ name ≠ [dot] ∧ name ≠ [dot, dot])
    (hattr : attr ≠ 0x0F) (hnodup : (l ++ [τ]).Nodup) (hlen : l.length = N.lfn_count) :
    ∃ new : LfnState → Item, (∀ st, iterate_dir
        (writeEntries u N (l ++ [τ]) (entryBytes N.short_name attr first size)).raw st (l ++ [τ]) = [new st]) ∧
      (∀ st, (new st).slot = τ) ∧
      ∀ st, dir_item_matches (new st) name = decide (name_needs_lfn name = true → Storable name) := by
  obtain ⟨-, ⟨hlong, hprepared, hshort, hcount, hmax⟩ | ⟨hlong, rfl, -⟩⟩ := newName_cases hN
  · obtain ⟨short, long, count⟩ := N
    dsimp only at hprepared hshort hcount hmax hlen ⊢
    subst hcount
    obtain ⟨item, hread, hslot, hmatch⟩ := read_long u first size hname.1 hprepared hshort hmax hattr hnodup hlen
    refine ⟨fun _ => item, hread, fun _ => hslot, ?_⟩
    intro _
    rw [Bool.eq_iff_iff, hmatch, decide_eq_true_iff]
    simp [hlong]
  · -- the entry may be taken for the end of long entries in front of it, but its short name is read
    have hvalid : is_valid_short_name name = true := by
      by_contra hinvalid
      simp [name_needs_lfn, hinvalid] at hlong
    have hvisible := visible_format_83 hvalid hname.2.1 hname.2.2
    obtain rfl : l = [] := length_eq_zero_iff.mp hlen
    have hraw : (writeEntries u ⟨format_83 name, name.take 255, 0⟩ [τ]
        (entryBytes (format_83 name) attr first size)).raw τ = Bytes.ofList (entryBytes (format_83 name) attr first size) :=
      (raw_writeEntries (v := u) (n := ⟨format_83 name, name.take 255, 0⟩) (l := []) (nodup_singleton τ) rfl
        (length_entryBytes hvisible.1)).2
    refine ⟨fun st => st.item (Bytes.ofList (entryBytes (format_83 name) attr first size)) τ, ?_, ?_, ?_⟩
    · intro st
      have hhead := hvisible.entryBytes_head attr first size
      rw [nil_append, iterate_dir, hraw, if_neg hhead.1, if_neg hhead.2,
        if_neg (by rw [attr_entryBytes hvisible.1]; exact hattr)]
      rfl
    · intro st
      exact LfnState.item_slot st _ τ
    · intro st
      rw [Bool.eq_iff_iff, dir_item_matches_iff hname.1, LfnState.item_entry, shortName_entryBytes hvisible.1]
      simp [hlong, short_name_matches hvalid hname.2.1 hname.2.2]

end NewEntry

theorem reached_iff (hnodup : (pre ++ (slots ++ post)).Nodup) (hne : slots ≠ [])
    (hslots : dirSlots u d = pre ++ (slots ++ post)) : Reached u d slots ↔ ∀ σ ∈ pre, u.raw σ 0 ≠ 0 := by
  obtain ⟨τ, rest, rfl⟩ := exists_cons_of_ne_nil hne
  have hfront : ∀ σ ∈ pre, decide (σ ∉ τ :: rest) = true := by
    intro σ hσ
    rw [decide_eq_true_iff]
    intro hmem
    exact (nodup_append.mp hnodup).2.2 σ hσ σ (mem_append_left post hmem) rfl
  unfold Reached
  rw [hslots, takeWhile_append_of_pos hfront, cons_append, takeWhile_cons_of_neg (by simp), append_nil]

/-- What was created is found under its name and hides nothing, exactly if no place in front of its entry was never used
and nothing of a long name was lost. -/
theorem created_found_iff (hv : WellFormed v) {N : NewName} (hreserve : reserve v path = (some (d, N, slots), u))
    (what : Creation) (hok : (what.run v path).1 = true) :
    FoundAndKept v (what.run v path).2 d (split_path path).2 (slots.getD N.lfn_count (none, 0)) ↔
      Reached u d slots ∧ (name_needs_lfn (split_path path).2 = true → Storable (split_path path).2) := by
  obtain ⟨hname, hd, hresolved, hN, hfind⟩ := reserve_some hreserve
  have hdir : IsDir v none d := hd ▸ hv.resolve_dir (hd ▸ hresolved)
  have hI : Inv v.cwd v none [] := ⟨hv.sound, rfl, hv.spc.1⟩
  obtain ⟨hIu, hdu, hplaced⟩ := find_free_slots_spec hI hdir hfind
  have hpl := hplaced slots rfl
  have hshort : Visible N.short_name := (newName_spec (fun hvalid => visible_format_83 hvalid hname.2.1 hname.2.2) hN).1
  have hcount : N.lfn_count ≤ 20 := by
    obtain ⟨-, ⟨-, -, -, -, hmax⟩ | ⟨-, rfl, -⟩⟩ := newName_cases hN
    · exact hmax
    · exact Nat.zero_le 20
  obtain ⟨attr, first, size, hattr, hviews⟩ := views_of_run hIu hdu hpl.length hreserve hshort what hok
  -- the last of the places is the one of the entry
  have hne : slots ≠ [] := by
    rintro rfl
    exact absurd hpl.length (by simp)
  obtain ⟨l, τ, rfl⟩ : ∃ l τ, slots = l ++ [τ] := ⟨_, _, (dropLast_concat_getLast hne).symm⟩
  have hlen : l.length = N.lfn_count := by simpa using hpl.length
  have hlast : (l ++ [τ]).getD N.lfn_count (none, 0) = τ := by simp [← hlen]
  obtain ⟨pre, post, hslots⟩ := hpl.middle
  have hnodup : (pre ++ ((l ++ [τ]) ++ post)).Nodup := hslots ▸ nodup_dirSlots hIu.sound hdu
  have hins := hpl.inserted first size hnodup hshort hcount hattr
  obtain ⟨new, hread, hslot, haccepted⟩ := read_new u first size hN hname hattr
    (nodup_append.mp (nodup_append.mp hnodup).2.1).1 hlen
  -- what is read before and after
  have hbefore : entries u.raw (pre ++ ((l ++ [τ]) ++ post)) = entries v.raw (dirSlots v d) := by
    rw [← hslots]
    exact hpl.entries_eq
  have hafter : entries (what.run v path).2.raw (dirSlots (what.run v path).2 d) =
      entries (writeEntries u N (l ++ [τ]) (entryBytes N.short_name attr first size)).raw
        (pre ++ ((l ++ [τ]) ++ post)) := by
    rw [hviews.places, ← hslots]
    exact iterate_dir_congr hviews.raw
  have hnone : (entries u.raw (pre ++ ((l ++ [τ]) ++ post))).find? (fun item => dir_item_matches item (split_path path).2) =
      none := by
    rw [hbefore]
    exact (newName_cases hN).1
  have hfound := hins.find_iff hread hslot haccepted hnone
  rw [← reached_iff hnodup hne hslots, decide_eq_true_iff, ← hafter] at hfound
  rw [hlast, ← hfound]
  constructor
  · intro h
    exact h.found
  intro h
  refine ⟨h, ?_⟩
  intro item hitem
  rw [hafter]
  rw [← hbefore] at hitem
  exact hins.kept hitem

theorem reserve_oneFile :
    reserve oneFile [slash, 0x47] = (some (0, ⟨format_83 [0x47], [0x47], 0⟩, [(none, 1)]), oneFile) := rfl

theorem created_found_oneFile :
    FoundAndKept oneFile ((Creation.file (fun _ => true) 0).run oneFile [slash, 0x47]).2 0 [0x47] (none, 1) :=
  (created_found_iff wellFormed_oneFile reserve_oneFile (.file (fun _ => true) 0) (by decide +kernel)).mpr
    ⟨by decide +kernel, fun h => absurd h (by decide)⟩

/-- The directory `D` with thirteen empty files; the last place in its only cluster was never used. -/
def nearlyFull : Vol where
  spc := 1
  fatLen := 256
  rootLen := 16
  fat c := if c ≤ 2 then 0xFFFF else 0
  area b := b.elim (Bytes.ofList (entryBytes (padTo 11 [0x44]) 0x10 2 0)) fun c =>
    if c = 2 then
      Bytes.ofList (dotSector 2 0 ++ (List.range 13).flatMap fun i => entryBytes (padTo 11 [0x41 + UInt8.ofNat i]) 0x20 0 0)
    else fun _ => 0
  hint := 2
  cwd := 0

theorem wellFormed_nearlyFull : WellFormed nearlyFull := by
  have hlisted : Tree.Listed eoc (tree nearlyFull) [0, 2] ((0, (none, 0), ⟨2, true, 0⟩) ::
      (List.range 13).map fun i => (2, (some 2, i + 2), ⟨0, false, 0⟩)) :=
    ⟨by decide, places_listed (by decide +kernel), by decide +kernel, by decide, by decide +kernel, by decide +kernel⟩
  exact wellFormed_of_listed hlisted rfl (by decide) (by decide +kernel)

/-- `/D/note` needs two places: the directory grows, and the entry is behind the place never used. -/
theorem created_file_not_found :
    let result := create_file (fun _ => true) nearlyFull [slash, 0x44, slash, 0x6E, 0x6F, 0x74, 0x65] 0
    WellFormed nearlyFull ∧ result.1 = true ∧ (find_entry_slot result.2 2 [0x6E, 0x6F, 0x74, 0x65]).isNone = true ∧
      shortName (result.2.raw (some 3, 1)) = padTo 11 [0x4E, 0x4F, 0x54, 0x45] := by
  intro result
  refine ⟨wellFormed_nearlyFull, ?_⟩
  decide +kernel

end Orion.Fat16
