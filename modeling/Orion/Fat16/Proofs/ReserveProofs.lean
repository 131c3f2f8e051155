import Orion.Fat.Proofs.EntryProofs
import Orion.Fat16.Proofs.GrowProofs

/-!
# Proofs: names and places of a new entry

`fat16_create_file` and `fat16_mkdir` take a cluster for a name that no entry of the directory has.
-/

namespace Orion.Fat16

open Lib Fat List
open Prod (mk.inj)

variable {v w : Vol} {ex : Option Slot} {H : List (List ℕ)} {l : List ℕ} {wd d k : ℕ} {σ : Slot}
  {slots : List Slot} {name : List UInt8}

theorem format83From_head (s : List UInt8) (in_ext : Bool) (x : UInt8) (n e : List UInt8) :
    ∃ n', (format83From s in_ext (x :: n) e).1 = x :: n' := by
  induction s generalizing in_ext n e with
  | nil => exact ⟨n, rfl⟩
  | cons c s ih =>
    unfold format83From
    split
    · split
      · exact ih true n e
      split
      · exact ih in_ext (n ++ [toupper c]) e
      split
      · exact ih in_ext n (e ++ [toupper c])
      · exact ih in_ext n e
    · exact ⟨n, rfl⟩

theorem head_of_splitLast {sep c : UInt8} {s b e : List UInt8} (h : splitLast sep s = some (c :: b, e)) :
    s.head? = some c := by
  rcases s with _ | ⟨a, s⟩
  · cases h
  unfold splitLast at h
  split at h
  · rename_i b' e' _
    obtain ⟨hb, -⟩ := mk.inj (Option.some.inj h)
    rw [head?_cons, (List.cons.inj hb).1]
  · split at h
    · obtain ⟨hb, -⟩ := mk.inj (Option.some.inj h)
      cases hb
    · cases h

theorem valid_head (hvalid : is_valid_short_name name = true) (hdot : name ≠ [dot]) (hdots : name ≠ [dot, dot]) :
    ∃ c s, name = c :: s ∧ short_valid_char c = true := by
  have hcons : ∀ {c : UInt8}, name.head? = some c → short_valid_char c = true →
      ∃ c s, name = c :: s ∧ short_valid_char c = true := by
    intro c hc hok
    obtain ⟨s, rfl⟩ := head?_eq_some_iff.mp hc
    exact ⟨c, s, rfl, hok⟩
  unfold is_valid_short_name at hvalid
  split at hvalid
  · cases hvalid
  rename_i hne
  rw [if_neg (by simp [hdot, hdots])] at hvalid
  split at hvalid
  · rename_i base ext hsplit
    split at hvalid
    · cases hvalid
    rename_i hbase
    split at hvalid
    · cases hvalid
    rw [Bool.and_eq_true, all_eq_true] at hvalid
    cases base with
    | nil => simp at hbase
    | cons c base => exact hcons (head_of_splitLast hsplit) (hvalid.1 c mem_cons_self)
  · split at hvalid
    · cases hvalid
    rw [all_eq_true] at hvalid
    obtain ⟨c, s, rfl⟩ := exists_cons_of_ne_nil hne
    exact ⟨c, s, rfl, hvalid c mem_cons_self⟩

theorem visible_of_valid {c : UInt8} (h : short_valid_char c = true) : toupper c ≠ 0 ∧ toupper c ≠ 0xE5 ∧ c ≠ dot := by
  unfold short_valid_char at h
  rw [Bool.and_eq_true] at h
  refine ⟨?_, ?_, ?_⟩
  · intro hc
    rw [hc] at h
    exact absurd h.1 (by decide)
  · intro hc
    rw [hc] at h
    exact absurd h.1 (by decide)
  · rintro rfl
    exact absurd h.2 (by decide)

theorem visible_format_83 (hvalid : is_valid_short_name name = true) (hdot : name ≠ [dot]) (hdots : name ≠ [dot, dot]) :
    Visible (format_83 name) := by
  obtain ⟨c, s, rfl, hc⟩ := valid_head hvalid hdot hdots
  obtain ⟨hzero, hdeleted, hcdot⟩ := visible_of_valid hc
  have hfirst : format83From (c :: s) false [] [] = format83From s false [toupper c] [] := by
    simp [format83From, hcdot]
  obtain ⟨n, hn⟩ := format83From_head s false (toupper c) [] []
  refine ⟨by simp [format_83, length_padTo], toupper c, ?_, hzero, hdeleted⟩
  simp [format_83, hfirst, hn, padTo]

theorem dirSlots_eq_cons (hI : Inv wd v ex H) (hd : IsDir v ex d) (hne : d ≠ 0) :
    ∃ L, dirSlots v d = (some d, 0) :: (some d, 1) :: L := by
  obtain ⟨m, hm⟩ : ∃ m, chain eoc v.fat d = d :: m := chain_eq_cons (hI.sound.dir_cell hd hne)
  obtain ⟨k, hk⟩ : ∃ k, v.spc * 16 = k + 1 + 1 := ⟨v.spc * 16 - 2, by have := hI.spc; omega⟩
  unfold dirSlots
  rw [if_neg hne, hm]
  simp [Vol.places, Vol.width, hk, range_succ_eq_map]

theorem not_isDotName_of_not_exists (hI : Inv wd v none H) (hd : IsDir v none d) (hne : d ≠ 0)
    (hexists : short_name_exists v.raw name (dirSlots v d) = false) : ¬ isDotName name := by
  obtain ⟨L, hL⟩ := dirSlots_eq_cons hI hd hne
  obtain ⟨g, τ, e, ho, hdir, rfl⟩ := hd.exists_owner hne
  obtain ⟨-, ⟨hself, hselfAttr⟩, hparent, hparentAttr⟩ := hI.sound.dots g τ e ho hdir
  have hfirst : ∀ {r : Bytes} {s : List UInt8}, shortName r = padTo 11 (dot :: s) → r 0 = dot := by
    intro r s hr
    exact (List.cons.inj hr).1
  have hlive : ∀ {r : Bytes} {s : List UInt8}, shortName r = padTo 11 (dot :: s) → r 0 ≠ 0 ∧ r 0 ≠ 0xE5 := by
    intro r s hr
    rw [hfirst hr]
    decide
  have hlong : ∀ {r : Bytes}, r 11 = 0x10 → r 11 ≠ 0x0F := by
    intro r hr
    rw [hr]
    decide
  rw [hL] at hexists
  rintro (rfl | rfl)
  · obtain ⟨h0, hE5⟩ := hlive hself
    rw [short_name_exists_head h0 hE5 (hlong hselfAttr) hself] at hexists
    cases hexists
  · have hother : shortName (v.raw (some e.first, 0)) ≠ padTo 11 [dot, dot] := by
      rw [hself]
      decide
    obtain ⟨h0, hE5⟩ := hlive hself
    obtain ⟨h0', hE5'⟩ := hlive hparent
    rw [short_name_exists, if_neg h0, if_neg hE5, if_neg (hlong hselfAttr), if_neg hother,
      short_name_exists_head h0' hE5' (hlong hparentAttr) hparent] at hexists
    cases hexists

/-- Free places of the directory `d`. -/
structure Reserved (v : Vol) (d : ℕ) (slots : List Slot) (needed : ℕ) : Prop where
  length : slots.length = needed
  block : ∀ σ ∈ slots, σ.1 ∈ (tree v).blocks eoc d
  lt : ∀ σ ∈ slots, σ.2 < v.width σ.1
  free : ∀ σ ∈ slots, isFree (v.raw σ) = true

theorem Reserved.keeps {needed : ℕ} (hres : Reserved v d slots needed) (hd : IsDir v ex d) (hk : Keeps v w ex) :
    Reserved w d slots needed where
  length := hres.length
  block σ hσ := by
    rw [hk.blocks hd]
    exact hres.block σ hσ
  lt σ hσ := by
    rw [hk.width]
    exact hres.lt σ hσ
  free σ hσ := by
    rw [hk.raw hd (hres.block σ hσ)]
    exact hres.free σ hσ

theorem chain_of_grown (hd : IsDir w none d) {pre : List ℕ} (hchain : chain eoc w.fat d = pre ++ l)
    (hs : Tree.Inv eoc (tree w) none H) : chain eoc w.fat (l.headD 0) = l := by
  rcases l with _ | ⟨c, m⟩
  · exact chain_zero
  have hsound := hs.dir_sound hd
  exact Chain.chain_of_append (hchain ▸ hsound)

/-- What the search for places leaves in `w`: the directory may have grown, and the places are free and adjacent. -/
structure Placed (v w : Vol) (d : ℕ) (slots : List Slot) (k : ℕ) : Prop where
  length : slots.length = k
  free : ∀ σ ∈ slots, isFree (w.raw σ) = true
  middle : ∃ pre post, dirSlots w d = pre ++ (slots ++ post)
  grown : ∃ extra, dirSlots w d = dirSlots v d ++ extra ∧ ∀ σ ∈ extra, w.raw σ 0 = 0
  same : ∀ σ ∈ dirSlots v d, w.raw σ = v.raw σ

theorem Placed.reserved (hpl : Placed v w d slots k) : Reserved w d slots k := by
  have hmem : ∀ σ ∈ slots, σ ∈ dirSlots w d := by
    intro σ hσ
    obtain ⟨pre, post, hslots⟩ := hpl.middle
    rw [hslots]
    exact mem_append_right _ (mem_append_left _ hσ)
  exact ⟨hpl.length, fun σ hσ => (mem_dirSlots.mp (hmem σ hσ)).1, fun σ hσ => (mem_dirSlots.mp (hmem σ hσ)).2, hpl.free⟩

theorem placed_of_run (hrun : freeRun v.raw k [] (dirSlots v d) = some slots) : Placed v v d slots k := by
  obtain ⟨hlen, hfree⟩ := freeRun_spec (List.Subset.refl _) (by simp) hrun
  exact ⟨hlen, fun σ hσ => (hfree σ hσ).2, freeRun_middle hrun, ⟨[], by simp, by simp⟩, fun _ _ => rfl⟩

theorem placed_of_growth {p : ℕ} (hI : Inv wd v none H) (hd : IsDir v none d) (hne : d ≠ 0) (hIw : Inv wd w none H)
    (hdw : IsDir w none d) (hchain : chain eoc w.fat d = chain eoc v.fat d ++ l) (hzero : Zeroed w l)
    (hcont : Continues v w p) (hlen : ((w.places ((chain eoc w.fat (l.headD 0)).map some)).take k).length = k) :
    Placed v w d ((w.places ((chain eoc w.fat (l.headD 0)).map some)).take k) k := by
  have hwidth : w.width = v.width := by
    funext b
    cases b with
    | none => exact hcont.rootLen
    | some c => exact congrArg (· * 16) hcont.spc
  have hslots : dirSlots w d = dirSlots v d ++ w.places (l.map some) := by
    unfold dirSlots
    rw [if_neg hne, if_neg hne, hchain, map_append, Vol.places_append, Vol.places_congr hwidth]
  have hnew : ∀ σ ∈ w.places (l.map some), w.raw σ = fun _ => 0 := by
    rintro ⟨b, i⟩ hσ
    obtain ⟨hb, hi⟩ := Vol.mem_places.mp hσ
    obtain ⟨c, hc, rfl⟩ := mem_map.mp hb
    exact hzero c hc i hi
  rw [chain_of_grown hdw hchain hIw.sound] at hlen ⊢
  refine ⟨hlen, ?_, ?_, ⟨_, hslots, ?_⟩, ?_⟩
  · intro σ hσ
    rw [hnew σ (mem_of_mem_take hσ)]
    rfl
  · refine ⟨dirSlots v d, (w.places (l.map some)).drop k, ?_⟩
    rw [take_append_drop]
    exact hslots
  · intro σ hσ
    rw [hnew σ hσ]
  · rintro ⟨b, i⟩ hσ
    obtain ⟨hb, -⟩ := mem_dirSlots.mp hσ
    apply Vol.raw_congr
    rw [Tree.blocks_of_ne hne] at hb
    obtain ⟨c, hc, rfl⟩ := mem_map.mp hb
    exact hcont.area c ((hI.sound.dir_sound hd).linked.next_ne_zero hc)

theorem find_free_slots_spec (hI : Inv wd v none H) (hd : IsDir v none d) {r : Option (List Slot)}
    (hfind : find_free_slots v d k = (r, w)) :
    Inv wd w none H ∧ IsDir w none d ∧ ∀ slots, r = some slots → Placed v w d slots k := by
  unfold find_free_slots at hfind
  split at hfind
  · rename_i slots hrun
    obtain ⟨rfl, rfl⟩ := mk.inj hfind
    refine ⟨hI, hd, ?_⟩
    rintro _ ⟨⟩
    exact placed_of_run hrun
  · split at hfind
    · obtain ⟨rfl, rfl⟩ := mk.inj hfind
      exact ⟨hI, hd, by simp⟩
    · rename_i hroot
      have hne : d ≠ 0 := fun h => hroot (Or.inl h)
      obtain ⟨p, hp⟩ : ∃ p, (chain eoc v.fat d).getLast? = some p := by
        cases hlast : (chain eoc v.fat d).getLast? with
        | none =>
          have hmem := hI.dir_mem hd hne
          rw [getLast?_eq_none_iff.mp hlast] at hmem
          cases hmem
        | some p => exact ⟨p, rfl⟩
      dsimp only at hfind
      rw [hp, Option.getD_some] at hfind
      generalize hgrow : growDir _ p v = res at hfind
      obtain ⟨l, ok, u⟩ := res
      obtain ⟨hIu, hdu, hchain, hzero, hcont⟩ := growDir_spec _ hI hd hp hgrow
      split at hfind
      · obtain ⟨rfl, rfl⟩ := mk.inj hfind
        exact ⟨hIu, hdu, by simp⟩
      split at hfind
      · rename_i hlen
        obtain ⟨rfl, rfl⟩ := mk.inj hfind
        refine ⟨hIu, hdu, ?_⟩
        rintro _ ⟨⟩
        exact placed_of_growth hI hd hne hIu hdu hchain hzero hcont hlen
      · obtain ⟨rfl, rfl⟩ := mk.inj hfind
        exact ⟨hIu, hdu, by simp⟩

/-- What `fat16_create_file` and `fat16_mkdir` know before they take a cluster. -/
theorem reserve_spec {path : List UInt8} (hI : Inv 0 v none H) {r : Option (ℕ × NewName × List Slot)}
    (hreserve : reserve v path = (r, w)) : Inv 0 w none H ∧ ∀ d n slots, r = some (d, n, slots) →
      IsDir w none d ∧ Reserved w d slots (n.lfn_count + 1) ∧ Visible n.short_name ∧
        (d ≠ 0 → ¬ isDotName n.short_name) := by
  unfold reserve at hreserve
  generalize split_path path = parts at hreserve
  obtain ⟨dir, name⟩ := parts
  dsimp only at hreserve
  split at hreserve
  · obtain ⟨rfl, rfl⟩ := mk.inj hreserve
    exact ⟨hI, by simp⟩
  rename_i hname
  split at hreserve
  · obtain ⟨rfl, rfl⟩ := mk.inj hreserve
    exact ⟨hI, by simp⟩
  rename_i hresolved
  have hd := resolve_dir_dir hI.sound (hI.cwd ▸ Tree.Dir.root) hresolved
  split at hreserve
  · obtain ⟨rfl, rfl⟩ := mk.inj hreserve
    exact ⟨hI, by simp⟩
  rename_i n hn
  obtain ⟨hvisible, hexists⟩ := newName_spec
    (fun hvalid => visible_format_83 hvalid (fun h => hname (Or.inr (Or.inl h))) fun h => hname (Or.inr (Or.inr h))) hn
  generalize hfind : find_free_slots v (resolve_dir v dir) (n.lfn_count + 1) = found at hreserve
  obtain ⟨r', u⟩ := found
  obtain ⟨hIu, hdu, hslots⟩ := find_free_slots_spec hI hd hfind
  rcases r' with _ | slots
  · obtain ⟨rfl, rfl⟩ := mk.inj hreserve
    exact ⟨hIu, by simp⟩
  obtain ⟨rfl, rfl⟩ := mk.inj hreserve
  refine ⟨hIu, ?_⟩
  rintro _ _ _ ⟨⟩
  exact ⟨hdu, (hslots slots rfl).reserved, hvisible, fun hne => not_isDotName_of_not_exists hI hd hne hexists⟩

end Orion.Fat16
