import Orion.Fat16.Proofs.ReserveProofs

/-!
# Proofs: entries that are added and removed

A new entry takes over a chain that no entry had; a removed one gives its chain back.
-/

namespace Orion.Fat16

open Lib Fat List

variable {v w : Vol} {ex : Option Slot} {H : List (List ℕ)} {l : List ℕ} {wd d c first size : ℕ} {σ τ : Slot}
  {slots : List Slot} {name short : List UInt8} {attr : UInt8} {n : NewName} {item : Item} {parent : ℕ} {i : ℕ}

theorem lt_of_isCell (h : isCell eoc c) : c < 2 ^ 16 := lt_trans h.2 (by decide)

theorem content_of_written (hraw : w.raw σ = Bytes.ofList (entryBytes short attr first size))
    (hlt : σ.2 < w.width σ.1) (hshort : Visible short) (hattr : attr ≠ 0x0F)
    (hdot : σ.1 ≠ none → attr &&& 0x10 ≠ 0 → ¬ isDotName short) (hfirst : first < 2 ^ 16) :
    (tree w).content σ = .entry ⟨first, attr &&& 0x10 ≠ 0, size % 2 ^ 32⟩ := by
  have hlen := hshort.1
  have hattr' : w.raw σ 11 = attr := by rw [hraw, attr_entryBytes hlen]
  have hdir : isDirectory (w.raw σ) = decide (attr &&& 0x10 ≠ 0) := by rw [isDirectory, hattr']
  have hlive : isFree (w.raw σ) = false := by
    rw [isFree_eq_false, hraw]
    exact hshort.entryBytes_head attr first size
  rw [content_of_live hlt hlive (by rw [hattr']; exact hattr), if_neg, hdir, hraw, firstLow_entryBytes hlen,
    fileSize_entryBytes hlen, Nat.mod_eq_of_lt hfirst]
  rintro ⟨hsub, hname, hisDir⟩
  rw [hraw, shortName_entryBytes hlen] at hname
  rw [hdir] at hisDir
  exact hdot hsub (by simpa using hisDir) hname

theorem dots_live (hdots : (tree v).dots c) (hi : i < 2) :
    isFree (v.raw (some c, i)) = false ∧ v.raw (some c, i) 11 = 0x10 := by
  have hfree : ∀ {r : Bytes} {s : List UInt8}, shortName r = padTo 11 (dot :: s) → isFree r = false := by
    intro r s hr
    have hhead : r 0 = dot := (List.cons.inj hr).1
    rw [isFree_eq_false, hhead]
    decide
  obtain ⟨⟨hself, hselfAttr⟩, hparent, hparentAttr⟩ := hdots
  interval_cases i
  · exact ⟨hfree hself, hselfAttr⟩
  · exact ⟨hfree hparent, hparentAttr⟩

theorem dots_isDotName (hdots : (tree v).dots c) (hi : i < 2) : isDotName (shortName (v.raw (some c, i))) := by
  interval_cases i
  · exact Or.inl hdots.1.1
  · exact Or.inr hdots.2.1

theorem dots_of_writes {L : List Slot} (hw : WritesAt v w L) (hdots : (tree v).dots c)
    (hL : ∀ i < 2, (some c, i) ∉ L) : (tree w).dots c :=
  (dots_congr (hw.raw _ (hL 0 (by omega))) (hw.raw _ (hL 1 (by omega)))).mpr hdots

section Added

variable (hres : Reserved v d slots (n.lfn_count + 1)) {i : ℕ} {entry : List UInt8}

include hres

theorem Reserved.entry_mem : slots.getD n.lfn_count (none, 0) ∈ slots := getD_mem hres.length le_rfl

theorem Reserved.content (hne : τ ≠ slots.getD n.lfn_count (none, 0)) :
    (tree (writeEntries v n slots entry)).content τ = (tree v).content τ := by
  have hw := writeEntries_writesAt v entry hres.length
  by_cases hτ : τ ∈ slots
  · rw [content_of_free (hres.free τ hτ), content_of_long (writeEntries_long v entry hres.length hτ hne)]
  · exact content_congr hw.spc hw.rootLen (hw.raw τ hτ)

theorem Reserved.dots (hdots : (tree v).dots c) : (tree (writeEntries v n slots entry)).dots c := by
  apply dots_of_writes (writeEntries_writesAt v entry hres.length) hdots
  intro i hi hmem
  have hfree := hres.free _ hmem
  rw [(dots_live hdots hi).1] at hfree
  cases hfree

theorem Reserved.content_entry (hshort : Visible short) (hattr : attr ≠ 0x0F) (hdot : d ≠ 0 → ¬ isDotName short)
    (hfirst : first < 2 ^ 16) :
    (tree (writeEntries v n slots (entryBytes short attr first size))).content (slots.getD n.lfn_count (none, 0)) =
      .entry ⟨first, attr &&& 0x10 ≠ 0, size % 2 ^ 32⟩ := by
  have hw := writeEntries_writesAt v (entryBytes short attr first size) hres.length
  have hmem := hres.entry_mem
  have hlt := hres.lt _ hmem
  have hblock := hres.block _ hmem
  generalize hσ : slots.getD n.lfn_count (none, 0) = σ at hlt hblock ⊢
  have hwidth : (writeEntries v n slots (entryBytes short attr first size)).width σ.1 = v.width σ.1 := by
    rw [hw.same]
    rfl
  apply content_of_written _ (by rw [hwidth]; exact hlt) hshort hattr _ hfirst
  · rw [← hσ]
    exact raw_writeEntries_entry v (length_entryBytes hshort.1)
  intro hsub _
  apply hdot
  rintro rfl
  rw [Tree.blocks_zero] at hblock
  exact hsub (mem_singleton.mp hblock)

theorem Inv.attachFile (hI : Inv wd v none ((first :: l) :: H)) (hd : IsDir v none d) (hshort : Visible short)
    (hdot : d ≠ 0 → ¬ isDotName short) : Inv wd (writeEntries v n slots (entryBytes short 0x20 first size)) none H := by
  have hw := writeEntries_writesAt v (entryBytes short 0x20 first size) hres.length
  have hchain := hI.sound.held _ mem_cons_self
  have hcell : isCell eoc first := hchain.linked.isCell mem_cons_self
  refine ⟨?_, hw.cwd.trans hI.cwd, hw.spc ▸ hI.spc⟩
  refine hI.sound.attach hd (hres.block _ hres.entry_mem) (by simp) hchain.chain_eq (fun _ => hcell) hw.fat
    (hres.content_entry hshort (by decide) hdot (lt_of_isCell hcell)) ?_ ?_ ?_
  · intro g τ _ _ hne
    exact hres.content hne
  · intro g _ _ hdots
    exact hres.dots hdots
  · intro hdir
    have hbit : (0x20 : UInt8) &&& 0x10 ≠ 0 := of_decide_eq_true hdir
    exact absurd hbit (by decide)

def newDir (v : Vol) (c parent : ℕ) : Vol :=
  (v.store (some c) 0 512 (Bytes.ofList (dotSector c parent))).store (some c) 512 ((v.spc - 1) * 512) fun _ => 0

omit hres

theorem newDir_raw (hi : i < v.spc * 16) :
    (newDir v c parent).raw (some c, i) = fun k => if k < 32 then Bytes.ofList (dotSector c parent) (32 * i + k) else 0 := by
  have hsector : ∀ j ≥ 512, Bytes.ofList (dotSector c parent) j = 0 := by
    intro j hj
    have hlen : (dotSector c parent).length = 64 := rfl
    unfold Bytes.ofList
    rw [getD_eq_getElem?_getD, getElem?_eq_none (by omega)]
    rfl
  unfold newDir
  by_cases hfirst : i < 16
  · rw [Vol.raw_store_of_disjoint (Or.inl (by show 32 * i + 32 ≤ 512; omega))]
    have hin : (v.store (some c) 0 512 (Bytes.ofList (dotSector c parent))).raw (some c, i) = _ :=
      Vol.raw_store_inside (σ := (some c, i)) (Nat.zero_le _) (by show 32 * i + 32 ≤ 0 + 512; omega)
    rw [hin]
    rfl
  · generalize v.store (some c) 0 512 (Bytes.ofList (dotSector c parent)) = u
    have hin : (u.store (some c) 512 ((v.spc - 1) * 512) fun _ => 0).raw (some c, i) = _ :=
      Vol.raw_store_inside (σ := (some c, i)) (by show 512 ≤ 32 * i; omega)
        (by show 32 * i + 32 ≤ 512 + (v.spc - 1) * 512; omega)
    rw [hin]
    funext k
    rw [hsector (32 * i + k) (by omega)]

theorem newDir_dot (v : Vol) (c parent : ℕ) (hspc : 0 < v.spc) :
    (newDir v c parent).raw (some c, 0) = Bytes.ofList (entryBytes (padTo 11 [dot]) 0x10 c 0) ∧
      (newDir v c parent).raw (some c, 1) = Bytes.ofList (entryBytes (padTo 11 [dot, dot]) 0x10 parent 0) := by
  have hlen : ∀ (name : List UInt8) (first : ℕ), (entryBytes (padTo 11 name) 0x10 first 0).length = 32 := by
    intro name first
    exact length_entryBytes (length_padTo 11 name)
  constructor
  · rw [newDir_raw (by omega)]
    funext k
    simp only [Bytes.ofList, dotSector, getD_eq_getElem?_getD]
    split
    · rw [getElem?_append_left (by rw [hlen]; omega)]
      simp
    · rw [getElem?_eq_none (by rw [hlen]; omega)]
      rfl
  · rw [newDir_raw (by omega)]
    funext k
    simp only [Bytes.ofList, dotSector, getD_eq_getElem?_getD]
    split
    · rw [getElem?_append_right (by rw [hlen]; omega), hlen]
      simp
    · rw [getElem?_eq_none (by rw [hlen]; omega)]
      rfl

theorem newDir_rest (hlow : 2 ≤ i) (hi : i < v.spc * 16) : isFree ((newDir v c parent).raw (some c, i)) = true := by
  have hzero : (newDir v c parent).raw (some c, i) 0 = 0 := by
    have hlen : (dotSector c parent).length = 64 := rfl
    rw [newDir_raw hi]
    show Bytes.ofList (dotSector c parent) (32 * i + 0) = 0
    unfold Bytes.ofList
    rw [getD_eq_getElem?_getD, getElem?_eq_none (by omega)]
    rfl
  simp [isFree, hzero]

theorem newDir_dots (hspc : 0 < v.spc) : (tree (newDir v c parent)).dots c := by
  obtain ⟨hself, hparent⟩ := newDir_dot v c parent hspc
  refine ⟨?_, ?_⟩
  · rw [hself]
    exact ⟨shortName_entryBytes (length_padTo 11 _), attr_entryBytes (length_padTo 11 _)⟩
  · rw [hparent]
    exact ⟨shortName_entryBytes (length_padTo 11 _), attr_entryBytes (length_padTo 11 _)⟩

theorem newDir_content (hspc : 0 < v.spc) (hc : c < 2 ^ 16) (hparent : parent < 2 ^ 16) (i : ℕ) :
    let T := tree (newDir v c parent)
    T.content (some c, i) = .empty ∨ T.content (some c, i) = .link c ∨ T.content (some c, i) = .link parent := by
  intro T
  have hwidth : (newDir v c parent).width (some c) = v.spc * 16 := rfl
  have hlink : ∀ {name : List UInt8} {x j : ℕ}, isDotName (padTo 11 name) → x < 2 ^ 16 → j < v.spc * 16 →
      isFree ((newDir v c parent).raw (some c, j)) = false →
      (newDir v c parent).raw (some c, j) = Bytes.ofList (entryBytes (padTo 11 name) 0x10 x 0) →
      T.content (some c, j) = .link x := by
    intro name x j hname hx hj hlive hraw
    have hlen := length_padTo 11 name
    have hattr : (newDir v c parent).raw (some c, j) 11 = 0x10 := by rw [hraw, attr_entryBytes hlen]
    rw [content_of_live (by rw [hwidth]; exact hj) hlive (by rw [hattr]; decide), if_pos, hraw, firstLow_entryBytes hlen,
      Nat.mod_eq_of_lt hx]
    refine ⟨by simp, ?_, by rw [isDirectory, hattr]; decide⟩
    rw [hraw, shortName_entryBytes hlen]
    exact hname
  obtain ⟨hself, hup⟩ := newDir_dot v c parent hspc
  have hlive : ∀ j < 2, isFree ((newDir v c parent).raw (some c, j)) = false := fun j hj =>
    (dots_live (newDir_dots hspc) hj).1
  by_cases hi : i < v.spc * 16
  · by_cases hlow : 2 ≤ i
    · exact Or.inl (content_of_free (newDir_rest hlow hi))
    · have hcase : i = 0 ∨ i = 1 := by omega
      rcases hcase with rfl | rfl
      · exact Or.inr (Or.inl (hlink (Or.inl rfl) hc hi (hlive 0 (by omega)) hself))
      · exact Or.inr (Or.inr (hlink (Or.inr rfl) hparent hi (hlive 1 (by omega)) hup))
  · exact Or.inl (if_neg hi)

theorem newDir_raw_of_ne (h : τ.1 ≠ some c) : (newDir v c parent).raw τ = v.raw τ := by
  unfold newDir
  rw [Vol.raw_store_of_ne h, Vol.raw_store_of_ne h]

theorem Inv.attachDir (hres : Reserved v d slots (n.lfn_count + 1)) (hI : Inv wd v none ([c] :: H)) (hd : IsDir v none d)
    (hshort : Visible short) (hdot : d ≠ 0 → ¬ isDotName short) :
    Inv wd (newDir (writeEntries v n slots (entryBytes short 0x10 c 0)) c d) none H := by
  have hw := writeEntries_writesAt v (entryBytes short 0x10 c 0) hres.length
  have hchain := hI.sound.held [c] mem_cons_self
  have hcell : isCell eoc c := hchain.linked.isCell (mem_singleton_self c)
  have hc := lt_of_isCell hcell
  have hmem := hres.block _ hres.entry_mem
  have hentry : (tree (writeEntries v n slots (entryBytes short 0x10 c 0))).content
      (slots.getD n.lfn_count (none, 0)) = .entry ⟨c, true, 0⟩ := hres.content_entry hshort (by decide) hdot hc
  have hcontent : ∀ τ, τ ≠ slots.getD n.lfn_count (none, 0) →
      (tree (writeEntries v n slots (entryBytes short 0x10 c 0))).content τ = (tree v).content τ :=
    fun _ hne => hres.content hne
  have hdots : ∀ g, (tree v).dots g → (tree (writeEntries v n slots (entryBytes short 0x10 c 0))).dots g :=
    fun _ hg => hres.dots hg
  generalize writeEntries v n slots (entryBytes short 0x10 c 0) = u at hw hentry hcontent hdots ⊢
  generalize slots.getD n.lfn_count (none, 0) = σ at hentry hmem hcontent
  have hspc : 0 < u.spc := hw.spc ▸ hI.spc
  have hd16 : d < 2 ^ 16 := by
    by_cases hne : d = 0
    · omega
    · exact lt_of_isCell (hI.sound.dir_cell hd hne)
  -- the new cluster is in no directory
  have hout : ∀ g (τ : Slot), IsDir v none g → τ.1 ∈ (tree v).blocks eoc g → (newDir u c d).raw τ = u.raw τ := by
    intro g τ hg hτ
    apply newDir_raw_of_ne
    intro hτc
    rw [hτc] at hτ
    exact hI.sound.held_notMem_dir mem_cons_self (mem_singleton_self c) hg (Tree.mem_blocks_some.mp hτ)
  have hsame : ∀ g (τ : Slot), IsDir v none g → τ.1 ∈ (tree v).blocks eoc g →
      (tree (newDir u c d)).content τ = (tree u).content τ := fun g τ hg hτ => content_congr rfl rfl (hout g τ hg hτ)
  refine ⟨?_, hw.cwd.trans hI.cwd, hspc⟩
  refine hI.sound.attach (e := ⟨c, true, 0⟩) hd hmem (by simp) hchain.chain_eq (fun _ => hcell) hw.fat ?_ ?_ ?_ ?_
  · rw [hsame d σ hd hmem, hentry]
  · intro g τ hg hτ hne
    rw [hsame g τ hg hτ, hcontent τ hne]
  · intro g hg hne hg'
    have hblock : some g ∈ (tree v).blocks eoc g := Tree.mem_blocks_some.mpr (hI.dir_mem hg hne)
    exact (dots_congr (hout g (some g, 0) hg hblock) (hout g (some g, 1) hg hblock)).mpr (hdots g hg')
  · intro _
    have hc2 := hcell.1
    refine ⟨by show c ≠ 0; omega, newDir_dots hspc, ?_⟩
    intro b hb i
    obtain rfl := mem_singleton.mp hb
    exact newDir_content hspc hc hd16 i

end Added

theorem Inv.remove (hI : Inv wd v none []) (hd : IsDir v none d) (hfind : find_entry_slot v d name = some item)
    (hname : item.slot.1 ≠ none → ¬ isDotName (shortName item.entry)) (wipe : Bool) :
    Inv wd (deleteItem (freeChain wipe eoc (firstLow item.entry) v) item) none [] := by
  obtain ⟨hitem, -⟩ := find_entry_slot_spec hfind
  have ho := owner_of_found hd hfind fun hsub _ => hname hsub
  rw [freeChain_eq wipe (hI.sound.sound _ _ _ ho)]
  have hex : Inv wd v (some item.slot) [chain eoc v.fat (firstLow item.entry)] := ⟨hI.sound.exclude ho, hI.cwd, hI.spc⟩
  obtain ⟨hfreed, hk⟩ := hex.freed wipe
  generalize Fat16.freed wipe v (chain eoc v.fat (firstLow item.entry)) = u at hfreed hk ⊢
  have hw := deleteItem_writesAt u item
  have hfree : ∀ τ ∈ item.slot :: item.lfn_slots, isFree ((deleteItem u item).raw τ) = true :=
    fun _ hτ => isFree_deleteItem u item hτ
  generalize deleteItem u item = w at hw hfree
  refine ⟨hfreed.sound.erase hw.fat (content_of_free (hfree _ mem_cons_self)) ?_ ?_, hw.cwd.trans hfreed.cwd,
    hw.spc ▸ hfreed.spc⟩
  · intro g τ hg hτ hne
    by_cases hmem : τ ∈ item.slot :: item.lfn_slots
    · -- a long entry of the item
      have hlfn := (mem_cons.mp hmem).resolve_left hne
      have hgv := hk.dir_of hg
      rw [hk.blocks hgv] at hτ
      have hlong : u.raw τ 11 = 0x0F := by
        rw [hk.raw hgv hτ]
        exact (hitem.lfn τ hlfn).2
      rw [content_of_free (hfree τ hmem), content_of_long hlong]
    · exact content_congr hw.spc hw.rootLen (hw.raw τ hmem)
  · intro g hg hne hdots
    have hgv := hk.dir_of hg
    have hblock : some g ∈ (tree v).blocks eoc g := Tree.mem_blocks_some.mpr (hex.dir_mem hgv hne)
    have hdots' : (tree v).dots g :=
      (dots_congr (hk.raw (σ := (some g, 0)) hgv hblock) (hk.raw (σ := (some g, 1)) hgv hblock)).mp hdots
    apply dots_of_writes hw hdots
    intro i hi hmem
    rcases mem_cons.mp hmem with hslot | hlfn
    · apply hname (by rw [← hslot]; simp)
      rw [hitem.entry, ← hslot]
      exact dots_isDotName hdots' hi
    · have hattr := (hitem.lfn _ hlfn).2
      rw [(dots_live hdots' hi).2] at hattr
      exact absurd hattr (by decide)

end Orion.Fat16
