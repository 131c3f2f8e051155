import Orion.Fat16.Proofs.LoopProofs

/-!
# Proofs: the tree of a volume

What the look-ups of the driver find in the tree of a volume, and how the changes that its operations are
made of keep the tree sound.
-/

namespace Orion.Fat16

open Lib Fat List Function

variable {v w : Vol} {ex : Option Slot} {H : List (List ℕ)} {l : List ℕ} {wd h c p : ℕ} {σ τ : Slot} {e : Entry}
  {name : List UInt8} {item : Item}

abbrev IsDir (v : Vol) (ex : Option Slot) (h : ℕ) : Prop := Tree.Dir eoc (tree v) ex h

/-- The chains of a volume are sound and apart; in the middle of an operation the entry `ex` is left out, and no entry
has the chains in `H`. -/
structure Inv (wd : ℕ) (v : Vol) (ex : Option Slot) (H : List (List ℕ)) : Prop where
  sound : Tree.Inv eoc (tree v) ex H
  cwd : v.cwd = wd
  spc : 0 < v.spc

theorem mem_dirSlots : σ ∈ dirSlots v h ↔ σ.1 ∈ (tree v).blocks eoc h ∧ σ.2 < v.width σ.1 := Vol.mem_places

theorem content_congr (hspc : w.spc = v.spc) (hroot : w.rootLen = v.rootLen) (hraw : w.raw σ = v.raw σ) :
    (tree w).content σ = (tree v).content σ := by
  have hwidth : w.width σ.1 = v.width σ.1 := by
    cases σ.1 with
    | none => exact hroot
    | some c => exact congrArg (· * 16) hspc
  simp only [tree, hwidth, hraw]

theorem content_of_free (hfree : isFree (v.raw σ) = true) : (tree v).content σ = .empty := by
  simp [tree, decode, hfree]

instance (v : Vol) (c : ℕ) : Decidable ((tree v).dots c) := inferInstanceAs (Decidable (_ ∧ _))

theorem places_listed {dirs : List ℕ} {owners : List (ℕ × Slot × Entry)}
    (hplaces : ∀ g ∈ dirs, ∀ b ∈ (tree v).blocks eoc g, ∀ i < v.width b,
      Tree.isListed owners g (b, i) ((tree v).content (b, i))) :
    ∀ g ∈ dirs, ∀ σ : Slot, σ.1 ∈ (tree v).blocks eoc g → Tree.isListed owners g σ ((tree v).content σ) := by
  rintro g hg ⟨b, i⟩ hb
  by_cases hi : i < v.width b
  · exact hplaces g hg b hb i hi
  have hempty : (tree v).content (b, i) = .empty := if_neg hi
  rw [hempty]
  trivial

theorem content_of_long (hlong : v.raw σ 11 = 0x0F) : (tree v).content σ = .empty := by
  simp [tree, decode, hlong]

theorem content_of_live (hlt : σ.2 < v.width σ.1) (hlive : isFree (v.raw σ) = false) (hshort : v.raw σ 11 ≠ 0x0F) :
    (tree v).content σ =
      if σ.1 ≠ none ∧ isDotName (shortName (v.raw σ)) ∧ isDirectory (v.raw σ) then .link (firstLow (v.raw σ))
      else .entry ⟨firstLow (v.raw σ), isDirectory (v.raw σ), fileSize (v.raw σ)⟩ := by
  simp [tree, decode, hlt, hlive, hshort]

theorem dots_congr (h0 : w.raw (some c, 0) = v.raw (some c, 0)) (h1 : w.raw (some c, 1) = v.raw (some c, 1)) :
    (tree w).dots c ↔ (tree v).dots c := by
  simp only [tree, h0, h1]

theorem find_entry_slot_content (hfind : find_entry_slot v h name = some item) :
    item.slot.1 ∈ (tree v).blocks eoc h ∧ item.slot.2 < v.width item.slot.1 ∧ item.entry = v.raw item.slot ∧
      (tree v).content item.slot =
        if item.slot.1 ≠ none ∧ isDotName (shortName item.entry) ∧ isDirectory item.entry then
          .link (firstLow item.entry)
        else .entry ⟨firstLow item.entry, isDirectory item.entry, fileSize item.entry⟩ := by
  obtain ⟨hitem, -⟩ := find_entry_slot_spec hfind
  obtain ⟨hblock, hlt⟩ := mem_dirSlots.mp hitem.slot
  have hlive := hitem.live
  have hshort := hitem.short
  refine ⟨hblock, hlt, hitem.entry, ?_⟩
  rw [hitem.entry] at hlive hshort ⊢
  exact content_of_live hlt hlive hshort

theorem owner_of_found (hd : IsDir v none h) (hfind : find_entry_slot v h name = some item)
    (hname : item.slot.1 ≠ none → isDirectory item.entry = true → ¬ isDotName (shortName item.entry)) :
    Tree.Owner eoc (tree v) none h item.slot ⟨firstLow item.entry, isDirectory item.entry, fileSize item.entry⟩ := by
  obtain ⟨hblock, -, -, hcontent⟩ := find_entry_slot_content hfind
  rw [if_neg] at hcontent
  · exact ⟨hd, hblock, hcontent, by simp⟩
  · rintro ⟨hsub, hdot, hdir⟩
    exact hname hsub hdir hdot

/-- A directory that is found has an entry, or is the directory itself or its parent. -/
theorem dir_of_found (hs : Tree.Inv eoc (tree v) none H) (hd : IsDir v none h) (hfind : find_entry_slot v h name = some item)
    (hdir : isDirectory item.entry = true) : IsDir v none (firstLow item.entry) := by
  obtain ⟨hblock, -, -, hcontent⟩ := find_entry_slot_content hfind
  split at hcontent
  · rename_i hlink
    rcases hs.links h item.slot _ hd hblock hcontent with hself | hparent
    · rw [hself]
      exact hd
    have hne : h ≠ 0 := by
      rintro rfl
      rw [Tree.blocks_zero] at hblock
      exact hlink.1 (mem_singleton.mp hblock)
    obtain ⟨g, τ, e, ho, hedir, hfirst⟩ := hd.exists_owner hne
    rw [hparent g τ e ho hedir hfirst]
    exact ho.dir
  · exact Tree.Dir.sub hd hblock hcontent hdir (by simp)

theorem resolveFrom_dir (hs : Tree.Inv eoc (tree v) none H) (hd : IsDir v none h) (tokens : List (List UInt8)) :
    resolveFrom v h tokens = 0xFFFF ∨ IsDir v none (resolveFrom v h tokens) := by
  induction tokens generalizing h with
  | nil => exact Or.inr hd
  | cons token tokens ih =>
    unfold resolveFrom
    split
    · exact Or.inl rfl
    rename_i item hfind
    cases hdir : isDirectory item.entry with
    | false =>
      simp only [Bool.not_false, if_true]
      split
      · exact Or.inr hd
      · exact Or.inl rfl
    | true => exact ih (dir_of_found hs hd hfind hdir)

theorem startDir_dir (hcwd : IsDir v none v.cwd) (path : List UInt8) : IsDir v none (startDir v path) := by
  unfold startDir
  split
  · exact Tree.Dir.root
  · exact hcwd

theorem resolve_dir_dir (hs : Tree.Inv eoc (tree v) none H) (hcwd : IsDir v none v.cwd) {path : List UInt8}
    (hne : resolve_dir v path ≠ 0xFFFF) : IsDir v none (resolve_dir v path) := by
  unfold resolve_dir at hne ⊢
  split at hne
  · rename_i hroot
    rw [if_pos hroot]
    exact Tree.Dir.root
  · rename_i hroot
    rw [if_neg hroot]
    exact (resolveFrom_dir hs (startDir_dir hcwd path) _).resolve_left hne

/-- The root directory and the clusters of every entry of `v` are the same in `w`. -/
structure Keeps (v w : Vol) (ex : Option Slot) : Prop where
  spc : w.spc = v.spc
  rootLen : w.rootLen = v.rootLen
  root : w.area none = v.area none
  cells : ∀ h σ e, Tree.Owner eoc (tree v) ex h σ e → ∀ c ∈ chain eoc v.fat e.first,
    w.fat c = v.fat c ∧ w.area (some c) = v.area (some c)

namespace Keeps

variable {u : Vol}

theorem refl (v : Vol) (ex : Option Slot) : Keeps v v ex := ⟨rfl, rfl, rfl, fun _ _ _ _ _ _ => ⟨rfl, rfl⟩⟩

section

variable (hk : Keeps v w ex)

include hk

theorem width (b : Option ℕ) : w.width b = v.width b := by
  cases b with
  | none => exact hk.rootLen
  | some c => exact congrArg (· * 16) hk.spc

section

variable (hd : IsDir v ex h)

include hd

theorem dir_cells (hc : c ∈ chain eoc v.fat h) : w.fat c = v.fat c ∧ w.area (some c) = v.area (some c) := by
  have hne : h ≠ 0 := by
    rintro rfl
    simp at hc
  obtain ⟨g, τ, e, ho, -, rfl⟩ := hd.exists_owner hne
  exact hk.cells g τ e ho c hc

theorem blocks : (tree w).blocks eoc h = (tree v).blocks eoc h :=
  Tree.blocks_congr fun _ hc => (hk.dir_cells hd hc).1

theorem raw (hσ : σ.1 ∈ (tree v).blocks eoc h) : w.raw σ = v.raw σ := by
  obtain ⟨b, i⟩ := σ
  cases b with
  | none => exact Vol.raw_congr hk.root
  | some c => exact Vol.raw_congr (hk.dir_cells hd (Tree.mem_blocks_some.mp hσ)).2

theorem content (hσ : σ.1 ∈ (tree v).blocks eoc h) : (tree w).content σ = (tree v).content σ :=
  content_congr hk.spc hk.rootLen (hk.raw hd hσ)

theorem dir : IsDir w ex h := by
  refine Tree.Dir.grow hd (fun g hg b hb => ?_) fun g τ e hg hτ he _ hne => ⟨?_, hne⟩
  · rw [hk.blocks hg]
    exact hb
  · rw [hk.content hg hτ]
    exact he

end

theorem dir_of (hd : IsDir w ex h) : IsDir v ex h := by
  induction hd with
  | root => exact Tree.Dir.root
  | sub _ hb he hdir hne ih =>
    rw [hk.blocks ih] at hb
    rw [hk.content ih hb] at he
    exact Tree.Dir.sub ih hb he hdir hne

theorem owner (ho : Tree.Owner eoc (tree v) ex h σ e) : Tree.Owner eoc (tree w) ex h σ e := by
  refine ⟨hk.dir ho.dir, ?_, ?_, ho.ne⟩
  · rw [hk.blocks ho.dir]
    exact ho.block
  · rw [hk.content ho.dir ho.block]
    exact ho.ent

theorem chain_eq (ho : Tree.Owner eoc (tree v) ex h σ e) : chain eoc w.fat e.first = chain eoc v.fat e.first :=
  chain_congr fun c hc => (hk.cells h σ e ho c hc).1

end

theorem trans (huv : Keeps u v ex) (hvw : Keeps v w ex) : Keeps u w ex where
  spc := hvw.spc.trans huv.spc
  rootLen := hvw.rootLen.trans huv.rootLen
  root := hvw.root.trans huv.root
  cells h σ e ho c hc := by
    obtain ⟨hfat, harea⟩ := huv.cells h σ e ho c hc
    have hc' : c ∈ chain eoc v.fat e.first := by
      rw [huv.chain_eq ho]
      exact hc
    obtain ⟨hfat', harea'⟩ := hvw.cells h σ e (huv.owner ho) c hc'
    exact ⟨hfat'.trans hfat, harea'.trans harea⟩

end Keeps

theorem Inv.keeps (hI : Inv wd v ex H) (hspc : w.spc = v.spc) (hrootLen : w.rootLen = v.rootLen)
    (hroot : w.area none = v.area none) (hcells : ∀ c, v.fat c ≠ 0 → (∀ l ∈ H, c ∉ l) →
      w.fat c = v.fat c ∧ w.area (some c) = v.area (some c)) : Keeps v w ex where
  spc := hspc
  rootLen := hrootLen
  root := hroot
  cells h σ e ho c hc := by
    apply hcells c (hI.sound.next_ne_zero ho hc)
    intro l hl hcl
    exact hI.sound.heldOwner l hl h σ e ho hcl hc

theorem noCluster_iff : noCluster c ↔ ¬ isCell eoc c := by
  simp only [noCluster, isCell]
  omega

theorem setFat_self {x : ℕ} (hx : v.fat c = x) : v.setFat c x = v := by
  subst hx
  simp [Vol.setFat]

/-- `_alloc_cluster` fails, or takes a cluster that no entry has, or a number that is no cluster, which the callers do
not use. -/
theorem Inv.alloc (hI : Inv wd v ex H) (halloc : alloc_cluster v = (c, w)) :
    Keeps v w ex ∧ w.area = v.area ∧ ((noCluster c ∧ Inv wd w ex H ∧ ∀ b, v.fat b ≠ 0 → w.fat b = v.fat b) ∨
      (isCell eoc c ∧ v.fat c = 0 ∧ w.fat = update v.fat c 0xFFFF ∧ Inv wd w ex ([c] :: H))) := by
  rcases alloc_cluster_cases v with ⟨-, hnone⟩ | ⟨d, hd, hsome⟩
  · obtain ⟨rfl, rfl⟩ := Prod.mk.inj (hnone.symm.trans halloc)
    exact ⟨Keeps.refl _ _, rfl, Or.inl ⟨Or.inl (by omega), hI, fun _ _ => rfl⟩⟩
  obtain ⟨rfl, rfl⟩ := Prod.mk.inj (hsome.symm.trans halloc)
  obtain ⟨-, -, hfree⟩ := mem_freeClusters.mp hd
  have hother : ∀ b, v.fat b ≠ 0 → update v.fat d 0xFFFF b = v.fat b := by
    intro b hb
    have hbd : b ≠ d := by
      rintro rfl
      exact hb hfree
    exact update_of_ne hbd _ _
  refine ⟨hI.keeps rfl rfl rfl fun b hb _ => ⟨hother b hb, rfl⟩, rfl, ?_⟩
  by_cases hcell : isCell eoc d
  · have hmark : eoc ≤ 0xFFFF := by decide
    have hone : ∀ b ∈ [d], v.fat b = 0 := by simpa using hfree
    refine Or.inr ⟨hcell, hfree, rfl, ?_, hI.cwd, hI.spc⟩
    exact hI.sound.hold hmark (nodup_singleton d) (by simpa using hcell) hone rfl rfl rfl
  · refine Or.inl ⟨noCluster_iff.mpr hcell, ⟨?_, hI.cwd, hI.spc⟩, hother⟩
    refine hI.sound.setLinks ?_ rfl rfl
    intro m hm b hb
    exact hother b (hm.linked.next_ne_zero hb)

theorem Inv.link (hI : Inv wd v ex ([c] :: l :: H)) (hp : l.getLast? = some p) :
    Inv wd (v.setFat p c) ex ((l ++ [c]) :: H) ∧ Keeps v (v.setFat p c) ex := by
  refine ⟨⟨hI.sound.join hp rfl rfl rfl, hI.cwd, hI.spc⟩, hI.keeps rfl rfl rfl ?_⟩
  intro d _ hd
  have hdp : d ≠ p := by
    rintro rfl
    exact hd l (by simp) (mem_of_getLast? hp)
  exact ⟨update_of_ne hdp _ _, rfl⟩

section

variable (hI : Inv wd v ex H)

include hI

theorem Inv.dir_mem (hd : IsDir v ex h) (hne : h ≠ 0) : h ∈ chain eoc v.fat h := by
  obtain ⟨m, hm⟩ : ∃ m, chain eoc v.fat h = h :: m := chain_eq_cons (hI.sound.dir_cell hd hne)
  rw [hm]
  exact mem_cons_self

theorem Inv.dots_of_raw (hd : IsDir v ex h) (hne : h ≠ 0)
    (hraw : ∀ i, some h ∈ (tree v).blocks eoc h → w.raw (some h, i) = v.raw (some h, i)) (hdots : (tree v).dots h) :
    (tree w).dots h := by
  have hblock : some h ∈ (tree v).blocks eoc h := Tree.mem_blocks_some.mpr (hI.dir_mem hd hne)
  exact (dots_congr (hraw 0 hblock) (hraw 1 hblock)).mpr hdots

theorem Inv.setArea {area : Option ℕ → Bytes} (hk : Keeps v { v with area := area } ex) :
    Inv wd { v with area := area } ex H := by
  refine ⟨hI.sound.setBlocks rfl (fun g τ hg hτ => hk.content hg hτ) ?_, hI.cwd, hI.spc⟩
  intro g hg hne hdots
  exact hI.dots_of_raw hg hne (fun i hb => hk.raw hg hb) hdots

theorem Inv.store (hl : l ∈ H) (hc : c ∈ l) (o n : ℕ) (src : Bytes) :
    Inv wd (v.store (some c) o n src) ex H ∧ Keeps v (v.store (some c) o n src) ex := by
  have hk : Keeps v (v.store (some c) o n src) ex := by
    refine hI.keeps rfl rfl rfl ?_
    intro d _ hd
    have hdc : some d ≠ some c := by
      rintro ⟨⟩
      exact hd l hl hc
    exact ⟨rfl, Vol.store_area_of_ne hdc⟩
  exact ⟨hI.setArea hk, hk⟩

end

theorem Inv.freed (hI : Inv wd v ex (l :: H)) (wipe : Bool) : Inv wd (freed wipe v l) ex H ∧ Keeps v (freed wipe v l) ex := by
  have harea : ∀ d, d ∉ l → (if wipe then wipeArea v.clusterSize l v.area else v.area) (some d) = v.area (some d) := by
    intro d hd
    cases wipe with
    | false => rfl
    | true => exact if_neg hd
  have hroot : (if wipe then wipeArea v.clusterSize l v.area else v.area) none = v.area none := by
    cases wipe <;> rfl
  have hk : Keeps v { v with area := if wipe then wipeArea v.clusterSize l v.area else v.area } ex :=
    hI.keeps rfl rfl hroot fun d _ hd => ⟨rfl, harea d (hd l mem_cons_self)⟩
  refine ⟨⟨(hI.setArea hk).sound.drop rfl rfl rfl, hI.cwd, hI.spc⟩, hI.keeps rfl rfl hroot ?_⟩
  intro d _ hd
  have hdl := hd l mem_cons_self
  exact ⟨clear_of_notMem hdl, harea d hdl⟩

end Orion.Fat16
