import Orion.Fat16.Proofs.EntryProofs
import Orion.Fat16.Proofs.TurnProofs

/-!
# Proofs: the operations keep the chains apart
-/

namespace Orion.Fat16

open Lib Fat List

variable {v w : Vol} {d : ℕ} {path name data : List UInt8} {item : Item} {src dst : List UInt8}

theorem create_file_inv (hI : Inv 0 v none []) (mem : ℕ → Bool) (path : List UInt8) (initial_size : ℕ) :
    Inv 0 (create_file mem v path initial_size).2 none [] := by
  unfold create_file
  generalize hreserve : reserve v path = res
  obtain ⟨r, u⟩ := res
  obtain ⟨hIu, hr⟩ := reserve_spec hI hreserve
  rcases r with _ | r
  · exact hIu
  obtain ⟨d, n, slots⟩ := r
  obtain ⟨hd, hres, hshort, hdot⟩ := hr d n slots rfl
  obtain ⟨first, t, halloc⟩ : ∃ first t, alloc_cluster u = (first, t) := ⟨_, _, rfl⟩
  dsimp only
  rw [halloc]
  obtain ⟨hk, -, ⟨hc, hIt, -⟩ | ⟨hcell, -, hfat, hIt⟩⟩ := hIu.alloc halloc
  · rw [if_pos hc]
    exact hIt
  · rw [if_neg fun hc => noCluster_iff.mp hc hcell, setFat_self (by rw [hfat, Function.update_self])]
    obtain ⟨m, hgrown, hkg⟩ := growFile_spec mem _ hIt (p := first) (by simp)
    exact Inv.attachFile (hres.keeps hd (hk.trans hkg)) hgrown ((hk.trans hkg).dir hd) hshort hdot

theorem mkdir_inv (hI : Inv 0 v none []) (path : List UInt8) : Inv 0 (mkdir v path).2 none [] := by
  unfold mkdir
  generalize hreserve : reserve v path = res
  obtain ⟨r, u⟩ := res
  obtain ⟨hIu, hr⟩ := reserve_spec hI hreserve
  rcases r with _ | r
  · exact hIu
  obtain ⟨d, n, slots⟩ := r
  obtain ⟨hd, hres, hshort, hdot⟩ := hr d n slots rfl
  obtain ⟨new_cl, t, halloc⟩ : ∃ new_cl t, alloc_cluster u = (new_cl, t) := ⟨_, _, rfl⟩
  dsimp only
  rw [halloc]
  obtain ⟨hk, -, ⟨hc, hIt, -⟩ | ⟨hcell, -, hfat, hIt⟩⟩ := hIu.alloc halloc
  · rw [if_pos hc]
    exact hIt
  · rw [if_neg fun hc => noCluster_iff.mp hc hcell, setFat_self (by rw [hfat, Function.update_self])]
    exact Inv.attachDir (hres.keeps hd hk) hIt (hk.dir hd) hshort hdot

theorem dir_without_file {σ : Slot} {e : Entry} (hσ : (tree v).content σ = .entry e) (hfile : e.dir = false)
    (hd : IsDir v none d) : IsDir v (some σ) d := by
  apply Tree.Dir.grow hd (fun _ _ _ hb => hb)
  intro g τ e' _ _ he hdir _
  refine ⟨he, ?_⟩
  rintro ⟨⟩
  obtain rfl := Content.entry.inj (hσ.symm.trans he)
  rw [hfile] at hdir
  cases hdir

theorem visible_of_item {L : List Slot} (h : ItemOf v.raw L item) : Visible (shortName item.entry) := by
  obtain ⟨h0, hE5⟩ := isFree_eq_false.mp h.live
  exact ⟨Bytes.length_slice .., item.entry 0, rfl, h0, hE5⟩

theorem Inv.reattach {l : List ℕ} {size : ℕ} (hI : Inv 0 v (some item.slot) [l]) (hd : IsDir v (some item.slot) d)
    (hblock : item.slot.1 ∈ (tree v).blocks eoc d) (hlt : item.slot.2 < v.width item.slot.1)
    (hraw : v.raw item.slot = item.entry) (hshort : Visible (shortName item.entry))
    (hfile : isDirectory item.entry = false) :
    Inv 0 (v.dir_write_raw item.slot (entryBytes (shortName item.entry) 0x20 (l.headD 0) size)) none [] := by
  have hl : l ∈ [l] := mem_singleton_self l
  have hchain : chain eoc v.fat (l.headD 0) = l := by
    cases l with
    | nil => exact chain_zero
    | cons c m => exact (hI.sound.held _ hl).chain_eq
  have hcell : l.headD 0 ≠ 0 → isCell eoc (l.headD 0) := by
    cases l with
    | nil => exact fun h => absurd rfl h
    | cons c m => exact fun _ => (hI.sound.held _ hl).linked.isCell mem_cons_self
  have hfirst : l.headD 0 < 2 ^ 16 := by
    by_cases hzero : l.headD 0 = 0
    · omega
    · exact lt_of_isCell (hcell hzero)
  refine ⟨?_, hI.cwd, hI.spc⟩
  refine hI.sound.attach (e := ⟨l.headD 0, (0x20 : UInt8) &&& 0x10 ≠ 0, size % 2 ^ 32⟩) hd hblock ?_ hchain hcell rfl
    (content_of_written (Vol.raw_dir_write_raw_self (length_entryBytes hshort.1)) hlt hshort (by decide) ?_ hfirst) ?_ ?_ ?_
  · rintro τ hne ⟨⟩
    exact hne rfl
  · intro _ hbit
    exact absurd hbit (by decide)
  · intro g τ _ _ hne
    exact content_congr rfl rfl (Vol.raw_dir_write_raw_of_ne hne)
  · intro g _ _ hdots
    apply dots_of_writes (WritesAt.dir_write_raw v _ (mem_singleton_self item.slot)) hdots
    intro i hi hmem
    have hattr := (dots_live hdots hi).2
    rw [mem_singleton.mp hmem, hraw] at hattr
    rw [isDirectory, hattr] at hfile
    exact absurd hfile (by decide)
  · intro hdir
    have hbit : (0x20 : UInt8) &&& 0x10 ≠ 0 := of_decide_eq_true hdir
    exact absurd hbit (by decide)

section

variable (hI : Inv 0 v none [])

include hI

theorem overwrite_inv (hd : IsDir v none d) (hfind : find_entry_slot v d name = some item)
    (hfile : isDirectory item.entry = false) (hroom : roomFor v item data) :
    Inv 0 (overwrite v item data).2 none [] := by
  obtain ⟨hitem, -⟩ := find_entry_slot_spec hfind
  obtain ⟨hblock, hlt, hentry, -⟩ := find_entry_slot_content hfind
  have ho := owner_of_found hd hfind fun _ hdir => by rw [hfile] at hdir; cases hdir
  have hdσ := dir_without_file ho.ent hfile hd
  have hfreeChain := freeChain_eq true (hI.sound.sound _ _ _ ho)
  have hex : Inv 0 v (some item.slot) [chain eoc v.fat (firstLow item.entry)] := ⟨hI.sound.exclude ho, hI.cwd, hI.spc⟩
  obtain ⟨hfreed, hk⟩ := hex.freed true
  unfold roomFor at hroom
  unfold overwrite
  rw [hfreeChain] at hroom ⊢
  dsimp only at hroom ⊢
  generalize freed true v (chain eoc v.fat (firstLow item.entry)) = u at hfreed hk hroom ⊢
  have hstart : Inv 0 u (some item.slot) [[]] := ⟨hfreed.sound.hold (l := []) (le_refl eoc) nodup_nil (by simp)
    (by simp) rfl rfl rfl, hfreed.cwd, hfreed.spc⟩
  have hok := (writeLoop_ok_iff (p := 0) le_rfl hfreed.spc (Or.inl rfl)).mpr (canTake_of_card hroom.1 hroom.2)
  generalize hloop : writeLoop data.length 0 data u = res at hok ⊢
  obtain ⟨m, ok, w⟩ := res
  obtain rfl : ok = true := hok
  obtain ⟨hIw, hkw⟩ := writeLoop_spec _ hstart rfl hloop
  have hkeep := hk.trans hkw
  refine Inv.reattach hIw (hkeep.dir hdσ) (by rw [hkeep.blocks hdσ]; exact hblock) ?_
    ((hkeep.raw hdσ hblock).trans hentry.symm) (visible_of_item hitem) hfile
  rw [hkeep.width]
  exact hlt

/-- `fat16_write_file`, by induction on the calls of itself. -/
theorem write_file_inv (mem : ℕ → Bool) (depth : ℕ) (hroom : WriteRoom mem depth v path data) :
    Inv 0 (write_file mem depth v path data).2 none [] := by
  induction depth generalizing v with
  | zero =>
    unfold WriteRoom at hroom
    unfold write_file
    generalize split_path path = parts at hroom ⊢
    obtain ⟨dir, fname⟩ := parts
    dsimp only at hroom ⊢
    split
    · exact hI
    rename_i hresolved
    have hd := resolve_dir_dir hI.sound (hI.cwd ▸ Tree.Dir.root) hresolved
    split
    · rename_i item hfind
      rw [hfind] at hroom
      cases hdir : isDirectory item.entry with
      | true => exact hI
      | false => exact overwrite_inv hI hd hfind hdir (hroom hdir)
    · exact hI
  | succ depth ih =>
    unfold WriteRoom at hroom
    unfold write_file
    generalize hparts : split_path path = parts at hroom ⊢
    obtain ⟨dir, fname⟩ := parts
    dsimp only at hroom ⊢
    split
    · exact hI
    rename_i hresolved
    have hd := resolve_dir_dir hI.sound (hI.cwd ▸ Tree.Dir.root) hresolved
    split
    · rename_i item hfind
      rw [hfind] at hroom
      cases hdir : isDirectory item.entry with
      | true => exact hI
      | false => exact overwrite_inv hI hd hfind hdir (hroom hdir)
    · rename_i hfind
      rw [hfind] at hroom
      have hcreated := create_file_inv hI mem path 0
      split
      · exact hcreated
      · exact ih hcreated hroom

theorem rm_inv (hdot : NotDot v path) : Inv 0 (rm v path).2 none [] := by
  unfold NotDot at hdot
  unfold rm
  generalize split_path path = parts at hdot ⊢
  obtain ⟨dir, fname⟩ := parts
  dsimp only at hdot ⊢
  split
  · exact hI
  split
  · exact hI
  rename_i hresolved
  have hd := resolve_dir_dir hI.sound (hI.cwd ▸ Tree.Dir.root) hresolved
  split
  · exact hI
  · rename_i item hfind
    exact hI.remove hd hfind (hdot item hfind) true

theorem rmdir_inv (hdot : NotDot v path) : Inv 0 (rmdir v path).2 none [] := by
  unfold NotDot at hdot
  unfold rmdir
  generalize split_path path = parts at hdot ⊢
  obtain ⟨dir, fname⟩ := parts
  dsimp only at hdot ⊢
  split
  · exact hI
  split
  · exact hI
  rename_i hresolved
  have hd := resolve_dir_dir hI.sound (hI.cwd ▸ Tree.Dir.root) hresolved
  split
  · exact hI
  rename_i item hfind
  split
  · exact hI
  split
  · exact hI
  · exact hI.remove hd hfind (hdot item hfind) false

theorem cp_inv (mem : ℕ → Bool) (buf : Option Bytes) (depth : ℕ)
    (hroom : CpRoom mem buf depth v src dst) : Inv 0 (cp mem buf depth v src dst).2 none [] := by
  unfold cp
  split
  · exact hI
  rename_i item hfind
  dsimp only
  split
  · exact hI
  split
  · exact hI
  rename_i b
  split
  · exact hI
  · exact write_file_inv hI mem depth (hroom b item rfl hfind)

theorem mv_inv (mem : ℕ → Bool) (buf : Option Bytes) (depth : ℕ)
    (hroom : CpRoom mem buf depth v src (mvTarget v src dst))
    (hdot : NotDot (cp mem buf depth v src (mvTarget v src dst)).2 src) : Inv 0 (mv mem buf depth v src dst).2 none [] := by
  have hcp := cp_inv hI mem buf depth hroom
  unfold mv
  split
  · exact hI
  dsimp only
  split
  · exact hcp
  · exact rm_inv hcp hdot

theorem step_inv {op : Op} (hop : Careful v op) : Inv 0 (step v op) none [] := by
  cases op with
  | create mem path initial_size => exact create_file_inv hI mem path initial_size
  | write mem depth path data => exact write_file_inv hI mem depth hop
  | rm path => exact rm_inv hI hop
  | mkdir path => exact mkdir_inv hI path
  | rmdir path => exact rmdir_inv hI hop
  | cp mem buf depth src dst => exact cp_inv hI mem buf depth hop
  | mv mem buf depth src dst => exact mv_inv hI mem buf depth hop.1 hop.2

end

theorem inv_formatted {spc : ℕ} (hspc : 0 < spc) (fatLen rootLen : ℕ) (bytes : ℕ → Bytes) :
    Inv 0 (formatted spc fatLen rootLen bytes) none [] := by
  have hlisted : Tree.Listed eoc (tree (formatted spc fatLen rootLen bytes)) [0] [] := by
    refine ⟨mem_cons_self, ?_, by simp, by simp, by simp, nodup_nil⟩
    rintro g hg ⟨b, i⟩ hb
    obtain rfl := mem_singleton.mp hg
    obtain rfl : b = none := by simpa [Tree.blocks_zero] using hb
    have hempty : (tree (formatted spc fatLen rootLen bytes)).content (none, i) = .empty := content_of_free rfl
    rw [hempty]
    trivial
  exact ⟨hlisted.inv, rfl, hspc⟩

theorem owned_of_inv (hI : Inv 0 v none []) : Owned v where
  nonempty := by
    rintro σ e ⟨h, ho⟩ hne
    obtain ⟨m, hm⟩ : ∃ m, chain eoc v.fat e.first = e.first :: m := chain_eq_cons (hI.sound.cell h σ e ho hne)
    rw [clusters, hm]
    exact cons_ne_nil _ _
  distinct := by
    rintro σ e ⟨h, ho⟩
    exact (hI.sound.sound h σ e ho).nodup
  used := by
    rintro σ e ⟨h, ho⟩ c hc
    exact hI.sound.next_ne_zero ho hc
  ends := by
    rintro σ e ⟨h, ho⟩ c hc
    exact (hI.sound.sound h σ e ho).linked.eoc_le_last hc
  apart := by
    rintro σ e σ' e' ⟨h, ho⟩ ⟨h', ho'⟩ hne
    exact hI.sound.apart h σ e h' σ' e' ho ho' hne

/-- From an empty volume on, the chains of the live entries stay sound and apart while every write has room and no dot
entry is removed. -/
theorem owned_throughout {spc : ℕ} (hspc : 0 < spc) (fatLen rootLen : ℕ) (bytes : ℕ → Bytes) {ops : List Op}
    (hops : EachStep step Careful (formatted spc fatLen rootLen bytes) ops) :
    Throughout step Owned (formatted spc fatLen rootLen bytes) ops :=
  throughout_of_inv (J := fun v _ => Inv 0 v none []) (fun _ _ _ hI hop => step_inv hI hop) (fun _ _ hI => owned_of_inv hI)
    (inv_formatted hspc fatLen rootLen bytes) hops

theorem owned_throughout_small : Throughout step Owned (formatted 1 8 16 fun _ _ => 0)
    [.mkdir [slash, 0x41], .write (fun _ => true) 1 [slash, 0x42] [1, 2, 3], .rm [slash, 0x42]] :=
  owned_throughout (by decide) 8 16 (fun _ _ => 0)
    ⟨trivial, (by decide +kernel : WriteRoom (fun _ => true) 1 _ _ _), (by decide +kernel : NotDot _ _), trivial⟩

/-- Paths lead to directories of the tree or nowhere. A directory below the root starts with its dot entries, and the
links in it lead to itself or to its parent. -/
structure TreeSound (v : Vol) : Prop where
  paths : ∀ path, resolve_dir v path ≠ 0xFFFF → IsDir v none (resolve_dir v path)
  links : ∀ {h σ e}, Tree.Owner eoc (tree v) none h σ e → e.dir = true → e.first ≠ 0 ∧ (tree v).dots e.first ∧
    ∀ τ x, τ.1 ∈ (tree v).blocks eoc e.first → (tree v).content τ = .link x → x = e.first ∨ x = h

theorem treeSound_of_inv (hI : Inv 0 v none []) : TreeSound v := by
  constructor
  · intro path hne
    have hcwd : IsDir v none v.cwd := hI.cwd ▸ .root
    exact resolve_dir_dir hI.sound hcwd hne
  · intro h σ e ho hdir
    obtain ⟨hfirst, hdots⟩ := hI.sound.dots h σ e ho hdir
    refine ⟨hfirst, hdots, ?_⟩
    intro τ x hτ hx
    rcases hI.sound.links e.first τ x (ho.sub hdir) hτ hx with hself | hparent
    · exact .inl hself
    · exact .inr (hparent h σ e ho hdir rfl)

/-- In a run of careful operations paths lead into the tree, and every directory keeps its dot entries. -/
theorem dirs_sound_throughout {spc : ℕ} (hspc : 0 < spc) (fatLen rootLen : ℕ) (bytes : ℕ → Bytes) {ops : List Op}
    (hops : EachStep step Careful (formatted spc fatLen rootLen bytes) ops) :
    Throughout step TreeSound (formatted spc fatLen rootLen bytes) ops :=
  throughout_of_inv (J := fun v _ => Inv 0 v none []) (fun _ _ _ hI hop => step_inv hI hop)
    (fun _ _ hI => treeSound_of_inv hI) (inv_formatted hspc fatLen rootLen bytes) hops

theorem dirs_sound_small : Throughout step TreeSound (formatted 1 8 16 fun _ _ => 0)
    [.mkdir [slash, 0x41], .mkdir [slash, 0x41, slash, 0x42]] :=
  dirs_sound_throughout (by decide) 8 16 (fun _ _ => 0) ⟨trivial, trivial, trivial⟩

/-- The chain of a directory is freed through its entry for itself, and the entry in the root still names it. -/
theorem rm_dot_frees_directory :
    let v := exec step (formatted 1 8 16 fun _ _ => 0) [.mkdir [slash, 0x41], .rm [slash, 0x41, slash, dot]]
    Live v (none, 0) ⟨2, true, 0⟩ ∧ v.fat 2 = 0 ∧ ¬ Owned v := by
  intro v
  have hent : (tree v).content (none, 0) = .entry ⟨2, true, 0⟩ := by decide +kernel
  have hfree : v.fat 2 = 0 := by decide +kernel
  have hlive : Live v (none, 0) ⟨2, true, 0⟩ :=
    ⟨0, Tree.Dir.root, by rw [Tree.blocks_zero]; exact mem_singleton_self none, hent, by simp⟩
  refine ⟨hlive, hfree, ?_⟩
  intro howned
  obtain ⟨m, hm⟩ : ∃ m, chain eoc v.fat 2 = 2 :: m := chain_eq_cons (by decide)
  have hmem : 2 ∈ clusters v ⟨2, true, 0⟩ := by
    rw [clusters, hm]
    exact mem_cons_self
  exact howned.used _ _ hlive 2 hmem hfree

end Orion.Fat16
