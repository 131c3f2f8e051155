import Orion.Lib.Chains

/-!
# Trees of directories over a table of links

A directory is a list of blocks, and a block has numbered places for entries. The blocks of the root are given (the
block `none`); those of every other directory are the cells of a chain. An entry names the chain of a file or of a
directory. `Inv` says that the chains of all entries that can be reached from the root are sound and apart. In the
middle of an operation one entry may be left out (`ex`), and some chains may be held by no entry (`H`).
-/

namespace Orion.Lib

open List Function

/-- An entry of a directory: the first cell of its chain (zero if it has none), and what it is. -/
structure Entry where
  first : ℕ
  dir : Bool
  size : ℕ
deriving DecidableEq

/-- A place for an entry: its block, where `none` is the root, and its index there. -/
abbrev Slot := Option ℕ × ℕ

/-- What a place holds: nothing that counts, an entry that has a chain, or a link to another directory. -/
inductive Content where
  | empty
  | entry (e : Entry)
  | link (x : ℕ)
deriving DecidableEq

/-- The links between cells, what the places hold, and which cells start with the two dot entries. -/
structure Tree where
  next : ℕ → ℕ
  content : Slot → Content
  dots : ℕ → Prop

namespace Tree

variable (eoc : ℕ) {l : List ℕ}

/-- The blocks of the directory that starts at `h`; the root is zero. -/
def blocks (T : Tree) (h : ℕ) : List (Option ℕ) :=
  if h = 0 then [none] else (chain eoc T.next h).map some

/-- The directories that can be reached from the root without the entry `ex`. -/
inductive Dir (T : Tree) (ex : Option Slot) : ℕ → Prop
  | root : Dir T ex 0
  | sub {h : ℕ} {σ : Slot} {e : Entry} (hd : Dir T ex h) (hb : σ.1 ∈ T.blocks eoc h)
      (he : T.content σ = .entry e) (hdir : e.dir = true) (hne : ex ≠ some σ) : Dir T ex e.first

/-- `σ` holds the entry `e` in the directory `h`, which can be reached. -/
structure Owner (T : Tree) (ex : Option Slot) (h : ℕ) (σ : Slot) (e : Entry) : Prop where
  dir : Dir eoc T ex h
  block : σ.1 ∈ T.blocks eoc h
  ent : T.content σ = .entry e
  ne : ex ≠ some σ

/-- `x` is the directory `h` itself or its parent. -/
def SelfOrParent (T : Tree) (ex : Option Slot) (h x : ℕ) : Prop :=
  x = h ∨ ∀ g τ e, Owner eoc T ex g τ e → e.dir = true → e.first = h → x = g

/-- The chains of the entries and those in `H` are sound and apart, and every directory starts with the entries for
itself and its parent, its only links. -/
structure Inv (T : Tree) (ex : Option Slot) (H : List (List ℕ)) : Prop where
  cell : ∀ h σ e, Owner eoc T ex h σ e → e.first ≠ 0 → isCell eoc e.first
  sound : ∀ h σ e, Owner eoc T ex h σ e → Chain eoc T.next (chain eoc T.next e.first)
  dots : ∀ h σ e, Owner eoc T ex h σ e → e.dir = true → e.first ≠ 0 ∧ T.dots e.first
  links : ∀ h σ x, Dir eoc T ex h → σ.1 ∈ T.blocks eoc h → T.content σ = .link x →
    SelfOrParent eoc T ex h x
  apart : ∀ h σ e h' σ' e', Owner eoc T ex h σ e → Owner eoc T ex h' σ' e' → σ ≠ σ' →
    (chain eoc T.next e.first).Disjoint (chain eoc T.next e'.first)
  held : ∀ l ∈ H, Chain eoc T.next l
  heldApart : H.Pairwise List.Disjoint
  heldOwner : ∀ l ∈ H, ∀ h σ e, Owner eoc T ex h σ e → l.Disjoint (chain eoc T.next e.first)

variable {eoc} {T T' : Tree} {ex ex' : Option Slot} {H : List (List ℕ)} {h h' : ℕ} {σ σ' : Slot}
  {e e' : Entry}

theorem blocks_zero : T.blocks eoc 0 = [none] := if_pos rfl

theorem blocks_of_ne (hne : h ≠ 0) : T.blocks eoc h = (chain eoc T.next h).map some := if_neg hne

theorem mem_blocks_some {c : ℕ} : some c ∈ T.blocks eoc h ↔ c ∈ chain eoc T.next h := by
  by_cases hh : h = 0
  · subst hh
    simp [blocks_zero]
  · simp [blocks_of_ne hh]

theorem mem_blocks_none : none ∈ T.blocks eoc h ↔ h = 0 := by
  by_cases hh : h = 0
  · subst hh
    simp [blocks_zero]
  · simp [blocks_of_ne hh, hh]

theorem blocks_congr (hn : ∀ c ∈ chain eoc T.next h, T'.next c = T.next c) : T'.blocks eoc h = T.blocks eoc h := by
  unfold blocks
  rw [chain_congr hn]

theorem Dir.exists_owner (hd : Dir eoc T ex h) (hne : h ≠ 0) :
    ∃ h' σ e, Owner eoc T ex h' σ e ∧ e.dir = true ∧ e.first = h := by
  cases hd with
  | root => exact absurd rfl hne
  | sub hd hb he hdir hx => exact ⟨_, _, _, ⟨hd, hb, he, hx⟩, hdir, rfl⟩

theorem Owner.sub (ho : Owner eoc T ex h σ e) (hdir : e.dir = true) : Dir eoc T ex e.first :=
  Dir.sub ho.dir ho.block ho.ent hdir ho.ne

theorem Dir.grow (hd : Dir eoc T ex h) (hb : ∀ g, Dir eoc T ex g → ∀ b ∈ T.blocks eoc g, b ∈ T'.blocks eoc g)
    (he : ∀ g σ e, Dir eoc T ex g → σ.1 ∈ T.blocks eoc g → T.content σ = .entry e → e.dir = true →
      ex ≠ some σ → T'.content σ = .entry e ∧ ex' ≠ some σ) : Dir eoc T' ex' h := by
  induction hd with
  | root => exact Dir.root
  | sub hd hτ hent hdir hne ih =>
    obtain ⟨hent', hne'⟩ := he _ _ _ hd hτ hent hdir hne
    exact Dir.sub ih (hb _ hd _ hτ) hent' hdir hne'

namespace Inv

variable {c : ℕ}

section

variable (hI : Inv eoc T ex H)

include hI

theorem next_ne_zero (ho : Owner eoc T ex h σ e) (hc : c ∈ chain eoc T.next e.first) : T.next c ≠ 0 :=
  (hI.sound h σ e ho).linked.next_ne_zero hc

theorem dir_sound (hd : Dir eoc T ex h) : Chain eoc T.next (chain eoc T.next h) := by
  by_cases hne : h = 0
  · subst hne
    rw [chain_zero]
    exact ⟨trivial, nodup_nil⟩
  · obtain ⟨h', σ, e, ho, -, rfl⟩ := hd.exists_owner hne
    exact hI.sound h' σ e ho

theorem dir_cell (hd : Dir eoc T ex h) (hne : h ≠ 0) : isCell eoc h := by
  obtain ⟨h', σ, e, ho, -, rfl⟩ := hd.exists_owner hne
  exact hI.cell h' σ e ho hne

theorem block_unique (hd : Dir eoc T ex h) (hd' : Dir eoc T ex h') {b : Option ℕ}
    (hb : b ∈ T.blocks eoc h) (hb' : b ∈ T.blocks eoc h') : h = h' := by
  rcases b with _ | c
  · rw [mem_blocks_none.mp hb, mem_blocks_none.mp hb']
  have hc := mem_blocks_some.mp hb
  have hc' := mem_blocks_some.mp hb'
  have hne : h ≠ 0 := by
    rintro rfl
    rw [chain_zero] at hc
    cases hc
  have hne' : h' ≠ 0 := by
    rintro rfl
    rw [chain_zero] at hc'
    cases hc'
  obtain ⟨g, σ, e, ho, -, rfl⟩ := hd.exists_owner hne
  obtain ⟨g', σ', e', ho', -, rfl⟩ := hd'.exists_owner hne'
  by_cases hσ : σ = σ'
  · subst hσ
    have hee : e = e' := Content.entry.inj (ho.ent.symm.trans ho'.ent)
    rw [hee]
  · exact absurd hc' (hI.apart g σ e g' σ' e' ho ho' hσ hc)

theorem owner_unique (ho : Owner eoc T ex h σ e) (ho' : Owner eoc T ex h' σ e') : h = h' ∧ e = e' :=
  ⟨hI.block_unique ho.dir ho'.dir ho.block ho'.block, Content.entry.inj (ho.ent.symm.trans ho'.ent)⟩

theorem held_notMem_dir (hl : l ∈ H) (hc : c ∈ l) (hd : Dir eoc T ex h) : c ∉ chain eoc T.next h := by
  intro hmem
  by_cases hne : h = 0
  · subst hne
    rw [chain_zero] at hmem
    cases hmem
  · obtain ⟨h', σ, e, ho, -, rfl⟩ := hd.exists_owner hne
    exact hI.heldOwner l hl h' σ e ho hc hmem

end

end Inv

/-! ## Changes that add no entry -/

/-- `T'` keeps the links, the dots and the entries of what can be reached in `T`, or drops entries. -/
structure Shrinks (eoc : ℕ) (T T' : Tree) (ex ex' : Option Slot) : Prop where
  links : ∀ h σ e, Owner eoc T ex h σ e → ∀ c ∈ chain eoc T.next e.first, T'.next c = T.next c
  ents : ∀ h σ e, Dir eoc T ex h → σ.1 ∈ T.blocks eoc h → T'.content σ = .entry e → ex' ≠ some σ →
    T.content σ = .entry e ∧ ex ≠ some σ
  conts : ∀ h σ x, Dir eoc T ex h → σ.1 ∈ T.blocks eoc h → T'.content σ = .link x → T.content σ = .link x
  dots : ∀ h, Dir eoc T ex h → h ≠ 0 → T.dots h → T'.dots h

namespace Shrinks

section

variable (hs : Shrinks eoc T T' ex ex')

include hs

theorem dir_links (hd : Dir eoc T ex h) : ∀ c ∈ chain eoc T.next h, T'.next c = T.next c := by
  by_cases hne : h = 0
  · subst hne
    simp
  · obtain ⟨h', σ, e, ho, -, rfl⟩ := hd.exists_owner hne
    exact hs.links h' σ e ho

theorem dir (hd : Dir eoc T' ex' h) : Dir eoc T ex h := by
  induction hd with
  | root => exact Dir.root
  | sub _ hb he hdir hne ih =>
    rw [blocks_congr (hs.dir_links ih)] at hb
    obtain ⟨he', hne'⟩ := hs.ents _ _ _ ih hb he hne
    exact Dir.sub ih hb he' hdir hne'

theorem owner (ho : Owner eoc T' ex' h σ e) : Owner eoc T ex h σ e := by
  have hd := hs.dir ho.dir
  have hb := ho.block
  rw [blocks_congr (hs.dir_links hd)] at hb
  obtain ⟨he, hne⟩ := hs.ents h σ e hd hb ho.ent ho.ne
  exact ⟨hd, hb, he, hne⟩

theorem chain_eq (ho : Owner eoc T ex h σ e) : chain eoc T'.next e.first = chain eoc T.next e.first :=
  chain_congr (hs.links h σ e ho)

end

/-- Only links change, and none that an entry can reach. -/
theorem of_links (hlinks : ∀ h σ e, Owner eoc T ex h σ e → ∀ c ∈ chain eoc T.next e.first, T'.next c = T.next c)
    (hcont : T'.content = T.content) (hdots : T'.dots = T.dots) : Shrinks eoc T T' ex ex := by
  refine ⟨hlinks, ?_, ?_, fun h _ _ hh => by rwa [hdots]⟩
  · intro h σ e _ _ he hne
    rw [hcont] at he
    exact ⟨he, hne⟩
  · intro h σ x _ _ hx
    rwa [hcont] at hx

end Shrinks

namespace Inv

variable {H' : List (List ℕ)} {m : List ℕ} {p d : ℕ}

theorem shrink (hI : Inv eoc T ex H) (hs : Shrinks eoc T T' ex ex')
    (hheld : ∀ l ∈ H', Chain eoc T'.next l) (hapart : H'.Pairwise List.Disjoint)
    (howner : ∀ l ∈ H', ∀ h σ e, Owner eoc T ex h σ e → ex' ≠ some σ → l.Disjoint (chain eoc T.next e.first)) :
    Inv eoc T' ex' H' where
  cell h σ e ho := hI.cell h σ e (hs.owner ho)
  sound h σ e ho := by
    rw [hs.chain_eq (hs.owner ho)]
    exact (hI.sound h σ e (hs.owner ho)).congr (hs.links h σ e (hs.owner ho))
  dots h σ e ho hdir := by
    obtain ⟨hne, hdots⟩ := hI.dots h σ e (hs.owner ho) hdir
    exact ⟨hne, hs.dots _ ((hs.owner ho).sub hdir) hne hdots⟩
  links h σ x hd hb hx := by
    have hd' := hs.dir hd
    rw [blocks_congr (hs.dir_links hd')] at hb
    refine (hI.links h σ x hd' hb (hs.conts h σ x hd' hb hx)).imp_right fun hpar g τ e ho => ?_
    exact hpar g τ e (hs.owner ho)
  apart h σ e h' σ' e' ho ho' hne := by
    rw [hs.chain_eq (hs.owner ho), hs.chain_eq (hs.owner ho')]
    exact hI.apart h σ e h' σ' e' (hs.owner ho) (hs.owner ho') hne
  held := hheld
  heldApart := hapart
  heldOwner l hl h σ e ho := by
    rw [hs.chain_eq (hs.owner ho)]
    exact howner l hl h σ e (hs.owner ho) ho.ne

theorem shrink_held (hI : Inv eoc T ex H) (hs : Shrinks eoc T T' ex ex')
    (hkeep : ∀ l ∈ H, ∀ c ∈ l, T'.next c = T.next c) : Inv eoc T' ex' H :=
  hI.shrink hs (fun l hl => (hI.held l hl).congr (hkeep l hl)) hI.heldApart
    fun l hl h σ e ho _ => hI.heldOwner l hl h σ e ho

theorem hold (hI : Inv eoc T ex H) {mark : ℕ} (hmark : eoc ≤ mark) (hnd : l.Nodup)
    (hcell : ∀ c ∈ l, isCell eoc c) (hfree : ∀ c ∈ l, T.next c = 0)
    (hnext : T'.next = linkUp mark T.next l) (hcont : T'.content = T.content) (hdots : T'.dots = T.dots) :
    Inv eoc T' ex (l :: H) := by
  -- the new cells were free, so no chain has one of them
  have happ : ∀ m, Chain eoc T.next m → l.Disjoint m := fun m hm c hc hcm => hm.linked.next_ne_zero hcm (hfree c hc)
  have hkeep : ∀ m, Chain eoc T.next m → ∀ c ∈ m, T'.next c = T.next c := by
    intro m hm c hc
    rw [hnext]
    exact linkUp_of_notMem fun hcl => happ m hm hcl hc
  have hs : Shrinks eoc T T' ex ex := .of_links (fun h σ e ho => hkeep _ (hI.sound h σ e ho)) hcont hdots
  apply hI.shrink hs
  · intro m hm
    rcases mem_cons.mp hm with rfl | hm
    · rw [hnext]
      exact chain_linkUp hmark hnd hcell
    · exact (hI.held m hm).congr (hkeep m (hI.held m hm))
  · exact pairwise_cons.mpr ⟨fun m hm => happ m (hI.held m hm), hI.heldApart⟩
  · intro m hm h σ e ho _
    rcases mem_cons.mp hm with rfl | hm
    · exact happ _ (hI.sound h σ e ho)
    · exact hI.heldOwner m hm h σ e ho

theorem sublist (hI : Inv eoc T ex H) (hsub : H'.Sublist H) : Inv eoc T ex H' :=
  { hI with
    held := fun m hm => hI.held m (hsub.subset hm)
    heldApart := hI.heldApart.sublist hsub
    heldOwner := fun m hm => hI.heldOwner m (hsub.subset hm) }

theorem drop (hI : Inv eoc T ex (l :: H)) (hnext : T'.next = clear T.next l)
    (hcont : T'.content = T.content) (hdots : T'.dots = T.dots) : Inv eoc T' ex H := by
  have hpair := pairwise_cons.mp hI.heldApart
  have hkeep : ∀ m, l.Disjoint m → ∀ c ∈ m, T'.next c = T.next c := by
    intro m hm c hc
    rw [hnext]
    exact clear_of_notMem fun hcl => hm hcl hc
  have hs : Shrinks eoc T T' ex ex :=
    .of_links (fun h σ e ho => hkeep _ (hI.heldOwner l mem_cons_self h σ e ho)) hcont hdots
  exact (hI.sublist (sublist_cons_self l H)).shrink_held hs fun m hm => hkeep m (hpair.1 m hm)

theorem setLinks (hI : Inv eoc T ex H) (hkeep : ∀ m, Chain eoc T.next m → ∀ c ∈ m, T'.next c = T.next c)
    (hcont : T'.content = T.content) (hdots : T'.dots = T.dots) : Inv eoc T' ex H := by
  have hs : Shrinks eoc T T' ex ex := .of_links (fun h σ e ho => hkeep _ (hI.sound h σ e ho)) hcont hdots
  exact hI.shrink_held hs fun m hm => hkeep m (hI.held m hm)

theorem join (hI : Inv eoc T ex ((d :: m) :: l :: H)) (hp : l.getLast? = some p)
    (hnext : T'.next = update T.next p d) (hcont : T'.content = T.content)
    (hdots : T'.dots = T.dots) : Inv eoc T' ex ((l ++ d :: m) :: H) := by
  have hpair := pairwise_cons.mp hI.heldApart
  have hpair' := pairwise_cons.mp hpair.2
  have hm : d :: m ∈ (d :: m) :: l :: H := mem_cons_self
  have hl : l ∈ (d :: m) :: l :: H := mem_cons_of_mem _ mem_cons_self
  have hpl : p ∈ l := mem_of_getLast? hp
  have hkeep : ∀ k, l.Disjoint k → ∀ c ∈ k, T'.next c = T.next c := by
    intro k hk c hc
    have hcp : c ≠ p := by
      rintro rfl
      exact hk hpl hc
    rw [hnext]
    exact update_of_ne hcp _ _
  have hs : Shrinks eoc T T' ex ex := .of_links (fun h σ e ho => hkeep _ (hI.heldOwner l hl h σ e ho)) hcont hdots
  apply hI.shrink hs
  · intro k hk
    rcases mem_cons.mp hk with rfl | hk
    · rw [hnext]
      exact (hI.held l hl).append hp (hI.held _ hm) (hpair.1 l mem_cons_self).symm
    · have hk' : k ∈ (d :: m) :: l :: H := mem_cons_of_mem _ (mem_cons_of_mem _ hk)
      exact (hI.held k hk').congr (hkeep k (hpair'.1 k hk))
  · refine pairwise_cons.mpr ⟨fun k hk => ?_, hpair'.2⟩
    rw [disjoint_append_left]
    exact ⟨hpair'.1 k hk, hpair.1 k (mem_cons_of_mem _ hk)⟩
  · intro k hk h σ e ho _
    rcases mem_cons.mp hk with rfl | hk
    · rw [disjoint_append_left]
      exact ⟨hI.heldOwner l hl h σ e ho, hI.heldOwner _ hm h σ e ho⟩
    · exact hI.heldOwner k (mem_cons_of_mem _ (mem_cons_of_mem _ hk)) h σ e ho

theorem setBlocks (hI : Inv eoc T ex H) (hnext : T'.next = T.next)
    (hcont : ∀ h σ, Dir eoc T ex h → σ.1 ∈ T.blocks eoc h → T'.content σ = T.content σ)
    (hdots : ∀ h, Dir eoc T ex h → h ≠ 0 → T.dots h → T'.dots h) : Inv eoc T' ex H := by
  have hs : Shrinks eoc T T' ex ex := by
    refine ⟨fun h σ e _ c _ => by rw [hnext], ?_, ?_, hdots⟩
    · intro h σ e hd hb he hne
      rw [hcont h σ hd hb] at he
      exact ⟨he, hne⟩
    · intro h σ x hd hb hx
      rwa [hcont h σ hd hb] at hx
  exact hI.shrink_held hs fun l _ c _ => by rw [hnext]

theorem exclude (hI : Inv eoc T none H) (ho : Owner eoc T none h σ e) :
    Inv eoc T (some σ) (chain eoc T.next e.first :: H) := by
  have hs : Shrinks eoc T T none (some σ) :=
    ⟨fun _ _ _ _ _ _ => rfl, fun _ _ _ _ _ he _ => ⟨he, by simp⟩, fun _ _ _ _ _ hx => hx, fun _ _ _ hh => hh⟩
  apply hI.shrink hs
  · intro l hl
    rcases mem_cons.mp hl with rfl | hl
    · exact hI.sound h σ e ho
    · exact hI.held l hl
  · exact pairwise_cons.mpr ⟨fun l hl => (hI.heldOwner l hl h σ e ho).symm, hI.heldApart⟩
  · intro l hl h' σ' e' ho' hne
    rcases mem_cons.mp hl with rfl | hl
    · exact hI.apart h σ e h' σ' e' ho ho' fun heq => hne (by rw [heq])
    · exact hI.heldOwner l hl h' σ' e' ho'

theorem erase (hI : Inv eoc T (some σ) H) (hnext : T'.next = T.next) (hσ : T'.content σ = .empty)
    (hcont : ∀ h τ, Dir eoc T (some σ) h → τ.1 ∈ T.blocks eoc h → τ ≠ σ → T'.content τ = T.content τ)
    (hdots : ∀ h, Dir eoc T (some σ) h → h ≠ 0 → T.dots h → T'.dots h) : Inv eoc T' none H := by
  have hne : ∀ τ, T'.content τ ≠ .empty → τ ≠ σ := by
    rintro τ hτ rfl
    exact hτ hσ
  have hs : Shrinks eoc T T' (some σ) none := by
    refine ⟨fun h τ e _ c _ => by rw [hnext], ?_, ?_, hdots⟩
    · intro h τ e hd hb he _
      have hτ := hne τ (by simp [he])
      rw [hcont h τ hd hb hτ] at he
      exact ⟨he, fun hx => hτ (Option.some.inj hx).symm⟩
    · intro h τ x hd hb hx
      rwa [hcont h τ hd hb (hne τ (by simp [hx]))] at hx
  exact hI.shrink_held hs fun l _ c _ => by rw [hnext]

/-! ## Changes that add an entry or a block -/

/-- An entry is written in an empty place, or over the one left out; its chain was held by no entry, and a new directory
is empty. -/
theorem attach (hI : Inv eoc T ex (l :: H)) (hd : Dir eoc T ex h) (hb : σ.1 ∈ T.blocks eoc h)
    (hex : ∀ τ, τ ≠ σ → ex ≠ some τ) (hfirst : chain eoc T.next e.first = l) (hcell : e.first ≠ 0 → isCell eoc e.first)
    (hnext : T'.next = T.next) (hσ : T'.content σ = .entry e)
    (hcont : ∀ g τ, Dir eoc T ex g → τ.1 ∈ T.blocks eoc g → τ ≠ σ → T'.content τ = T.content τ)
    (hdots : ∀ g, Dir eoc T ex g → g ≠ 0 → T.dots g → T'.dots g) (hnew : e.dir = true → e.first ≠ 0 ∧ T'.dots e.first ∧
      ∀ c ∈ l, ∀ i, T'.content (some c, i) = .empty ∨ T'.content (some c, i) = .link e.first ∨
        T'.content (some c, i) = .link h) : Inv eoc T' none H := by
  have hblocks : ∀ g, T'.blocks eoc g = T.blocks eoc g := fun g => blocks_congr fun c _ => by rw [hnext]
  -- a place in a new directory has no entry
  have hempty : ∀ τ : Slot, τ.1 ∈ T.blocks eoc e.first → e.dir = true →
      T'.content τ = .empty ∨ T'.content τ = .link e.first ∨ T'.content τ = .link h := by
    rintro ⟨b, i⟩ hτ hdir
    obtain ⟨hne, -, hnone⟩ := hnew hdir
    rw [blocks_of_ne hne, hfirst] at hτ
    obtain ⟨c, hc, rfl⟩ := mem_map.mp hτ
    exact hnone c hc i
  have hnoEntry : ∀ (τ : Slot) (e' : Entry), τ.1 ∈ T.blocks eoc e.first → e.dir = true → T'.content τ ≠ .entry e' := by
    intro τ e' hτ hdir he
    rcases hempty τ hτ hdir with h1 | h1 | h1 <;> simp [h1] at he
  have hdir : ∀ g, Dir eoc T' none g → Dir eoc T ex g ∨ (e.dir = true ∧ g = e.first) := by
    intro g hg
    induction hg with
    | root => exact .inl Dir.root
    | @sub g τ e' _ hτ he hdir' _ ih =>
      rw [hblocks] at hτ
      rcases ih with ih | ⟨hdir, rfl⟩
      · by_cases hτσ : τ = σ
        · subst hτσ
          obtain rfl : e' = e := Content.entry.inj (he.symm.trans hσ)
          exact .inr ⟨hdir', rfl⟩
        · rw [hcont g τ ih hτ hτσ] at he
          exact .inl (Dir.sub ih hτ he hdir' (hex τ hτσ))
      · exact absurd he (hnoEntry τ e' hτ hdir)
  have howner : ∀ g τ e', Owner eoc T' none g τ e' → (Owner eoc T ex g τ e' ∧ τ ≠ σ) ∨ (g = h ∧ τ = σ ∧ e' = e) := by
    intro g τ e' ho
    have hτ := ho.block
    have he := ho.ent
    rw [hblocks] at hτ
    rcases hdir g ho.dir with hg | ⟨hdir', rfl⟩
    · by_cases hτσ : τ = σ
      · subst hτσ
        exact .inr ⟨hI.block_unique hg hd hτ hb, rfl, Content.entry.inj (he.symm.trans hσ)⟩
      · rw [hcont g τ hg hτ hτσ] at he
        exact .inl ⟨⟨hg, hτ, he, hex τ hτσ⟩, hτσ⟩
    · exact absurd he (hnoEntry τ e' hτ hdir')
  have hpair := pairwise_cons.mp hI.heldApart
  have hl : l ∈ l :: H := mem_cons_self
  have hmem : e.dir = true → e.first ∈ l := by
    intro hdir'
    obtain ⟨m, hm⟩ : ∃ m, chain eoc T.next e.first = e.first :: m := chain_eq_cons (hcell (hnew hdir').1)
    rw [← hfirst, hm]
    exact mem_cons_self
  constructor
  case cell =>
    intro g τ e' ho
    rcases howner g τ e' ho with ⟨ho', -⟩ | ⟨rfl, rfl, rfl⟩
    · exact hI.cell g τ e' ho'
    · exact hcell
  case sound =>
    intro g τ e' ho
    rw [hnext]
    rcases howner g τ e' ho with ⟨ho', -⟩ | ⟨rfl, rfl, rfl⟩
    · exact hI.sound g τ e' ho'
    · rw [hfirst]
      exact hI.held l hl
  case dots =>
    intro g τ e' ho hdir'
    rcases howner g τ e' ho with ⟨ho', -⟩ | ⟨rfl, rfl, rfl⟩
    · obtain ⟨hne, hdot⟩ := hI.dots g τ e' ho' hdir'
      exact ⟨hne, hdots _ (ho'.sub hdir') hne hdot⟩
    · exact ⟨(hnew hdir').1, (hnew hdir').2.1⟩
  case links =>
    intro g τ x hg hτ hx
    rw [hblocks] at hτ
    rcases hdir g hg with hg' | ⟨hdir', rfl⟩
    · have hτσ : τ ≠ σ := by
        rintro rfl
        rw [hσ] at hx
        cases hx
      rw [hcont g τ hg' hτ hτσ] at hx
      refine (hI.links g τ x hg' hτ hx).imp_right fun hpar k ρ e' ho hdir' hfirst' => ?_
      rcases howner k ρ e' ho with ⟨ho', -⟩ | ⟨rfl, rfl, rfl⟩
      · exact hpar k ρ e' ho' hdir' hfirst'
      -- the new directory is no old one: its chain was held by no entry
      rw [← hfirst'] at hg'
      exact absurd (hfirst.symm ▸ hmem hdir') (hI.held_notMem_dir hl (hmem hdir') hg')
    · rcases hempty τ hτ hdir' with h1 | h1 | h1
      · rw [h1] at hx
        cases hx
      · rw [h1] at hx
        exact .inl (Content.link.inj hx).symm
      · rw [h1] at hx
        refine .inr fun k ρ e' ho hdir'' hfirst' => ?_
        rcases howner k ρ e' ho with ⟨ho', -⟩ | ⟨rfl, -, -⟩
        · have hdisj := hI.heldOwner l hl k ρ e' ho'
          rw [hfirst', hfirst] at hdisj
          exact absurd (hmem hdir') (hdisj (hmem hdir'))
        · exact (Content.link.inj hx).symm
  case apart =>
    intro g τ e' g' τ' e'' ho ho' hne
    rw [hnext]
    rcases howner g τ e' ho with ⟨hto, -⟩ | ⟨rfl, rfl, rfl⟩ <;>
      rcases howner g' τ' e'' ho' with ⟨hto', -⟩ | ⟨rfl, rfl, rfl⟩
    · exact hI.apart g τ e' g' τ' e'' hto hto' hne
    · rw [hfirst]
      exact (hI.heldOwner l hl g τ e' hto).symm
    · rw [hfirst]
      exact hI.heldOwner l hl g' τ' e'' hto'
    · exact absurd rfl hne
  case held =>
    intro m hm
    rw [hnext]
    exact hI.held m (mem_cons_of_mem _ hm)
  case heldApart => exact hpair.2
  case heldOwner =>
    intro m hm g τ e' ho
    rw [hnext]
    rcases howner g τ e' ho with ⟨hto, -⟩ | ⟨rfl, rfl, rfl⟩
    · exact hI.heldOwner m (mem_cons_of_mem _ hm) g τ e' hto
    · rw [hfirst]
      exact (hpair.1 m hm).symm

theorem extend (hI : Inv eoc T ex ((d :: m) :: H)) (hd : Dir eoc T ex h)
    (hp : (chain eoc T.next h).getLast? = some p) (hnext : T'.next = update T.next p d)
    (hnew : ∀ c ∈ d :: m, ∀ i, T'.content (some c, i) = .empty)
    (hcont : ∀ g τ, Dir eoc T ex g → τ.1 ∈ T.blocks eoc g → T'.content τ = T.content τ)
    (hdots : ∀ g, Dir eoc T ex g → g ≠ 0 → T.dots g → T'.dots g) :
    Inv eoc T' ex H ∧ chain eoc T'.next h = chain eoc T.next h ++ d :: m ∧ ∀ g, Dir eoc T ex g → Dir eoc T' ex g := by
  have hpair := pairwise_cons.mp hI.heldApart
  have hmH : d :: m ∈ (d :: m) :: H := mem_cons_self
  have hpmem : p ∈ chain eoc T.next h := mem_of_getLast? hp
  have hh : h ≠ 0 := by
    rintro rfl
    rw [chain_zero] at hpmem
    cases hpmem
  obtain ⟨g₀, σ₀, e₀, ho₀, hdir₀, rfl⟩ := hd.exists_owner hh
  obtain ⟨hlong, hchain⟩ := chain_extend (hI.sound g₀ σ₀ e₀ ho₀) hp (hI.held _ hmH)
    (hI.heldOwner _ hmH g₀ σ₀ e₀ ho₀).symm
  rw [← hnext] at hlong hchain
  have hkeep : ∀ l : List ℕ, p ∉ l → ∀ c ∈ l, T'.next c = T.next c := by
    intro l hl c hc
    rw [hnext]
    exact update_of_ne (fun hcp => hl (by rwa [← hcp])) _ _
  -- every other chain is as it was
  have hother : ∀ g τ e, Owner eoc T ex g τ e → τ ≠ σ₀ → ∀ c ∈ chain eoc T.next e.first, T'.next c = T.next c :=
    fun g τ e ho hne => hkeep _ (hI.apart g₀ σ₀ e₀ g τ e ho₀ ho (Ne.symm hne) hpmem)
  have hblocks_eq : ∀ g, Dir eoc T ex g → g ≠ e₀.first → T'.blocks eoc g = T.blocks eoc g := by
    intro g hg hge
    apply blocks_congr
    intro c hc
    apply hkeep (chain eoc T.next g) _ c hc
    intro hpg
    exact hge (hI.block_unique hg hd (mem_blocks_some.mpr hpg) (mem_blocks_some.mpr hpmem))
  have hblocks : ∀ g, Dir eoc T ex g → ∀ b ∈ T'.blocks eoc g, b ∈ T.blocks eoc g ∨ ∃ c ∈ d :: m, b = some c := by
    intro g hg b hb
    by_cases hge : g = e₀.first
    · subst hge
      rw [blocks_of_ne hh, hchain] at hb
      obtain ⟨c, hc, rfl⟩ := mem_map.mp hb
      rcases mem_append.mp hc with hc | hc
      · exact .inl (mem_blocks_some.mpr hc)
      · exact .inr ⟨c, hc, rfl⟩
    · rw [hblocks_eq g hg hge] at hb
      exact .inl hb
  have hreach : ∀ g, Dir eoc T ex g → Dir eoc T' ex g := by
    intro g hg
    refine hg.grow (fun k hk b hb => ?_) fun k τ e hk hτ he _ hne => ⟨(hcont k τ hk hτ).trans he, hne⟩
    by_cases hke : k = e₀.first
    · subst hke
      rw [blocks_of_ne hh] at hb ⊢
      rw [hchain, map_append]
      exact mem_append_left _ hb
    · rw [hblocks_eq k hk hke]
      exact hb
  refine ⟨?_, hchain, hreach⟩
  have hplace : ∀ g τ, Dir eoc T ex g → τ.1 ∈ T'.blocks eoc g → T'.content τ ≠ .empty →
      τ.1 ∈ T.blocks eoc g ∧ T'.content τ = T.content τ := by
    rintro g ⟨b, i⟩ hg hb hne
    rcases hblocks g hg b hb with hb' | ⟨c, hc, rfl⟩
    · exact ⟨hb', hcont g (b, i) hg hb'⟩
    · exact absurd (hnew c hc i) hne
  have hents : ∀ g τ e, Dir eoc T ex g → τ.1 ∈ T'.blocks eoc g → T'.content τ = .entry e →
      τ.1 ∈ T.blocks eoc g ∧ T.content τ = .entry e := by
    intro g τ e hg hb he
    obtain ⟨hb', heq⟩ := hplace g τ hg hb (by simp [he])
    exact ⟨hb', heq ▸ he⟩
  have hdir : ∀ g, Dir eoc T' ex g → Dir eoc T ex g := by
    intro g hg
    induction hg with
    | root => exact Dir.root
    | sub _ hb he hdir' hne ih =>
      obtain ⟨hb', he'⟩ := hents _ _ _ ih hb he
      exact Dir.sub ih hb' he' hdir' hne
  have howner : ∀ g τ e, Owner eoc T' ex g τ e → Owner eoc T ex g τ e := by
    intro g τ e ho
    obtain ⟨hb, he⟩ := hents g τ e (hdir g ho.dir) ho.block ho.ent
    exact ⟨hdir g ho.dir, hb, he, ho.ne⟩
  have hfirst : ∀ g e, Owner eoc T ex g σ₀ e → e = e₀ := fun g e ho => (hI.owner_unique ho ho₀).2
  constructor
  case cell => exact fun g τ e ho => hI.cell g τ e (howner g τ e ho)
  case sound =>
    intro g τ e ho
    have hto := howner g τ e ho
    by_cases hτ : τ = σ₀
    · subst hτ
      rw [hfirst g e hto, hchain]
      exact hlong
    · rw [chain_congr (hother g τ e hto hτ)]
      exact (hI.sound g τ e hto).congr (hother g τ e hto hτ)
  case dots =>
    intro g τ e ho hdir'
    obtain ⟨hne, hdot⟩ := hI.dots g τ e (howner g τ e ho) hdir'
    exact ⟨hne, hdots _ ((howner g τ e ho).sub hdir') hne hdot⟩
  case links =>
    intro g τ x hg hb hx
    obtain ⟨hb', heq⟩ := hplace g τ (hdir g hg) hb (by simp [hx])
    refine (hI.links g τ x (hdir g hg) hb' (heq ▸ hx)).imp_right fun hpar k ρ e ho => ?_
    exact hpar k ρ e (howner k ρ e ho)
  case apart =>
    intro g τ e g' τ' e' ho ho' hne
    have hto := howner g τ e ho
    have hto' := howner g' τ' e' ho'
    by_cases hτ : τ = σ₀ <;> by_cases hτ' : τ' = σ₀
    · exact absurd (hτ.trans hτ'.symm) hne
    · subst hτ
      rw [hfirst g e hto, hchain, chain_congr (hother g' τ' e' hto' hτ'), disjoint_append_left]
      exact ⟨hI.apart g₀ τ e₀ g' τ' e' ho₀ hto' hne, hI.heldOwner _ hmH g' τ' e' hto'⟩
    · subst hτ'
      rw [hfirst g' e' hto', hchain, chain_congr (hother g τ e hto hτ), disjoint_append_right]
      exact ⟨hI.apart g τ e g₀ τ' e₀ hto ho₀ hne, (hI.heldOwner _ hmH g τ e hto).symm⟩
    · rw [chain_congr (hother g τ e hto hτ), chain_congr (hother g' τ' e' hto' hτ')]
      exact hI.apart g τ e g' τ' e' hto hto' hne
  case held =>
    intro l hl
    have hl' : l ∈ (d :: m) :: H := mem_cons_of_mem _ hl
    exact (hI.held l hl').congr (hkeep l fun hpl => hI.heldOwner l hl' g₀ σ₀ e₀ ho₀ hpl hpmem)
  case heldApart => exact hpair.2
  case heldOwner =>
    intro l hl g τ e ho
    have hl' : l ∈ (d :: m) :: H := mem_cons_of_mem _ hl
    have hto := howner g τ e ho
    by_cases hτ : τ = σ₀
    · subst hτ
      rw [hfirst g e hto, hchain, disjoint_append_right]
      exact ⟨hI.heldOwner l hl' g₀ τ e₀ ho₀, (hpair.1 l hl).symm⟩
    · rw [chain_congr (hother g τ e hto hτ)]
      exact hI.heldOwner l hl' g τ e hto

end Inv

/-! ## Trees whose entries are known -/

/-- Of the place `σ` of the directory `g`: its entry is in the list, or its link leads to `g` or to the parent. -/
def isListed (owners : List (ℕ × Slot × Entry)) (g : ℕ) (σ : Slot) : Content → Prop
  | .empty => True
  | .entry e => (g, σ, e) ∈ owners
  | .link x => x = g ∨ ∀ o ∈ owners, o.2.2.dir = true → o.2.2.first = g → x = o.1

instance (owners : List (ℕ × Slot × Entry)) (g : ℕ) (σ : Slot) : ∀ c, Decidable (isListed owners g σ c)
  | .empty => instDecidableTrue
  | .entry _ => inferInstanceAs (Decidable (_ ∈ owners))
  | .link _ => inferInstanceAs (Decidable (_ ∨ _))

/-- The entries in the directories `dirs` are those in `owners`, with sound chains that are apart. -/
structure Listed (eoc : ℕ) (T : Tree) (dirs : List ℕ) (owners : List (ℕ × Slot × Entry)) : Prop where
  root : 0 ∈ dirs
  places : ∀ g ∈ dirs, ∀ σ : Slot, σ.1 ∈ T.blocks eoc g → isListed owners g σ (T.content σ)
  dirs : ∀ o ∈ owners, o.2.2.dir = true → o.2.2.first ∈ dirs ∧ o.2.2.first ≠ 0 ∧ T.dots o.2.2.first
  cell : ∀ o ∈ owners, o.2.2.first ≠ 0 → isCell eoc o.2.2.first
  linked : ∀ o ∈ owners, Linked eoc T.next (chain eoc T.next o.2.2.first)
  nodup : (owners.flatMap fun o => chain eoc T.next o.2.2.first).Nodup

namespace Listed

variable {dirs : List ℕ} {owners : List (ℕ × Slot × Entry)}

section

variable (hL : Listed eoc T dirs owners)

include hL

theorem dir (hd : Dir eoc T none h) : h ∈ dirs := by
  induction hd with
  | root => exact hL.root
  | @sub g σ e _ hb he hdir _ ih =>
    have hlisted := hL.places g ih σ hb
    rw [he] at hlisted
    exact (hL.dirs _ hlisted hdir).1

theorem owner (ho : Owner eoc T none h σ e) : (h, σ, e) ∈ owners := by
  have hlisted := hL.places h (hL.dir ho.dir) σ ho.block
  rwa [ho.ent] at hlisted

theorem inv : Inv eoc T none [] := by
  obtain ⟨hnodup, hpair⟩ := nodup_flatMap.mp hL.nodup
  constructor
  case cell => exact fun g σ e ho => hL.cell _ (hL.owner ho)
  case sound => exact fun g σ e ho => ⟨hL.linked _ (hL.owner ho), hnodup _ (hL.owner ho)⟩
  case dots => exact fun g σ e ho hdir => (hL.dirs _ (hL.owner ho) hdir).2
  case links =>
    intro g σ x hg hb hx
    have hlisted := hL.places g (hL.dir hg) σ hb
    rw [hx] at hlisted
    exact hlisted.imp_right fun hpar k τ e ho => hpar _ (hL.owner ho)
  case apart =>
    intro g σ e g' σ' e' ho ho' hne
    have hsymm : Std.Symm (Function.onFun List.Disjoint fun o : ℕ × Slot × Entry => chain eoc T.next o.2.2.first) :=
      ⟨fun _ _ h => List.Disjoint.symm h⟩
    exact hpair.forall (hL.owner ho) (hL.owner ho') fun heq => hne (Prod.mk.inj (Prod.mk.inj heq).2).1
  case held => simp
  case heldApart => exact List.Pairwise.nil
  case heldOwner => simp

end

end Listed

end Tree

end Orion.Lib
