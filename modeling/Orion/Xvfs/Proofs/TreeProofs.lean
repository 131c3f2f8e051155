import Orion.Xvfs.Proofs.BlockProofs

/-!
# The directory forest of an XVFS volume

Every live entry stands for one marked block of its own, and the links of a directory lead to itself and to its parent.
`Inv.put` is the one rule by which the operations keep this.
-/

namespace Orion.Xvfs

open Lib Vol List

abbrev Dir (v : Vol) (d : UInt32) : Prop := Reach (view v) 10 d

/-- A data block of the volume that the bitmap shows as used. -/
structure Good (v : Vol) (b : UInt32) : Prop where
  low : 10 < b.toNat
  high : b.toNat < v.sb.total_blocks.toNat
  bitmap : b.toNat < 32768
  used : used v b = true

/-- A dot entry of `c` leads to `b`. -/
def up (v : Vol) (c b : UInt32) : Prop :=
  ∃ i < XVFS_MAX_FILES, dotLink v c (entryAt (v.read_block c) i) = true ∧
    (entryAt (v.read_block c) i).start = b

/-- The directory has the dot entry. -/
def HasLink (v : Vol) (c : UInt32) (name : Path) : Prop :=
  ∃ i < XVFS_MAX_FILES, dotLink v c (entryAt (v.read_block c) i) = true ∧
    (entryAt (v.read_block c) i).named name = true

/-- The invariant of a run. -/
structure Inv (v : Vol) : Prop where
  geom : Geometry v
  owned : Owned (view v) 10 [10]
  single : ∀ {d i n}, Dir v d → view v d i = some n → ∃ b, n.owned = [b] ∧ Good v b
  root_used : used v 10 = true
  links : Upward (view v) 10 (up v)
  dots : ∀ {p i n c}, Dir v p → view v p i = some n → n.sub = some c →
    HasLink v c dotName ∧ HasLink v c dotdotName

variable {v v' : Vol} {b c d : UInt32} {i : Nat} {e : FileEntry} {n : Node UInt32} {d' : UInt32}

theorem Geometry.root (hg : Geometry v) : v.root = 10 := hg.data_start

theorem blocks_eq_cons (e : FileEntry) : ∃ rest, e.blocks = e.start :: rest := by
  unfold FileEntry.blocks
  obtain ⟨k, hk⟩ : ∃ k, e.blockCount = k + 1 := ⟨e.blockCount - 1, by unfold FileEntry.blockCount; omega⟩
  rw [hk, range_succ_eq_map, map_cons]
  exact ⟨_, by rw [show e.start + UInt32.ofNat 0 = e.start from UInt32.add_zero _]⟩

theorem blocks_of_size_le (h : e.size.toNat ≤ 512) : e.blocks = [e.start] := by
  have hcount : e.blockCount = 1 := by
    unfold FileEntry.blockCount
    omega
  unfold FileEntry.blocks
  rw [hcount]
  exact congrArg (· :: []) (UInt32.add_zero _)

theorem view_eq (hidx : i < XVFS_MAX_FILES) (d : UInt32) :
    view v d i = nodeOf v d (entryAt (v.read_block d) i) := if_pos hidx

theorem view_some (h : view v d i = some n) : i < XVFS_MAX_FILES ∧ (entryAt (v.read_block d) i).live = true ∧
      dotLink v d (entryAt (v.read_block d) i) = false ∧
      n = ⟨if (entryAt (v.read_block d) i).isDir then some (entryAt (v.read_block d) i).start else none,
        (entryAt (v.read_block d) i).blocks⟩ := by
  unfold view at h
  split at h
  · rename_i hidx
    unfold nodeOf at h
    split at h
    · rename_i hlive
      simp only [Bool.and_eq_true, Bool.not_eq_eq_eq_not, Bool.not_true] at hlive
      exact ⟨hidx, hlive.1, hlive.2, (Option.some.inj h).symm⟩
    · cases h
  · cases h

theorem nodeOf_live (hlive : e.live = true) (hlink : dotLink v d e = false) :
    nodeOf v d e = some ⟨if e.isDir then some e.start else none, e.blocks⟩ := by
  unfold nodeOf
  rw [if_pos (by rw [hlive, hlink]; rfl)]

theorem sub_eq_some (h : view v d i = some n) (hc : n.sub = some c) :
    (entryAt (v.read_block d) i).isDir = true ∧ (entryAt (v.read_block d) i).start = c := by
  obtain ⟨-, -, -, rfl⟩ := view_some h
  split at hc
  · rename_i hdir
    exact ⟨hdir, Option.some.inj hc⟩
  · cases hc

section

variable (hi : Inv v)

include hi

theorem Inv.single_sub (hd : Dir v d) (hn : view v d i = some n) (hc : n.sub = some c) : n.owned = [c] ∧ Good v c := by
  obtain ⟨b, hb, hgood⟩ := hi.single hd hn
  have hmem := hi.owned.head hd hn hc
  rw [hb] at hmem
  obtain rfl := mem_singleton.mp hmem
  exact ⟨hb, hgood⟩

theorem Inv.reach_cases (hc : Dir v c) : c = 10 ∨ Good v c := by
  cases hc with
  | root => exact .inl rfl
  | sub hd hn hc => exact .inr (hi.single_sub hd hn hc).2

theorem Inv.reach_bounds (hc : Dir v c) :
    10 ≤ c.toNat ∧ c.toNat < v.sb.total_blocks.toNat ∧ c.toNat < 32768 ∧ used v c = true := by
  rcases hi.reach_cases hc with rfl | hgood
  · have htotal := hi.geom.total
    exact ⟨le_rfl, htotal, by decide, hi.root_used⟩
  · exact ⟨hgood.low.le, hgood.high, hgood.bitmap, hgood.used⟩

theorem Inv.reach_readable (hc : Dir v c) : v.readable c = true :=
  hi.geom.readable (hi.reach_bounds hc).2.1

theorem Inv.start_not_reach (hd : Dir v d) (hn : view v d i = some n)
    (hsub : n.sub = none) (hb : b ∈ n.owned) : ¬Dir v b := by
  intro hr
  obtain ⟨b', hb', hgood⟩ := hi.single hd hn
  rw [hb'] at hb
  obtain rfl := mem_singleton.mp hb
  cases hr with
  | root => exact absurd hgood.low (by decide)
  | sub hp hn' hc =>
    have howned := (hi.single_sub hp hn' hc).1
    have heq := hi.owned.slot_unique hd hp hn hn' (b := b) (by rw [hb']; simp) (by rw [howned]; simp)
    obtain ⟨rfl, rfl⟩ := Prod.mk.injEq .. ▸ heq
    rw [hn] at hn'
    obtain rfl := Option.some.inj hn'
    rw [hsub] at hc
    cases hc

theorem Inv.not_owned (hfree : used v b = false) (hd : Dir v d) (hn : view v d i = some n) : b ∉ n.owned := by
  intro hmem
  obtain ⟨b', hb', hgood⟩ := hi.single hd hn
  rw [hb'] at hmem
  obtain rfl := mem_singleton.mp hmem
  rw [hgood.used] at hfree
  cases hfree

end

/-- The block of a directory that was just made in `p`. -/
structure FreshDir (v : Vol) (c p : UInt32) : Prop where
  dot : entryAt (v.read_block c) 0 = dirEntry dotName c
  dotdot : entryAt (v.read_block c) 1 = dirEntry dotdotName p
  rest : ∀ {j}, 2 ≤ j → j < XVFS_MAX_FILES → (entryAt (v.read_block c) j).live = false

/-- The entry `e` was put into the slot `(d, i)`, which never holds a link; the other directories and marks stay. -/
structure SlotChange (v v' : Vol) (d : UInt32) (i : Nat) (e : FileEntry) : Prop where
  alike : Alike v v'
  dir : Dir v d
  idx : i < XVFS_MAX_FILES
  here : v'.read_block d = putEntry (v.read_block d) i e
  name : e.name.length = 16
  others : ∀ {c}, Dir v c → c ≠ d → v'.read_block c = v.read_block c
  old_link : dotLink v d (entryAt (v.read_block d) i) = false
  new_link : dotLink v d e = false
  marks : ∀ {d' i' n b}, Dir v d' → view v d' i' = some n → (d', i') ≠ (d, i) →
    b ∈ n.owned → used v' b = true
  root_mark : used v' 10 = true

/-- What a live entry in the changed slot has to satisfy. -/
structure NewNode (v v' : Vol) (d : UInt32) (i : Nat) (e : FileEntry) : Prop where
  good : Good v' e.start
  small : e.size.toNat ≤ 512
  fresh : ∀ {d' i' n}, Dir v d' → view v d' i' = some n → (d', i') ≠ (d, i) →
    e.start ∉ n.owned
  dir : e.isDir = true → FreshDir v' e.start d

theorem Alike.root (h : Alike v v') : v'.root = v.root := h.data_start

theorem Alike.dotLink (h : Alike v v') (d : UInt32) (e : FileEntry) : dotLink v' d e = dotLink v d e := by
  unfold Xvfs.dotLink
  rw [h.root]

theorem Alike.nodeOf (h : Alike v v') (d : UInt32) (e : FileEntry) : nodeOf v' d e = nodeOf v d e := by
  unfold Xvfs.nodeOf
  rw [h.dotLink]

section

variable (hs : SlotChange v v' d i e)

include hs

theorem SlotChange.entry_self : entryAt (v'.read_block d) i = e := by
  rw [hs.here]
  exact entryAt_putEntry_self hs.name

theorem SlotChange.entry_of_ne {i' : Nat} (hd' : Dir v d') (hne : (d', i') ≠ (d, i)) :
    entryAt (v'.read_block d') i' = entryAt (v.read_block d') i' := by
  by_cases hd : d' = d
  · subst hd
    rw [hs.here]
    exact entryAt_putEntry_of_ne fun h => hne (by rw [h])
  · rw [hs.others hd' hd]

theorem SlotChange.view_of_ne {i' : Nat} (hd' : Dir v d') (hne : (d', i') ≠ (d, i)) : view v' d' i' = view v d' i' := by
  unfold view
  rw [hs.entry_of_ne hd' hne, hs.alike.nodeOf]

theorem SlotChange.view_self : view v' d i = nodeOf v d e := by
  rw [view_eq hs.idx, hs.entry_self, hs.alike.nodeOf]

end

theorem FreshDir.entries (hf : FreshDir v' c d) {j : Nat} (hj : j < XVFS_MAX_FILES) :
    entryAt (v'.read_block c) j = dirEntry dotName c ∨ entryAt (v'.read_block c) j = dirEntry dotdotName d ∨
      (entryAt (v'.read_block c) j).live = false := by
  rcases j with _ | _ | j
  · exact .inl hf.dot
  · exact .inr (.inl hf.dotdot)
  · exact .inr (.inr (hf.rest (by omega) hj))

theorem dotLink_dirEntry {name : Path} (hc : c ≠ v.root) (hname : name = dotName ∨ name = dotdotName)
    (b : UInt32) : dotLink v c (dirEntry name b) = true ∧ (dirEntry name b).named name = true := by
  have hroot : (decide (c ≠ v.root)) = true := decide_eq_true hc
  have hdir : (dirEntry name b).isDir = true := by
    change decide ((1 : UInt8) &&& 1 ≠ 0) = true
    decide
  -- the rest only looks at the name
  have hnamed : ∀ t, (dirEntry name b).named t = strncmpEq XVFS_MAX_NAME (strncpy 16 name) t := fun _ => rfl
  have hlive : (dirEntry name b).live =
      (decide ((strncpy 16 name).headD 0 ≠ 0) && decide ((strncpy 16 name).headD 0 ≠ 0xE5)) := rfl
  unfold dotLink
  rw [hroot, hdir, hlive, hnamed, hnamed, hnamed]
  rcases hname with rfl | rfl <;> decide

theorem FreshDir.view_none (hf : FreshDir v' c d) (hc : c ≠ v'.root) (j : Nat) : view v' c j = none := by
  by_cases hj : j < XVFS_MAX_FILES
  · rw [view_eq hj]
    unfold nodeOf
    rcases hf.entries hj with h | h | h
    · rw [h, (dotLink_dirEntry hc (.inl rfl) c).1]
      simp
    · rw [h, (dotLink_dirEntry hc (.inr rfl) d).1]
      simp
    · rw [h]
      simp
  · exact if_neg hj

theorem FreshDir.up_cases (hf : FreshDir v' c d) (hup : up v' c b) : b = c ∨ b = d := by
  obtain ⟨j, hj, hlink, rfl⟩ := hup
  rcases hf.entries hj with h | h | h
  · rw [h]
    exact .inl rfl
  · rw [h]
    exact .inr rfl
  · unfold dotLink at hlink
    rw [h] at hlink
    simp at hlink

theorem FreshDir.hasLinks (hf : FreshDir v' c d) (hc : c ≠ v'.root) :
    HasLink v' c dotName ∧ HasLink v' c dotdotName := by
  refine ⟨⟨0, by decide, ?_⟩, ⟨1, by decide, ?_⟩⟩
  · rw [hf.dot]
    exact dotLink_dirEntry hc (.inl rfl) c
  · rw [hf.dotdot]
    exact dotLink_dirEntry hc (.inr rfl) d

/-- An operation that last writes the directory `d`: before that, only the block `b`, which no other slot owns, and its
mark may have changed. -/
theorem slotChange_of_near {v1 : Vol} (hi : Inv v) (hnear : Near v v1 b)
    (hread : ∀ {c}, Dir v c → c ≠ d → v1.read_block c = v.read_block c)
    (hb : b ≠ 10) (hothers : ∀ {d' i' n}, Dir v d' → view v d' i' = some n →
      (d', i') ≠ (d, i) → b ∉ n.owned)
    (hd : Dir v d) (hidx : i < XVFS_MAX_FILES) (hname : e.name.length = 16)
    (hold : dotLink v d (entryAt (v.read_block d) i) = false) (hlink : dotLink v d e = false) :
    SlotChange v (v1.write_block d (putEntry (v.read_block d) i e)) d i e := by
  obtain ⟨hlow, hhigh, -, -⟩ := hi.reach_bounds hd
  have hg1 := hi.geom.alike hnear.alike
  have hmark : ∀ {c : UInt32} {buf : Bytes}, c.toNat < 32768 → c ≠ b → used v c = true →
      used (v1.write_block d buf) c = true := by
    intro c buf hc hne hu
    rw [used_write hg1 hlow hc, hnear.marks hc hne]
    exact hu
  refine ⟨hnear.alike.trans (alike_write_block _ _ _), hd, hidx, ?_, hname, ?_, hold, hlink, ?_, ?_⟩
  · refine read_write_self ?_
    rw [hnear.alike.readable]
    exact hi.geom.readable hhigh
  · intro c hc hne
    rw [read_write_of_ne hne]
    exact hread hc hne
  · intro d' i' n c hd' hn hne hc
    obtain ⟨b', hb', hgood⟩ := hi.single hd' hn
    have hcb : c ≠ b := fun h => hothers hd' hn hne (h ▸ hc)
    rw [hb'] at hc
    obtain rfl := mem_singleton.mp hc
    exact hmark hgood.bitmap hcb hgood.used
  · exact hmark (by decide) (Ne.symm hb) hi.root_used

section Change

variable (hi : Inv v) (hs : SlotChange v v' d i e) (hnew : e.live = true → NewNode v v' d i e)

include hs hnew in
theorem SlotChange.new_node (hn : view v' d i = some n) :
    NewNode v v' d i e ∧ n = ⟨if e.isDir then some e.start else none, [e.start]⟩ := by
  rw [hs.view_self] at hn
  unfold nodeOf at hn
  split at hn
  · rename_i hlive
    have hN := hnew (Bool.and_eq_true_iff.mp hlive).1
    refine ⟨hN, ?_⟩
    rw [← Option.some.inj hn, blocks_of_size_le hN.small]
  · cases hn

include hi hs hnew

theorem SlotChange.new_dir (hn : view v' d i = some n) (hc : n.sub = some c) :
    FreshDir v' c d ∧ Good v' c ∧ c ≠ v'.root := by
  obtain ⟨hN, rfl⟩ := hs.new_node hnew hn
  split at hc
  · rename_i hdir
    obtain rfl := Option.some.inj hc
    refine ⟨hN.dir hdir, hN.good, fun hroot => ?_⟩
    have hlow := hN.good.low
    rw [hroot, hs.alike.root, hi.geom.root] at hlow
    exact absurd hlow (by decide)
  · cases hc

theorem SlotChange.put : Put (view v) (view v') 10 d i where
  dir := hs.dir
  keep hd' hn hne := by
    rw [hs.view_of_ne hd' hne] at hn
    exact hn
  sub hn hc := by
    obtain ⟨hf, -, hroot⟩ := hs.new_dir hi hnew hn hc
    exact .inr fun j => hf.view_none hroot j

theorem SlotChange.cases {i' : Nat} (hr : Dir v' d') (hn : view v' d' i' = some n) :
    (d' = d ∧ i' = i) ∨ (Dir v d' ∧ (d', i') ≠ (d, i) ∧ view v d' i' = some n) := by
  obtain ⟨hd', heq | ⟨hne, hold⟩⟩ := (hs.put hi hnew).node hr hn
  · exact .inl (Prod.mk.injEq .. ▸ heq)
  · exact .inr ⟨hd', hne, hold⟩

theorem Inv.put : Inv v' := by
  have hput := hs.put hi hnew
  refine ⟨hi.geom.alike hs.alike, hi.owned.put hput ?_, ?_, hs.root_mark, ?_, ?_⟩
  · intro n hn
    obtain ⟨hN, rfl⟩ := hs.new_node hnew hn
    refine ⟨⟨fun hd' hn' hne => ?_, ?_⟩, fun c hc => ?_⟩
    · exact singleton_disjoint.mpr (hN.fresh hd' hn' hne)
    · refine singleton_disjoint.mpr ?_
      intro hmem
      have hlow := hN.good.low
      rw [← mem_singleton.mp hmem] at hlow
      exact absurd hlow (by decide)
    · dsimp only at hc
      split at hc
      · rw [← Option.some.inj hc]
        exact mem_singleton_self _
      · cases hc
  · intro d' i' n hr hn
    rcases hs.cases hi hnew hr hn with ⟨rfl, rfl⟩ | ⟨hd', hne, hold⟩
    · obtain ⟨hN, rfl⟩ := hs.new_node hnew hn
      exact ⟨e.start, rfl, hN.good⟩
    obtain ⟨b, hb, hgood⟩ := hi.single hd' hold
    refine ⟨b, hb, hgood.low, ?_, hgood.bitmap, hs.marks hd' hold hne (by rw [hb]; simp)⟩
    rw [hs.alike.total]
    exact hgood.high
  · refine hi.links.put hput ?_ ?_
    · rintro c b hc ⟨j, hj, hlink, hstart⟩
      have hne : (c, j) ≠ (d, i) := by
        rintro heq
        obtain ⟨rfl, rfl⟩ := Prod.mk.injEq .. ▸ heq
        rw [hs.entry_self, hs.alike.dotLink, hs.new_link] at hlink
        cases hlink
      rw [hs.entry_of_ne hc hne] at hlink hstart
      rw [hs.alike.dotLink] at hlink
      exact ⟨j, hj, hlink, hstart⟩
    · intro n c b hn hc _ hup
      exact (hs.new_dir hi hnew hn hc).1.up_cases hup
  · intro p j n c hr hn hc
    rcases hs.cases hi hnew hr hn with ⟨rfl, rfl⟩ | ⟨hp, hne, hold⟩
    · obtain ⟨hf, -, hroot⟩ := hs.new_dir hi hnew hn hc
      exact hf.hasLinks hroot
    -- the links of an old directory are in other slots than the changed one
    have hkeep : ∀ {name}, HasLink v c name → HasLink v' c name := by
      rintro name ⟨k, hk, hlink, hnamed⟩
      have hcr : Dir v c := hp.sub hold hc
      have hne' : (c, k) ≠ (d, i) := by
        intro heq
        obtain ⟨rfl, rfl⟩ := Prod.mk.injEq .. ▸ heq
        rw [hs.old_link] at hlink
        cases hlink
      refine ⟨k, hk, ?_, ?_⟩
      · rw [hs.entry_of_ne hcr hne', hs.alike.dotLink]
        exact hlink
      · rw [hs.entry_of_ne hcr hne']
        exact hnamed
    obtain ⟨h1, h2⟩ := hi.dots hp hold hc
    exact ⟨hkeep h1, hkeep h2⟩

end Change

end Orion.Xvfs
