import Orion.Xvfs.Proofs.AccountProofs

/-!
# Proofs: no block is lost

As long as no entry is lost, every block in use behind the root belongs to a file or directory that can be reached.
When all of them are removed, the count is the one of a formatted volume.
-/

namespace Orion.Xvfs

open Lib Vol

variable {v v' : Vol} {b c d total : UInt32} {i : ℕ} {e : FileEntry} {path name : Path} {data : Bytes} {size : UInt32}
  {r : Bool × Vol}

/-- Every block in use behind the root belongs to a live entry. -/
def Reclaimed (v : Vol) : Prop :=
  ∀ c : UInt32, 10 < c.toNat → c.toNat < v.sb.total_blocks.toNat → used v c = true →
    ∃ d i n, Dir v d ∧ view v d i = some n ∧ c ∈ n.owned

/-- A change of one slot loses no block, if what was in it is empty and each block in use belongs to the new entry, or
was in use and not of the old one. -/
theorem Reclaimed.put (hr : Reclaimed v) (hs : SlotChange v v' d i e)
    (hempty : ∀ {n c}, view v d i = some n → n.sub = some c → ∀ j, view v c j = none)
    (hmarks : ∀ c : UInt32, c.toNat < v.sb.total_blocks.toNat → used v' c = true →
      (∃ n, view v' d i = some n ∧ c ∈ n.owned) ∨ used v c = true ∧ ∀ n, view v d i = some n → c ∉ n.owned) :
    Reclaimed v' := by
  have hkeep : ∀ {d' i'}, Dir v d' → (d', i') ≠ (d, i) → view v' d' i' = view v d' i' := by
    intro d' i' hd' hne
    exact hs.view_of_ne hd' hne
  intro c hlow hhigh hused
  rw [hs.alike.total] at hhigh
  rcases hmarks c hhigh hused with ⟨n, hn, hc⟩ | ⟨hold, hother⟩
  · exact ⟨d, i, n, hs.dir.keep_self hkeep hempty, hn, hc⟩
  obtain ⟨d', i', n, hd', hn, hc⟩ := hr c hlow hhigh hold
  have hne : (d', i') ≠ (d, i) := by
    intro heq
    obtain ⟨rfl, rfl⟩ := Prod.mk.injEq .. ▸ heq
    exact hother n hn hc
  exact ⟨d', i', n, hd'.keep_of_some hkeep hempty hn, (hkeep hd' hne).trans hn, hc⟩

theorem view_dead (h : (v.slot d i).live = false) : view v d i = none := by
  unfold view nodeOf
  rw [h]
  simp

theorem SlotChange.view_live (hs : SlotChange v v' d i e) (hnew : NewNode v v' d i e) (hlive : e.live = true) :
    view v' d i = some ⟨if e.isDir then some e.start else none, [e.start]⟩ := by
  rw [hs.view_self, nodeOf_live hlive hs.new_link, blocks_of_size_le hnew.small]

theorem Reclaimed.new (hr : Reclaimed v) (hs : SlotChange v v' d i e) (hnew : NewNode v v' d i e)
    (hmarks : Marks v v' e.start true) (hsize : v.sb.total_blocks.toNat ≤ 32768)
    (hdead : (v.slot d i).live = false) (hlive : e.live = true) : Reclaimed v' := by
  have hnone := view_dead hdead
  refine hr.put hs ?_ ?_
  · intro n c hn
    rw [hnone] at hn
    cases hn
  · intro c hc hused
    rw [hmarks.marks (by omega)] at hused
    by_cases heq : c = e.start
    · exact .inl ⟨_, hs.view_live hnew hlive, by rw [heq]; exact List.mem_singleton_self _⟩
    rw [if_neg heq] at hused
    refine .inr ⟨hused, fun n hn => ?_⟩
    rw [hnone] at hn
    cases hn

section

variable (hi : Inv v) (hr : Reclaimed v)

include hi hr

theorem Reclaimed.overwrite (hs : SlotChange v v' d i e) (hnew : NewNode v v' d i e)
    (hsame : Same v v') (hsize : v.sb.total_blocks.toNat ≤ 32768)
    (hlive : (v.slot d i).live = true) (hfile : (v.slot d i).isDir = false)
    (he : e.live = true) (hstart : e.start = (v.slot d i).start) : Reclaimed v' := by
  obtain ⟨-, -, hn⟩ := hi.node hs.dir hs.idx hlive hs.old_link
  refine hr.put hs ?_ ?_
  · intro n c hn' hc
    obtain rfl := Option.some.inj (hn.symm.trans hn')
    rw [hfile] at hc
    cases hc
  · intro c hc hused
    rw [hsame.marks (by omega)] at hused
    by_cases heq : c = e.start
    · exact .inl ⟨_, hs.view_live hnew he, by rw [heq]; exact List.mem_singleton_self _⟩
    · refine .inr ⟨hused, fun n hn' hmem => ?_⟩
      obtain rfl := Option.some.inj (hn.symm.trans hn')
      exact heq ((List.mem_singleton.mp hmem).trans hstart.symm)

theorem Reclaimed.delete (hs : SlotChange v v' d i deletedEntry)
    (hmarks : Marks v v' (v.slot d i).start false) (hsize : v.sb.total_blocks.toNat ≤ 32768)
    (hlive : (v.slot d i).live = true) (hempty : (v.slot d i).isDir = true → ∀ j, view v (v.slot d i).start j = none) :
    Reclaimed v' := by
  obtain ⟨-, -, hn⟩ := hi.node hs.dir hs.idx hlive hs.old_link
  refine hr.put hs ?_ ?_
  · intro n c hn' hc
    obtain ⟨hdir, rfl⟩ := sub_eq_some hn' hc
    exact hempty hdir
  · intro c hc hused
    rw [hmarks.marks (by omega)] at hused
    by_cases heq : c = (v.slot d i).start
    · rw [if_pos heq] at hused
      cases hused
    rw [if_neg heq] at hused
    refine .inr ⟨hused, fun n hn' hmem => heq ?_⟩
    obtain rfl := Option.some.inj (hn.symm.trans hn')
    exact List.mem_singleton.mp hmem

theorem reclaimed_step (htotal : v.sb.total_blocks.toNat ≤ 32768) {op : Op}
    (hfits : Fits v op) (hreclaims : Reclaims v op) (h : step v op = some r) : Reclaimed r.2 := by
  obtain ⟨r', hr', hchange⟩ := step_change hi hfits
  obtain rfl := Option.some.inj (hr'.symm.trans h)
  cases hchange with
  | none => exact hr
  | new hs hnode hmarks _ hkeeps =>
    obtain ⟨hdead, hlive⟩ := hkeeps hreclaims
    exact hr.new hs hnode hmarks htotal hdead hlive
  | overwrite hs hnode hsame _ hlive hfile hstart =>
    exact hr.overwrite hi hs hnode hsame htotal hlive.1 hfile hlive.2 hstart
  | delete hs _ hlive hmarks hempty =>
    exact hr.delete hi hs (hmarks.resolve_left fun h => h.2 hreclaims) htotal hlive (hempty hreclaims)

end

theorem reclaimed_of_same_reads (hr : Reclaimed v) (halike : Alike v v')
    (hreads : ∀ c, v'.read_block c = v.read_block c) : Reclaimed v' := by
  intro c hlow hhigh hused
  rw [halike.total] at hhigh
  rw [used_of_same_reads halike hreads] at hused
  unfold Dir
  rw [view_of_same_reads halike hreads]
  exact hr c hlow hhigh hused

theorem clearBlocks_of_emptied (hi : Inv v) (hr : Reclaimed v) (htotal : v.sb.total_blocks.toNat ≤ 32768)
    (hempty : Emptied v) : clearBlocks v = v.sb.total_blocks.toNat - 11 := by
  have hnone : ∀ j, view v 10 j = none := by
    intro j
    have hj := hempty j
    rwa [hi.geom.root] at hj
  refine le_antisymm (clearBlocks_le hi.geom hi.root_used) ?_
  have hsub : Finset.Ico 11 v.sb.total_blocks.toNat ⊆ (Finset.range v.sb.total_blocks.toNat).filter
      (fun b => v.sb.data_start.toNat ≤ b ∧ used v (UInt32.ofNat b) = false) := by
    intro k hk
    obtain ⟨hlow, hhigh⟩ := Finset.mem_Ico.mp hk
    obtain ⟨hkeq, -⟩ := toNat_ofNat_block htotal hhigh
    have hten : (10 : UInt32).toNat = 10 := rfl
    refine Finset.mem_filter.mpr ⟨Finset.mem_range.mpr hhigh, ?_, Bool.eq_false_iff.mpr fun hused => ?_⟩
    · rw [hi.geom.data_start]
      omega
    -- its owner would be in a directory that can be reached, and only the root can
    obtain ⟨d, i, n, hd, hn, -⟩ := hr (UInt32.ofNat k) (by omega) (by omega) hused
    rw [reach_of_empty_root hnone hd, hnone i] at hn
    cases hn
  calc v.sb.total_blocks.toNat - 11 = (Finset.Ico 11 v.sb.total_blocks.toNat).card := (Nat.card_Ico _ _).symm
    _ ≤ clearBlocks v := Finset.card_le_card hsub

section Run

variable {s : Option Vol} {actions : List Action}

/-- What is kept by actions that lose no block. -/
def Kept (total : UInt32) (v : Vol) : Prop := State total v ∧ Counted v ∧ Reclaimed v

section

variable (hsize : total.toNat ≤ 32768)

include hsize

theorem kept_act {a : Action} (hk : Kept total v) (hfits : FitsAction (some v) a)
    (hclean : CleanRemount (some v) a) (hreclaims : ReclaimsAction (some v) a) :
    ∃ w, act (some v) a = some w ∧ Kept total w := by
  obtain ⟨hs, hc, hr⟩ := hk
  obtain ⟨w, hw, hs', hc'⟩ := counted_act hs hsize hfits hclean hc
  refine ⟨w, hw, hs', hc', ?_⟩
  rcases act_cases hs hfits with ⟨op, r, rfl, hop, hstep, hact, -⟩ | ⟨w', rfl, hact, -, halike, hreads, -⟩
  · obtain rfl := Option.some.inj (hact.symm.trans hw)
    exact reclaimed_step hs.inv hr (by rw [hs.blocks]; exact hsize) hop (hreclaims v rfl) hstep
  · obtain rfl := Option.some.inj (hact.symm.trans hw)
    exact reclaimed_of_same_reads hr halike hreads

theorem kept_throughout (hstart : ∃ u ∈ s, Kept total u)
    (hfits : EachStep act FitsAction s actions) (hclean : EachStep act CleanRemount s actions)
    (hreclaims : EachStep act ReclaimsAction s actions) :
    Throughout act (fun s => ∃ u ∈ s, Kept total u) s actions := by
  refine throughout_of_inv (J := fun s _ => ∃ u ∈ s, Kept total u) ?_ (fun _ _ h => h) hstart
    ((hfits.and hclean).and hreclaims)
  rintro s a as ⟨u, rfl, hk⟩ ⟨⟨hfit, hclean⟩, hreclaim⟩
  obtain ⟨w, hw, hk'⟩ := kept_act hsize hk hfit hclean hreclaim
  exact ⟨w, hw, hk'⟩

theorem Kept.free_of_emptied (hk : Kept total v) (hempty : Emptied v) :
    v.sb.free_blocks = (formatSuper total).free_blocks := by
  obtain ⟨hs, hc, hr⟩ := hk
  have hclear := clearBlocks_of_emptied hs.inv hr (by rw [hs.blocks]; exact hsize) hempty
  have htotal := hs.inv.geom.total
  rw [hs.blocks] at hclear htotal
  unfold Counted at hc
  apply UInt32.toNat_inj.mp
  rw [toNat_formatFree htotal, hc, hclear]

end

theorem reclaimed_of_clear (hi : Inv v) (hclear : clearBlocks v = v.sb.total_blocks.toNat - 11) : Reclaimed v := by
  have hsub : (Finset.range v.sb.total_blocks.toNat).filter
      (fun b => v.sb.data_start.toNat ≤ b ∧ used v (UInt32.ofNat b) = false) ⊆
        Finset.Ico 11 v.sb.total_blocks.toNat := clearBlocks_subset hi.geom hi.root_used
  have heq := Finset.eq_of_subset_of_card_le hsub (by rw [Nat.card_Ico]; exact hclear.ge)
  intro c hlow hhigh hused
  have hmem : c.toNat ∈ Finset.Ico 11 v.sb.total_blocks.toNat := Finset.mem_Ico.mpr ⟨hlow, hhigh⟩
  rw [← heq, Finset.mem_filter, UInt32.ofNat_toNat, hused] at hmem
  cases hmem.2.2

end Run

/-- The count of free blocks is right in memory exactly as long as the volume is not mounted again with blocks in use,
and back at its first value when everything is removed and nothing was lost; on the disk exactly as long as no block is
taken. -/
theorem free_blocks_accounting (dev : Device) (base_lba total : UInt32) (stack : Bytes)
    (ho : OnDevice dev base_lba total) (hsize : total.toNat ≤ 32768) (actions : List Action)
    (hfits : EachStep act FitsAction (formatted dev base_lba total stack) actions) :
    (Throughout act (fun s => ∃ u ∈ s, Counted u) (formatted dev base_lba total stack) actions ↔
      EachStep act CleanRemount (formatted dev base_lba total stack) actions) ∧
    (Throughout act (fun s => ∃ u ∈ s, Counted u ∧ CountedOnDisk u) (formatted dev base_lba total stack) actions ↔
      EachStep act TakesNone (formatted dev base_lba total stack) actions) ∧
    (EachStep act CleanRemount (formatted dev base_lba total stack) actions →
      EachStep act ReclaimsAction (formatted dev base_lba total stack) actions →
      Throughout act (fun s => ∃ u ∈ s, Emptied u → u.sb.free_blocks = (formatSuper total).free_blocks)
        (formatted dev base_lba total stack) actions) := by
  obtain ⟨v, hv, hs, hc, hclear⟩ := formatted_counted ho hsize stack
  refine ⟨counted_in_memory_iff hsize ⟨v, hv, hs, hc⟩ hfits,
    counted_on_disk_iff hsize ⟨v, hv, hs, hc, hclear⟩ hfits, ?_⟩
  intro hclean hreclaims
  have hr := reclaimed_of_clear hs.inv (by rw [hs.blocks]; exact hclear)
  refine (kept_throughout hsize ⟨v, hv, hs, hc, hr⟩ hfits hclean hreclaims).mono ?_
  rintro s ⟨u, hu, hk⟩
  exact ⟨u, hu, hk.free_of_emptied hsize⟩

/-- A volume with one block behind the root directory. -/
def tinyVolume : Option Vol := formatted smallDevice 0 12 fun _ => 0

theorem tinyVolume_onDevice : OnDevice smallDevice 0 12 := ⟨by decide, by decide, by decide⟩

/-- The fresh volume is mounted once more; then a file is made and removed again. -/
def roundTrip : List Action :=
  [.remount, .op (.createFile [slash, 0x61] (fun _ => 7) 3), .op (.rm [slash, 0x61])]

theorem free_blocks_accounting_tiny : Throughout act (fun s => ∃ u ∈ s, Counted u) tinyVolume roundTrip ∧
    ¬ Throughout act (fun s => ∃ u ∈ s, Counted u ∧ CountedOnDisk u) tinyVolume roundTrip ∧
    Throughout act (fun s => ∃ u ∈ s, Emptied u → u.sb.free_blocks = (formatSuper 12).free_blocks) tinyVolume
      roundTrip := by
  have hfits : EachStep act FitsAction tinyVolume roundTrip := by decide +kernel
  have hclean : EachStep act CleanRemount tinyVolume roundTrip := by decide +kernel
  have hreclaims : EachStep act ReclaimsAction tinyVolume roundTrip := by decide +kernel
  have htakes : ¬ EachStep act TakesNone tinyVolume roundTrip := by decide +kernel
  have haccount := free_blocks_accounting smallDevice 0 12 (fun _ => 0) tinyVolume_onDevice (by decide) roundTrip hfits
  exact ⟨haccount.1.mpr hclean, fun h => htakes (haccount.2.1.mp h), haccount.2.2 hclean hreclaims⟩

def makeFile : Op := .createFile [slash, 0x61] (fun _ => 7) 3

def emptyFile : List Action := [.op (.createFile [slash, 0x61] (fun _ => 7) 0), .op (.rm [slash, 0x61])]

/-- One file makes the count on the disk wrong, the next mount the one in memory, and an empty file keeps its block. -/
theorem free_blocks_lost : (∃ u ∈ exec act tinyVolume [.op makeFile], ¬ CountedOnDisk u) ∧
    (∃ u ∈ exec act tinyVolume [.op makeFile, .remount], ¬ Counted u) ∧
    ∃ u ∈ exec act tinyVolume emptyFile, Emptied u ∧ u.sb.free_blocks ≠ (formatSuper 12).free_blocks := by
  obtain ⟨v, hv, hs, hc, hclear⟩ := formatted_counted tinyVolume_onDevice (by decide) fun _ => 0
  have htakes : ∀ u ∈ tinyVolume, Fits u makeFile ∧ takesBlock u makeFile = true := by decide +kernel
  obtain ⟨hop, htakes⟩ := htakes v hv
  obtain ⟨r, hr, hs'⟩ := hs.step hop
  have hused : clearBlocks r.2 ≠ (12 : UInt32).toNat - 11 := by
    rw [ne_eq, hs.clear_step_iff (by decide) hop hclear hr hs', htakes]
    decide
  have hmade : exec act tinyVolume [.op makeFile] = some r.2 := by
    have hstart : tinyVolume = some v := hv
    rw [hstart, exec_cons, exec_nil, act_op hr]
  refine ⟨⟨r.2, hmade, fun hdisk => hused (hs'.countedOnDisk_iff.mp hdisk)⟩, ?_, ?_⟩
  · obtain ⟨w, hw, -, halike, hreads, hfree⟩ := hs'.remount
    have hmounted : exec act (exec act tinyVolume [.op makeFile]) [.remount] = some w := by
      rw [hmade, exec_cons, exec_nil]
      exact hw
    rw [← exec_append] at hmounted
    exact ⟨w, hmounted, fun hcount => hused ((counted_of_remount hs' halike hreads hfree).mp hcount)⟩
  · obtain ⟨u, hu⟩ := Option.isSome_iff_exists.mp (by decide +kernel : (exec act tinyVolume emptyFile).isSome = true)
    have hleft : ∀ u ∈ exec act tinyVolume emptyFile, (∀ i < XVFS_MAX_FILES, view u u.root i = none) ∧
        u.sb.free_blocks ≠ (formatSuper 12).free_blocks := by
      decide +kernel
    obtain ⟨hempty, hfree⟩ := hleft u hu
    refine ⟨u, hu, fun i => ?_, hfree⟩
    by_cases hi : i < XVFS_MAX_FILES
    · exact hempty i hi
    · exact if_neg hi

end Orion.Xvfs
