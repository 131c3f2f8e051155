import Orion.Fat16.Proofs.OwnershipProofs

/-!
# When a failed overwrite does no harm

A write that fails has released the clusters of the file and taken every cluster that was free then.
-/

namespace Orion.Fat16

open Lib Fat

variable {v w : Vol} {ex : Option Slot} {h n : ℕ} {path name data : List UInt8} {item : Item}

theorem dirSlots_keeps (hk : Keeps v w ex) (hd : IsDir v ex h) : dirSlots w h = dirSlots v h := by
  have hblocks : dirSlots w h = w.places ((tree v).blocks eoc h) := congrArg w.places (hk.blocks hd)
  rw [hblocks]
  exact Vol.places_congr (funext hk.width) _

theorem find_entry_slot_keeps (hk : Keeps v w ex) (hd : IsDir v ex h) :
    find_entry_slot w h name = find_entry_slot v h name := by
  unfold find_entry_slot
  rw [dirSlots_keeps hk hd]
  apply find_entry_slot_congr
  intro σ hσ
  exact hk.raw hd (mem_dirSlots.mp hσ).1

theorem findFrom_keeps {H : List (List ℕ)} (hs : Tree.Inv eoc (tree v) none H) (hk : Keeps v w ex)
    (hex : ∀ g, IsDir v none g → IsDir v ex g) (hd : IsDir v none h) (tokens : List (List UInt8)) :
    findFrom w h tokens = findFrom v h tokens := by
  induction tokens generalizing h with
  | nil => rfl
  | cons token tokens ih =>
    have hfind : find_entry_slot w h token = find_entry_slot v h token := find_entry_slot_keeps hk (hex h hd)
    rcases tokens with _ | ⟨next, tokens⟩
    · exact hfind
    unfold findFrom
    rw [hfind]
    rcases hitem : find_entry_slot v h token with _ | item
    · rfl
    dsimp only
    cases hdir : isDirectory item.entry with
    | false => rfl
    | true => exact ih (dir_of_found hs hd hitem hdir)

theorem read_file_by_name_eq (hread : find_file_path w path = some item) (max_size : ℕ) :
    read_file_by_name w path max_size =
      if noCluster (firstLow item.entry) then none else read_file w item.entry 0 max_size := by
  unfold read_file_by_name
  rw [hread]

theorem read_file_one {r : Bytes} (hcell : isCell eoc (firstLow r)) (hsize : fileSize r ≠ 0) (hspc : 0 < w.spc) :
    read_file w r 0 1 = some [w.area (some (firstLow r)) 0] := by
  have h0 : firstLow r ≠ 0 := by
    have h2 := hcell.1
    omega
  have hcopy : min 1 (w.clusterSize - 0) = 1 := by
    have hpos : 0 < w.clusterSize := Nat.mul_pos hspc (by omega)
    omega
  have hone : min 1 (fileSize r - 0) = 1 := by omega
  unfold read_file
  rw [if_neg h0, if_neg (by omega), hone, Nat.zero_div, Nat.zero_mod]
  simp only [skipClusters, readLoop, skipCells, readCells, if_pos (show firstLow r < eoc ∧ 1 > 0 from ⟨hcell.2, by omega⟩), hcopy]
  rfl

theorem WellFormed.resolve_dir (hv : WellFormed v) (hne : resolve_dir v path ≠ 0xFFFF) : IsDir v none (resolve_dir v path) :=
  resolve_dir_dir hv.sound hv.cwd hne

abbrev fileChain (v : Vol) (item : Item) : List ℕ := chain eoc v.fat (firstLow item.entry)

/-- The volume once the old chain is freed. -/
abbrev released (v : Vol) (item : Item) : Vol := freed true v (fileChain v item)

/-- The volume after the loop that writes the data. -/
abbrev attempted (v : Vol) (item : Item) (data : List UInt8) : Vol :=
  (writeLoop data.length 0 data (released v item)).2.2

namespace ExistingFile

theorem write_file_eq (hf : ExistingFile v path item) (mem : ℕ → Bool) (depth : ℕ) (data : List UInt8) :
    write_file mem depth v path data = overwrite v item data := by
  have hdir := hf.dir
  have hwrite := hf.write
  unfold write_file
  generalize split_path path = parts at hdir hwrite ⊢
  obtain ⟨dir, fname⟩ := parts
  dsimp only at hdir hwrite ⊢
  rw [if_neg hdir, hwrite]
  dsimp only
  rw [hf.file]
  rfl

variable (hv : WellFormed v) (hf : ExistingFile v path item)

include hv hf

theorem owner : Tree.Owner eoc (tree v) none (resolve_dir v (split_path path).1) item.slot
    ⟨firstLow item.entry, isDirectory item.entry, fileSize item.entry⟩ := by
  apply owner_of_found (hv.resolve_dir hf.dir) hf.write
  intro _ hdir
  rw [hf.file] at hdir
  cases hdir

theorem freeChain_eq_released : freeChain true eoc (firstLow item.entry) v = released v item :=
  freeChain_eq true (hv.sound.sound _ _ _ (hf.owner hv))

theorem mem_freeClusters_released {c : ℕ} :
    c ∈ freeClusters (released v item) ↔ c ∈ freeClusters v ∨ c ∈ fileChain v item := by
  rw [mem_freeClusters, mem_freeClusters]
  show 2 ≤ c ∧ c < v.fatLen ∧ clear v.fat (fileChain v item) c = 0 ↔ _
  by_cases hc : c ∈ fileChain v item
  · have hcell := (hv.sound.sound _ _ _ (hf.owner hv)).linked.isCell hc
    have hlt := hv.inTable item.slot _ ⟨_, hf.owner hv⟩ c hc
    simp only [clear_of_mem hc, hc, or_true, iff_true]
    exact ⟨hcell.1, hlt, trivial⟩
  · rw [clear_of_notMem hc]
    simp only [hc, or_false]

theorem keeps (data : List UInt8) : Keeps v (attempted v item data) (some item.slot) := by
  obtain ⟨hrest, -⟩ := writeLoop_continues data.length data (v := released v item) (p := 0) (.inl rfl)
  have hsound := hv.sound.exclude (hf.owner hv)
  refine ⟨hrest.spc, hrest.rootLen, hrest.root, ?_⟩
  intro g σ e ho c hc
  have hcell := (hsound.sound _ _ _ ho).linked.isCell hc
  have hused : v.fat c ≠ 0 := hsound.next_ne_zero ho hc
  have hnot : c ∉ fileChain v item := fun hmem => hsound.heldOwner _ List.mem_cons_self g σ e ho hmem hc
  have hfat : (released v item).fat c = v.fat c := clear_of_notMem hnot
  have harea : (released v item).area (some c) = v.area (some c) := if_neg hnot
  have hstill : (released v item).fat c ≠ 0 := by
    rw [hfat]
    exact hused
  have hc0 : c ≠ 0 := by
    have hc2 := hcell.1
    omega
  exact ⟨(hrest.fat c hstill hc0).trans hfat, (hrest.area c hstill).trans harea⟩

theorem find_attempted (data : List UInt8) : find_file_path (attempted v item data) path = some item := by
  have hcwd : (attempted v item data).cwd = v.cwd :=
    (writeLoop_continues data.length data (v := released v item) (p := 0) (.inl rfl)).2.2.1
  have hstart : startDir (attempted v item data) path = startDir v path := by
    unfold startDir
    rw [hcwd]
  rw [← hf.read]
  unfold find_file_path
  rw [hstart]
  apply findFrom_keeps hv.sound (hf.keeps hv data) _ (startDir_dir hv.cwd path)
  intro g hg
  exact dir_without_file (hf.owner hv).ent hf.file hg

theorem enough_iff (data : List UInt8) :
    Enough v item data.length ↔ (writeLoop data.length 0 data (released v item)).2.1 = true := by
  unfold Enough
  rw [hf.freeChain_eq_released hv]
  exact (writeLoop_ok_iff (v := released v item) le_rfl hv.spc.1 (.inl rfl)).symm

theorem overwrite_of_not_enough (hno : ¬ Enough v item data.length) :
    overwrite v item data = (-1, attempted v item data) := by
  rw [hf.enough_iff hv, Bool.not_eq_true] at hno
  unfold overwrite attempted
  rw [hf.freeChain_eq_released hv]
  dsimp only
  generalize writeLoop data.length 0 data (released v item) = res at hno ⊢
  obtain ⟨l, ok, w⟩ := res
  obtain rfl : ok = false := hno
  rfl

theorem asInt_of_enough (henough : Enough v item n) : asInt n ≠ -1 := by
  unfold Enough at henough
  rw [hf.freeChain_eq_released hv] at henough
  have hcells : ((freeClusters (released v item)).filter (· < eoc)).card ≤ (Finset.range eoc).card := by
    apply Finset.card_le_card
    intro c hc
    exact Finset.mem_range.mpr (Finset.mem_filter.mp hc).2
  have hcard := (card_of_canTake henough).trans hcells
  rw [Finset.card_range] at hcard
  have hsize : v.clusterSize ≤ 128 * 512 := Nat.mul_le_mul_right 512 hv.spc.2
  have hpos : 0 < v.clusterSize := Nat.mul_pos hv.spc.1 (by omega)
  have hceil := Nat.lt_mul_div_succ (n + v.clusterSize - 1) hpos
  rw [Nat.mul_succ] at hceil
  have hbytes : v.clusterSize * ((n + v.clusterSize - 1) / v.clusterSize) ≤ 128 * 512 * eoc :=
    Nat.mul_le_mul hsize hcard
  have hbound : 128 * 512 * eoc < 2 ^ 32 - 1 := by decide
  unfold asInt
  split <;> omega

theorem overwrite_of_enough (henough : Enough v item data.length) : (overwrite v item data).1 ≠ -1 := by
  have hint := hf.asInt_of_enough hv henough
  rw [hf.enough_iff hv] at henough
  unfold overwrite
  rw [hf.freeChain_eq_released hv]
  dsimp only
  generalize writeLoop data.length 0 data (released v item) = res at henough ⊢
  obtain ⟨l, ok, w⟩ := res
  obtain rfl : ok = true := henough
  exact hint

theorem freeClusters_attempted (hno : ¬ Enough v item data.length) :
    freeClusters (attempted v item data) = freeClusters v ↔ freeClusters v = ∅ := by
  rw [hf.enough_iff hv, Bool.not_eq_true] at hno
  have hlen : (attempted v item data).fatLen = v.fatLen :=
    (writeLoop_continues data.length data (v := released v item) (p := 0) (.inl rfl)).2.1
  rcases writeLoop_failed (v := released v item) le_rfl hv.spc.1 (.inl rfl) hno with ⟨b, hb, hrefused, htaken⟩ | hall
  · -- a refused cluster was free before and is not any more
    have hfree : b ∈ freeClusters v := by
      rcases (hf.mem_freeClusters_released hv).mp hb with hfree | hmem
      · exact hfree
      · have hcell := (hv.sound.sound _ _ _ (hf.owner hv)).linked.isCell hmem
        exact absurd hcell.2 (by omega)
    constructor
    · intro hsame
      rw [← hsame, mem_freeClusters] at hfree
      exact absurd hfree.2.2 htaken
    · intro hnone
      rw [hnone] at hfree
      exact absurd hfree (Finset.notMem_empty b)
  · constructor
    · intro hsame
      rw [← hsame]
      exact hall
    · intro hnone
      rw [hnone]
      exact hall

/-- On a full volume a failed write leaves no cluster free, so that those of the file hold what was written. -/
theorem attempted_area (x : UInt8) (hno : ¬ Enough v item n) (hnone : freeClusters v = ∅)
    (hcell : isCell eoc (firstLow item.entry)) :
    (attempted v item (List.replicate n x)).area (some (firstLow item.entry)) 0 = x := by
  have hno' : ¬ Enough v item (List.replicate n x).length := by rwa [List.length_replicate]
  have hsame := (hf.freeClusters_attempted hv hno').mpr hnone
  obtain ⟨m, hm⟩ : ∃ m, fileChain v item = firstLow item.entry :: m := chain_eq_cons hcell
  have hmem : firstLow item.entry ∈ fileChain v item := by
    rw [hm]
    exact List.mem_cons_self
  have hlt := hv.inTable item.slot _ ⟨_, hf.owner hv⟩ _ hmem
  have hlen : (attempted v item (List.replicate n x)).fatLen = v.fatLen :=
    (writeLoop_continues (List.replicate n x).length (List.replicate n x) (v := released v item) (p := 0)
      (.inl rfl)).2.1
  apply writeLoop_filled (v := released v item) hv.spc.1 (.inl rfl) hcell.2 (clear_of_mem hmem)
  intro hzero
  have hfree : firstLow item.entry ∈ freeClusters (attempted v item (List.replicate n x)) :=
    mem_freeClusters.mpr ⟨hcell.1, by rw [hlen]; exact hlt, hzero⟩
  rw [hsame, hnone] at hfree
  exact Finset.notMem_empty _ hfree

theorem read_attempted_eq (hlose : NothingToLose v item) (data : List UInt8) (max_size : ℕ) :
    read_file_by_name (attempted v item data) path max_size = read_file_by_name v path max_size := by
  rw [read_file_by_name_eq (hf.find_attempted hv data), read_file_by_name_eq hf.read]
  rcases hlose.2 with hcluster | hsize
  · rw [if_pos hcluster, if_pos hcluster]
  have hempty : ∀ u : Vol, read_file u item.entry 0 max_size = if firstLow item.entry = 0 then none else some [] := by
    intro u
    unfold read_file
    rw [if_pos (by omega : fileSize item.entry ≤ 0)]
  rw [hempty, hempty]

theorem read_attempted_ne (hno : ¬ Enough v item n) (hnone : freeClusters v = ∅)
    (hcell : isCell eoc (firstLow item.entry)) (hsize : fileSize item.entry ≠ 0) :
    ∃ x, read_file_by_name (attempted v item (List.replicate n x)) path 1 ≠ read_file_by_name v path 1 := by
  refine ⟨v.area (some (firstLow item.entry)) 0 + 1, ?_⟩
  have hcluster : ¬ noCluster (firstLow item.entry) := fun h => noCluster_iff.mp h hcell
  generalize hdata : List.replicate n (v.area (some (firstLow item.entry)) 0 + 1) = data
  have hspc : 0 < (attempted v item data).spc := by
    rw [(hf.keeps hv data).spc]
    exact hv.spc.1
  have hfirst := hf.attempted_area hv (v.area (some (firstLow item.entry)) 0 + 1) hno hnone hcell
  rw [hdata] at hfirst
  rw [read_file_by_name_eq (hf.find_attempted hv data), read_file_by_name_eq hf.read, if_neg hcluster, if_neg hcluster,
    read_file_one hcell hsize hspc, read_file_one hcell hsize hv.spc.1, hfirst]
  simp

end ExistingFile

/-- A failing write of `n` bytes to a file does no harm, whatever the bytes, exactly if it cannot fail or there is
nothing to harm. -/
theorem failed_overwrite_harmless_iff (hv : WellFormed v) (hf : ExistingFile v path item) (mem : ℕ → Bool)
    (depth n : ℕ) :
    (∀ data : List UInt8, data.length = n → Harmless v path (write_file mem depth v path data)) ↔
      Enough v item n ∨ NothingToLose v item := by
  constructor
  · intro hall
    by_cases henough : Enough v item n
    · exact .inl henough
    right
    have hharmless (x : UInt8) := hall (List.replicate n x) List.length_replicate
    have hno (x : UInt8) : ¬ Enough v item (List.replicate n x).length := by rwa [List.length_replicate]
    have hresult (x : UInt8) : write_file mem depth v path (List.replicate n x) =
        (-1, attempted v item (List.replicate n x)) := by
      rw [hf.write_file_eq, hf.overwrite_of_not_enough hv (hno x)]
    have hsame (x : UInt8) : (∀ max_size, read_file_by_name (attempted v item (List.replicate n x)) path max_size =
          read_file_by_name v path max_size) ∧
        freeClusters (attempted v item (List.replicate n x)) = freeClusters v := by
      have hx := hharmless x
      rw [hresult x] at hx
      exact hx rfl
    have hnone := (hf.freeClusters_attempted hv (hno 0)).mp (hsame 0).2
    refine ⟨hnone, ?_⟩
    by_contra hbytes
    rw [not_or] at hbytes
    have hcell : isCell eoc (firstLow item.entry) := not_not.mp fun h => hbytes.1 (noCluster_iff.mpr h)
    obtain ⟨x, hx⟩ := hf.read_attempted_ne hv henough hnone hcell hbytes.2
    exact hx ((hsame x).1 1)
  · rintro hcase data rfl hfailed
    rw [hf.write_file_eq] at hfailed ⊢
    by_cases henough : Enough v item data.length
    · exact absurd hfailed (hf.overwrite_of_enough hv henough)
    · have hlose := hcase.resolve_left henough
      rw [hf.overwrite_of_not_enough hv henough]
      exact ⟨hf.read_attempted_eq hv hlose data, (hf.freeClusters_attempted hv henough).mpr hlose.1⟩

/-- The root holds the file `F` with the bytes `abc` in cluster 2. Cluster 3 is free, the others are bad. -/
def oneFile : Vol where
  spc := 1
  fatLen := 256
  rootLen := 16
  fat c := if c ≤ 2 then 0xFFFF else if c = 3 then 0 else 0xFFF7
  area b := b.elim (Bytes.ofList (entryBytes (padTo 11 [0x46]) 0x20 2 3)) fun c =>
    if c = 2 then Bytes.ofList [0x61, 0x62, 0x63] else fun _ => 0
  hint := 2
  cwd := 0

theorem wellFormed_of_listed {dirs : List ℕ} {owners : List (ℕ × Slot × Entry)}
    (hlisted : Tree.Listed eoc (tree v) dirs owners) (hcwd : v.cwd = 0) (hspc : 0 < v.spc ∧ v.spc ≤ 128)
    (htable : ∀ o ∈ owners, ∀ c ∈ chain eoc v.fat o.2.2.first, c < v.fatLen) : WellFormed v := by
  refine ⟨hlisted.inv, hcwd ▸ Tree.Dir.root, hspc, ?_⟩
  rintro σ e ⟨g, ho⟩
  exact htable _ (hlisted.owner ho)

theorem wellFormed_oneFile : WellFormed oneFile := by
  have hlisted : Tree.Listed eoc (tree oneFile) [0] [(0, (none, 0), ⟨2, false, 3⟩)] :=
    ⟨by decide, places_listed (by decide +kernel), by decide, by decide, by decide +kernel, by decide +kernel⟩
  exact wellFormed_of_listed hlisted rfl (by decide) (by decide +kernel)

def oneFileItem : Item := ⟨oneFile.raw (none, 0), (none, 0), none, []⟩

theorem find_oneFile : find_entry_slot oneFile 0 [0x46] = some oneFileItem := by
  have hslots : dirSlots oneFile 0 = (none, 0) :: (List.range' 1 15).map fun i => (none, i) := by decide +kernel
  have hstart : oneFile.raw (none, 0) 0 ≠ 0 ∧ oneFile.raw (none, 0) 0 ≠ 0xE5 ∧ oneFile.raw (none, 0) 11 ≠ 0x0F := by
    decide +kernel
  have hitem : lfn_reset.item (oneFile.raw (none, 0)) (none, 0) = oneFileItem := rfl
  have hmatch : dir_item_matches oneFileItem [0x46] = true := by decide +kernel
  unfold find_entry_slot Fat.find_entry_slot
  rw [hslots, iterate_dir, if_neg hstart.1, if_neg hstart.2.1, if_neg hstart.2.2, hitem, List.find?_cons, hmatch]

theorem existing_oneFile : ExistingFile oneFile [slash, 0x46] oneFileItem := by
  refine ⟨?_, by decide +kernel, ?_, by decide +kernel⟩
  · exact find_oneFile
  · exact find_oneFile

theorem failed_overwrite_harmless_oneFile :
    Harmless oneFile [slash, 0x46] (write_file (fun _ => true) 0 oneFile [slash, 0x46] [7]) := by
  refine (failed_overwrite_harmless_iff wellFormed_oneFile existing_oneFile (fun _ => true) 0 1).mpr (.inl ?_) [7] rfl
  have hcell : ¬ noCluster (alloc_cluster (freeChain true eoc (firstLow oneFileItem.entry) oneFile)).1 := by
    decide +kernel
  exact ⟨hcell, trivial⟩

/-- Of three clusters for 1025 bytes two can be had: the write fails, `abc` is lost, and no cluster is free. -/
theorem failed_overwrite_destroys : let data : List UInt8 := List.replicate 1025 1
    let result := write_file (fun _ => true) 0 oneFile [slash, 0x46] data
    WellFormed oneFile ∧ result.1 = -1 ∧ read_file_by_name oneFile [slash, 0x46] 3 = some [0x61, 0x62, 0x63] ∧
      read_file_by_name result.2 [slash, 0x46] 3 = some [1, 1, 1] ∧
      3 ∈ freeClusters oneFile ∧ 3 ∉ freeClusters result.2 := by
  intro data result
  refine ⟨wellFormed_oneFile, ?_⟩
  decide +kernel

end Orion.Fat16
