import Orion.Fat16.Outcomes
import Orion.Fat16.Proofs.GrowProofs

/-!
# What the loop of `fat16_write_file` does

One turn of the loop finds no cluster, is refused the one that it gets, or takes it. What all turns together do
follows from that by induction.
-/

namespace Orion.Fat16

open Lib Fat List Function

variable {v w : Vol} {n k p c : ℕ} {data : List UInt8} {b : ℕ} {x : UInt8}

/-- The cluster `c` is taken as the last of a chain. -/
def marked (v : Vol) (c : ℕ) : Vol := { v with fat := update v.fat c 0xFFFF, hint := (c + 1) % 2 ^ 16 }

/-- The volume after a turn of the loop: the cluster `c` is taken behind `p` and filled. -/
def taken (v : Vol) (p c : ℕ) (data : List UInt8) : Vol :=
  let chunk := data.take v.clusterSize
  { v with
    fat := update (if p = 0 then (marked v c).fat else update (marked v c).fat p c) c 0xFFFF
    area := update v.area (some c)
      ((v.area (some c)).splice 0 ((chunk.length + 511) / 512 * 512) (Bytes.ofList chunk))
    hint := (c + 1) % 2 ^ 16 }

theorem writeLoop_nil : writeLoop n p [] v = ([], true, v) := by
  cases n with
  | zero => rfl
  | succ n => rfl

theorem writeLoop_turn (n p : ℕ) (v : Vol) (hdata : data ≠ []) :
    (freeClusters v = ∅ ∧ alloc_cluster v = (0, v) ∧ writeLoop (n + 1) p data v = ([], false, v)) ∨
      ∃ c ∈ freeClusters v, alloc_cluster v = (c, marked v c) ∧
        ((eoc ≤ c ∧ writeLoop (n + 1) p data v = ([], false, marked v c)) ∨ c < eoc ∧ writeLoop (n + 1) p data v =
            (c :: (writeLoop n c (data.drop v.clusterSize) (taken v p c data)).1,
              (writeLoop n c (data.drop v.clusterSize) (taken v p c data)).2)) := by
  rcases alloc_cluster_cases v with ⟨hnone, halloc⟩ | ⟨c, hc, halloc⟩
  · left
    refine ⟨hnone, halloc, ?_⟩
    have hzero : noCluster 0 := Or.inl (by omega)
    rw [writeLoop, if_neg hdata, halloc]
    exact if_pos hzero
  · right
    refine ⟨c, hc, halloc, ?_⟩
    have hc2 := (mem_freeClusters.mp hc).1
    by_cases hlt : c < eoc
    · right
      refine ⟨hlt, ?_⟩
      have hcell : ¬ noCluster c := by
        rw [noCluster_iff, not_not]
        exact ⟨hc2, hlt⟩
      rw [writeLoop, if_neg hdata, halloc]
      dsimp only
      rw [if_neg hcell]
      by_cases hp : p = 0
      · subst hp
        rfl
      · unfold taken
        simp only [if_neg hp]
        rfl
    · left
      refine ⟨by omega, ?_⟩
      have hrefused : noCluster c := Or.inr (by omega)
      rw [writeLoop, if_neg hdata, halloc]
      exact if_pos hrefused

section Taken

theorem taken_area_of_ne {b : Option ℕ} (hb : b ≠ some c) : (taken v p c data).area b = v.area b := update_of_ne hb _ _

theorem taken_fat_self : (taken v p c data).fat c ≠ 0 := by
  show update _ c 0xFFFF c ≠ 0
  rw [update_self]
  decide

variable {b : ℕ}

theorem taken_fat_of_ne (hbc : b ≠ c) (hbp : b ≠ p) : (taken v p c data).fat b = v.fat b := by
  unfold taken marked
  dsimp only
  rw [update_of_ne hbc]
  split
  · rw [update_of_ne hbc]
  · rw [update_of_ne hbp, update_of_ne hbc]

theorem taken_fat_eq_zero (hc : c ∈ freeClusters v) (hp : p = 0 ∨ v.fat p ≠ 0) :
    (taken v p c data).fat b = 0 ↔ v.fat b = 0 ∧ b ≠ c := by
  by_cases hbc : b = c
  · subst hbc
    simp [taken_fat_self]
  by_cases hbp : b = p
  · subst hbp
    have hc2 := (mem_freeClusters.mp hc).1
    unfold taken marked
    dsimp only
    rw [update_of_ne hbc]
    by_cases hb0 : b = 0
    · rw [if_pos hb0, update_of_ne hbc]
      simp [hbc]
    have hused := hp.resolve_left hb0
    rw [if_neg hb0, update_self]
    simp only [hused, false_and, iff_false]
    omega
  · rw [taken_fat_of_ne hbc hbp]
    simp [hbc]

theorem freeClusters_of_taken (hc : c ∈ freeClusters v) (hp : p = 0 ∨ v.fat p ≠ 0) :
    freeClusters (taken v p c data) = (freeClusters v).erase c := by
  ext b
  rw [Finset.mem_erase, mem_freeClusters, mem_freeClusters, taken_fat_eq_zero hc hp]
  show 2 ≤ b ∧ b < v.fatLen ∧ v.fat b = 0 ∧ b ≠ c ↔ _
  tauto

end Taken

/-- The loop leaves alone what is in use, but for the successor of `p`; by induction on the turns. -/
theorem writeLoop_continues (n : ℕ) (data : List UInt8) (hp : p = 0 ∨ v.fat p ≠ 0) :
    Continues v (writeLoop n p data v).2.2 p ∧ (writeLoop n p data v).2.2.fatLen = v.fatLen ∧
      (writeLoop n p data v).2.2.cwd = v.cwd ∧ ∀ b, v.fat b ≠ 0 → (writeLoop n p data v).2.2.fat b ≠ 0 := by
  induction n generalizing v p data with
  | zero => exact ⟨⟨rfl, rfl, rfl, fun _ _ _ => rfl, fun _ _ => rfl⟩, rfl, rfl, fun _ hb => hb⟩
  | succ n ih =>
    by_cases hdata : data = []
    · subst hdata
      rw [writeLoop_nil]
      exact ⟨⟨rfl, rfl, rfl, fun _ _ _ => rfl, fun _ _ => rfl⟩, rfl, rfl, fun _ hb => hb⟩
    rcases writeLoop_turn n p v hdata with ⟨-, -, hloop⟩ | ⟨c, hc, -, hcase⟩
    · rw [hloop]
      exact ⟨⟨rfl, rfl, rfl, fun _ _ _ => rfl, fun _ _ => rfl⟩, rfl, rfl, fun _ hb => hb⟩
    have hne : ∀ b, v.fat b ≠ 0 → b ≠ c := by
      rintro b hb rfl
      exact hb (mem_freeClusters.mp hc).2.2
    rcases hcase with ⟨-, hloop⟩ | ⟨-, hloop⟩
    · rw [hloop]
      have hsame : ∀ b, v.fat b ≠ 0 → (marked v c).fat b = v.fat b := fun b hb => update_of_ne (hne b hb) _ _
      refine ⟨⟨rfl, rfl, rfl, fun b hb _ => hsame b hb, fun _ _ => rfl⟩, rfl, rfl, fun b hb => ?_⟩
      rw [hsame b hb]
      exact hb
    · rw [hloop]
      have hused : ∀ b, v.fat b ≠ 0 → (taken v p c data).fat b ≠ 0 := by
        intro b hb hzero
        exact hb ((taken_fat_eq_zero hc hp).mp hzero).1
      obtain ⟨hrest, hlen, hcwd, hkeeps⟩ := ih (data.drop v.clusterSize)
        (Or.inr (taken_fat_self (v := v) (p := p) (c := c)))
      refine ⟨⟨hrest.spc, hrest.rootLen, hrest.root.trans (taken_area_of_ne (by simp)), ?_, ?_⟩, hlen, hcwd, ?_⟩
      · intro b hb hbp
        exact (hrest.fat b (hused b hb) (hne b hb)).trans (taken_fat_of_ne (hne b hb) hbp)
      · intro b hb
        exact (hrest.area b (hused b hb)).trans (taken_area_of_ne fun h => hne b hb (Option.some.inj h))
      · intro b hb
        exact hkeeps b (hused b hb)

theorem writeLoop_failed (hn : data.length ≤ n) (hspc : 0 < v.spc) (hp : p = 0 ∨ v.fat p ≠ 0)
    (hfail : (writeLoop n p data v).2.1 = false) :
    (∃ b ∈ freeClusters v, eoc ≤ b ∧ (writeLoop n p data v).2.2.fat b ≠ 0) ∨
      freeClusters (writeLoop n p data v).2.2 = ∅ := by
  induction n generalizing v p data with
  | zero =>
    obtain rfl : data = [] := length_eq_zero_iff.mp (by omega)
    rw [writeLoop_nil] at hfail
    cases hfail
  | succ n ih =>
    by_cases hdata : data = []
    · subst hdata
      rw [writeLoop_nil] at hfail
      cases hfail
    rcases writeLoop_turn n p v hdata with ⟨hnone, -, hloop⟩ | ⟨c, hc, -, ⟨hrefused, hloop⟩ | ⟨-, hloop⟩⟩
    · rw [hloop]
      exact .inr hnone
    · rw [hloop]
      refine .inl ⟨c, hc, hrefused, ?_⟩
      show update _ c 0xFFFF c ≠ 0
      rw [update_self]
      decide
    · rw [hloop] at hfail ⊢
      have hpos : 0 < data.length := length_pos_iff.mpr hdata
      have hsize : 0 < v.clusterSize := Nat.mul_pos hspc (by omega)
      have hrest : (data.drop v.clusterSize).length ≤ n := by
        rw [length_drop]
        omega
      rcases ih (v := taken v p c data) hrest hspc (Or.inr taken_fat_self) hfail with ⟨b, hb, hrefused⟩ | hall
      · rw [freeClusters_of_taken hc hp] at hb
        exact .inl ⟨b, Finset.mem_of_mem_erase hb, hrefused⟩
      · exact .inr hall

/-- `_alloc_cluster` looks at the hint and at which entries of the table are free. -/
theorem alloc_cluster_fst_congr (hhint : w.hint = v.hint) (hlen : w.fatLen = v.fatLen)
    (hfree : ∀ b, w.fat b = 0 ↔ v.fat b = 0) : (alloc_cluster w).1 = (alloc_cluster v).1 := by
  have hpred : (fun b => decide (w.fat b = 0)) = fun b => decide (v.fat b = 0) := by
    funext b
    simp only [hfree b]
  unfold alloc_cluster
  simp only [hhint, hlen, hpred]
  split <;> rfl

theorem marked_fat_eq_zero : (marked v c).fat b = 0 ↔ v.fat b = 0 ∧ b ≠ c := by
  unfold marked
  by_cases hbc : b = c
  · subst hbc
    simp
  · simp [hbc]

theorem freeClusters_marked : freeClusters (marked v c) = (freeClusters v).erase c := by
  ext b
  rw [Finset.mem_erase, mem_freeClusters, mem_freeClusters, marked_fat_eq_zero]
  show 2 ≤ b ∧ b < v.fatLen ∧ v.fat b = 0 ∧ b ≠ c ↔ _
  tauto

theorem canTake_congr (hhint : w.hint = v.hint) (hlen : w.fatLen = v.fatLen) (hfree : ∀ b, w.fat b = 0 ↔ v.fat b = 0) :
    CanTake k w ↔ CanTake k v := by
  induction k generalizing v w with
  | zero => exact Iff.rfl
  | succ k ih =>
    have hfst := alloc_cluster_fst_congr hhint hlen hfree
    unfold CanTake
    rw [hfst]
    apply and_congr_right
    intro hcell
    rcases alloc_cluster_cases v with ⟨-, hv⟩ | ⟨c, -, hv⟩
    · rw [hv] at hcell
      exact absurd (Or.inl (by omega)) hcell
    rcases alloc_cluster_cases w with ⟨-, hw⟩ | ⟨d, -, hw⟩
    · rw [← hfst, hw] at hcell
      exact absurd (Or.inl (by omega)) hcell
    rw [hv, hw] at hfst
    obtain rfl : d = c := hfst
    rw [hv, hw]
    apply ih (v := marked v d) (w := marked w d) rfl hlen
    intro b
    rw [marked_fat_eq_zero, marked_fat_eq_zero, hfree]

theorem ceil_rest {size len : ℕ} (hsize : 0 < size) (hlen : 0 < len) :
    (len + size - 1) / size = (len - size + size - 1) / size + 1 := by
  have hall : (len + size - 1) / size = (len - 1) / size + 1 := by
    rw [show len + size - 1 = (len - 1) + size by omega, Nat.add_div_right _ hsize]
  rw [hall]
  by_cases hle : size ≤ len
  · rw [show len - size + size - 1 = len - 1 by omega]
  · rw [Nat.div_eq_of_lt (by omega), Nat.div_eq_of_lt (by omega)]

theorem writeLoop_ok_iff (hn : data.length ≤ n) (hspc : 0 < v.spc) (hp : p = 0 ∨ v.fat p ≠ 0) :
    (writeLoop n p data v).2.1 = true ↔ CanTake ((data.length + v.clusterSize - 1) / v.clusterSize) v := by
  have hsize : 0 < v.clusterSize := Nat.mul_pos hspc (by omega)
  induction n generalizing v p data with
  | zero =>
    obtain rfl : data = [] := length_eq_zero_iff.mp (by omega)
    rw [writeLoop_nil, length_nil, Nat.div_eq_of_lt (by omega)]
    simp [CanTake]
  | succ n ih =>
    by_cases hdata : data = []
    · subst hdata
      rw [writeLoop_nil, length_nil, Nat.div_eq_of_lt (by omega)]
      simp [CanTake]
    have hpos : 0 < data.length := length_pos_iff.mpr hdata
    rw [ceil_rest hsize hpos, CanTake]
    rcases writeLoop_turn n p v hdata with ⟨-, halloc, hloop⟩ | ⟨c, hc, halloc, ⟨hrefused, hloop⟩ | ⟨hlt, hloop⟩⟩
    · rw [hloop, halloc]
      have hzero : noCluster 0 := Or.inl (by omega)
      simp [hzero]
    · rw [hloop, halloc]
      have hno : noCluster c := Or.inr hrefused
      simp [hno]
    · have hcell : ¬ noCluster c := by
        have hc2 := (mem_freeClusters.mp hc).1
        rw [noCluster_iff, not_not]
        exact ⟨hc2, hlt⟩
      rw [hloop, halloc]
      have hrest : (data.drop v.clusterSize).length ≤ n := by
        rw [length_drop]
        omega
      have hih := ih (v := taken v p c data) hrest hspc (Or.inr taken_fat_self) hsize
      rw [length_drop] at hih
      have hsame : CanTake ((data.length - v.clusterSize + v.clusterSize - 1) / v.clusterSize) (taken v p c data) ↔
          CanTake ((data.length - v.clusterSize + v.clusterSize - 1) / v.clusterSize) (marked v c) := by
        refine canTake_congr (v := marked v c) (w := taken v p c data) rfl rfl ?_
        intro b
        rw [taken_fat_eq_zero hc hp, marked_fat_eq_zero]
      simp only [hcell, not_false_eq_true, true_and]
      exact hih.trans hsame

theorem card_of_canTake (h : CanTake k v) : k ≤ ((freeClusters v).filter (· < eoc)).card := by
  induction k generalizing v with
  | zero => exact Nat.zero_le _
  | succ k ih =>
    obtain ⟨hcell, hrest⟩ := h
    rcases alloc_cluster_cases v with ⟨-, halloc⟩ | ⟨c, hc, halloc⟩
    · rw [halloc] at hcell
      exact absurd (Or.inl (by omega)) hcell
    rw [halloc] at hcell hrest
    have hk := ih (v := marked v c) hrest
    rw [noCluster_iff, not_not] at hcell
    have hmem : c ∈ (freeClusters v).filter (· < eoc) := Finset.mem_filter.mpr ⟨hc, hcell.2⟩
    rw [freeClusters_marked, Finset.filter_erase, Finset.card_erase_of_mem hmem] at hk
    have hpos := Finset.card_pos.mpr ⟨c, hmem⟩
    omega

theorem canTake_of_card (hk : k ≤ (freeClusters v).card) (hcells : ∀ c ∈ freeClusters v, c < eoc) : CanTake k v := by
  induction k generalizing v with
  | zero => trivial
  | succ k ih =>
    rcases alloc_cluster_cases v with ⟨hnone, -⟩ | ⟨c, hc, halloc⟩
    · rw [hnone, Finset.card_empty] at hk
      omega
    have hcell : ¬ noCluster c := by
      rw [noCluster_iff, not_not]
      exact ⟨(mem_freeClusters.mp hc).1, hcells c hc⟩
    rw [CanTake, halloc]
    refine ⟨hcell, ih (v := marked v c) ?_ ?_⟩
    · rw [freeClusters_marked, Finset.card_erase_of_mem hc]
      omega
    · intro b hb
      rw [freeClusters_marked] at hb
      exact hcells b (Finset.mem_of_mem_erase hb)

theorem taken_area_self (hspc : 0 < v.spc) {rest : List UInt8} : (taken v p c (x :: rest)).area (some c) 0 = x := by
  have hsize : 0 < v.clusterSize := Nat.mul_pos hspc (by omega)
  obtain ⟨m, hm⟩ : ∃ m, v.clusterSize = m + 1 := ⟨v.clusterSize - 1, by omega⟩
  show update v.area (some c) _ (some c) 0 = x
  rw [update_self, hm, take_succ_cons, Bytes.splice_inside (by omega) (by simp)]
  rfl

theorem writeLoop_filled {m : ℕ} (hspc : 0 < v.spc) (hp : p = 0 ∨ v.fat p ≠ 0) (hb : b < eoc)
    (hfree : v.fat b = 0) (htaken : (writeLoop n p (List.replicate m x) v).2.2.fat b ≠ 0) :
    (writeLoop n p (List.replicate m x) v).2.2.area (some b) 0 = x := by
  induction n generalizing v p m with
  | zero => exact absurd hfree htaken
  | succ n ih =>
    rcases m with _ | m
    · rw [replicate_zero, writeLoop_nil] at htaken
      exact absurd hfree htaken
    have hne : List.replicate (m + 1) x ≠ [] := by simp
    rcases writeLoop_turn n p v hne with
      ⟨-, -, hloop⟩ | ⟨c, hc, -, ⟨hrefused, hloop⟩ | ⟨-, hloop⟩⟩
    · rw [hloop] at htaken
      exact absurd hfree htaken
    · rw [hloop] at htaken
      exact absurd (marked_fat_eq_zero.mpr ⟨hfree, by omega⟩) htaken
    rw [hloop, drop_replicate] at htaken ⊢
    generalize hu : taken v p c (List.replicate (m + 1) x) = u at htaken ⊢
    by_cases hbc : b = c
    · -- the turns that follow leave the cluster alone
      subst hbc
      have hused : u.fat b ≠ 0 := by
        rw [← hu]
        exact taken_fat_self
      have hself : u.area (some b) 0 = x := by
        rw [← hu, replicate_succ]
        exact taken_area_self hspc
      have hrest := (writeLoop_continues n (List.replicate (m + 1 - v.clusterSize) x) (Or.inr hused)).1
      rw [hrest.area b hused, hself]
    · have hstill : u.fat b = 0 := by
        rw [← hu]
        exact (taken_fat_eq_zero hc hp).mpr ⟨hfree, hbc⟩
      have hmark : u.fat c ≠ 0 := by
        rw [← hu]
        exact taken_fat_self
      have huspc : 0 < u.spc := by
        rw [← hu]
        exact hspc
      exact ih huspc (Or.inr hmark) hstill htaken

end Orion.Fat16
