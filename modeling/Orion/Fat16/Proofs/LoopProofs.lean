import Orion.Fat16.Run
import Orion.Fat.Proofs.VolumeProofs

/-!
# Proofs: the loops over clusters

What each loop of the driver leaves, in closed form: the table in which a list of clusters is linked or
free, and the contents of these clusters.
-/

namespace Orion.Fat16

open Lib Fat List Function

variable {v : Vol} {f : ℕ → ℕ} {pre : List ℕ} {c p : ℕ} {area : Option ℕ → Bytes} {l : List ℕ} {size : ℕ}

/-- The contents of the clusters in `l` are zeros. -/
def wipeArea (size : ℕ) (l : List ℕ) (area : Option ℕ → Bytes) : Option ℕ → Bytes
  | none => area none
  | some c => if c ∈ l then (area (some c)).splice 0 size (fun _ => 0) else area (some c)

theorem wipeArea_of_notMem {b : Option ℕ} (h : ∀ c ∈ l, b ≠ some c) : wipeArea size l area b = area b := by
  cases b with
  | none => rfl
  | some c => exact if_neg fun hc => h c hc rfl

theorem wipeArea_nil : wipeArea size [] area = area :=
  funext fun _ => wipeArea_of_notMem fun _ hc => absurd hc (by simp)

theorem wipeArea_cons (hc : c ∉ l) : wipeArea size l (update area (some c) ((area (some c)).splice 0 size fun _ => 0)) =
      wipeArea size (c :: l) area := by
  funext b
  rcases b with _ | d
  · simp [wipeArea]
  by_cases hd : d = c
  · subst hd
    simp [wipeArea, hc]
  · simp [wipeArea, hd]

theorem mem_freeClusters : c ∈ freeClusters v ↔ 2 ≤ c ∧ c < v.fatLen ∧ v.fat c = 0 := by
  simp only [freeClusters, Finset.mem_filter, Finset.mem_range]
  tauto

theorem alloc_cluster_cases (v : Vol) : (freeClusters v = ∅ ∧ alloc_cluster v = (0, v)) ∨
      ∃ c ∈ freeClusters v, alloc_cluster v =
        (c, { v with fat := update v.fat c 0xFFFF, hint := (c + 1) % 2 ^ 16 }) := by
  simp only [alloc_cluster]
  generalize hstart : (if v.hint < 2 ∨ v.fatLen ≤ v.hint then 2 else v.hint) = start
  have h2 : 2 ≤ start := by
    rw [← hstart]
    split <;> omega
  cases hfind : (List.range' start (v.fatLen - start) ++ List.range' 2 (start - 2)).find? (v.fat · = 0) with
  | none =>
    refine .inl ⟨?_, rfl⟩
    ext c
    simp only [Finset.notMem_empty, iff_false, mem_freeClusters]
    rintro ⟨hc2, hlt, hfree⟩
    have hmem : c ∈ List.range' start (v.fatLen - start) ++ List.range' 2 (start - 2) := by
      simp only [mem_append, mem_range'_1]
      omega
    have hnot := find?_eq_none.mp hfind c hmem
    simp [hfree] at hnot
  | some c =>
    have hmem := mem_of_find?_eq_some hfind
    have hfree := find?_some hfind
    simp only [mem_append, mem_range'_1] at hmem
    refine .inr ⟨c, mem_freeClusters.mpr ⟨?_, ?_, by simpa using hfree⟩, rfl⟩
    · omega
    have hcase : start = 2 ∨ start < v.fatLen := by
      rw [← hstart]
      split <;> omega
    omega

/-- The volume after the chain `l` has been freed. -/
def freed (wipe : Bool) (v : Vol) (l : List ℕ) : Vol :=
  { v with
    fat := clear v.fat l
    area := if wipe then wipeArea v.clusterSize l v.area else v.area }

theorem freed_cons {wipe : Bool} (hc : c ∉ l) :
    freed wipe (if wipe then (v.setFat c 0).zero c else v.setFat c 0) l = freed wipe v (c :: l) := by
  have hfat : clear (update v.fat c 0) l = clear v.fat (c :: l) := by
    funext d
    by_cases hd : d = c
    · subst hd
      simp [clear, hc]
    · simp [clear, hd]
  cases wipe with
  | true =>
    have harea : wipeArea v.clusterSize l ((v.setFat c 0).zero c).area =
        wipeArea v.clusterSize (c :: l) v.area := wipeArea_cons hc
    simp only [freed, if_true]
    rw [← hfat, ← harea]
    rfl
  | false =>
    simp only [freed]
    rw [← hfat]
    rfl

theorem freeChain_linked (wipe : Bool) {n : ℕ} (hl : Chain eoc v.fat l) (hn : l.length ≤ n)
    (hhead : l.head? = some c ∨ l = [] ∧ ¬ isCell eoc c) : freeChain wipe n c v = freed wipe v l := by
  induction l generalizing n c v with
  | nil =>
    have hc : ¬ isCell eoc c := by
      rcases hhead with h | h
      · cases h
      · exact h.2
    have hfreed : freed wipe v [] = v := by
      cases wipe <;> simp [freed, wipeArea_nil]
    rw [hfreed]
    cases n with
    | zero => rfl
    | succ n => exact if_neg hc
  | cons d l ih =>
    obtain rfl : d = c := by
      rcases hhead with h | h
      · simpa using h
      · cases h.1
    obtain ⟨n, rfl⟩ := Nat.exists_eq_succ_of_ne_zero (by simp at hn; omega : n ≠ 0)
    have hd : d ∉ l := (nodup_cons.mp hl.nodup).1
    rw [freeChain, if_pos hl.linked.isCell_head]
    -- the rest of the chain does not change when its first cluster is freed
    have hrest : ∀ w : Vol, w.fat = update v.fat d 0 → freeChain wipe n (v.fat d) w = freed wipe w l := by
      intro w hw
      apply ih
      · apply hl.tail.congr
        intro e he
        have hed : e ≠ d := by
          rintro rfl
          exact hd he
        rw [hw]
        exact update_of_ne hed _ _
      · simpa using hn
      · cases l with
        | nil => exact .inr ⟨rfl, fun h => absurd h.2 (Nat.not_lt.mpr hl.linked.2)⟩
        | cons e l => exact .inl (congrArg some hl.linked.2.1.symm)
    rw [← freed_cons hd]
    dsimp only
    cases wipe <;> exact hrest _ rfl

theorem freeChain_eq (wipe : Bool) (h : Chain eoc v.fat (chain eoc v.fat c)) :
    freeChain wipe eoc c v = freed wipe v (chain eoc v.fat c) := by
  apply freeChain_linked wipe h (length_le_of_isCell h.nodup fun d hd => h.linked.isCell hd)
  by_cases hc : isCell eoc c
  · obtain ⟨l, hl⟩ : ∃ l, chain eoc v.fat c = c :: l := chain_eq_cons hc
    exact .inl (by rw [hl]; rfl)
  · exact .inr ⟨chain_of_not_isCell hc, hc⟩

end Orion.Fat16
