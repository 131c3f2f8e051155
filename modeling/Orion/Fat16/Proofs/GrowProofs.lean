import Orion.Fat16.Proofs.TreeProofs

/-!
# Proofs: the loops that take clusters

`fat16_create_file` and `fat16_write_file` build the chain of a file that no entry names yet;
`fat16_find_free_slots` continues the chain of a directory with empty clusters.
-/

namespace Orion.Fat16

open Lib Fat List Function

variable {v w : Vol} {ex : Option Slot} {H : List (List ℕ)} {l m : List ℕ} {wd c d p : ℕ} {data : List UInt8}

theorem Inv.take (hI : Inv wd v ex (l :: H)) (hp : l.getLast? = some p) (halloc : alloc_cluster v = (c, w))
    (hc : ¬ noCluster c) : Inv wd (w.setFat p c) ex ((l ++ [c]) :: H) ∧ Keeps v (w.setFat p c) ex ∧
      (w.setFat p c).fat c = 0xFFFF := by
  obtain ⟨hk, -, hfail | ⟨-, hfree, hfat, hIw⟩⟩ := hI.alloc halloc
  · exact absurd hfail.1 hc
  obtain ⟨hlinked, hk'⟩ := hIw.link hp
  have hcp : c ≠ p := by
    rintro rfl
    exact (hI.sound.held l mem_cons_self).linked.next_ne_zero (mem_of_getLast? hp) hfree
  refine ⟨hlinked, hk.trans hk', ?_⟩
  show update w.fat p c c = 0xFFFF
  rw [update_of_ne hcp, hfat, update_self]

/-- The loop of `fat16_create_file`, by induction on the clusters that are still to be taken. -/
theorem growFile_spec (mem : ℕ → Bool) (n : ℕ) (hI : Inv wd v ex (l :: H)) (hp : l.getLast? = some p) :
    ∃ m, Inv wd (growFile mem n p v) ex ((l ++ m) :: H) ∧ Keeps v (growFile mem n p v) ex := by
  induction n generalizing v l p with
  | zero =>
    show ∃ m, Inv wd v ex ((l ++ m) :: H) ∧ Keeps v v ex
    exact ⟨[], by simpa using hI, Keeps.refl _ _⟩
  | succ n ih =>
    obtain ⟨c, w, halloc⟩ : ∃ c w, alloc_cluster v = (c, w) := ⟨_, _, rfl⟩
    simp only [growFile, halloc]
    split
    · rename_i hc
      obtain ⟨hk, -, ⟨-, hIw, -⟩ | ⟨hcell, -⟩⟩ := hI.alloc halloc
      · exact ⟨[], by simpa using hIw, hk⟩
      · exact absurd hcell (noCluster_iff.mp hc)
    · rename_i hc
      obtain ⟨htaken, hk, hmark⟩ := hI.take hp halloc hc
      have hlast : (l ++ [c]).getLast? = some c := by simp
      have hmem : c ∈ l ++ [c] := by simp
      rw [setFat_self hmark]
      split
      · obtain ⟨hzero, hkz⟩ : Inv wd ((w.setFat p c).zero c) ex ((l ++ [c]) :: H) ∧
            Keeps (w.setFat p c) ((w.setFat p c).zero c) ex :=
          htaken.store mem_cons_self hmem _ _ _
        obtain ⟨m, hm, hkm⟩ := ih hzero hlast
        exact ⟨c :: m, by simpa using hm, (hk.trans hkz).trans hkm⟩
      · obtain ⟨m, hm, hkm⟩ := ih htaken hlast
        exact ⟨c :: m, by simpa using hm, hk.trans hkm⟩

/-- The first cluster of a file, for which `prev` is zero, or one more. -/
theorem Inv.takeNext (hI : Inv wd v ex (l :: H)) (hp : l.getLast?.getD 0 = p) (halloc : alloc_cluster v = (c, w))
    (hc : ¬ noCluster c) : let u := (if p = 0 then w else w.setFat p c).setFat c 0xFFFF
      Inv wd u ex ((l ++ [c]) :: H) ∧ Keeps v u ex := by
  intro u
  cases hl : l.getLast? with
  | none =>
    obtain rfl : l = [] := getLast?_eq_none_iff.mp hl
    obtain rfl : 0 = p := hp
    obtain ⟨hk, -, hfail | ⟨-, -, hfat, hIw⟩⟩ := hI.alloc halloc
    · exact absurd hfail.1 hc
    have hu : u = w := setFat_self (by rw [if_pos rfl, hfat, update_self])
    have hsub : ([c] :: H).Sublist ([c] :: [] :: H) := List.Sublist.cons_cons _ (sublist_cons_self _ _)
    rw [hu]
    exact ⟨⟨hIw.sound.sublist hsub, hIw.cwd, hIw.spc⟩, hk⟩
  | some q =>
    obtain rfl : q = p := by simpa [hl] using hp
    have hq : q ≠ 0 := by
      have hcell := (hI.sound.held l mem_cons_self).linked.isCell (mem_of_getLast? hl)
      have := hcell.1
      omega
    obtain ⟨htaken, hk, hmark⟩ := hI.take hl halloc hc
    have hu : u = w.setFat q c := by
      show (if q = 0 then w else w.setFat q c).setFat c 0xFFFF = w.setFat q c
      rw [if_neg hq]
      exact setFat_self hmark
    rw [hu]
    exact ⟨htaken, hk⟩

/-- The loop of `fat16_write_file`, by induction on the fuel. -/
theorem writeLoop_spec (n : ℕ) (hI : Inv wd v ex (l :: H)) (hp : l.getLast?.getD 0 = p) {ok : Bool}
    (hloop : writeLoop n p data v = (m, ok, w)) : Inv wd w ex ((l ++ m) :: H) ∧ Keeps v w ex := by
  induction n generalizing v l p data m ok with
  | zero =>
    obtain ⟨rfl, -, rfl⟩ : [] = m ∧ _ ∧ v = w := by simpa [writeLoop] using hloop
    exact ⟨by simpa using hI, Keeps.refl _ _⟩
  | succ n ih =>
    unfold writeLoop at hloop
    split at hloop
    · obtain ⟨rfl, -, rfl⟩ : [] = m ∧ _ ∧ v = w := by simpa using hloop
      exact ⟨by simpa using hI, Keeps.refl _ _⟩
    obtain ⟨c, u, halloc⟩ : ∃ c u, alloc_cluster v = (c, u) := ⟨_, _, rfl⟩
    simp only [halloc] at hloop
    split at hloop
    · rename_i hc
      obtain ⟨rfl, -, rfl⟩ : [] = m ∧ _ ∧ u = w := by simpa using hloop
      obtain ⟨hk, -, ⟨-, hIu, -⟩ | ⟨hcell, -⟩⟩ := hI.alloc halloc
      · exact ⟨by simpa using hIu, hk⟩
      · exact absurd hcell (noCluster_iff.mp hc)
    · rename_i hc
      obtain ⟨htaken, hk⟩ := hI.takeNext hp halloc hc
      generalize hstored : Vol.store _ _ _ _ _ = t at hloop
      obtain ⟨hIt, hkt⟩ : Inv wd t ex ((l ++ [c]) :: H) ∧ Keeps _ t ex := by
        rw [← hstored]
        exact htaken.store mem_cons_self (by simp) _ _ _
      obtain ⟨m', ok', w', hrec⟩ : ∃ m' ok' w', writeLoop n c (data.drop t.clusterSize) t = (m', ok', w') :=
        ⟨_, _, _, rfl⟩
      simp only [hrec] at hloop
      obtain ⟨rfl, -, rfl⟩ : c :: m' = m ∧ ok' = ok ∧ w' = w := by simpa using hloop
      have hlast : (l ++ [c]).getLast?.getD 0 = c := by simp
      obtain ⟨hIw, hkw⟩ := ih hIt hlast hrec
      exact ⟨by simpa using hIw, (hk.trans hkt).trans hkw⟩

theorem Inv.extendDir (hI : Inv wd v none ([c] :: H)) (hd : IsDir v none d)
    (hp : (chain eoc v.fat d).getLast? = some p) : Inv wd ((v.setFat p c).zero c) none H ∧
      chain eoc ((v.setFat p c).zero c).fat d = chain eoc v.fat d ++ [c] ∧
      ∀ g, IsDir v none g → IsDir ((v.setFat p c).zero c) none g := by
  have hmem : [c] ∈ [c] :: H := mem_cons_self
  have hraw : ∀ g τ, IsDir v none g → τ.1 ∈ (tree v).blocks eoc g → ((v.setFat p c).zero c).raw τ = v.raw τ := by
    intro g τ hg hτ
    apply Vol.raw_zero_of_ne
    intro hτc
    rw [hτc] at hτ
    exact hI.sound.held_notMem_dir hmem (mem_singleton_self c) hg (Tree.mem_blocks_some.mp hτ)
  have hempty : ∀ b ∈ [c], ∀ i, (tree ((v.setFat p c).zero c)).content (some b, i) = .empty := by
    intro b hb i
    obtain rfl := mem_singleton.mp hb
    by_cases hi : i < v.spc * 16
    · have hzero : ((v.setFat p b).zero b).raw (some b, i) = fun _ => 0 := Vol.raw_zero hi
      exact content_of_free (by rw [hzero]; rfl)
    · exact if_neg hi
  obtain ⟨hsound, hchain, hreach⟩ := hI.sound.extend hd hp (by rfl) hempty
    (fun g τ hg hτ => content_congr rfl rfl (hraw g τ hg hτ))
    (fun g hg hne => hI.dots_of_raw hg hne fun i hb => hraw g (some g, i) hg hb)
  exact ⟨⟨hsound, hI.cwd, hI.spc⟩, hchain, hreach⟩

def Zeroed (v : Vol) (l : List ℕ) : Prop := ∀ c ∈ l, ∀ i < v.spc * 16, v.raw (some c, i) = fun _ => 0

/-- The clusters in use are the same in `w`, but `p` may have another successor. -/
structure Continues (v w : Vol) (p : ℕ) : Prop where
  spc : w.spc = v.spc
  rootLen : w.rootLen = v.rootLen
  root : w.area none = v.area none
  fat : ∀ b, v.fat b ≠ 0 → b ≠ p → w.fat b = v.fat b
  area : ∀ b, v.fat b ≠ 0 → w.area (some b) = v.area (some b)

/-- One more cluster of zeros behind `p`, and what comes behind it. -/
theorem Continues.step {u t : Vol} (harea : u.area = v.area) (hspc : u.spc = v.spc) (hroot : u.rootLen = v.rootLen)
    (hfree : v.fat c = 0) (hfat : u.fat = update v.fat c 0xFFFF) (hc : c ≠ 0) (ht : (u.setFat p c).zero c = t)
    (hrest : Continues t w c) : Continues v w p := by
  have hne : ∀ b, v.fat b ≠ 0 → b ≠ c := by
    rintro b hb rfl
    exact hb hfree
  have htfat : ∀ b, v.fat b ≠ 0 → b ≠ p → t.fat b = v.fat b := by
    intro b hb hbp
    rw [← ht]
    show update u.fat p c b = v.fat b
    rw [update_of_ne hbp, hfat, update_of_ne (hne b hb)]
  have htarea : ∀ b, v.fat b ≠ 0 → t.area (some b) = v.area (some b) := by
    intro b hb
    rw [← ht, ← harea]
    exact update_of_ne (fun h => hne b hb (Option.some.inj h)) _ _
  have htne : ∀ b, v.fat b ≠ 0 → t.fat b ≠ 0 := by
    intro b hb
    by_cases hbp : b = p
    · subst hbp
      rw [← ht]
      show update u.fat b c b ≠ 0
      rw [update_self]
      exact hc
    · rw [htfat b hb hbp]
      exact hb
  refine ⟨hrest.spc.trans ?_, hrest.rootLen.trans ?_, hrest.root.trans ?_, fun b hb hbp => ?_, fun b hb => ?_⟩
  · rw [← ht]
    exact hspc
  · rw [← ht]
    exact hroot
  · rw [← ht, ← harea]
    rfl
  · exact (hrest.fat b (htne b hb) (hne b hb)).trans (htfat b hb hbp)
  · exact (hrest.area b (htne b hb)).trans (htarea b hb)

/-- The loop of `fat16_find_free_slots`, by induction on the clusters still to be taken: they are behind the old ones
and empty. -/
theorem growDir_spec (n : ℕ) (hI : Inv wd v none H) (hd : IsDir v none d) (hp : (chain eoc v.fat d).getLast? = some p)
    {ok : Bool} (hgrow : growDir n p v = (l, ok, w)) : Inv wd w none H ∧ IsDir w none d ∧
      chain eoc w.fat d = chain eoc v.fat d ++ l ∧ Zeroed w l ∧ Continues v w p := by
  induction n generalizing v p l ok with
  | zero =>
    obtain ⟨rfl, -, rfl⟩ : [] = l ∧ true = ok ∧ v = w := by simpa [growDir] using hgrow
    exact ⟨hI, hd, by simp, by simp [Zeroed], rfl, rfl, rfl, fun _ _ _ => rfl, fun _ _ => rfl⟩
  | succ n ih =>
    obtain ⟨c, u, halloc⟩ : ∃ c u, alloc_cluster v = (c, u) := ⟨_, _, rfl⟩
    simp only [growDir, halloc] at hgrow
    obtain ⟨hk, harea, hcase⟩ := hI.alloc halloc
    have hchain : chain eoc u.fat d = chain eoc v.fat d := chain_congr fun b hb => (hk.dir_cells hd hb).1
    rcases hcase with ⟨hc, hIu, hother⟩ | ⟨hcell, hfree, hfat, hIu⟩
    · rw [if_pos hc] at hgrow
      obtain ⟨rfl, -, rfl⟩ : [] = l ∧ false = ok ∧ u = w := by simpa using hgrow
      refine ⟨hIu, hk.dir hd, by rw [hchain, append_nil], by simp [Zeroed], hk.spc, hk.rootLen, hk.root, ?_, ?_⟩
      · intro b hb _
        exact hother b hb
      · intro b _
        rw [harea]
    · have hp2 : 2 ≤ p := ((hI.sound.dir_sound hd).linked.isCell (mem_of_getLast? hp)).1
      have hmark : u.fat c = 0xFFFF := by rw [hfat, update_self]
      rw [if_neg fun hc => noCluster_iff.mp hc hcell, setFat_self hmark, if_pos hp2] at hgrow
      obtain ⟨hIt, hgrown, hreach⟩ := hIu.extendDir (hk.dir hd) (by rw [hchain]; exact hp)
      generalize ht : (u.setFat p c).zero c = t at hgrow hIt hgrown hreach
      obtain ⟨m, ok', w', hrec⟩ : ∃ m ok' w', growDir n c t = (m, ok', w') := ⟨_, _, _, rfl⟩
      simp only [hrec] at hgrow
      obtain ⟨rfl, -, rfl⟩ : c :: m = l ∧ ok' = ok ∧ w' = w := by simpa using hgrow
      obtain ⟨hIw, hdw, hcw, hzero, hrest⟩ := ih hIt (hreach d (hk.dir hd)) (by rw [hgrown]; simp) hrec
      have hc2 := hcell.1
      refine ⟨hIw, hdw, by rw [hcw, hgrown, hchain]; simp, ?_,
        Continues.step harea hk.spc hk.rootLen hfree hfat (by omega) ht hrest⟩
      intro b hb i hi
      rcases mem_cons.mp hb with rfl | hb
      · have hzeroed : t.raw (some b, i) = fun _ => 0 := by
          rw [hrest.spc] at hi
          rw [← ht] at hi ⊢
          exact Vol.raw_zero hi
        have htb : t.fat b ≠ 0 := by
          have hlinked := (hIt.sound.dir_sound (hreach d (hk.dir hd))).linked
          apply hlinked.next_ne_zero
          show b ∈ chain eoc t.fat d
          rw [hgrown]
          simp
        rw [Vol.raw_congr (hrest.area b htb), hzeroed]
      · exact hzero b hb i hi

end Orion.Fat16
