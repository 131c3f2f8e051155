import Orion.Mem.Proofs.EditProofs

/-!
# Cutting and joining blocks

On the address side an edit replaces a block by two that fill the same range, or two neighbours by one.
The layout survives because the rest of the list only sees the range.
-/

namespace Orion.Mem

open List

variable {base curr : Nat} {a a' b : Block} {bs xs ys : List Block}

theorem Layout.sep (hl : Layout base curr bs) (hbase : 0 < base) (hcurr : curr ≤ 2 ^ 32) : Sep bs := by
  refine ⟨hl.sorted.imp ?_, ?_, ?_⟩
  · intro a b hab
    unfold Block.last at hab
    omega
  · intro b hb
    have hlast := hl.last_le b hb
    unfold Block.last at hlast
    omega
  · intro b hb hzero
    have hle := hl.base_le b hb
    rw [hzero] at hle
    simp at hle
    omega

/-- What the blocks around a position say about the block in it. -/
structure Fits (base curr : Nat) (xs : List Block) (lo hi : Nat) (ys : List Block) : Prop where
  base_le : base ≤ lo
  le_curr : hi ≤ curr
  before : ∀ x ∈ xs, x.last ≤ lo
  after : ∀ y ∈ ys, hi ≤ y.addr.toNat

theorem Layout.fits (hl : Layout base curr (xs ++ a :: ys)) : Fits base curr xs a.addr.toNat a.last ys := by
  obtain ⟨-, hay, hcross⟩ := pairwise_append.mp hl.sorted
  refine ⟨hl.base_le a (by simp), hl.last_le a (by simp), ?_, ?_⟩
  · exact fun x hx => hcross x hx a mem_cons_self
  · exact (pairwise_cons.mp hay).1

theorem Layout.sublist (hl : Layout base curr bs) (hsub : xs.Sublist bs) : Layout base curr xs :=
  ⟨hl.sorted.sublist hsub, fun b hb => hl.base_le b (hsub.subset hb),
    fun b hb => hl.last_le b (hsub.subset hb), fun b hb => hl.addr_dvd b (hsub.subset hb),
    fun b hb => hl.size_dvd b (hsub.subset hb)⟩

theorem Layout.replace {lo hi : Nat} {ms : List Block} (hxs : Layout base curr xs)
    (hys : Layout base curr ys) (hfit : Fits base curr xs lo hi ys) (hms : Layout lo hi ms)
    (hle : lo ≤ hi) : Layout base curr (xs ++ (ms ++ ys)) := by
  have hfirst : ∀ m ∈ ms, lo ≤ m.addr.toNat := hms.base_le
  have hmem : ∀ {P : Block → Prop}, (∀ x ∈ xs, P x) → (∀ m ∈ ms, P m) → (∀ y ∈ ys, P y) →
      ∀ c ∈ xs ++ (ms ++ ys), P c := by
    intro P h1 h2 h3 c hc
    rcases mem_append.mp hc with hc | hc
    · exact h1 c hc
    · rcases mem_append.mp hc with hc | hc
      · exact h2 c hc
      · exact h3 c hc
  refine ⟨?_, ?_, ?_, ?_, ?_⟩
  · refine pairwise_append.mpr ⟨hxs.sorted, ?_, ?_⟩
    · refine pairwise_append.mpr ⟨hms.sorted, hys.sorted, ?_⟩
      exact fun m hm y hy => (hms.last_le m hm).trans (hfit.after y hy)
    · intro x hx c hc
      have hx' := hfit.before x hx
      rcases mem_append.mp hc with hc | hc
      · exact hx'.trans (hfirst c hc)
      · exact hx'.trans (hle.trans (hfit.after c hc))
  · exact hmem hxs.base_le (fun m hm => hfit.base_le.trans (hfirst m hm)) hys.base_le
  · exact hmem hxs.last_le (fun m hm => (hms.last_le m hm).trans hfit.le_curr) hys.last_le
  · exact hmem hxs.addr_dvd hms.addr_dvd hys.addr_dvd
  · exact hmem hxs.size_dvd hms.size_dvd hys.size_dvd

theorem layout_single (haddr : 4 ∣ a.addr.toNat) (hsize : 4 ∣ a.size.toNat) : Layout a.addr.toNat a.last [a] := by
  refine ⟨pairwise_singleton _ a, ?_, ?_, ?_, ?_⟩ <;> intro b hb <;>
    obtain rfl := mem_singleton.mp hb
  · exact le_rfl
  · exact le_rfl
  · exact haddr
  · exact hsize

theorem layout_pair (hadj : a.last = b.addr.toNat) (ha : 4 ∣ a.addr.toNat) (has : 4 ∣ a.size.toNat)
    (hb : 4 ∣ b.addr.toNat) (hbs : 4 ∣ b.size.toNat) : Layout a.addr.toNat b.last [a, b] := by
  have hspan : a.addr.toNat ≤ a.last ∧ b.addr.toNat ≤ b.last := by
    unfold Block.last
    omega
  refine ⟨?_, ?_, ?_, ?_, ?_⟩
  · exact pairwise_pair.mpr hadj.le
  all_goals
    intro c hc
    rcases mem_pair.mp hc with rfl | rfl
  · exact le_rfl
  · omega
  · omega
  · exact le_rfl
  · exact ha
  · exact hb
  · exact has
  · exact hbs

end Orion.Mem
