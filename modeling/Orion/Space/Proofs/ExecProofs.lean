import Orion.Paging.Proofs.MapProofs
import Orion.Proc.Proofs.RunProofs
import Orion.Space.Exec

/-!
# A failed `SYS_EXEC`

`proc_exec` restores the fields of the process on every error path. Nothing restores the pages that were entered, which
are new to the caller, nor the bytes at `BIN_LOAD_ADDR`. So a failed call is undone exactly when it comes to no page and
`load_bin` changes nothing.
-/

namespace Orion.Space

open Paging Proc

theorem SameProgram.refl (p : Process) : SameProgram p p := ⟨rfl, rfl, rfl, rfl, rfl, rfl, rfl, rfl⟩

variable {d : PageDir} {m : Mapping}

theorem tracks_mapStack (h : Tracks d m) (env : ExecEnv) : Tracks d (mapStack env m).2 := by
  unfold mapStack
  split
  · exact h
  · exact h.mapPages _ _ _ _

variable {q : ExecSys} {env : ExecEnv} {img : Image}

/-- What a call has entered when it was served: something, and only pages that the caller did not see. -/
structure EnteredNew (q : ExecSys) (m : Mapping) : Prop where
  tracks : Tracks q.space.dir m
  some : m.entered ≠ []
  unseen : ∀ e ∈ m.entered, ∀ key, q.space.dir.userFrame key ≠ Option.some e.2

theorem EnteredNew.mapStack (h : EnteredNew q m) (hserved : env.Served q) : EnteredNew q (mapStack env m).2 := by
  refine ⟨tracks_mapStack h.tracks env, ?_, ?_⟩ <;> unfold Space.mapStack <;> split
  · exact h.some
  · exact mapPages_entered_ne h.some _ _ _ _
  · exact h.unseen
  · rename_i hstack
    exact mapPages_forall (P := fun frame => ∀ key, q.space.dir.userFrame key ≠ Option.some frame) h.unseen
      fun k hk page hpage => hserved.unseen _ page (.inr ⟨hstack, k, hk, rfl⟩) hpage

end Orion.Space
