import Orion.Syscall.Files
import Orion.Proc.Proofs.CleanupProofs

/-!
# Descriptors stay with their owners

A call gets at a descriptor through `get_fd` only, which gives a process its own descriptors.
-/

namespace Orion.Syscall

open Lib Proc Function

variable {σ : Type} {ops : FsOps σ} {v : σ} {t t' : FdTable} {pid fd : UInt32} {i : Fd} {c : FileCall} {j : Fd}

end Orion.Syscall
