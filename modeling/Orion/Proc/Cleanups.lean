import Orion.Proc.Moves

/-!
# What an operation cleans up

`proc_cleanup` tells other parts of the kernel that a process is gone. `cleaned` lists the pids with which an
operation calls it, in the order of the calls; a slot that was never used has the pid 0.
-/

namespace Orion.Proc

section Cleanups

variable (s : ProcSys)

/-- The pid in the slot that a creation takes. -/
def claimed : List UInt32 := (s.findSlot isFreeSlot).toList.map fun i => (s.proc_table i).pid

end Cleanups

end Orion.Proc
