import Orion.Lib.Ring
import Orion.Lib.Runs

/-!
# Deferred work (`src/kernel/proc/workqueue.c`)

`workqueue_enqueue` may be called from an interrupt, from a thread and from a work item. Its body and the
body of the loop of `workqueue_run` are critical sections with interrupts off; the function of an item is called
outside of them. A step is one of these sections or the start or the end of such a call.
-/

namespace Orion.Proc.WorkQueue

open Lib

/-- `WORKQUEUE_SIZE` -/
abbrev queueSize : ℕ := 64

variable {F C : Type}

/-- `work_item_t`, without the null pointer for `fn`. -/
structure Item (F C : Type) where
  fn : F
  ctx : C
deriving DecidableEq

/-- Where the thread is that runs `workqueue_run`. -/
inductive Worker (F C : Type) where
  | loop
  /-- Behind the critical section, in front of `fn(ctx)`. -/
  | taken (item : Item F C)
  | calling

/-- The queue, the items that `workqueue_enqueue` accepted and those that were run. -/
structure State (F C : Type) where
  queue : RingBuffer (Item F C)
  worker : Worker F C
  accepted : List (Item F C)
  executed : List (Item F C)

/-- The state after `workqueue_init`. -/
def init : State F C := ⟨RingBuffer.empty, .loop, [], []⟩

/-- `workqueue_enqueue`; `none` is the null pointer. -/
def workqueue_enqueue (s : State F C) (fn : Option F) (ctx : C) : Bool × State F C :=
  match fn with
  | none => (false, s)
  | some fn =>
    match s.queue.enqueue queueSize ⟨fn, ctx⟩ with
    | none => (false, s)
    | some q => (true, { s with queue := q, accepted := s.accepted ++ [⟨fn, ctx⟩] })

/-- A critical section or a call of an item's function. -/
inductive Act (F C : Type) where
  | enqueue (fn : Option F) (ctx : C)
  /-- The critical section of `workqueue_run`. -/
  | take
  /-- `fn(ctx)` is called. -/
  | call
  /-- `fn(ctx)` returns. -/
  | leave

/-- The effect of an act; one that is not due does nothing. -/
def step (s : State F C) : Act F C → State F C
  | .enqueue fn ctx => (workqueue_enqueue s fn ctx).2
  | .take =>
    match s.worker with
    | .loop =>
      let (item, q) := s.queue.dequeue queueSize
      { s with queue := q, worker := item.elim .loop .taken }
    | _ => s
  | .call =>
    match s.worker with
    | .taken item => { s with worker := .calling, executed := s.executed ++ [item] }
    | _ => s
  | .leave =>
    match s.worker with
    | .calling => { s with worker := .loop }
    | _ => s

/-- All cells but the one that stays empty hold an item. -/
def Full (s : State F C) : Prop := (s.queue.contents queueSize).length + 1 = queueSize

/-- What was run is a prefix of what was accepted, and only the null pointer is refused while the ring has room. -/
structure InOrder (s : State F C) : Prop where
  isPrefix : s.executed <+: s.accepted
  refused : ∀ fn ctx, (workqueue_enqueue s fn ctx).1 = false → fn = none ∨ Full s

end Orion.Proc.WorkQueue
