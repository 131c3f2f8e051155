import Orion.Lib.Runs

/-!
# Timer tasks (`src/kernel/proc/timer_task.c`)

A table of tasks with the tick at which each is to run next. Ticks are compared by the sign of their 32-bit
difference.
-/

namespace Orion.Proc.Timer

/-- `MAX_TIMER_TASKS` -/
abbrev maxTimerTasks : ℕ := 32

/-- An active `timer_task_t`; `call` is `fn` with its `ctx`. -/
structure Task (α : Type) where
  id : UInt32
  due_tick : UInt32
  interval_ticks : UInt32
  call : α

/-- An inactive slot is `none`. -/
structure Timers (α : Type) where
  tasks : Fin maxTimerTasks → Option (Task α)
  next_id : UInt32
  tick : UInt32

variable {α : Type}

/-- `(int32_t)(now - when) >= 0` -/
def tick_elapsed (now due : UInt32) : Bool := decide ((now - due).toNat < 2 ^ 31)

namespace Timers

def set (s : Timers α) (i : Fin maxTimerTasks) (t : Option (Task α)) : Timers α :=
  { s with tasks := Function.update s.tasks i t }

/-- The first slot, in the order of the loops of the source. -/
def first (s : Timers α) (p : Option (Task α) → Bool) : Option (Fin maxTimerTasks) :=
  (List.finRange maxTimerTasks).find? fun i => p (s.tasks i)

/-- The task has waited long enough. -/
def due (s : Timers α) (t : Option (Task α)) : Bool := t.any fun t => tick_elapsed s.tick t.due_tick

end Timers

/-- `timer_task_alloc`; `none` is the null pointer for `fn`, and -1 as a result. -/
def timer_task_alloc (s : Timers α) (delay_ticks interval_ticks : UInt32) (call : Option α) :
    Option UInt32 × Timers α :=
  match call, s.first Option.isNone with
  | some call, some slot =>
    let delay_ticks := if delay_ticks = 0 then 1 else delay_ticks
    let next_id := if s.next_id + 1 = 0 then 1 else s.next_id + 1
    (some s.next_id,
      { s.set slot (some ⟨s.next_id, s.tick + delay_ticks, interval_ticks, call⟩) with next_id := next_id })
  | _, _ => (none, s)

def timer_task_cancel (s : Timers α) (id : UInt32) : Bool × Timers α :=
  if id = 0 then (false, s)
  else
    match s.first fun t => t.any fun t => t.id = id with
    | some i => (true, s.set i none)
    | none => (false, s)

/-- What the slot of a task holds once it is taken at `now`. -/
def Task.next (t : Task α) (now : UInt32) : Option (Task α) :=
  if t.interval_ticks = 0 then none else some { t with due_tick := now + t.interval_ticks }

/-- One turn of the loop of `timer_task_run_due`: the task that is called, and the table. -/
def runTurn (s : Timers α) : Option (Task α × Timers α) := do
  let i ← s.first s.due
  let t ← s.tasks i
  some (t, s.set i (t.next s.tick))

/-- `timer_task_run_due` with a bound on the turns, and the calls it makes; `none` if it has not ended. -/
def timer_task_run_due : ℕ → Timers α → Option (List α × Timers α)
  | 0, _ => none
  | n + 1, s =>
    match runTurn s with
    | none => some ([], s)
    | some (t, s) => (timer_task_run_due n s).map fun (calls, s) => (t.call :: calls, s)

/-- The calls of the tasks that are due, in the order of the table. -/
def dueCalls (s : Timers α) : List α :=
  ((List.finRange maxTimerTasks).filter fun i => s.due (s.tasks i)).filterMap fun i => (s.tasks i).map Task.call

/-! ## Histories -/

/-- A call of a task: who scheduled it, how many ticks it waited and had to, whether it is not periodic and whether it
was cancelled. -/
structure Run where
  serial : ℕ
  waited : ℕ
  wait : ℕ
  oneShot : Bool
  cancelled : Bool

/-- The table with its history: tasks are numbered by their scheduling, `armed` says when and for how many ticks, and
`time` counts ticks. -/
structure History where
  timers : Timers ℕ
  time : ℕ
  scheduled : ℕ
  armed : ℕ → ℕ × ℕ
  cancelled : List ℕ
  log : List Run

/-- After `timer_task_init`, with the tick counter at 0. -/
def History.init : History := ⟨⟨fun _ => none, 1, 0⟩, 0, 0, fun _ => (0, 0), [], []⟩

/-- A call, or a turn of the loop over due tasks. -/
inductive Act where
  | schedule (delay_ticks interval_ticks : UInt32)
  | cancel (id : UInt32)
  | tick
  /-- One turn of `timer_task_run_due`. -/
  | run

/-- The tasks that a holder of `id` may have asked for. -/
def History.withId (s : History) (id : UInt32) : List ℕ :=
  ((List.finRange maxTimerTasks).filterMap s.timers.tasks).filterMap fun t =>
    if t.id = id then some t.call else none

/-- The timers after an act, with the record of what ran. -/
def step (s : History) : Act → History
  | .schedule delay interval =>
    { s with
      timers := (timer_task_alloc s.timers delay interval (some s.scheduled)).2
      scheduled := s.scheduled + 1
      armed := Function.update s.armed s.scheduled (s.time, delay.toNat) }
  | .cancel id =>
    let (ok, timers) := timer_task_cancel s.timers id
    { s with timers := timers, cancelled := if ok then s.withId id ++ s.cancelled else s.cancelled }
  | .tick => { s with timers := { s.timers with tick := s.timers.tick + 1 }, time := s.time + 1 }
  | .run =>
    match runTurn s.timers with
    | none => s
    | some (t, timers) =>
      let (since, wait) := s.armed t.call
      { s with
        timers := timers
        armed := Function.update s.armed t.call (s.time, t.interval_ticks.toNat)
        log := ⟨t.call, s.time - since, wait, t.interval_ticks = 0, s.cancelled.contains t.call⟩ :: s.log }

/-- No call came too early or after a cancel, and a task that is not periodic was called once at most. -/
structure Respects (s : History) : Prop where
  waited : ∀ r ∈ s.log, r.wait ≤ r.waited
  live : ∀ r ∈ s.log, r.cancelled = false
  once : ((s.log.filter Run.oneShot).map Run.serial).Nodup

/-- A task is scheduled with a delay and an interval of at most 2^31 ticks, and under an id that no other active
task has. -/
def Fits (s : History) : Act → Prop
  | .schedule delay interval =>
    delay.toNat ≤ 2 ^ 31 ∧ interval.toNat ≤ 2 ^ 31 ∧ ∀ i t, s.timers.tasks i = some t → t.id ≠ s.timers.next_id
  | _ => True

end Orion.Proc.Timer
