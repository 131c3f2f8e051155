import Orion.Lib.Ring
import Orion.Lib.Runs

/-!
# Requests for a rescan of the disks (`src/fs/disk.c`, `src/kernel/proc/workqueue.c`)

`disk_request_rescan` consists of critical sections with interrupts off, between which other code may run: other
callers, drivers that post work, and the thread that runs the work queue. A step of the model is one critical section,
or the start or the end of a call that the worker makes. The state also remembers when each call was made and when the
detection passes started.
-/

namespace Orion.Disk

open Lib

/-- An item of the work queue. -/
inductive Work where
  | rescan
  | other
deriving DecidableEq

/-- `WORKQUEUE_SIZE` -/
abbrev queueSize : ℕ := 64

/-- Where the thread is that runs `workqueue_run`. -/
inductive Worker where
  | idle
  /-- In the function of another work item. -/
  | busy
  /-- In `disk_rescan_work`, in front of a call of `detect_disks_quick`. -/
  | entered
  /-- In `detect_disks_quick` since the given time. -/
  | detecting (start : ℕ)
  /-- Behind that call, in front of the critical section. -/
  | detected
deriving DecidableEq

/-- A call of `disk_request_rescan` that has set `disk_rescan_pending` and not returned, and whether its
`workqueue_enqueue` has failed. -/
structure Caller where
  time : ℕ
  failed : Bool

/-- The variables of the rescan protocol and its callers. -/
structure State where
  /-- `disk_rescan_pending` -/
  pending : Bool
  /-- `disk_rescan_again` -/
  again : Bool
  queue : RingBuffer Work
  worker : Worker
  callers : List Caller
  /-- The number of steps so far. -/
  now : ℕ
  /-- When the last completed detection pass was started; zero if there was none. -/
  completed : ℕ
  /-- When the calls were made that have returned. -/
  returned : List ℕ

/-- The state after `workqueue_init`. -/
def init : State := ⟨false, false, RingBuffer.empty, .idle, [], 0, 0, []⟩

/-- A critical section of a caller or of the worker. -/
inductive Act where
  /-- The first critical section of a new call. -/
  | request
  /-- The call of `workqueue_enqueue` by the `i`-th caller. -/
  | enqueue (i : ℕ)
  /-- The second critical section of the `i`-th caller, whose `workqueue_enqueue` has failed. -/
  | giveUp (i : ℕ)
  /-- A driver posts other work. -/
  | post
  /-- The critical section of `workqueue_run`. -/
  | take
  /-- The function of another work item returns. -/
  | leave
  /-- `disk_rescan_work` calls `detect_disks_quick`. -/
  | detect
  /-- `detect_disks_quick` returns. -/
  | finish
  /-- The critical section of `disk_rescan_work`. -/
  | decide

/-- The first critical section of `disk_request_rescan`. -/
def request (s : State) : State :=
  if s.pending then { s with again := true, returned := s.now :: s.returned }
  else { s with pending := true, callers := ⟨s.now, false⟩ :: s.callers }

/-- `workqueue_enqueue(disk_rescan_work, NULL)` by the `i`-th caller. -/
def enqueueRescan (s : State) (i : ℕ) : State :=
  match s.callers[i]? with
  | some ⟨t, false⟩ =>
    match s.queue.enqueue queueSize .rescan with
    | some q => { s with queue := q, callers := s.callers.eraseIdx i, returned := t :: s.returned }
    | none => { s with callers := s.callers.set i ⟨t, true⟩ }
  | _ => s

/-- The end of a call whose `workqueue_enqueue` has failed. -/
def giveUp (s : State) (i : ℕ) : State :=
  match s.callers[i]? with
  | some ⟨t, true⟩ =>
    { s with pending := false, callers := s.callers.eraseIdx i, returned := t :: s.returned }
  | _ => s

/-- `workqueue_enqueue` of other work; the drivers ignore its result. -/
def post (s : State) : State :=
  match s.queue.enqueue queueSize .other with
  | some q => { s with queue := q }
  | none => s

/-- The worker takes an item from the queue. -/
def take (s : State) : State :=
  match s.worker with
  | .idle =>
    match s.queue.dequeue queueSize with
    | (some .rescan, q) => { s with queue := q, worker := .entered }
    | (some .other, q) => { s with queue := q, worker := .busy }
    | (none, q) => { s with queue := q }
  | _ => s

/-- The critical section of `disk_rescan_work`. -/
def decideAgain (s : State) : State :=
  match s.worker with
  | .detected =>
    if s.again then { s with again := false, worker := .entered }
    else { s with pending := false, worker := .idle }
  | _ => s

/-- The effect of one critical section. -/
def act (s : State) : Act → State
  | .request => request s
  | .enqueue i => enqueueRescan s i
  | .giveUp i => giveUp s i
  | .post => post s
  | .take => take s
  | .leave => if s.worker = .busy then { s with worker := .idle } else s
  | .detect => if s.worker = .entered then { s with worker := .detecting s.now } else s
  | .finish =>
    match s.worker with
    | .detecting start => { s with worker := .detected, completed := start }
    | _ => s
  | .decide => decideAgain s

/-- One critical section, at the next point of time. -/
def step (s : State) (a : Act) : State := act { s with now := s.now + 1 } a

/-- A detection pass is going to start: `disk_rescan_work` is queued, in front of a pass, or flagged to repeat one. -/
def Scheduled (s : State) : Prop :=
  some Work.rescan ∈ s.queue.contents queueSize ∨ s.worker = .entered ∨ (s.again = true ∧ s.pending = true)

/-- A pass that started after the time `t` has completed, is running, or is going to start. -/
def Served (s : State) (t : ℕ) : Prop :=
  t < s.completed ∨ (∃ start, s.worker = .detecting start ∧ t < start) ∨ Scheduled s

/-- Every request that returned has been served or will be. -/
def NoLostRescan (s : State) : Prop := ∀ t ∈ s.returned, Served s t

/-- A caller returns although its `workqueue_enqueue` has failed. -/
def GivesUp (s : State) (a : Act) : Prop := ∃ i t, a = .giveUp i ∧ s.callers[i]? = some ⟨t, true⟩

end Orion.Disk
