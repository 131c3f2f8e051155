import Orion.Lib.Runs

/-!
# Deferred program starts (`src/kernel/proc/sysmgr.c`)

`sysmgr_request_exec` is called in interrupts and leaves a request in static buffers; `sysmgr_thread` hands pointers to
these buffers to `bin_create_process`, which copies the path and, with interrupts off, loads the program and builds the
stack with the arguments.
-/

namespace Orion.Proc.SysMgr

abbrev Str := List UInt8

def SYSMGR_EXEC_MAX_ARGS : ℕ := 16
def SYSMGR_EXEC_MAX_LEN : ℕ := 256

/-- What is read back after `strncpy` into a buffer whose last byte is then cleared. -/
def copied (text : Str) : Str := text.take (SYSMGR_EXEC_MAX_LEN - 1)

/-- A request to start a program. -/
structure Request where
  path : Str
  argv : List Str
  background : Bool
deriving DecidableEq

/-- A call of `sysmgr_launch_process`: the name of the process, and the program and arguments it got, if there was a
process. -/
structure Launch where
  name : Str
  started : Option (Str × List Str)
  background : Bool
deriving DecidableEq

/-- Where `sysmgr_thread` is: behind the clearing of the flag it has `argc` and `background` in its own variables. -/
inductive Thread where
  | idle
  | taken (argc : ℕ) (background : Bool)
  | created (argc : ℕ) (background : Bool) (name : Str)

/-- The static variables, the thread, the requests that were accepted and the launches. -/
structure State where
  pending : Bool
  background : Bool
  argc : ℕ
  path : Str
  argv : ℕ → Str
  thread : Thread
  accepted : List Request
  launches : List Launch

def init : State := ⟨false, false, 0, [], fun _ => [], .idle, [], []⟩

/-- The loop over the arguments; `none` is a null pointer. -/
def copyArgs : ℕ → List (Option Str) → (ℕ → Str) → Bool × (ℕ → Str)
  | _, [], buf => (true, buf)
  | _, none :: _, buf => (false, buf)
  | i, some arg :: args, buf => copyArgs (i + 1) args (Function.update buf i (copied arg))

/-- `sysmgr_request_exec`; `argc` is the length of `argv`, and a null `argv` the empty list. -/
def sysmgr_request_exec (s : State) (path : Option Str) (argv : List (Option Str)) (background : Bool) : Bool × State :=
  match path with
  | none => (false, s)
  | some path =>
    if argv = [] ∨ argv.length > SYSMGR_EXEC_MAX_ARGS then (false, s)
    else if s.pending then (false, s)
    else
      let (ok, buf) := copyArgs 0 argv s.argv
      let s := { s with path := copied path, argv := buf }
      if ok then
        (true, { s with
          argc := argv.length, background := background, pending := true
          accepted := s.accepted ++ [⟨path, argv.reduceOption, background⟩] })
      else (false, s)

/-- A step of a caller or of the manager thread. -/
inductive Act where
  | request (path : Option Str) (argv : List (Option Str)) (background : Bool)
  /-- The thread finds the flag set and clears it. -/
  | take
  /-- `proc_create_pending`, which may find no free slot. -/
  | create (ok : Bool)
  /-- The part of `bin_create_process` with interrupts off. -/
  | start

/-- The effect of a step; one that is not due does nothing. -/
def step (s : State) : Act → State
  | .request path argv background => (sysmgr_request_exec s path argv background).2
  | .take =>
    match s.thread with
    | .idle => if s.pending then { s with pending := false, thread := .taken s.argc s.background } else s
    | _ => s
  | .create ok =>
    match s.thread with
    | .taken argc background =>
      if ok then { s with thread := .created argc background s.path }
      else { s with thread := .idle, launches := s.launches ++ [⟨s.path, none, background⟩] }
    | _ => s
  | .start =>
    match s.thread with
    | .created argc background name =>
      { s with
        thread := .idle
        launches := s.launches ++ [⟨name, some (s.path, (List.range argc).map s.argv), background⟩] }
    | _ => s

/-- The launch is the one that was asked for. -/
def Follows (r : Request) (l : Launch) : Prop :=
  l.name = r.path ∧ (∀ p ∈ l.started, p = (r.path, r.argv)) ∧ l.background = r.background

/-- A request is waiting or its launch is not complete. -/
def State.busy (s : State) : Bool :=
  s.pending ||
    match s.thread with
    | .idle => false
    | _ => true

/-- Each accepted request had its own launch, but for the last one while it is waiting or being launched. -/
def Unmixed (s : State) : Prop :=
  ∃ done rest, s.accepted = done ++ rest ∧ List.Forall₂ Follows done s.launches ∧ rest.length = s.busy.toNat

/-- All texts are shorter than the buffers. -/
def Short (path : Option Str) (argv : List (Option Str)) : Prop :=
  ∀ text, some text ∈ path :: argv → text.length < SYSMGR_EXEC_MAX_LEN

/-- A request comes while the thread is not between the clearing of the flag and the end of the launch, or is refused;
its texts are short. -/
def Apart (s : State) : Act → Prop
  | .request path argv _ =>
    Short path argv ∧ (s.thread = .idle ∨ path = none ∨ argv = [] ∨ argv.length > SYSMGR_EXEC_MAX_ARGS)
  | _ => True

end Orion.Proc.SysMgr
