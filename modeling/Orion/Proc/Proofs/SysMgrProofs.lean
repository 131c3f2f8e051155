import Mathlib.Data.List.ReduceOption
import Orion.Proc.SysMgr

/-!
# Requests during a launch

As long as no request comes between the clearing of the flag and the end of the launch, the buffers hold the request
that is being launched.
-/

namespace Orion.Proc.SysMgr

open Lib List

variable {s : State} {r : Request}

theorem copied_of_short {text : Str} (h : text.length < SYSMGR_EXEC_MAX_LEN) : copied text = text :=
  take_of_length_le (Nat.le_pred_of_lt h)

theorem copyArgs_frame (args : List (Option Str)) (i : ℕ) (buf : ℕ → Str) {k : ℕ} (hk : k < i) :
    (copyArgs i args buf).2 k = buf k := by
  induction args generalizing i buf with
  | nil => rfl
  | cons arg args ih =>
    rcases arg with _ | text
    · rfl
    rw [copyArgs, ih (i + 1) _ (Nat.lt_succ_of_lt hk)]
    exact Function.update_of_ne (Nat.ne_of_lt hk) ..

theorem copyArgs_ok (args : List (Option Str)) (i : ℕ) (buf : ℕ → Str)
    (hshort : ∀ text, some text ∈ args → text.length < SYSMGR_EXEC_MAX_LEN) (hok : (copyArgs i args buf).1 = true) :
    (List.range' i args.length).map (copyArgs i args buf).2 = args.reduceOption := by
  induction args generalizing i buf with
  | nil => rfl
  | cons arg args ih =>
    rcases arg with _ | text
    · cases hok
    have hhere : (copyArgs i (some text :: args) buf).2 i = text := by
      rw [copyArgs, copyArgs_frame args (i + 1) _ (Nat.lt_succ_self i), Function.update_self]
      exact copied_of_short (hshort text mem_cons_self)
    rw [length_cons, List.range'_succ, map_cons, hhere, reduceOption_cons_of_some]
    exact congrArg (text :: ·) (ih (i + 1) _ (fun t ht => hshort t (mem_cons_of_mem _ ht)) hok)

/-- The buffers hold the request. -/
def Holds (s : State) (argc : ℕ) (background : Bool) (r : Request) : Prop :=
  s.path = r.path ∧ (List.range argc).map s.argv = r.argv ∧ background = r.background

/-- What is left of the accepted requests in front of and during a launch. -/
def Waits (s : State) (rest : List Request) : Prop :=
  match s.thread, s.pending with
  | .idle, false => rest = []
  | .idle, true => ∃ r, rest = [r] ∧ Holds s s.argc s.background r
  | .taken argc background, pending => pending = false ∧ ∃ r, rest = [r] ∧ Holds s argc background r
  | .created argc background name, pending =>
    pending = false ∧ ∃ r, rest = [r] ∧ Holds s argc background r ∧ name = r.path

/-- The launches follow the accepted requests, and the rest of them is waiting. -/
def Inv (s : State) : Prop :=
  ∃ done rest, s.accepted = done ++ rest ∧ List.Forall₂ Follows done s.launches ∧ Waits s rest

theorem Inv.unmixed (h : Inv s) : Unmixed s := by
  obtain ⟨done, rest, hacc, hdone, hwaits⟩ := h
  refine ⟨done, rest, hacc, hdone, ?_⟩
  obtain ⟨pending, background, argc, path, argv, thread, accepted, launches⟩ := s
  cases thread with
  | idle =>
    cases pending with
    | false => rw [show rest = [] from hwaits]; rfl
    | true => obtain ⟨r, rfl, -⟩ := hwaits; rfl
  | taken argc background => obtain ⟨rfl, r, rfl, -⟩ := hwaits; rfl
  | created argc background name => obtain ⟨rfl, r, rfl, -⟩ := hwaits; rfl

theorem Inv.request (h : Inv s) {path : Option Str} {argv : List (Option Str)} {background : Bool}
    (hapart : Apart s (.request path argv background)) : Inv (sysmgr_request_exec s path argv background).2 := by
  obtain ⟨hshort, hidle⟩ := hapart
  rcases path with _ | path
  · exact h
  unfold sysmgr_request_exec
  dsimp only
  split
  · exact h
  next hargs =>
  split
  · exact h
  next hpending =>
  have hthread : s.thread = .idle := by
    rcases hidle with hidle | hnone | hargc
    · exact hidle
    · cases hnone
    · exact absurd hargc hargs
  obtain ⟨done, rest, hacc, hdone, hwaits⟩ := h
  -- nothing is waiting, so that the buffers are free
  obtain rfl : rest = [] := by
    rw [Bool.not_eq_true] at hpending
    rwa [Waits, hthread, hpending] at hwaits
  split
  next hok =>
    refine ⟨done, [⟨path, argv.reduceOption, background⟩], by simp [hacc], hdone, ?_⟩
    rw [Waits, hthread]
    refine ⟨_, rfl, copied_of_short (hshort path mem_cons_self), ?_, rfl⟩
    rw [range_eq_range']
    exact copyArgs_ok argv 0 s.argv (fun t ht => hshort t (mem_cons_of_mem _ ht)) hok
  next =>
    refine ⟨done, [], hacc, hdone, ?_⟩
    rw [Bool.not_eq_true] at hpending
    rw [Waits, hthread, hpending]

theorem Inv.step {a : Act} (h : Inv s) (hapart : Apart s a) : Inv (step s a) := by
  obtain ⟨pending, background, argc, path, argv, thread, accepted, launches⟩ := s
  cases a with
  | request path argv background => exact h.request hapart
  | take =>
    cases thread with
    | idle =>
      rcases pending with _ | _
      · exact h
      obtain ⟨done, rest, hacc, hdone, r, hrest, hholds⟩ := h
      exact ⟨done, rest, hacc, hdone, rfl, r, hrest, hholds⟩
    | taken argc background => exact h
    | created argc background name => exact h
  | create ok =>
    cases thread with
    | idle => exact h
    | created argc background name => exact h
    | taken argc background =>
      obtain ⟨done, rest, hacc, hdone, rfl, r, rfl, hholds⟩ := h
      cases ok with
      | true => exact ⟨done, [r], hacc, hdone, rfl, r, rfl, hholds, hholds.1⟩
      | false =>
        refine ⟨done ++ [r], [], hacc.trans (append_nil _).symm, rel_append hdone (.cons ?_ .nil), rfl⟩
        exact ⟨hholds.1, fun _ hp => (nomatch hp), hholds.2.2⟩
  | start =>
    cases thread with
    | idle => exact h
    | taken argc background => exact h
    | created argc background name =>
      obtain ⟨done, rest, hacc, hdone, rfl, r, rfl, ⟨hpath, hargv, hback⟩, hname⟩ := h
      refine ⟨done ++ [r], [], hacc.trans (append_nil _).symm, rel_append hdone (.cons ?_ .nil), rfl⟩
      refine ⟨hname, fun p hp => ?_, hback⟩
      obtain rfl := Option.mem_some.mp hp
      exact Prod.ext hpath hargv

theorem inv_init : Inv init := ⟨[], [], rfl, .nil, rfl⟩

/-- Every accepted request gets its own launch, in every run in which no request comes between the clearing of the flag
and the end of the launch. -/
theorem unmixed_throughout (as : List Act) (hapart : EachStep step Apart init as) : Throughout step Unmixed init as :=
  throughout_of_inv (J := fun s _ => Inv s) (fun _ _ _ h ha => h.step ha) (fun _ _ h => h.unmixed) inv_init hapart

/-- The requests "a" and "b c": the second is refused while the first waits, and comes again after its launch. -/
def requestsApart : List Act :=
  [.request (some [97]) [some [97]] false, .request (some [98]) [some [98], some [99]] true, .take, .create true, .start,
    .request (some [98]) [some [98], some [99]] true, .take, .create true, .start]

theorem unmixed_requestsApart : Throughout step Unmixed init requestsApart ∧
    (exec step init requestsApart).launches =
      [⟨[97], some ([97], [[97]]), false⟩, ⟨[98], some ([98], [[98], [99]]), true⟩] := by
  have hfirst : Short (some [97]) [some [97]] := by
    intro text htext
    obtain rfl : text = [97] := by simpa using htext
    decide
  have hsecond : Short (some [98]) [some [98], some [99]] := by
    intro text htext
    obtain rfl | rfl : text = [98] ∨ text = [99] := by simpa using htext
    · decide
    · decide
  refine ⟨unmixed_throughout _ ?_, by decide +kernel⟩
  exact ⟨⟨hfirst, .inl rfl⟩, ⟨hsecond, .inl rfl⟩, trivial, trivial, trivial, ⟨hsecond, .inl rfl⟩, trivial, trivial,
    trivial, trivial⟩

/-- A second request comes in front of the part with interrupts off: the process with the first name runs the second
program, with as many arguments as the first request had. -/
def twoRequests : List Act :=
  [.request (some [97]) [some [97]] false, .take, .create true, .request (some [98]) [some [98], some [99]] false, .start]

/-- A second request comes between the creation and the start of the first. -/
theorem requests_mixed : ¬Throughout step Unmixed init twoRequests := by
  intro h
  obtain ⟨done, rest, hacc, hdone, -⟩ := throughout_iff_prefix.mp h twoRequests prefix_rfl
  have hlaunch : (exec step init twoRequests).launches = [⟨[97], some ([98], [[98]]), false⟩] := by decide +kernel
  have haccepted : (exec step init twoRequests).accepted = [⟨[97], [[97]], false⟩, ⟨[98], [[98], [99]], false⟩] := by
    decide +kernel
  rw [hlaunch] at hdone
  rw [haccepted] at hacc
  obtain ⟨r, hr, hfollows⟩ : ∃ r, done = [r] ∧ Follows r ⟨[97], some ([98], [[98]]), false⟩ := by
    cases hdone with
    | cons hr hnil =>
      cases hnil
      exact ⟨_, rfl, hr⟩
  rw [hr] at hacc
  obtain ⟨rfl, -⟩ := cons_eq_cons.mp hacc
  exact absurd (hfollows.2.1 _ rfl) (by decide)

end Orion.Proc.SysMgr
