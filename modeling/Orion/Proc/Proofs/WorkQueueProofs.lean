import Orion.Proc.WorkQueue

/-!
# Work items run in the order in which they were accepted
-/

namespace Orion.Proc.WorkQueue

open Lib

variable {F C : Type}

def Worker.held : Worker F C → List (Item F C)
  | .taken item => [item]
  | _ => []

/-- What was accepted was run, is held by the worker or waits in the ring, in this order. -/
def Accounted (s : State F C) : Prop :=
  ∃ waiting, RingBuffer.Repr queueSize s.queue waiting ∧ s.accepted = s.executed ++ s.worker.held ++ waiting

variable {s : State F C}

theorem accounted_init : Accounted (init : State F C) := ⟨[], RingBuffer.repr_empty (by decide), rfl⟩

theorem Accounted.enqueue (h : Accounted s) (fn : Option F) (ctx : C) : Accounted (workqueue_enqueue s fn ctx).2 := by
  rcases fn with _ | fn
  · exact h
  obtain ⟨waiting, hrepr, hacc⟩ := h
  obtain ⟨-, hfull⟩ | ⟨q, -, hok, hrepr'⟩ := hrepr.enqueue_cases ⟨fn, ctx⟩
  · simp only [workqueue_enqueue, hfull]
    exact ⟨waiting, hrepr, hacc⟩
  · simp only [workqueue_enqueue, hok]
    exact ⟨waiting ++ [⟨fn, ctx⟩], hrepr', by simp [hacc]⟩

theorem Accounted.take (h : Accounted s) : Accounted (step s .take) := by
  obtain ⟨queue, worker, accepted, executed⟩ := s
  cases worker with
  | taken item => exact h
  | calling => exact h
  | loop =>
    obtain ⟨waiting, hrepr, hacc⟩ := h
    cases waiting with
    | nil =>
      simp only [step, hrepr.dequeue_nil]
      exact ⟨[], hrepr, hacc⟩
    | cons item waiting =>
      obtain ⟨q, hq, hrepr'⟩ := hrepr.dequeue_cons
      simp only [step, hq]
      exact ⟨waiting, hrepr', by simpa [Worker.held] using hacc⟩

theorem Accounted.step (h : Accounted s) (a : Act F C) : Accounted (step s a) := by
  cases a with
  | enqueue fn ctx => exact h.enqueue fn ctx
  | take => exact h.take
  | call =>
    obtain ⟨queue, worker, accepted, executed⟩ := s
    cases worker with
    | taken item =>
      obtain ⟨waiting, hrepr, hacc⟩ := h
      exact ⟨waiting, hrepr, by simpa [WorkQueue.step, Worker.held] using hacc⟩
    | loop => exact h
    | calling => exact h
  | leave =>
    obtain ⟨queue, worker, accepted, executed⟩ := s
    cases worker <;> exact h

theorem Accounted.inOrder (h : Accounted s) : InOrder s := by
  obtain ⟨waiting, hrepr, hacc⟩ := h
  refine ⟨?_, fun fn ctx hno => ?_⟩
  · rw [hacc, List.append_assoc]
    exact List.prefix_append _ _
  rcases fn with _ | fn
  · exact .inl rfl
  obtain ⟨hlen, -⟩ | ⟨q, -, hok, -⟩ := hrepr.enqueue_cases ⟨fn, ctx⟩
  · right
    rw [Full, hrepr.contents_eq, List.length_map, hlen]
  · simp [workqueue_enqueue, hok] at hno

/-- In every interleaving the executed items are a prefix of the accepted ones, and an item is refused only by a full
ring. -/
theorem inOrder_throughout (as : List (Act F C)) : Throughout step InOrder init as :=
  throughout_of_inv (J := fun s _ => Accounted s) (Q := fun _ _ => True) (fun _ a _ h _ => h.step a)
    (fun _ _ h => h.inOrder) accounted_init (eachStep_trivial _ _)

theorem null_refused : (workqueue_enqueue (init : State ℕ ℕ) none 0).1 = false ∧ ¬Full (init : State ℕ ℕ) :=
  ⟨rfl, by unfold Full; decide⟩

end Orion.Proc.WorkQueue
