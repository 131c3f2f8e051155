import Orion.Disk.Rescan

/-!
# Proofs: a rescan is lost exactly when a caller gives up

While `disk_rescan_pending` is set, `disk_rescan_work` is about to be queued, in the queue or running. A caller that
gives up takes this away.
-/

namespace Orion.Disk

open Lib List

variable {s : State} {t i : ℕ} {l : List Work} {q : RingBuffer Work} {a : Act}

/-- The worker is inside `disk_rescan_work`. -/
def Worker.inRescan : Worker → Bool
  | .entered | .detecting _ | .detected => true
  | _ => false

/-- How many calls, items and workers stand for the pending rescan. -/
def tokens (s : State) (l : List Work) : ℕ :=
  s.callers.length + l.count .rescan + s.worker.inRescan.toNat

/-- The invariant, where the queue holds the list `l`. -/
structure InvWith (s : State) (l : List Work) : Prop where
  repr : RingBuffer.Repr queueSize s.queue l
  tokens_eq : tokens s l = s.pending.toNat
  completed_le : s.completed ≤ s.now
  started : ∀ start, s.worker = .detecting start → s.completed ≤ start ∧ start ≤ s.now
  callers_late : ∀ c ∈ s.callers, s.completed < c.time ∧ c.time ≤ s.now
  returned_le : ∀ t ∈ s.returned, t ≤ s.now

def Inv (s : State) : Prop := ∃ l, InvWith s l

theorem inv_init : Inv init := by
  refine ⟨[], RingBuffer.repr_empty (by decide), rfl, le_refl _, ?_, ?_, ?_⟩
  · intro start h
    cases h
  · intro c h
    cases h
  · intro t h
    cases h

section

variable (h : InvWith s l)

include h

theorem InvWith.tick : InvWith { s with now := s.now + 1 } l where
  repr := h.repr
  tokens_eq := h.tokens_eq
  completed_le := Nat.le_succ_of_le h.completed_le
  started start hs := ⟨(h.started start hs).1, Nat.le_succ_of_le (h.started start hs).2⟩
  callers_late c hc := ⟨(h.callers_late c hc).1, Nat.le_succ_of_le (h.callers_late c hc).2⟩
  returned_le t ht := Nat.le_succ_of_le (h.returned_le t ht)

theorem InvWith.alone (hc : s.callers ≠ []) :
    s.callers.length = 1 ∧ Work.rescan ∉ l ∧ s.worker.inRescan = false ∧ s.pending = true := by
  have htokens := h.tokens_eq
  have hpos : 0 < s.callers.length := length_pos_iff.mpr hc
  unfold tokens at htokens
  have hle : s.pending.toNat ≤ 1 := Bool.toNat_le _
  have hcount : l.count Work.rescan = 0 := by omega
  have hworker : s.worker.inRescan.toNat = 0 := by omega
  have hpending : s.pending.toNat = 1 := by omega
  refine ⟨by omega, count_eq_zero.mp hcount, ?_, ?_⟩
  · simpa using hworker
  · simpa using hpending

/-- While the worker is in `disk_rescan_work`, no caller is about to queue it. -/
theorem InvWith.no_callers (hw : s.worker.inRescan = true) : s.callers = [] := by
  by_contra hne
  rw [(h.alone hne).2.2.1] at hw
  cases hw

theorem InvWith.contents_iff : some Work.rescan ∈ s.queue.contents queueSize ↔ Work.rescan ∈ l := by
  rw [h.repr.contents_eq]
  simp

theorem InvWith.request (hlt : s.completed < s.now) : InvWith (request s) l := by
  unfold Disk.request
  split
  · refine ⟨h.repr, h.tokens_eq, h.completed_le, h.started, h.callers_late, ?_⟩
    intro t ht
    rcases mem_cons.mp ht with rfl | ht
    · exact le_refl _
    · exact h.returned_le t ht
  · rename_i hpending
    have htokens := h.tokens_eq
    refine ⟨h.repr, ?_, h.completed_le, h.started, ?_, h.returned_le⟩
    · simp only [tokens, Bool.not_eq_true] at htokens hpending ⊢
      rw [hpending] at htokens
      simp only [length_cons, Bool.toNat_false, Bool.toNat_true] at htokens ⊢
      omega
    · intro c hc
      rcases mem_cons.mp hc with rfl | hc
      · exact ⟨hlt, le_refl _⟩
      · exact h.callers_late c hc

theorem InvWith.enqueueRescan (i : ℕ) : Inv (enqueueRescan s i) := by
  unfold Disk.enqueueRescan
  split
  · rename_i t hi
    have hmem := mem_of_getElem? hi
    have hlt : i < s.callers.length := (List.getElem?_eq_some_iff.mp hi).1
    have hlate := h.callers_late _ hmem
    rcases h.repr.enqueue_cases .rescan with ⟨-, hnone⟩ | ⟨q, -, hsome, hrepr⟩
    · rw [hnone]
      refine ⟨l, h.repr, ?_, h.completed_le, h.started, ?_, h.returned_le⟩
      · simpa [tokens] using h.tokens_eq
      intro c hc
      rcases mem_or_eq_of_mem_set hc with hc | rfl
      · exact h.callers_late c hc
      · exact hlate
    · rw [hsome]
      refine ⟨l ++ [.rescan], hrepr, ?_, h.completed_le, h.started, ?_, ?_⟩
      · have htokens := h.tokens_eq
        simp only [tokens, length_eraseIdx_of_lt hlt, count_append,
          count_singleton_self] at htokens ⊢
        omega
      · exact fun c hc => h.callers_late c (mem_of_mem_eraseIdx hc)
      · intro t' ht'
        rcases mem_cons.mp ht' with rfl | ht'
        · exact hlate.2
        · exact h.returned_le t' ht'
  · exact ⟨l, h⟩

theorem InvWith.giveUp (i : ℕ) : InvWith (giveUp s i) l := by
  unfold Disk.giveUp
  split
  · rename_i t hi
    have hlt : i < s.callers.length := (List.getElem?_eq_some_iff.mp hi).1
    have hmem := mem_of_getElem? hi
    obtain ⟨hone, hqueue, hworker, -⟩ := h.alone (ne_nil_of_mem hmem)
    refine ⟨h.repr, ?_, h.completed_le, h.started, ?_, ?_⟩
    · have hcount : l.count Work.rescan = 0 := count_eq_zero.mpr hqueue
      simp [tokens, length_eraseIdx_of_lt hlt, hone, hcount, hworker]
    · exact fun c hc => h.callers_late c (mem_of_mem_eraseIdx hc)
    intro t' ht'
    rcases mem_cons.mp ht' with rfl | ht'
    · exact (h.callers_late _ hmem).2
    · exact h.returned_le t' ht'
  · exact h

theorem InvWith.post : Inv (post s) := by
  unfold Disk.post
  rcases h.repr.enqueue_cases .other with ⟨-, hnone⟩ | ⟨q, -, hsome, hrepr⟩
  · rw [hnone]
    exact ⟨l, h⟩
  · rw [hsome]
    refine ⟨l ++ [.other], hrepr, ?_, h.completed_le, h.started, h.callers_late, h.returned_le⟩
    simpa [tokens, count_append] using h.tokens_eq

theorem InvWith.move {m : List Work} {w : Worker} (hrepr : RingBuffer.Repr queueSize q m)
    (htokens : m.count .rescan + w.inRescan.toNat = l.count .rescan + s.worker.inRescan.toNat)
    (hw : ∀ start, w = .detecting start → start = s.now) : InvWith { s with queue := q, worker := w } m := by
  refine ⟨hrepr, ?_, h.completed_le, ?_, h.callers_late, h.returned_le⟩
  · have hold := h.tokens_eq
    simp only [tokens] at hold ⊢
    omega
  · intro start hs
    rw [hw start hs]
    exact ⟨h.completed_le, le_refl _⟩

theorem InvWith.take : Inv (take s) := by
  unfold Disk.take
  split
  · rename_i hidle
    rcases l with _ | ⟨a, l⟩
    · rw [h.repr.dequeue_nil]
      exact ⟨[], h⟩
    obtain ⟨q, hq, hrepr⟩ := h.repr.dequeue_cons
    rw [hq]
    cases a with
    | rescan =>
      refine ⟨l, h.move hrepr ?_ (by simp)⟩
      simp [hidle, Worker.inRescan]
    | other =>
      refine ⟨l, h.move hrepr ?_ (by simp)⟩
      simp [hidle, Worker.inRescan]
  · exact ⟨l, h⟩

theorem InvWith.decideAgain : InvWith (decideAgain s) l := by
  unfold Disk.decideAgain
  split
  · rename_i hdetected
    have htokens := h.tokens_eq
    simp only [tokens, hdetected, Worker.inRescan, Bool.toNat_true] at htokens
    split
    · refine ⟨h.repr, ?_, h.completed_le, ?_, h.callers_late, h.returned_le⟩
      · simpa [tokens, Worker.inRescan] using htokens
      · intro start hs
        cases hs
    · refine ⟨h.repr, ?_, h.completed_le, ?_, h.callers_late, h.returned_le⟩
      · have hle : s.pending.toNat ≤ 1 := Bool.toNat_le _
        simp only [tokens, Worker.inRescan, Bool.toNat_false]
        omega
      · intro start hs
        cases hs
  · exact h

theorem InvWith.finish {start : ℕ} (hw : s.worker = .detecting start) :
    InvWith { s with worker := .detected, completed := start } l := by
  have hnil := h.no_callers (by rw [hw]; rfl)
  refine ⟨h.repr, ?_, (h.started start hw).2, ?_, ?_, h.returned_le⟩
  · simpa [tokens, hw, Worker.inRescan] using h.tokens_eq
  · intro start' hs
    cases hs
  · intro c hc
    rw [hnil] at hc
    cases hc

end

theorem inv_step (s : State) (a : Act) (h : Inv s) : Inv (step s a) := by
  obtain ⟨l, hs⟩ := h
  have h := hs.tick
  cases a with
  | request => exact ⟨l, h.request (Nat.lt_succ_of_le hs.completed_le)⟩
  | enqueue i => exact h.enqueueRescan i
  | giveUp i => exact ⟨l, h.giveUp i⟩
  | post => exact h.post
  | take => exact h.take
  | leave =>
    simp only [step, act]
    split
    · rename_i hbusy
      exact ⟨l, h.move h.repr (by simp [hbusy, Worker.inRescan]) (by simp)⟩
    · exact ⟨l, h⟩
  | detect =>
    simp only [step, act]
    split
    · rename_i hw
      refine ⟨l, h.move h.repr (by simp [hw, Worker.inRescan]) ?_⟩
      intro start hs
      exact (Worker.detecting.inj hs).symm
    · exact ⟨l, h⟩
  | finish =>
    simp only [step, act]
    split
    · rename_i start hw
      exact ⟨l, h.finish hw⟩
    · exact ⟨l, h⟩
  | decide => exact ⟨l, h.decideAgain⟩

theorem noLost_request (h : NoLostRescan s) : NoLostRescan (request s) := by
  intro t ht
  unfold request at ht ⊢
  split at ht
  · rename_i hpending
    rw [if_pos hpending]
    exact .inr (.inr (.inr (.inr ⟨rfl, hpending⟩)))
  · rename_i hpending
    rw [if_neg hpending]
    rcases h t ht with h1 | h1 | h1 | h1 | h1
    · exact .inl h1
    · exact .inr (.inl h1)
    · exact .inr (.inr (.inl h1))
    · exact .inr (.inr (.inr (.inl h1)))
    · exact absurd h1.2 hpending

theorem Served.setQueue (h : Served s t) {cs : List Caller} {ts : List ℕ}
    (hq : some Work.rescan ∈ s.queue.contents queueSize → some Work.rescan ∈ q.contents queueSize) :
    Served { s with queue := q, callers := cs, returned := ts } t := by
  rcases h with h | h | h | h | h
  · exact .inl h
  · exact .inr (.inl h)
  · exact .inr (.inr (.inl (hq h)))
  · exact .inr (.inr (.inr (.inl h)))
  · exact .inr (.inr (.inr (.inr h)))

section

variable (hI : InvWith s l) (h : NoLostRescan s)

include hI h

theorem noLost_enqueueRescan (i : ℕ) : NoLostRescan (enqueueRescan s i) := by
  unfold enqueueRescan
  split
  · rename_i t hi
    rcases hI.repr.enqueue_cases .rescan with ⟨-, hnone⟩ | ⟨q, -, hsome, hrepr⟩
    · rw [hnone]
      exact fun t' ht' => (h t' ht').setQueue id
    rw [hsome]
    have hin : some Work.rescan ∈ q.contents queueSize := by
      rw [hrepr.contents_eq]
      simp
    intro t' ht'
    rcases mem_cons.mp ht' with rfl | ht'
    · exact .inr (.inr (.inl hin))
    · exact (h t' ht').setQueue fun _ => hin
  · exact h

theorem noLost_post : NoLostRescan (post s) := by
  unfold post
  rcases hI.repr.enqueue_cases .other with ⟨-, hnone⟩ | ⟨q, -, hsome, hrepr⟩
  · rw [hnone]
    exact h
  rw [hsome]
  intro t ht
  apply (h t ht).setQueue
  rw [hI.repr.contents_eq, hrepr.contents_eq]
  intro hmem
  simpa using hmem

theorem noLost_take : NoLostRescan (take s) := by
  unfold take
  split
  · rename_i hidle
    rcases l with _ | ⟨a, l⟩
    · rw [hI.repr.dequeue_nil]
      exact h
    obtain ⟨q, hq, hrepr⟩ := hI.repr.dequeue_cons
    rw [hq]
    cases a with
    | rescan => exact fun t _ => .inr (.inr (.inr (.inl rfl)))
    | other =>
      intro t ht
      rcases h t ht with h1 | ⟨start, hs, -⟩ | h1 | h1 | h1
      · exact .inl h1
      · rw [hidle] at hs
        cases hs
      · refine .inr (.inr (.inl ?_))
        rw [hI.repr.contents_eq] at h1
        rw [hrepr.contents_eq]
        simpa using h1
      · rw [hidle] at h1
        cases h1
      · exact .inr (.inr (.inr (.inr h1)))
  · exact h

theorem noLost_finish {start : ℕ} (hw : s.worker = .detecting start) :
    NoLostRescan { s with worker := .detected, completed := start } := by
  intro t ht
  rcases h t ht with h1 | ⟨start', hs, hlt⟩ | h1 | h1 | h1
  · exact .inl (lt_of_lt_of_le h1 (hI.started start hw).1)
  · rw [hw] at hs
    exact .inl (by rwa [Worker.detecting.inj hs])
  · exact .inr (.inr (.inl h1))
  · rw [hw] at h1
    cases h1
  · exact .inr (.inr (.inr (.inr h1)))

end

theorem noLost_decideAgain (h : NoLostRescan s) : NoLostRescan (decideAgain s) := by
  unfold decideAgain
  split
  · rename_i hdetected
    split
    · exact fun t _ => .inr (.inr (.inr (.inl rfl)))
    rename_i hagain
    intro t ht
    rcases h t ht with h1 | ⟨start, hs, -⟩ | h1 | h1 | h1
    · exact .inl h1
    · rw [hdetected] at hs
      cases hs
    · exact .inr (.inr (.inl h1))
    · rw [hdetected] at h1
      cases h1
    · exact absurd h1.1 hagain
  · exact h

theorem noLost_step (hI : Inv s) (h : NoLostRescan s) (ha : ¬ GivesUp s a) : NoLostRescan (step s a) := by
  obtain ⟨l, hs⟩ := hI
  have hT := hs.tick
  have h' : NoLostRescan { s with now := s.now + 1 } := h
  cases a with
  | request => exact noLost_request h'
  | enqueue i => exact noLost_enqueueRescan hT h' i
  | giveUp i =>
    simp only [step, act, giveUp]
    split
    · rename_i t hi
      exact absurd ⟨i, t, rfl, hi⟩ ha
    · exact h'
  | post => exact noLost_post hT h'
  | take => exact noLost_take hT h'
  | leave =>
    simp only [step, act]
    split
    · rename_i hbusy
      intro t ht
      rcases h' t ht with h1 | ⟨start, hs, -⟩ | h1 | h1 | h1
      · exact .inl h1
      · rw [hbusy] at hs
        cases hs
      · exact .inr (.inr (.inl h1))
      · rw [hbusy] at h1
        cases h1
      · exact .inr (.inr (.inr (.inr h1)))
    · exact h'
  | detect =>
    simp only [step, act]
    split
    · -- a pass that starts serves every request made so far
      exact fun t ht => .inr (.inl ⟨_, rfl, Nat.lt_succ_of_le (hs.returned_le t ht)⟩)
    · exact h'
  | finish =>
    simp only [step, act]
    split
    · rename_i start hw
      exact noLost_finish hT h' hw
    · exact h'
  | decide => exact noLost_decideAgain h'

theorem lost_of_givesUp (hI : Inv s) (ha : GivesUp s a) : ¬ NoLostRescan (step s a) := by
  obtain ⟨l, hs⟩ := hI
  obtain ⟨i, t, rfl, hi⟩ := ha
  have hmem := mem_of_getElem? hi
  obtain ⟨-, hqueue, hworker, -⟩ := hs.alone (ne_nil_of_mem hmem)
  have hstep : step s (.giveUp i) =
      { s with now := s.now + 1, pending := false, callers := s.callers.eraseIdx i,
               returned := t :: s.returned } := by
    simp only [step, act, giveUp, hi]
  rw [hstep]
  intro h
  rcases h t mem_cons_self with h1 | ⟨start, h1, -⟩ | h1 | h1 | h1
  · exact absurd (hs.callers_late _ hmem).1 (Nat.not_lt.mpr (Nat.le_of_lt h1))
  · simp only at h1
    rw [h1] at hworker
    cases hworker
  · exact hqueue (hs.contents_iff.mp h1)
  · simp only at h1
    rw [h1] at hworker
    cases hworker
  · cases h1.2

/-- In every interleaving, no request for a rescan is lost exactly when no caller returns after a failed
`workqueue_enqueue`. -/
theorem noLostRescan_throughout_iff (as : List Act) :
    Throughout step NoLostRescan init as ↔ EachStep step (fun s a => ¬ GivesUp s a) init as := by
  constructor
  · exact eachStep_of_throughout_inv inv_step (fun s a hI h ha => lost_of_givesUp hI ha h) inv_init
  apply throughout_of_inv (J := fun s _ => Inv s ∧ NoLostRescan s)
  · intro s a as hJ ha
    exact ⟨inv_step s a hJ.1, noLost_step hJ.1 hJ.2 ha⟩
  · exact fun s as hJ => hJ.2
  · exact ⟨inv_init, fun t ht => absurd ht (by simp [init])⟩

/-- Sixty-three items of other work fill the queue; then a call cannot queue its rescan. -/
def fullQueueRun : List Act := List.replicate 63 .post ++ [.request, .enqueue 0, .giveUp 0]

theorem fullQueue_loses_rescan : ¬ NoLostRescan (exec step init fullQueueRun) := by
  have hreturned : (exec step init fullQueueRun).returned = [64] := by decide +kernel
  have hcompleted : (exec step init fullQueueRun).completed = 0 := by decide +kernel
  have hworker : (exec step init fullQueueRun).worker = .idle := by decide +kernel
  have hqueue : some Work.rescan ∉ (exec step init fullQueueRun).queue.contents queueSize := by decide +kernel
  have hagain : (exec step init fullQueueRun).again = false := by decide +kernel
  intro h
  rcases h 64 (by rw [hreturned]; exact mem_cons_self) with h1 | ⟨start, h1, -⟩ | h1 | h1 | h1
  · rw [hcompleted] at h1
    cases h1
  · rw [hworker] at h1
    cases h1
  · exact hqueue h1
  · rw [hworker] at h1
    cases h1
  · rw [hagain] at h1
    cases h1.1

end Orion.Disk
