import Orion.Proc.Timer

/-!
# Delays of timer tasks, and the end of `timer_task_run_due`
-/

namespace Orion.Proc.Timer

open Lib List Function

variable {α : Type} {s : Timers α} {t : Task α} {i : Fin maxTimerTasks} {rest : List (Fin maxTimerTasks)}

theorem tick_elapsed_iff {now due : UInt32} : tick_elapsed now due = true ↔ (now - due).toNat < 2 ^ 31 :=
  decide_eq_true_iff

/-- A task that is armed again is due again at once when its interval is in the upper half of the range. -/
theorem elapsed_next_iff (now interval : UInt32) (h : interval ≠ 0) :
    tick_elapsed now (now + interval) = true ↔ 2 ^ 31 < interval.toNat := by
  have hne : interval.toNat ≠ 0 := fun h0 => h (UInt32.toNat_inj.mp h0)
  have hlt := interval.toNat_lt
  rw [tick_elapsed_iff, UInt32.toNat_sub, UInt32.toNat_add]
  omega

theorem due_next_iff : s.due (t.next s.tick) = true ↔ 2 ^ 31 < t.interval_ticks.toNat := by
  unfold Task.next
  split
  next h0 => simp [h0, Timers.due]
  next h0 => exact elapsed_next_iff _ _ h0

/-- The slots with a due task. -/
def Timers.dueSlots (s : Timers α) : List (Fin maxTimerTasks) :=
  (List.finRange maxTimerTasks).filter fun i => s.due (s.tasks i)

theorem first_due (s : Timers α) : s.first s.due = s.dueSlots.head? := (head?_filter ..).symm

theorem mem_dueSlots : i ∈ s.dueSlots ↔ ∃ t, s.tasks i = some t ∧ tick_elapsed s.tick t.due_tick = true := by
  simp [Timers.dueSlots, Timers.due, Option.any_eq_true]

theorem runTurn_nil (h : s.dueSlots = []) : runTurn s = none := by
  rw [runTurn, first_due, h]
  rfl

theorem runTurn_cons (h : s.dueSlots = i :: rest) (ht : s.tasks i = some t) :
    runTurn s = some (t, s.set i (t.next s.tick)) := by
  rw [runTurn, first_due, h]
  simp [ht]

theorem runTurn_some {s' : Timers α} (h : runTurn s = some (t, s')) :
    ∃ i, s.tasks i = some t ∧ tick_elapsed s.tick t.due_tick = true ∧ s' = s.set i (t.next s.tick) := by
  rcases hslots : s.dueSlots with _ | ⟨i, rest⟩
  · rw [runTurn_nil hslots] at h; cases h
  obtain ⟨u, hu, hdue⟩ := mem_dueSlots.mp (hslots ▸ mem_cons_self)
  rw [runTurn_cons hslots hu] at h
  cases h
  exact ⟨i, hu, hdue, rfl⟩

theorem due_set (u : Option (Task α)) : (s.set i u).due = s.due := rfl

@[simp] theorem tasks_set_self (u : Option (Task α)) : (s.set i u).tasks i = u := update_self ..

theorem tasks_set_of_ne (u : Option (Task α)) {j : Fin maxTimerTasks} (h : j ≠ i) : (s.set i u).tasks j = s.tasks j :=
  update_of_ne h ..

theorem dueSlots_turn (h : s.dueSlots = i :: rest)
    (hok : t.interval_ticks.toNat ≤ 2 ^ 31) : (s.set i (t.next s.tick)).dueSlots = rest := by
  have hnodup : (i :: rest).Nodup := h ▸ (nodup_finRange _).filter _
  have hdue (j : Fin maxTimerTasks) :
      (s.set i (t.next s.tick)).due ((s.set i (t.next s.tick)).tasks j) = (decide (j ≠ i) && s.due (s.tasks j)) := by
    rw [due_set]
    by_cases hj : j = i
    · subst hj
      have hlate : s.due (t.next s.tick) = false :=
        Bool.eq_false_iff.mpr fun hlate => Nat.not_lt.mpr hok (due_next_iff.mp hlate)
      simp [hlate]
    · simp [tasks_set_of_ne _ hj, hj]
  calc (s.set i (t.next s.tick)).dueSlots
      = s.dueSlots.filter fun j => decide (j ≠ i) := by
        rw [Timers.dueSlots, Timers.dueSlots, filter_filter]
        exact filter_congr fun j _ => hdue j
    _ = rest := by
        rw [h, filter_cons_of_neg (by simp), filter_eq_self.mpr]
        intro j hj
        simpa using fun heq : j = i => (nodup_cons.mp hnodup).1 (heq ▸ hj)

/-- No due task is due again at once. -/
def Settles (s : Timers α) : Prop :=
  ∀ i t, s.tasks i = some t → tick_elapsed s.tick t.due_tick = true → t.interval_ticks.toNat ≤ 2 ^ 31

theorem run_due_settles {slots : List (Fin maxTimerTasks)} (hslots : s.dueSlots = slots) (h : Settles s) :
    ∃ s', timer_task_run_due (slots.length + 1) s = some (slots.filterMap fun i => (s.tasks i).map Task.call, s') := by
  -- each turn removes the first due slot and leaves the others as they are
  induction slots generalizing s with
  | nil => exact ⟨s, by rw [timer_task_run_due, runTurn_nil hslots]; rfl⟩
  | cons i rest ih =>
    obtain ⟨t, ht, hdue⟩ := mem_dueSlots.mp (hslots ▸ mem_cons_self)
    have hok := h i t ht hdue
    have hrest := dueSlots_turn hslots hok
    have hnotin : i ∉ rest := (nodup_cons.mp (hslots ▸ (nodup_finRange _).filter _)).1
    have hsame (j : Fin maxTimerTasks) (hj : j ∈ rest) : (s.set i (t.next s.tick)).tasks j = s.tasks j :=
      tasks_set_of_ne _ fun heq : j = i => hnotin (heq ▸ hj)
    obtain ⟨s', hs'⟩ := ih hrest fun j u hu hduej => by
      have hmem : j ∈ rest := hrest ▸ mem_dueSlots.mpr ⟨u, hu, hduej⟩
      exact h j u (hsame j hmem ▸ hu) hduej
    refine ⟨s', ?_⟩
    rw [length_cons, timer_task_run_due, runTurn_cons hslots ht]
    simp only [hs', Option.map_some, filterMap_cons, ht]
    rw [filterMap_congr fun j hj => by rw [hsame j hj]]

theorem run_due_unsettled (h : ¬Settles s) (fuel : ℕ) : timer_task_run_due fuel s = none := by
  -- a due task with such an interval stays due, whichever task is called
  induction fuel generalizing s with
  | zero => rfl
  | succ n ih =>
    simp only [Settles, not_forall] at h
    obtain ⟨i, t, ht, hdue, hlong⟩ := h
    rcases hturn : runTurn s with _ | r
    · rcases hslots : s.dueSlots with _ | ⟨j, rest⟩
      · exact absurd (mem_dueSlots.mpr ⟨t, ht, hdue⟩) (by simp [hslots])
      obtain ⟨u, hu, -⟩ := mem_dueSlots.mp (hslots ▸ mem_cons_self)
      rw [runTurn_cons hslots hu] at hturn
      cases hturn
    obtain ⟨u, s'⟩ := r
    obtain ⟨j, hu, -, rfl⟩ := runTurn_some hturn
    have hagain : ¬Settles (s.set j (u.next s.tick)) := by
      intro hset
      by_cases hij : i = j
      · subst hij
        obtain rfl : t = u := Option.some.inj (ht.symm.trans hu)
        have hlate : s.due (t.next s.tick) = true := due_next_iff.mpr (Nat.not_le.mp hlong)
        obtain ⟨v, hv, hvdue⟩ := Option.any_eq_true .. |>.mp hlate
        have hval : v.interval_ticks = t.interval_ticks := by
          unfold Task.next at hv
          split at hv
          · cases hv
          · cases hv
            rfl
        exact hlong (hval ▸ hset i v ((tasks_set_self _).trans hv) hvdue)
      · exact hlong (hset i t ((tasks_set_of_ne _ hij).trans ht) hdue)
    rw [timer_task_run_due, hturn]
    simp only [ih hagain, Option.map_none]

/-- `timer_task_run_due` ends and calls each due task once exactly when no due task has an interval above 2^31 ticks. -/
theorem run_due_ends_iff (s : Timers α) : (∃ fuel s', timer_task_run_due fuel s = some (dueCalls s, s')) ↔
      ∀ i t, s.tasks i = some t → tick_elapsed s.tick t.due_tick = true → t.interval_ticks.toNat ≤ 2 ^ 31 := by
  constructor
  · rintro ⟨fuel, s', heq⟩
    by_contra hun
    rw [run_due_unsettled hun] at heq
    cases heq
  · intro h
    exact ⟨_, run_due_settles rfl h⟩

/-- A task with an interval of more than 2^31 ticks. -/
def longInterval : Timers ℕ := ⟨fun i => if i = 0 then some ⟨1, 0, 0x80000001, 7⟩ else none, 2, 0⟩

theorem long_interval_never_ends :
    ¬∃ fuel s', timer_task_run_due fuel longInterval = some (dueCalls longInterval, s') := by
  rintro ⟨fuel, s', heq⟩
  have hlong : ¬Settles longInterval := fun h => absurd (h 0 ⟨1, 0, 0x80000001, 7⟩ rfl (by decide)) (by decide)
  rw [run_due_unsettled hlong] at heq
  cases heq

section Histories

variable {s s' : History} {t : Task ℕ}

/-- What the history knows of an active task. -/
structure Keeps (s : History) (t : Task ℕ) : Prop where
  numbered : t.call < s.scheduled
  live : t.call ∉ s.cancelled
  since : (s.armed t.call).1 ≤ s.time
  due : ∃ w ≤ 2 ^ 31, (s.armed t.call).2 ≤ w ∧ t.due_tick = UInt32.ofNat ((s.armed t.call).1 + w)
  short : t.interval_ticks.toNat ≤ 2 ^ 31
  fresh : t.interval_ticks = 0 → ∀ r ∈ s.log, r.serial ≠ t.call

/-- The invariant of a run: what waits is timed right. -/
structure Inv (s : History) : Prop extends Respects s where
  tick : s.timers.tick = UInt32.ofNat s.time
  keeps : ∀ i t, s.timers.tasks i = some t → Keeps s t
  apart : ∀ i j t u, s.timers.tasks i = some t → s.timers.tasks j = some u → t.call = u.call ∨ t.id = u.id → i = j
  numbered : ∀ r ∈ s.log, r.serial < s.scheduled
  cancelled : ∀ n ∈ s.cancelled, n < s.scheduled

theorem inv_init : Inv History.init where
  waited := by simp [History.init]
  live := by simp [History.init]
  once := by simp [History.init]
  tick := rfl
  keeps := by simp [History.init]
  apart := by simp [History.init]
  numbered := by simp [History.init]
  cancelled := by simp [History.init]

theorem Keeps.frame (h : Keeps s t) (hn : s.scheduled ≤ s'.scheduled) (ha : s'.armed t.call = s.armed t.call)
    (htime : s.time ≤ s'.time) (hc : t.call ∉ s'.cancelled)
    (hl : t.interval_ticks = 0 → ∀ r ∈ s'.log, r.serial ≠ t.call) : Keeps s' t where
  numbered := h.numbered.trans_le hn
  live := hc
  since := ha ▸ h.since.trans htime
  due := ha ▸ h.due
  short := h.short
  fresh := hl

theorem Keeps.waited (h : Keeps s t) (htick : s.timers.tick = UInt32.ofNat s.time)
    (hdue : tick_elapsed s.timers.tick t.due_tick = true) : (s.armed t.call).2 ≤ s.time - (s.armed t.call).1 := by
  obtain ⟨w, hw, hwait, heq⟩ := h.due
  have hsince := h.since
  rw [tick_elapsed_iff, htick, heq, UInt32.toNat_sub, UInt32.toNat_ofNat', UInt32.toNat_ofNat'] at hdue
  omega

theorem alloc_cases (s : Timers ℕ) (delay interval : UInt32) (n : ℕ) :
    (timer_task_alloc s delay interval (some n)).2 = s ∨
      ∃ i next w, s.tasks i = none ∧ delay.toNat ≤ w.toNat ∧ (w = 1 ∨ w = delay) ∧
        (timer_task_alloc s delay interval (some n)).2 =
          { s.set i (some ⟨s.next_id, s.tick + w, interval, n⟩) with next_id := next } := by
  unfold timer_task_alloc
  rcases hslot : s.first Option.isNone with _ | i
  · exact .inl rfl
  have hfree : s.tasks i = none := by simpa using find?_some hslot
  refine .inr ⟨i, _, if delay = 0 then 1 else delay, hfree, ?_, ?_, rfl⟩
  · split
    next h0 => simp [h0]
    next => exact le_rfl
  · exact ite_eq_or_eq ..

theorem Inv.schedule (h : Inv s) {delay interval : UInt32} (hfits : Fits s (.schedule delay interval)) :
    Inv (step s (.schedule delay interval)) := by
  obtain ⟨hdelay, hinterval, hid⟩ := hfits
  have hold (j : Fin maxTimerTasks) (u : Task ℕ) (hu : s.timers.tasks j = some u) :
      Keeps (step s (.schedule delay interval)) u :=
    have hk := h.keeps j u hu
    hk.frame (Nat.le_succ _) (update_of_ne (Nat.ne_of_lt hk.numbered) ..) le_rfl hk.live hk.fresh
  have hlog (r : Run) (hr : r ∈ s.log) : r.serial < s.scheduled + 1 := Nat.lt_succ_of_lt (h.numbered r hr)
  have hcancelled (n : ℕ) (hn : n ∈ s.cancelled) : n < s.scheduled + 1 := Nat.lt_succ_of_lt (h.cancelled n hn)
  obtain heq | ⟨i, next, w, hfree, hle, hw, heq⟩ := alloc_cases s.timers delay interval s.scheduled
  · have htimers : (step s (.schedule delay interval)).timers = s.timers := heq
    refine ⟨⟨h.waited, h.live, h.once⟩, ?_, fun j u hu => hold j u (htimers ▸ hu), ?_, hlog, hcancelled⟩
    · rw [htimers]
      exact h.tick
    · rw [htimers]
      exact h.apart
  have htasks : (step s (.schedule delay interval)).timers.tasks =
      update s.timers.tasks i (some ⟨s.timers.next_id, s.timers.tick + w, interval, s.scheduled⟩) := by
    rw [step, heq]
    rfl
  refine ⟨⟨h.waited, h.live, h.once⟩, ?_, fun j u hu => ?_, fun j k u v hu hv hsame => ?_, hlog, hcancelled⟩
  · rw [step, heq]
    exact h.tick
  · rw [htasks] at hu
    by_cases hj : j = i
    · subst hj
      rw [update_self] at hu
      cases hu
      have hself : (step s (.schedule delay interval)).armed s.scheduled = (s.time, delay.toNat) := update_self ..
      refine ⟨Nat.lt_succ_self _, fun hmem => lt_irrefl _ (h.cancelled _ hmem), ?_, ⟨w.toNat, ?_, ?_⟩, hinterval,
        fun _ r hr => Nat.ne_of_lt (h.numbered r hr)⟩
      · rw [hself]
        exact le_rfl
      · rcases hw with rfl | rfl
        · decide
        · exact hdelay
      · rw [hself]
        refine ⟨hle, ?_⟩
        rw [h.tick, UInt32.ofNat_add, UInt32.ofNat_toNat]
    · rw [update_of_ne hj] at hu
      exact hold j u hu
  · rw [htasks] at hu hv
    -- the new task has the number and the id of no other
    have hnew (k : Fin maxTimerTasks) (v : Task ℕ) (hk : s.timers.tasks k = some v) :
        v.call ≠ s.scheduled ∧ v.id ≠ s.timers.next_id :=
      ⟨Nat.ne_of_lt (h.keeps k v hk).numbered, hid k v hk⟩
    by_cases hj : j = i <;> by_cases hk : k = i
    · exact hj.trans hk.symm
    · subst hj
      rw [update_self] at hu
      rw [update_of_ne hk] at hv
      cases hu
      exact (hsame.elim (fun hc => (hnew k v hv).1 hc.symm) fun hi => (hnew k v hv).2 hi.symm).elim
    · subst hk
      rw [update_self] at hv
      rw [update_of_ne hj] at hu
      cases hv
      exact (hsame.elim (hnew j u hu).1 (hnew j u hu).2).elim
    · rw [update_of_ne hj] at hu
      rw [update_of_ne hk] at hv
      exact h.apart j k u v hu hv hsame

theorem Inv.cancel (h : Inv s) (id : UInt32) : Inv (step s (.cancel id)) := by
  have hsame : Inv { s with timers := s.timers, cancelled := s.cancelled } := h
  simp only [step]
  unfold timer_task_cancel
  split
  · exact hsame
  cases hfirst : s.timers.first fun t => t.any fun t => t.id = id with
  | none => exact hsame
  | some i =>
    obtain ⟨t, ht, hid⟩ : ∃ t, s.timers.tasks i = some t ∧ t.id = id := by
      simpa [Option.any_eq_true] using find?_some hfirst
    have hkept (j : Fin maxTimerTasks) (u : Task ℕ) (hu : (s.timers.set i none).tasks j = some u) :
        j ≠ i ∧ s.timers.tasks j = some u := by
      by_cases hj : j = i
      · rw [hj, tasks_set_self] at hu
        cases hu
      · exact ⟨hj, (tasks_set_of_ne _ hj).symm.trans hu⟩
    have hwith (n : ℕ) (hn : n ∈ s.withId id) : ∃ j u, s.timers.tasks j = some u ∧ u.id = id ∧ u.call = n := by
      simp only [History.withId, mem_filterMap, Option.ite_none_right_eq_some, Option.some.injEq] at hn
      obtain ⟨u, ⟨j, -, hj⟩, hu⟩ := hn
      exact ⟨j, u, hj, hu⟩
    refine ⟨⟨h.waited, h.live, h.once⟩, h.tick, fun j u hu => ?_, fun j k u v hu hv => ?_, h.numbered, fun n hn => ?_⟩
    · obtain ⟨hj, huj⟩ := hkept j u hu
      have hk := h.keeps j u huj
      refine hk.frame le_rfl rfl le_rfl (fun hmem => ?_) hk.fresh
      rcases mem_append.mp hmem with hmem | hmem
      · obtain ⟨k, v, hv, hvid, hcall⟩ := hwith _ hmem
        -- only one task has the id, and it is the one that was removed
        obtain rfl : k = i := h.apart k i v t hv ht (.inr (hvid.trans hid.symm))
        exact hj (h.apart j k u v huj hv (.inl hcall.symm))
      · exact hk.live hmem
    · exact h.apart j k u v (hkept j u hu).2 (hkept k v hv).2
    · rcases mem_append.mp hn with hn | hn
      · obtain ⟨j, u, hu, -, rfl⟩ := hwith n hn
        exact (h.keeps j u hu).numbered
      · exact h.cancelled n hn

theorem Inv.tickStep (h : Inv s) : Inv (step s .tick) where
  waited := h.waited
  live := h.live
  once := h.once
  tick := by
    show s.timers.tick + 1 = UInt32.ofNat (s.time + 1)
    rw [h.tick, UInt32.ofNat_add]
    rfl
  keeps i t ht :=
    have hk := h.keeps i t ht
    hk.frame le_rfl rfl (Nat.le_succ _) hk.live hk.fresh
  apart := h.apart
  numbered := h.numbered
  cancelled := h.cancelled

theorem next_eq_some {u : Task ℕ} {now : UInt32} (h : t.next now = some u) :
    t.interval_ticks ≠ 0 ∧ u = { t with due_tick := now + t.interval_ticks } := by
  unfold Task.next at h
  split at h
  · cases h
  next h0 => exact ⟨h0, (Option.some.inj h).symm⟩

theorem Inv.run (h : Inv s) : Inv (step s .run) := by
  rcases hturn : runTurn s.timers with _ | r
  · rw [step, hturn]
    exact h
  obtain ⟨t, timers⟩ := r
  obtain ⟨i, ht, hdue, rfl⟩ := runTurn_some hturn
  have hk := h.keeps i t ht
  rw [step, hturn]
  refine ⟨⟨?_, ?_, ?_⟩, h.tick, fun j u hu => ?_, fun j k u v hu hv hsame => ?_, ?_, h.cancelled⟩
  · exact forall_mem_cons.mpr ⟨hk.waited h.tick hdue, h.waited⟩
  · exact forall_mem_cons.mpr ⟨by simpa using hk.live, h.live⟩
  · by_cases h0 : t.interval_ticks = 0
    · rw [filter_cons_of_pos (by simpa using h0), map_cons, nodup_cons]
      refine ⟨fun hmem => ?_, h.once⟩
      obtain ⟨r, hr, hserial⟩ := mem_map.mp hmem
      exact hk.fresh h0 r (mem_of_mem_filter hr) hserial
    · rw [filter_cons_of_neg (by simpa using h0)]
      exact h.once
  · by_cases hj : j = i
    · subst hj
      rw [tasks_set_self] at hu
      obtain ⟨h0, rfl⟩ := next_eq_some hu
      refine ⟨hk.numbered, hk.live, ?_, ⟨t.interval_ticks.toNat, hk.short, ?_⟩, hk.short, fun hz => absurd hz h0⟩
      · simp
      · simp [h.tick, UInt32.ofNat_add]
    · rw [tasks_set_of_ne _ hj] at hu
      have hne : u.call ≠ t.call := fun heq => hj (h.apart j i u t hu ht (.inl heq))
      have hku := h.keeps j u hu
      exact hku.frame le_rfl (update_of_ne hne ..) le_rfl hku.live fun h0 =>
        forall_mem_cons.mpr ⟨hne.symm, hku.fresh h0⟩
  · -- a task that is armed again keeps its number and its id
    have hold (j : Fin maxTimerTasks) (u : Task ℕ) (hu : (s.timers.set i (t.next s.timers.tick)).tasks j = some u) :
        ∃ u', s.timers.tasks j = some u' ∧ u'.call = u.call ∧ u'.id = u.id := by
      by_cases hj : j = i
      · subst hj
        rw [tasks_set_self] at hu
        obtain ⟨-, rfl⟩ := next_eq_some hu
        exact ⟨t, ht, rfl, rfl⟩
      · exact ⟨u, (tasks_set_of_ne _ hj).symm.trans hu, rfl, rfl⟩
    obtain ⟨u', hu', hcall, hid⟩ := hold j u hu
    obtain ⟨v', hv', hcall', hid'⟩ := hold k v hv
    exact h.apart j k u' v' hu' hv' (by rwa [hcall, hid, hcall', hid'])
  · exact forall_mem_cons.mpr ⟨hk.numbered, h.numbered⟩

theorem Inv.step {a : Act} (h : Inv s) (hfits : Fits s a) : Inv (step s a) := by
  cases a with
  | schedule delay interval => exact h.schedule hfits
  | cancel id => exact h.cancel id
  | tick => exact h.tickStep
  | run => exact h.run

/-- Tasks wait for their delays and intervals, run once if not periodic and not after a cancel, while these are at most
2^31 ticks and no two active tasks have one id. -/
theorem respects_throughout (as : List Act) (hfits : EachStep step Fits History.init as) :
    Throughout step Respects History.init as :=
  throughout_of_inv (J := fun s _ => Inv s) (fun _ _ _ h hf => h.step hf) (fun _ _ h => h.toRespects) inv_init hfits

theorem respects_two_ticks : Throughout step Respects History.init [.schedule 2 0, .tick, .run, .tick, .run] := by
  refine respects_throughout _ ⟨⟨by decide, by decide, fun i t ht => ?_⟩, trivial, trivial, trivial, trivial, trivial⟩
  cases ht

/-- A task with a delay of more than 2^31 ticks runs at once. -/
theorem long_delay_runs_at_once : ¬Throughout step Respects History.init [.schedule 0x80000001 0, .run] := by
  intro h
  have hlog := h.2.2.waited ⟨0, 0, 0x80000001, true, false⟩ (mem_singleton.mpr rfl)
  exact absurd hlog (by decide)

end Histories

end Orion.Proc.Timer
