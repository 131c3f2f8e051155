import Orion.Usb.Async

/-!
# Transfer objects are owned by one handle

While slots are released only after their mice and keyboards are gone, the objects that have not been freed are those
that handles point to, each handle to its own, and the same objects hang in the lists of their controllers.
-/

namespace Orion.Usb

open Lib List Function
open AsyncHeap (touch walked blocks xhci_usbhc_async_in_cancel xhci_async_free alloc)

variable {s : Pipes} {x : Handle} {heap : AsyncHeap} {i : ℕ} {L : List Handle} {slot_id : UInt8} {hp : AsyncHeap}
  {n : ℕ} {h : Handle} {α : Type*} {l : List α} {a : α} {K mice : List Handle} {p : Handle → Bool} {m : ℕ}

/-- What the handles point to: object, controller and device. -/
def armed (L : List Handle) : List (ℕ × ℕ × UInt8) := L.filterMap fun h => h.impl.map fun n => (n, h.hc, h.dev)

theorem armed_cons_none (hh : h.impl = none) (L : List Handle) : armed (h :: L) = armed L := by
  simp [armed, hh]

theorem armed_cons_some (hh : h.impl = some n) (L : List Handle) : armed (h :: L) = (n, h.hc, h.dev) :: armed L := by
  simp [armed, hh]

theorem armed_perm {L' : List Handle} (h : L.Perm L') : (armed L).Perm (armed L') := h.filterMap _

theorem mem_armed (hmem : h ∈ L) (hh : h.impl = some n) : (n, h.hc, h.dev) ∈ armed L :=
  mem_filterMap.mpr ⟨h, hmem, by simp [hh]⟩

theorem inUse_iff : InUse L n ↔ ∃ e ∈ armed L, e.1 = n := by
  constructor
  · rintro ⟨h, hmem, hh⟩
    exact ⟨_, mem_armed hmem hh, rfl⟩
  rintro ⟨e, he, rfl⟩
  obtain ⟨h, hmem, hmap⟩ := mem_filterMap.mp he
  obtain ⟨n, hn, rfl⟩ := Option.map_eq_some_iff.mp hmap
  exact ⟨h, hmem, hn⟩

/-- The objects in `A` are those that have not been freed. -/
structure Live (hp : AsyncHeap) (A : List (ℕ × ℕ × UInt8)) : Prop where
  late : hp.late = []
  once : hp.frees.Nodup
  freed : ∀ b, b ∈ hp.frees ↔ b ∈ hp.allocated ∧ ∀ e ∈ A, e.1 ≠ b.1
  fresh : ∀ b ∈ hp.allocated, b.1 < hp.next
  object : ∀ e ∈ A, (hp.mem e.1).ctrl = e.2.1 ∧ (hp.mem e.1).slot_id = e.2.2 ∧
    ∀ j, (e.1, j) ∈ hp.allocated ↔ j ≤ (hp.mem e.1).bufs
  distinct : (A.map Prod.fst).Nodup

/-- Each of them is in the list of its controller. -/
structure Owned (hp : AsyncHeap) (A : List (ℕ × ℕ × UInt8)) : Prop extends Live hp A where
  listed : ∀ c n, n ∈ hp.async_list c ↔ ∃ e ∈ A, e.1 = n ∧ e.2.1 = c
  simple : ∀ c, (hp.async_list c).Nodup

namespace Owned

variable {hp : AsyncHeap} {A A' : List (ℕ × ℕ × UInt8)} {n c : ℕ} {e : ℕ × ℕ × UInt8}

theorem perm (h : Owned hp A) (hA : A.Perm A') : Owned hp A' where
  late := h.late
  once := h.once
  freed := fun b => by simp only [h.freed b, hA.mem_iff]
  fresh := h.fresh
  object := fun e he => h.object e (hA.mem_iff.mpr he)
  distinct := (hA.map Prod.fst).nodup_iff.mp h.distinct
  listed := fun c n => by simp only [h.listed c n, hA.mem_iff]
  simple := h.simple

theorem not_freed (h : Owned hp A) (he : e ∈ A) (j : ℕ) : (e.1, j) ∉ hp.frees := by
  intro hfreed
  exact ((h.freed _).mp hfreed).2 e he rfl

theorem not_freed_of_listed (h : Owned hp A) (hn : n ∈ hp.async_list c) : (n, 0) ∉ hp.frees := by
  obtain ⟨e, he, rfl, -⟩ := (h.listed c n).mp hn
  exact h.not_freed he 0

end Owned

theorem touch_eq {ns : List ℕ} (h : ∀ n ∈ ns, (n, 0) ∉ hp.frees) : hp.touch ns = hp := by
  have hnil : ns.filter (fun n => decide ((n, 0) ∈ hp.frees)) = [] := by
    simpa [filter_eq_nil_iff] using h
  unfold touch
  rw [hnil, append_nil]

theorem walked_subset {p : ℕ → Bool} {l : List ℕ} (h : n ∈ walked p l) : n ∈ l := by
  induction l with
  | nil => exact h
  | cons m l ih =>
    rw [walked, mem_cons] at h
    rcases h with rfl | h
    · exact mem_cons_self
    · split at h
      · cases h
      · exact mem_cons_of_mem m (ih h)

/-- The change leaves alone who the object belongs to and which buffers it has. -/
def Keeps (f : Async → Async) : Prop :=
  ∀ a, (f a).ctrl = a.ctrl ∧ (f a).slot_id = a.slot_id ∧ (f a).bufs = a.bufs

section

variable {A : List (ℕ × ℕ × UInt8)} {e : ℕ × ℕ × UInt8}

theorem Live.modify (h : Live hp A) {f : Async → Async} (hf : Keeps f) : Live (hp.modify n f) A := by
  have hmem (m : ℕ) : ((hp.modify n f).mem m).ctrl = (hp.mem m).ctrl ∧
      ((hp.modify n f).mem m).slot_id = (hp.mem m).slot_id ∧ ((hp.modify n f).mem m).bufs = (hp.mem m).bufs := by
    unfold AsyncHeap.modify
    by_cases hm : m = n
    · subst hm
      simpa using hf (hp.mem m)
    · simp [hm]
  refine ⟨h.late, h.once, h.freed, h.fresh, fun e he => ?_, h.distinct⟩
  obtain ⟨hctrl, hslot, hbufs⟩ := hmem e.1
  rw [hctrl, hslot, hbufs]
  exact h.object e he

theorem Live.relist (h : Live hp A) (lists : ℕ → List ℕ) : Live { hp with async_list := lists } A :=
  ⟨h.late, h.once, h.freed, h.fresh, h.object, h.distinct⟩

theorem Live.lt_next (h : Live hp A) (he : e ∈ A) : e.1 < hp.next :=
  h.fresh _ (((h.object e he).2.2 0).mpr (Nat.zero_le _))

theorem mem_blocks {b : Block} : b ∈ hp.blocks n ↔ b.1 = n ∧ b.2 ≤ (hp.mem n).bufs := by
  obtain ⟨k, j⟩ := b
  simp only [blocks, mem_append, mem_map, mem_range, mem_singleton, Prod.mk.injEq]
  constructor
  · rintro (⟨i, hi, rfl, rfl⟩ | ⟨rfl, rfl⟩)
    · exact ⟨rfl, by omega⟩
    · exact ⟨rfl, Nat.zero_le _⟩
  · rintro ⟨rfl, hj⟩
    rcases j with _ | i
    · exact Or.inr ⟨rfl, rfl⟩
    · exact Or.inl ⟨i, by omega, rfl, rfl⟩

theorem nodup_blocks (hp : AsyncHeap) (n : ℕ) : (hp.blocks n).Nodup := by
  unfold blocks
  rw [nodup_append]
  refine ⟨?_, nodup_singleton _, ?_⟩
  · apply List.Nodup.map _ nodup_range
    intro i j hij
    simpa using hij
  · intro b hb b' hb' heq
    obtain ⟨i, -, rfl⟩ := mem_map.mp hb
    rw [mem_singleton.mp hb'] at heq
    simp at heq

theorem Live.mem_blocks_iff (h : Live hp A) (he : e ∈ A) {b : Block} :
    b ∈ hp.blocks e.1 ↔ b.1 = e.1 ∧ b ∈ hp.allocated := by
  rw [mem_blocks]
  constructor
  · rintro ⟨hb, hle⟩
    refine ⟨hb, ?_⟩
    have hall := ((h.object e he).2.2 b.2).mpr hle
    rwa [← hb] at hall
  · rintro ⟨hb, hall⟩
    refine ⟨hb, ((h.object e he).2.2 b.2).mp ?_⟩
    rwa [← hb]

theorem Live.ne_head (h : Live hp (e :: A)) : ∀ e' ∈ A, e'.1 ≠ e.1 := by
  intro e' he' heq
  have hdistinct := h.distinct
  rw [map_cons, nodup_cons] at hdistinct
  exact hdistinct.1 (mem_map.mpr ⟨e', he', heq⟩)

theorem Live.free (h : Live hp (e :: A)) : Live (hp.xhci_async_free e.1) A := by
  have hself : e ∈ e :: A := mem_cons_self
  refine ⟨h.late, ?_, fun b => ?_, h.fresh, fun e' he' => h.object e' (mem_cons_of_mem e he'),
    (nodup_cons.mp h.distinct).2⟩
  · simp only [xhci_async_free]
    rw [nodup_append]
    refine ⟨h.once, nodup_blocks hp e.1, fun b hb b' hb' heq => ?_⟩
    have hb1 := ((h.mem_blocks_iff hself).mp hb').1
    rw [← heq] at hb1
    exact ((h.freed b).mp hb).2 e hself hb1.symm
  · simp only [xhci_async_free, mem_append, h.mem_blocks_iff hself, h.freed, mem_cons]
    constructor
    · rintro (⟨hall, hnot⟩ | ⟨hb, hall⟩)
      · exact ⟨hall, fun e' he' => hnot e' (Or.inr he')⟩
      · exact ⟨hall, fun e' he' => hb ▸ h.ne_head e' he'⟩
    · rintro ⟨hall, hnot⟩
      by_cases hb : b.1 = e.1
      · exact Or.inr ⟨hb, hall⟩
      refine Or.inl ⟨hall, ?_⟩
      rintro e' (rfl | he')
      · exact fun heq => hb heq.symm
      · exact hnot e' he'

theorem mem_alloc {a : Async} {k j : ℕ} :
    (k, j) ∈ (hp.alloc a).allocated ↔ (k, j) ∈ hp.allocated ∨ k = hp.next ∧ j ≤ a.bufs := by
  simp only [alloc, mem_append, mem_cons, Prod.mk.injEq, mem_map, mem_range]
  constructor
  · rintro (hold | ⟨rfl, rfl⟩ | ⟨i, hi, rfl, rfl⟩)
    · exact Or.inl hold
    · exact Or.inr ⟨rfl, Nat.zero_le _⟩
    · exact Or.inr ⟨rfl, hi⟩
  · rintro (hold | ⟨rfl, hj⟩)
    · exact Or.inl hold
    · rcases j with _ | i
      · exact Or.inr (Or.inl ⟨rfl, rfl⟩)
      · exact Or.inr (Or.inr ⟨i, hj, rfl, rfl⟩)

theorem Live.alloc (h : Live hp A) (a : Async) : Live (hp.alloc a) ((hp.next, a.ctrl, a.slot_id) :: A) := by
  have hnew : ∀ e ∈ A, e.1 ≠ hp.next := fun e he => Nat.ne_of_lt (h.lt_next he)
  have hnext (j : ℕ) : (hp.next, j) ∉ hp.allocated := fun hmem => absurd (h.fresh _ hmem) (Nat.lt_irrefl _)
  refine ⟨h.late, h.once, ?_, ?_, ?_, ?_⟩
  · rintro ⟨k, j⟩
    show (k, j) ∈ hp.frees ↔ _
    rw [mem_alloc, h.freed]
    simp only [mem_cons, forall_eq_or_imp]
    constructor
    · rintro ⟨hold, hnot⟩
      exact ⟨Or.inl hold, fun heq => hnext j (heq ▸ hold), hnot⟩
    · rintro ⟨hold | ⟨rfl, -⟩, hne, hnot⟩
      · exact ⟨hold, hnot⟩
      · exact absurd rfl hne
  · rintro ⟨k, j⟩ hb
    show k < hp.next + 1
    rcases mem_alloc.mp hb with hold | ⟨rfl, -⟩
    · have hlt := h.fresh _ hold
      simp only at hlt
      omega
    · omega
  · intro e he
    rcases mem_cons.mp he with rfl | he
    · have hmem : (hp.alloc a).mem hp.next = a := update_self _ _ _
      rw [hmem]
      refine ⟨rfl, rfl, fun j => ?_⟩
      rw [mem_alloc]
      simp [hnext j]
    · have hmem : (hp.alloc a).mem e.1 = hp.mem e.1 := update_of_ne (hnew e he) _ _
      rw [hmem]
      obtain ⟨hctrl, hslot, hblocks⟩ := h.object e he
      refine ⟨hctrl, hslot, fun j => ?_⟩
      rw [mem_alloc, ← hblocks j]
      simp [hnew e he]
  · rw [map_cons, nodup_cons]
    refine ⟨fun hmem => ?_, h.distinct⟩
    obtain ⟨e, he, heq⟩ := mem_map.mp hmem
    exact hnew e he heq

end

namespace Owned

variable {hp : AsyncHeap} {A : List (ℕ × ℕ × UInt8)} {n c : ℕ} {e : ℕ × ℕ × UInt8} {impl : Option ℕ}

theorem modify (h : Owned hp A) {f : Async → Async} (hf : Keeps f) : Owned (hp.modify n f) A :=
  ⟨h.toLive.modify hf, h.listed, h.simple⟩

theorem touch (h : Owned hp A) {ns : List ℕ} (hns : ∀ m ∈ ns, (m, 0) ∉ hp.frees) : Owned (hp.touch ns) A := by
  rwa [touch_eq hns]

theorem queueSlot (h : Owned hp A) {i : Fin asyncDepth} {trb : Option ℕ} : Owned (hp.queueSlot n i trb) A := by
  unfold AsyncHeap.queueSlot
  split
  · exact h.modify fun a => ⟨rfl, rfl, rfl⟩
  · exact h.modify fun a => ⟨rfl, rfl, rfl⟩

theorem xhci_handle_transfer_event (h : Owned hp A) {ev : AsyncHeap.Event} :
    Owned (hp.xhci_handle_transfer_event c ev) A := by
  have hseen := h.touch fun m (hm : m ∈ walked (fun n => (hp.waiting n ev).isSome) (hp.async_list c)) =>
    h.not_freed_of_listed (walked_subset hm)
  unfold AsyncHeap.xhci_handle_transfer_event
  split
  · exact hseen
  rename_i m hfind
  split
  · exact hseen
  rename_i i hwait
  have hdone := hseen.modify (n := m) (f := fun a => { a with flight := update a.flight i none })
    fun a => ⟨rfl, rfl, rfl⟩
  split
  · exact hdone.modify fun a => ⟨rfl, rfl, rfl⟩
  · split
    · exact hdone.modify fun a => ⟨rfl, rfl, rfl⟩
    · exact hdone.queueSlot

theorem xhci_poll_events (h : Owned hp A) (evs : List AsyncHeap.Event) : Owned (hp.xhci_poll_events c evs) A := by
  unfold AsyncHeap.xhci_poll_events
  induction evs generalizing hp with
  | nil => exact h
  | cons ev evs ih => exact ih h.xhci_handle_transfer_event

theorem xhci_usbhc_async_in_check (h : Owned hp A) (himpl : ∀ m, impl = some m → (m, 0) ∉ hp.frees)
    (evs : List AsyncHeap.Event) : Owned (hp.xhci_usbhc_async_in_check impl evs).1 A := by
  unfold AsyncHeap.xhci_usbhc_async_in_check
  split
  · exact h
  rename_i m
  have hm : ∀ k ∈ [m], (k, 0) ∉ hp.frees := by simpa using himpl m rfl
  have hpolled := (h.touch hm).xhci_poll_events (c := (hp.mem m).ctrl) evs
  dsimp only
  split
  · exact hpolled
  split
  · exact hpolled
  split
  · exact hpolled
  dsimp only
  apply hpolled.modify
  intro a
  exact ⟨rfl, rfl, rfl⟩

theorem xhci_usbhc_async_in_rearm (h : Owned hp A) (himpl : ∀ m, impl = some m → (m, 0) ∉ hp.frees)
    (trb : Option ℕ) : Owned (hp.xhci_usbhc_async_in_rearm impl trb) A := by
  unfold AsyncHeap.xhci_usbhc_async_in_rearm
  split
  · exact h
  rename_i m
  have hm : ∀ k ∈ [m], (k, 0) ∉ hp.frees := by simpa using himpl m rfl
  have hseen := h.touch hm
  split
  · exact hseen
  split
  · exact hseen
  split
  · apply hseen.modify
    intro a
    exact ⟨rfl, rfl, rfl⟩
  · apply queueSlot
    apply hseen.modify
    intro a
    exact ⟨rfl, rfl, rfl⟩

theorem cancel_some (h : Owned hp (e :: A)) : Owned (hp.xhci_usbhc_async_in_cancel (some e.1)) A := by
  have hself : e ∈ e :: A := mem_cons_self
  have hctrl := (h.object e hself).1
  have hseen : hp.touch (e.1 :: walked (fun m => m = e.1) (hp.async_list (hp.mem e.1).ctrl)) = hp := by
    apply touch_eq
    intro m hm
    rcases mem_cons.mp hm with rfl | hm
    · exact h.not_freed hself 0
    · exact h.not_freed_of_listed (walked_subset hm)
  unfold xhci_usbhc_async_in_cancel
  dsimp only
  rw [hseen]
  refine ⟨((h.toLive.relist _).modify (f := fun a => { a with status := -1 }) fun _ => ⟨rfl, rfl, rfl⟩).free,
    fun c m => ?_, fun c => ?_⟩ <;> simp only [xhci_async_free, AsyncHeap.modify]
  · by_cases hc : c = (hp.mem e.1).ctrl
    · subst hc
      rw [update_self, (h.simple _).mem_erase_iff, h.listed]
      constructor
      · rintro ⟨hne, e', he', rfl, hc'⟩
        rcases mem_cons.mp he' with rfl | he'
        · exact absurd rfl hne
        · exact ⟨e', he', rfl, hc'⟩
      · rintro ⟨e', he', rfl, hc'⟩
        exact ⟨h.ne_head e' he', e', mem_cons_of_mem e he', rfl, hc'⟩
    · rw [update_of_ne hc, h.listed]
      constructor
      · rintro ⟨e', he', rfl, hc'⟩
        rcases mem_cons.mp he' with rfl | he'
        · exact absurd (hc'.symm.trans hctrl.symm) hc
        · exact ⟨e', he', rfl, hc'⟩
      · rintro ⟨e', he', rfl, hc'⟩
        exact ⟨e', mem_cons_of_mem e he', rfl, hc'⟩
  · by_cases hc : c = (hp.mem e.1).ctrl
    · subst hc
      rw [update_self]
      exact (h.simple _).erase _
    · rw [update_of_ne hc]
      exact h.simple c

theorem cancel (h : Owned hp (armed (x :: L))) : Owned (hp.xhci_usbhc_async_in_cancel x.impl) (armed L) := by
  rcases hx : x.impl with _ | n
  · rwa [armed_cons_none hx] at h
  rw [armed_cons_some hx] at h
  exact h.cancel_some

theorem alloc_free (h : Owned hp A) (a : Async) : Owned ((hp.alloc a).xhci_async_free hp.next) A :=
  ⟨(h.toLive.alloc a).free, h.listed, h.simple⟩

theorem alloc_list (h : Owned hp A) (a : Async) :
    Owned { hp.alloc a with async_list := update hp.async_list a.ctrl (hp.next :: hp.async_list a.ctrl) }
      ((hp.next, a.ctrl, a.slot_id) :: A) := by
  have hunlisted (c : ℕ) : hp.next ∉ hp.async_list c := by
    intro hmem
    obtain ⟨e, he, heq, -⟩ := (h.listed c hp.next).mp hmem
    exact absurd heq (Nat.ne_of_lt (h.lt_next he))
  refine ⟨(h.toLive.alloc a).relist _, fun c m => ?_, fun c => ?_⟩
  · by_cases hc : c = a.ctrl
    · subst hc
      simp only [update_self, mem_cons, h.listed, exists_eq_or_imp, and_true, eq_comm]
    · simp only [update_of_ne hc, mem_cons, h.listed, exists_eq_or_imp, Ne.symm hc, and_false, false_or]
  · by_cases hc : c = a.ctrl
    · subst hc
      simp only [update_self]
      exact nodup_cons.mpr ⟨hunlisted _, h.simple _⟩
    · simp only [update_of_ne hc]
      exact h.simple c

theorem xhci_usbhc_async_in_init (h : Owned hp (armed L)) (slot_id : UInt8) (env : AsyncHeap.Init) :
    Owned (hp.xhci_usbhc_async_in_init c slot_id env).1
      (armed (⟨c, slot_id, (hp.xhci_usbhc_async_in_init c slot_id env).2⟩ :: L)) := by
  unfold AsyncHeap.xhci_usbhc_async_in_init
  dsimp only
  split
  · exact h
  split
  · exact h.alloc_free _
  · split
    · exact h.alloc_free _
    · exact h.alloc_list ⟨c, slot_id, 0, [], none, env.trbs, min env.bufs asyncDepth⟩

theorem xhci_async_cancel_slot (h : Owned hp A) (hno : ∀ e ∈ A, e.2.1 = c → e.2.2 ≠ slot_id) :
    Owned (hp.xhci_async_cancel_slot c slot_id) A := by
  have hother : ∀ n ∈ hp.async_list c, (hp.mem n).slot_id ≠ slot_id := by
    intro n hn
    obtain ⟨e, he, rfl, hc⟩ := (h.listed c n).mp hn
    rw [(h.object e he).2.1]
    exact hno e he hc
  have hmine : (hp.async_list c).filter (fun n => decide ((hp.mem n).slot_id = slot_id)) = [] := by
    simpa [filter_eq_nil_iff] using hother
  have hrest : (hp.async_list c).filter (fun n => decide ((hp.mem n).slot_id ≠ slot_id)) = hp.async_list c := by
    simpa [filter_eq_self] using hother
  unfold AsyncHeap.xhci_async_cancel_slot
  rw [hmine, hrest, touch_eq fun n hn => h.not_freed_of_listed hn, update_eq_self]
  exact h

end Owned

def otherHandles (s : Pipes) (i : Fin 4) : List Handle :=
  s.mice ++ ((List.finRange 4).erase i).map fun j => (s.kbds j).handle

theorem handles_perm (s : Pipes) (i : Fin 4) : s.handles.Perm ((s.kbds i).handle :: otherHandles s i) := by
  unfold Pipes.handles otherHandles
  have hsplit : (List.finRange 4).Perm (i :: (List.finRange 4).erase i) := perm_cons_erase (mem_finRange i)
  exact ((hsplit.map _).append_left _).trans perm_middle

theorem handles_update_perm (s : Pipes) (i : Fin 4) (k : KbdSlot) (heap : AsyncHeap) :
    Pipes.handles { s with heap := heap, kbds := update s.kbds i k } |>.Perm (k.handle :: otherHandles s i) := by
  have hperm := handles_perm { s with heap := heap, kbds := update s.kbds i k } i
  have hother : otherHandles { s with heap := heap, kbds := update s.kbds i k } i = otherHandles s i := by
    unfold otherHandles
    congr 1
    apply map_congr_left
    intro j hj
    have hne : j ≠ i := ((nodup_finRange 4).mem_erase_iff.mp hj).1
    simp [hne]
  rw [hother] at hperm
  simpa using hperm

/-- Every object has its handle, and keyboards that are not active have none. -/
structure PipesInv (s : Pipes) : Prop where
  owned : Owned s.heap (armed s.handles)
  inactive : ∀ i, (s.kbds i).active = false → (s.kbds i).handle.impl = none

theorem PipesInv.freedOnce (h : PipesInv s) : FreedOnce s where
  once := by
    intro b hb hno
    apply count_eq_one_of_mem h.owned.once
    rw [h.owned.freed]
    exact ⟨hb, fun e he heq => hno (inUse_iff.mpr ⟨e, he, heq⟩)⟩
  kept := by
    intro b _ huse
    obtain ⟨e, he, heq⟩ := inUse_iff.mp huse
    rw [count_eq_zero, h.owned.freed]
    exact fun hfreed => hfreed.2 e he heq
  late := h.owned.late

theorem PipesInv.handle (h : PipesInv s) (hx : x ∈ s.handles) : ∀ n, x.impl = some n → (n, 0) ∉ s.heap.frees :=
  fun _ hn => h.owned.not_freed (mem_armed hx hn) 0

theorem pipesInv_init : PipesInv .init where
  owned := by
    have hnone : armed (Pipes.init).handles = [] := rfl
    rw [hnone]
    refine ⟨⟨rfl, nodup_nil, fun b => ?_, fun b hb => ?_, fun e he => ?_, nodup_nil⟩, fun c n => ?_, fun c => nodup_nil⟩
    · simp [Pipes.init]
    · simp [Pipes.init] at hb
    · cases he
    · simp [Pipes.init]
  inactive := fun _ _ => rfl

theorem mem_handles_kbd (s : Pipes) (i : Fin 4) : (s.kbds i).handle ∈ s.handles :=
  (handles_perm s i).mem_iff.mpr mem_cons_self

/-- The keyboard `i` gets another state, with a handle for which the heap is right. -/
theorem PipesInv.setKbd (h : PipesInv s) {i : Fin 4} {k : KbdSlot}
    (howned : Owned heap (armed (k.handle :: otherHandles s i))) (hk : k.active = false → k.handle.impl = none) :
    PipesInv { s with heap := heap, kbds := update s.kbds i k } where
  owned := howned.perm (armed_perm (handles_update_perm s i k heap).symm)
  inactive := by
    intro j hj
    by_cases hij : j = i
    · subst hij
      simp only [update_self] at hj ⊢
      exact hk hj
    · simp only [update_of_ne hij] at hj ⊢
      exact h.inactive j hj

theorem PipesInv.owned_at (h : PipesInv s) (i : Fin 4) : Owned s.heap (armed ((s.kbds i).handle :: otherHandles s i)) :=
  h.owned.perm (armed_perm (handles_perm s i))

theorem PipesInv.deactivate (h : PipesInv s) (i : Fin 4) : PipesInv (s.deactivate i) := by
  unfold Pipes.deactivate
  dsimp only
  split
  · exact h
  · apply h.setKbd _ fun _ => rfl
    exact (h.owned_at i).cancel

theorem PipesInv.dropKbds (h : PipesInv s) (p : Handle → Bool) : PipesInv (s.dropKbds p) := by
  unfold Pipes.dropKbds
  generalize List.finRange 4 = is
  induction is generalizing s with
  | nil => exact h
  | cons i is ih =>
    rw [foldl_cons]
    split
    · exact ih (h.deactivate i)
    · exact ih h

theorem set_dropLast_eq {x : α} (hi : l[i]? = some a) (hx : l.getLast? = some x) :
    ∃ t, t.Perm (l.drop (i + 1)) ∧ (l.set i x).dropLast = l.take i ++ t := by
  obtain ⟨front, rfl⟩ := getLast?_eq_some_iff.mp hx
  have hlt : i < (front ++ [x]).length := (List.getElem?_eq_some_iff.mp hi).1
  simp only [length_append, length_singleton] at hlt
  by_cases hfront : i < front.length
  · refine ⟨x :: front.drop (i + 1), ?_, ?_⟩
    · rw [drop_append_of_le_length (by omega)]
      exact (perm_append_singleton _ _).symm
    · rw [set_append_left _ _ hfront, dropLast_concat, take_append_of_le_length (by omega),
        set_eq_take_append_cons_drop, if_pos hfront]
  · have heq : i = front.length := by omega
    subst heq
    exact ⟨[], by simp, by simp⟩

theorem set_dropLast_perm {x : α} (hi : l[i]? = some a) (hx : l.getLast? = some x) :
    l.Perm (a :: (l.set i x).dropLast) := by
  obtain ⟨t, ht, heq⟩ := set_dropLast_eq hi hx
  obtain ⟨hlt, hget⟩ := List.getElem?_eq_some_iff.mp hi
  have hsplit : l.take i ++ a :: l.drop (i + 1) = l := by
    rw [← hget, cons_getElem_drop_succ, take_append_drop]
  have hfirst : (l.take i ++ a :: l.drop (i + 1)).Perm (a :: (l.take i ++ l.drop (i + 1))) := perm_middle
  rw [hsplit] at hfirst
  rw [heq]
  exact hfirst.trans ((ht.symm.append_left _).cons a)

/-- Dropping mice keeps every object with its handle; `K` are the handles of the other table. -/
theorem Owned.dropMice (p : Handle → Bool) (n : ℕ) (h : Owned heap (armed (mice ++ K))) :
    Owned (Pipes.dropMice p n i heap mice).1 (armed ((Pipes.dropMice p n i heap mice).2 ++ K)) := by
  induction n generalizing i heap mice with
  | zero => exact h
  | succ n ih =>
    rw [Pipes.dropMice]
    split
    · rename_i x last hx hlast
      split
      · apply ih
        exact (h.perm (armed_perm ((set_dropLast_perm hx hlast).append_right K))).cancel
      · exact ih h
    · exact h

theorem PipesInv.usb_hid_drop_device (h : PipesInv s) (p : Handle → Bool) : PipesInv (s.usb_hid_drop_device p) where
  owned := h.owned.dropMice p s.mice.length
  inactive := h.inactive

theorem PipesInv.addMouse (h : PipesInv s) (hc : ℕ) (dev : UInt8) (env : AsyncHeap.Init) :
    PipesInv (s.addMouse hc dev env) := by
  have hinit := h.owned.xhci_usbhc_async_in_init (c := hc) dev env
  unfold Pipes.addMouse
  split
  · exact h
  split
  · exact h
  split
  · rename_i heap heq
    rw [heq] at hinit
    exact ⟨hinit, h.inactive⟩
  · rename_i heap n heq
    rw [heq] at hinit
    refine ⟨hinit.perm (armed_perm ?_), h.inactive⟩
    unfold Pipes.handles
    rw [append_assoc]
    exact perm_middle.symm

theorem PipesInv.addKbd (h : PipesInv s) (hc : ℕ) (dev : UInt8) (env : AsyncHeap.Init) :
    PipesInv (s.addKbd hc dev env) := by
  unfold Pipes.addKbd
  split
  · exact h
  rename_i i hi
  have hfree : (s.kbds i).active = false := by simpa using find?_some hi
  have hothers : Owned s.heap (armed (otherHandles s i)) := by
    have hat := h.owned_at i
    rwa [armed_cons_none (h.inactive i hfree)] at hat
  have hinit := hothers.xhci_usbhc_async_in_init (c := hc) dev env
  split
  · exact h.setKbd hothers fun _ => rfl
  split
  · rename_i heap heq
    rw [heq] at hinit
    exact h.setKbd hinit fun _ => rfl
  · rename_i heap n heq
    rw [heq] at hinit
    exact h.setKbd hinit fun hactive => by simp at hactive

theorem PipesInv.pollMouse (h : PipesInv s) (i : ℕ) (evs : List AsyncHeap.Event) (trb : Option ℕ) :
    PipesInv (s.pollMouse i evs trb) := by
  unfold Pipes.pollMouse
  split
  · exact h
  rename_i x hx
  have hmem : x ∈ s.handles := mem_append_left _ (mem_of_getElem? hx)
  have hcheck := h.owned.xhci_usbhc_async_in_check (h.handle hmem) evs
  split
  rename_i heap rc heq
  rw [heq] at hcheck
  split
  · exact ⟨hcheck, h.inactive⟩
  · refine ⟨hcheck.xhci_usbhc_async_in_rearm (fun n hn => ?_) trb, h.inactive⟩
    exact hcheck.not_freed (mem_armed hmem hn) 0

theorem PipesInv.pollKbd (h : PipesInv s) (i : Fin 4) (evs : List AsyncHeap.Event) (trb : Option ℕ) :
    PipesInv (s.pollKbd i evs trb) := by
  unfold Pipes.pollKbd
  split
  · exact h
  have hmem := mem_handles_kbd s i
  have hcheck := h.owned.xhci_usbhc_async_in_check (h.handle hmem) evs
  split
  rename_i heap rc heq
  rw [heq] at hcheck
  have hpolled : PipesInv { s with heap := heap } := ⟨hcheck, h.inactive⟩
  split
  · exact hpolled
  split
  · exact hpolled.deactivate i
  · refine ⟨hcheck.xhci_usbhc_async_in_rearm (fun n hn => ?_) trb, h.inactive⟩
    exact hcheck.not_freed (mem_armed hmem hn) 0

theorem Owned.cancel_all (h : Owned heap (armed (L ++ K))) :
    Owned (L.foldl (fun heap x => heap.xhci_usbhc_async_in_cancel x.impl) heap) (armed K) := by
  induction L generalizing heap with
  | nil => exact h
  | cons x L ih => exact ih h.cancel

theorem PipesInv.usb_hid_reset (h : PipesInv s) : PipesInv s.usb_hid_reset := by
  have hmice := h.owned.cancel_all
  rw [← append_nil ((List.finRange 4).map fun i => (s.kbds i).handle)] at hmice
  have hkbds := hmice.cancel_all
  rw [foldl_map] at hkbds
  exact ⟨hkbds, fun _ _ => rfl⟩

theorem PipesInv.setUsed (h : PipesInv s) (used : ℕ → UInt8 → Bool) : PipesInv { s with used := used } :=
  ⟨h.owned, h.inactive⟩

theorem PipesInv.xhci_release_slot (h : PipesInv s) (hc : ℕ) (slot_id : UInt8)
    (evs : List AsyncHeap.Event) (hfirst : DroppedFirst s (.release hc slot_id evs)) :
    PipesInv (s.xhci_release_slot hc slot_id evs) := by
  unfold Pipes.xhci_release_slot
  split
  · exact h
  rename_i hused
  have hno : ∀ e ∈ armed s.handles, e.2.1 = hc → e.2.2 ≠ slot_id := by
    intro e he hctrl hslot
    obtain ⟨x, hx, hmap⟩ := mem_filterMap.mp he
    obtain ⟨n, hn, rfl⟩ := Option.map_eq_some_iff.mp hmap
    rw [hfirst (by simpa using hused) x hx hctrl hslot] at hn
    cases hn
  have hcancelled : PipesInv { s with heap :=
      (s.heap.xhci_poll_events hc evs).xhci_async_cancel_slot hc slot_id } :=
    ⟨(h.owned.xhci_poll_events evs).xhci_async_cancel_slot hno, h.inactive⟩
  have hdropped := (hcancelled.usb_hid_drop_device (Handle.is hc slot_id)).dropKbds (Handle.is hc slot_id)
  exact hdropped.setUsed _

/-- What was freed stays freed, and a late access stays on record. -/
structure Grows (hp hp' : AsyncHeap) : Prop where
  late : hp.late ≠ [] → hp'.late ≠ []
  frees : ∀ b ∈ hp.frees, b ∈ hp'.frees

theorem Grows.refl (hp : AsyncHeap) : Grows hp hp := ⟨id, fun _ h => h⟩

theorem Grows.trans {hp' hp'' : AsyncHeap} (h : Grows hp hp') (h' : Grows hp' hp'') : Grows hp hp'' :=
  ⟨fun hl => h'.late (h.late hl), fun b hb => h'.frees b (h.frees b hb)⟩

theorem grows_cancel (hp : AsyncHeap) (impl : Option ℕ) : Grows hp (hp.xhci_usbhc_async_in_cancel impl) := by
  rcases impl with _ | n
  · exact Grows.refl hp
  constructor
  · intro hlate
    simp only [xhci_usbhc_async_in_cancel, xhci_async_free, AsyncHeap.modify, touch,
      ne_eq, append_eq_nil_iff, not_and]
    exact fun h => absurd h hlate
  · intro b hb
    exact mem_append_left _ hb

theorem cancel_late (h : (n, 0) ∈ hp.frees) : (hp.xhci_usbhc_async_in_cancel (some n)).late ≠ [] := by
  simp [xhci_usbhc_async_in_cancel, xhci_async_free, AsyncHeap.modify, touch, h]

theorem cancel_slot_frees {c : ℕ} (hn : n ∈ hp.async_list c)
    (hslot : (hp.mem n).slot_id = slot_id) : (n, 0) ∈ (hp.xhci_async_cancel_slot c slot_id).frees := by
  have hloop (l : List ℕ) (hp : AsyncHeap) (hor : n ∈ l ∨ (n, 0) ∈ hp.frees) :
      (n, 0) ∈ (l.foldl (fun hp n => (hp.modify n fun a => { a with status := -1 }).xhci_async_free n) hp).frees := by
    induction l generalizing hp with
    | nil => exact hor.resolve_left (by simp)
    | cons m l ih =>
      apply ih
      rcases hor with hmem | hfreed
      · rcases mem_cons.mp hmem with rfl | hmem
        · exact Or.inr (mem_append_right _ (mem_blocks.mpr ⟨rfl, Nat.zero_le _⟩))
        · exact Or.inl hmem
      · exact Or.inr (mem_append_left _ hfreed)
  apply hloop
  exact Or.inl (mem_filter.mpr ⟨hn, by simpa using hslot⟩)

theorem grows_dropMice (p : Handle → Bool) (n i : ℕ) (heap : AsyncHeap) (mice : List Handle) :
    Grows heap (Pipes.dropMice p n i heap mice).1 := by
  induction n generalizing i heap mice with
  | zero => exact Grows.refl heap
  | succ n ih =>
    rw [Pipes.dropMice]
    split
    · split
      · exact (grows_cancel heap _).trans (ih _ _ _)
      · exact ih _ _ _
    · exact Grows.refl heap

theorem dropMice_late (hp : p x = true) (hx : x.impl = some m) (n : ℕ)
    (hn : mice.length ≤ i + n) (hmem : x ∈ mice.drop i)
    (hfreed : (m, 0) ∈ heap.frees) : (Pipes.dropMice p n i heap mice).1.late ≠ [] := by
  induction n generalizing i heap mice with
  | zero =>
    rw [drop_of_length_le (by omega)] at hmem
    cases hmem
  | succ n ih =>
    have hlt : i < mice.length := by
      by_contra hge
      rw [drop_of_length_le (by omega)] at hmem
      cases hmem
    have hget : mice[i]? = some mice[i] := getElem?_eq_getElem hlt
    obtain ⟨last, hlast⟩ : ∃ last, mice.getLast? = some last := by
      cases hl : mice.getLast? with
      | none =>
        rw [getLast?_eq_none_iff] at hl
        simp [hl] at hlt
      | some last => exact ⟨last, rfl⟩
    rw [drop_eq_getElem_cons hlt, mem_cons] at hmem
    rw [Pipes.dropMice, hget, hlast]
    dsimp only
    split
    · rename_i hsel
      rcases hmem with rfl | hmem
      · rw [hx]
        exact (grows_dropMice p n i _ _).late (cancel_late hfreed)
      obtain ⟨t, ht, heq⟩ := set_dropLast_eq hget hlast
      have hlen : (mice.set i last).dropLast.length + 1 = mice.length := by
        simp only [length_dropLast, length_set]
        omega
      apply ih (by omega) _ ((grows_cancel heap _).frees _ hfreed)
      rw [heq, drop_append_of_le_length (by simp; omega), drop_take, Nat.sub_self, take_zero, nil_append]
      exact ht.mem_iff.mpr hmem
    · rename_i hsel
      rcases hmem with rfl | hmem
      · exact absurd hp hsel
      · exact ih (by omega) hmem hfreed

theorem grows_deactivate (s : Pipes) (i : Fin 4) : Grows s.heap (s.deactivate i).heap := by
  unfold Pipes.deactivate
  dsimp only
  split
  · exact Grows.refl _
  · exact grows_cancel _ _

theorem grows_dropKbds (p : Handle → Bool) (is : List (Fin 4)) (s : Pipes) :
    Grows s.heap (is.foldl (fun s i => if p (s.kbds i).handle then s.deactivate i else s) s).heap := by
  induction is generalizing s with
  | nil => exact Grows.refl _
  | cons i is ih =>
    rw [foldl_cons]
    split
    · exact (grows_deactivate s i).trans (ih _)
    · exact ih s

theorem dropKbds_late {i : Fin 4} (is : List (Fin 4)) (hi : i ∈ is)
    (hp : p (s.kbds i).handle = true) (hactive : (s.kbds i).active = true) (hx : (s.kbds i).handle.impl = some m)
    (hfreed : (m, 0) ∈ s.heap.frees) :
    (is.foldl (fun s i => if p (s.kbds i).handle then s.deactivate i else s) s).heap.late ≠ [] := by
  induction is generalizing s with
  | nil => cases hi
  | cons j is ih =>
    rw [foldl_cons]
    by_cases hij : j = i
    · subst hij
      rw [if_pos hp]
      apply (grows_dropKbds p is _).late
      unfold Pipes.deactivate
      simp only [hactive, Bool.not_true, Bool.false_eq_true, if_false, hx]
      exact cancel_late hfreed
    · have hrest : i ∈ is := (mem_cons.mp hi).resolve_left (Ne.symm hij)
      have hsame : (s.deactivate j).kbds i = s.kbds i := by
        unfold Pipes.deactivate
        dsimp only
        split
        · rfl
        · exact update_of_ne (Ne.symm hij) _ _
      split
      · apply ih hrest
        · rwa [hsame]
        · rwa [hsame]
        · rwa [hsame]
        · exact (grows_deactivate s j).frees _ hfreed
      · exact ih hrest hp hactive hx hfreed

theorem release_late (h : PipesInv s) {hc : ℕ} (evs : List AsyncHeap.Event)
    (hused : s.used hc slot_id = true) (hx : x ∈ s.handles) (hctrl : x.hc = hc) (hdev : x.dev = slot_id)
    (hn : x.impl = some n) : (s.xhci_release_slot hc slot_id evs).heap.late ≠ [] := by
  have hmem := mem_armed hx hn
  have hpolled := h.owned.xhci_poll_events (c := hc) evs
  have hlisted : n ∈ (s.heap.xhci_poll_events hc evs).async_list hc := (hpolled.listed hc n).mpr ⟨_, hmem, rfl, hctrl⟩
  have hslot : ((s.heap.xhci_poll_events hc evs).mem n).slot_id = slot_id := (hpolled.object _ hmem).2.1.trans hdev
  have hfreed := cancel_slot_frees hlisted hslot
  have hsel : Handle.is hc slot_id x = true := by simp [Handle.is, hctrl, hdev]
  unfold Pipes.xhci_release_slot
  simp only [hused, Bool.not_true, Bool.false_eq_true, if_false]
  rcases mem_append.mp hx with hmouse | hkbd
  · apply (grows_dropKbds _ _ _).late
    exact dropMice_late hsel hn _ (by simp) (by simpa using hmouse) hfreed
  obtain ⟨i, hi, rfl⟩ := mem_map.mp hkbd
  have hactive : (s.kbds i).active = true := by
    cases ha : (s.kbds i).active with
    | true => rfl
    | false =>
      rw [h.inactive i ha] at hn
      cases hn
  refine dropKbds_late (List.finRange 4) hi hsel hactive hn ?_
  exact (grows_dropMice _ _ _ _ _).frees _ hfreed

theorem pipeStep_inv (h : PipesInv s) (op : PipeOp) (hfirst : DroppedFirst s op) : PipesInv (pipeStep s op) := by
  cases op with
  | enable hc slot_id => exact h.setUsed _
  | addMouse hc dev env => exact h.addMouse hc dev env
  | addKbd hc dev env => exact h.addKbd hc dev env
  | pollMouse i evs trb => exact h.pollMouse i evs trb
  | pollKbd i evs trb => exact h.pollKbd i evs trb
  | release hc slot_id evs => exact h.xhci_release_slot hc slot_id evs hfirst
  | dropMice hc dev => exact h.usb_hid_drop_device _
  | dropKbds hc dev => exact h.dropKbds _
  | reset => exact h.usb_hid_reset

theorem droppedFirst_of_freedOnce (h : PipesInv s) (op : PipeOp) (hsafe : FreedOnce (pipeStep s op)) :
    DroppedFirst s op := by
  cases op with
  | release hc slot_id evs =>
    intro hused x hx hctrl hdev
    by_contra himpl
    obtain ⟨n, hn⟩ := Option.ne_none_iff_exists'.mp himpl
    exact release_late h evs hused hx hctrl hdev hn hsafe.late
  | _ => trivial

/-- The transfer objects and their buffers are freed once, when their handle is gone, and not accessed later, if and
only if slots are only released after the mice and keyboards on them are gone. -/
theorem freedOnce_throughout_iff (ops : List PipeOp) : (∀ pre, pre <+: ops → FreedOnce (exec pipeStep .init pre)) ↔
      ∀ pre op, pre ++ [op] <+: ops → DroppedFirst (exec pipeStep .init pre) op := by
  rw [← throughout_iff_prefix, ← eachStep_iff_prefix]
  exact throughout_iff_eachStep (fun s h => PipesInv.freedOnce h) (fun s op h hfirst => pipeStep_inv h op hfirst)
    (fun s op h hsafe => droppedFirst_of_freedOnce h op hsafe) pipesInv_init

def roomy : AsyncHeap.Init := ⟨true, asyncDepth, fun i => some i.val⟩

/-- The controller frees the request of a released slot, and the driver frees it once more. -/
theorem unplugged_mouse_freed_twice :
    ¬ FreedOnce (exec pipeStep .init [.enable 0 1, .addMouse 0 1 roomy, .release 0 1 []]) ∧
      (exec pipeStep .init [.enable 0 1, .addMouse 0 1 roomy, .release 0 1 []]).heap.frees.count (0, 0) = 2 := by
  have htwice : (exec pipeStep .init [.enable 0 1, .addMouse 0 1 roomy, .release 0 1 []]).heap.frees.count (0, 0) = 2 := by
    decide +kernel
  have hlate : (exec pipeStep .init [.enable 0 1, .addMouse 0 1 roomy, .release 0 1 []]).heap.late ≠ [] := by
    decide +kernel
  exact ⟨fun hsafe => hlate hsafe.late, htwice⟩

end Orion.Usb
