import Orion.Lib.Ring
import Orion.Lib.Runs

/-!
# Keys that wait for a program (`drivers/keyboard.c`)

The interrupt handler puts keys into a ring of 128 cells, and the newest 127 are kept. Programs take them out with
interrupts disabled, and look at `g_key_pressed`.
-/

namespace Orion.Shell

open Lib List Function

/-- The ring of the keyboard driver and its flag. -/
structure KeyBuffer where
  note_keybuf : RingBuffer UInt8
  g_key_pressed : Bool

def note_keybuf_clear_unsafe (s : KeyBuffer) : KeyBuffer := ⟨{ s.note_keybuf with head := 0, tail := 0 }, false⟩

/-- A full ring loses its oldest byte. -/
def note_key_emit (s : KeyBuffer) (code : UInt8) : KeyBuffer :=
  let r := s.note_keybuf
  let next := (r.head + 1) % 128
  let tail := if next = r.tail then (r.tail + 1) % 128 else r.tail
  ⟨⟨update r.cells r.head (some code), next, tail⟩, true⟩

/-- The oldest byte, if there is one. -/
def note_keybuf_pop (s : KeyBuffer) : Option UInt8 × KeyBuffer :=
  let r := s.note_keybuf
  let tail := if r.head ≠ r.tail then (r.tail + 1) % 128 else r.tail
  (if r.head ≠ r.tail then r.cells r.tail else none, ⟨{ r with tail := tail }, r.head ≠ tail⟩)

/-- A call from the driver or from its client. -/
inductive KeyOp where
  | emit (code : UInt8) | pop | clear

/-- The buffer, with what was taken out of it. -/
def bufStep : KeyBuffer × List (Option UInt8) → KeyOp → KeyBuffer × List (Option UInt8)
  | (s, out), .emit code => (note_key_emit s code, out)
  | (s, out), .pop => ((note_keybuf_pop s).2, (note_keybuf_pop s).1 :: out)
  | (s, out), .clear =>
    let cleared := note_keybuf_clear_unsafe s
    (cleared, out)

/-- A queue that keeps the newest 127 keys. -/
def queueStep : List UInt8 × List (Option UInt8) → KeyOp → List UInt8 × List (Option UInt8)
  | (keys, out), .emit code => ((if keys.length < 127 then keys else keys.tail) ++ [code], out)
  | (keys, out), .pop => (keys.tail, keys.head? :: out)
  | (_, out), .clear => ([], out)

/-- The keys that wait are in the ring, and programs are told of them. -/
def Waits (s : KeyBuffer) (keys : List UInt8) : Prop :=
  s.note_keybuf.Repr 128 keys ∧ s.g_key_pressed = !keys.isEmpty

variable {s : KeyBuffer} {keys : List UInt8} {r : RingBuffer UInt8}

theorem waits_clear (s : KeyBuffer) (out : List (Option UInt8)) : Waits (bufStep (s, out) .clear).1 [] :=
  ⟨⟨Nat.succ_pos 127, rfl, Nat.succ_pos 127, fun _ hi => absurd hi (Nat.not_lt_zero _)⟩, rfl⟩

theorem repr_push (h : r.Repr 128 keys) (hroom : keys.length < 127) (code : UInt8) : (r.head + 1) % 128 ≠ r.tail ∧
    RingBuffer.Repr 128 ⟨update r.cells r.head (some code), (r.head + 1) % 128, r.tail⟩ (keys ++ [code]) := by
  rcases h.enqueue_cases code with ⟨hfull, -⟩ | ⟨r', -, hsome, hr⟩
  · omega
  unfold RingBuffer.enqueue at hsome
  split at hsome <;> cases hsome
  exact ⟨‹_›, hr⟩

theorem Waits.emit (h : Waits s keys) (code : UInt8) :
    Waits (note_key_emit s code) ((if keys.length < 127 then keys else keys.tail) ++ [code]) := by
  refine ⟨?_, by simp [note_key_emit]⟩
  by_cases hroom : keys.length < 127
  · obtain ⟨hne, hr⟩ := repr_push h.1 hroom code
    rwa [note_key_emit, if_neg hne, if_pos hroom]
  -- the oldest key makes room
  obtain ⟨htail, hhead, hshort, -⟩ := h.1
  have hnext : (s.note_keybuf.head + 1) % 128 = s.note_keybuf.tail := by omega
  rw [note_key_emit, if_pos hnext, if_neg hroom]
  cases keys with
  | nil => exact absurd (Nat.succ_pos 126) hroom
  | cons a keys => exact (repr_push h.1.advance.2.2 (Nat.lt_of_succ_lt_succ hshort) code).2

theorem head_ne_tail (h : r.Repr 128 keys) : decide (r.head ≠ r.tail) = !keys.isEmpty := by
  cases keys with
  | nil => simpa [Nat.mod_eq_of_lt h.tail_lt] using h.head_eq
  | cons a keys => simpa using h.advance.1

theorem Waits.pop (h : Waits s keys) :
    (note_keybuf_pop s).1 = keys.head? ∧ Waits (note_keybuf_pop s).2 keys.tail := by
  have hne := head_ne_tail h.1
  cases keys with
  | nil =>
    simp only [note_keybuf_pop, if_neg (of_decide_eq_false hne)]
    exact ⟨rfl, h.1, hne⟩
  | cons a keys =>
    obtain ⟨hne, hcell, hrest⟩ := h.1.advance
    simp only [note_keybuf_pop, if_pos hne, hcell]
    exact ⟨rfl, hrest, head_ne_tail hrest⟩

/-- Keys come out in order and once each, none is lost before 127 newer ones, and the flag says if one waits. -/
theorem keys_refine_queue (s : KeyBuffer) (ops : List KeyOp) :
    let b := exec bufStep (s, []) (.clear :: ops)
    let q := exec queueStep ([], []) ops
    b.2 = q.2 ∧ Waits b.1 q.1 := by
  induction ops using List.reverseRecOn with
  | nil => exact ⟨rfl, waits_clear s []⟩
  | append_singleton ops op ih =>
    simp only [exec_cons, exec_append, exec_nil] at ih ⊢
    obtain ⟨hout, hwaits⟩ := ih
    cases op with
    | emit code => exact ⟨hout, hwaits.emit code⟩
    | pop => exact ⟨congrArg₂ List.cons hwaits.pop.1 hout, hwaits.pop.2⟩
    | clear => exact ⟨hout, waits_clear _ _⟩

end Orion.Shell
