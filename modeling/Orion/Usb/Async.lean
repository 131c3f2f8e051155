import Orion.Lib.Runs

/-!
# Interrupt pipelines of xHCI devices (`drivers/usb/xhci.c`, `usb.c`, `hid_boot_kbd.c`)

A mouse or keyboard on an xHCI controller is read through a transfer object with sixteen buffers. The object hangs
in the list of its controller, and the table of mice or of keyboards has a handle that points to it. It is freed
through either of the two.

Objects are numbered in the order of their allocation, and an object's memory stays readable in the model after it
was freed. Ghosts record the blocks that were allocated and freed, and the accesses to objects that were freed.
-/

namespace Orion.Usb

open Lib
open Function (update)

/-- `XHCI_ASYNC_DEPTH` -/
abbrev asyncDepth : ℕ := 16

/-- `xhci_async_t`: the pending transfers of its slots, given by their descriptors, the queue `ready_q` and the number
of buffers. Lengths and contents of reports are left out. -/
structure Async where
  ctrl : ℕ
  slot_id : UInt8
  status : Int
  ready_q : List (Fin asyncDepth)
  last_slot : Option (Fin asyncDepth)
  flight : Fin asyncDepth → Option ℕ
  bufs : ℕ

/-- A block of memory: 0 is the object itself, `i + 1` its buffer `i`. -/
abbrev Block := ℕ × ℕ

/-- The requests of the controllers, with a record of what was freed and used later. -/
structure AsyncHeap where
  mem : ℕ → Async
  next : ℕ
  async_list : ℕ → List ℕ
  allocated : List Block
  frees : List Block
  late : List ℕ

namespace AsyncHeap

variable (hp : AsyncHeap)

/-- A use of requests; one that was freed is recorded. -/
def touch (ns : List ℕ) : AsyncHeap := { hp with late := hp.late ++ ns.filter fun n => (n, 0) ∈ hp.frees }

def modify (n : ℕ) (f : Async → Async) : AsyncHeap := { hp with mem := update hp.mem n (f (hp.mem n)) }

/-- The request with its buffers. -/
def blocks (n : ℕ) : List Block := ((List.range (hp.mem n).bufs).map fun i => (n, i + 1)) ++ [(n, 0)]

def xhci_async_free (n : ℕ) : AsyncHeap := { hp with frees := hp.frees ++ hp.blocks n }

/-- `xhci_async_queue_slot`; `trb` is the address of the descriptor if it could be put into the ring. -/
def queueSlot (n : ℕ) (i : Fin asyncDepth) (trb : Option ℕ) : AsyncHeap :=
  match trb with
  | some addr => hp.modify n fun a => { a with flight := update a.flight i (some addr) }
  | none => hp.modify n fun a => { a with status := -1 }

/-- A transfer event: slot, descriptor, success, and what `xhci_async_queue_slot` finds if it has to be armed again. -/
structure Event where
  slot_id : UInt8
  ptr : ℕ
  ok : Bool
  trb : Option ℕ

/-- The transfer that the event is for. -/
def waiting (n : ℕ) (ev : Event) : Option (Fin asyncDepth) :=
  if (hp.mem n).slot_id = ev.slot_id then
    (List.finRange asyncDepth).find? fun i => (hp.mem n).flight i = some ev.ptr
  else none

/-- The objects that a walk looks at until it finds one that satisfies `p`. -/
def walked (p : ℕ → Bool) : List ℕ → List ℕ
  | [] => []
  | n :: ns => n :: if p n then [] else walked p ns

/-- `xhci_handle_transfer_event` for the transfers of the list. -/
def xhci_handle_transfer_event (c : ℕ) (ev : Event) : AsyncHeap :=
  let seen := hp.touch (walked (fun n => (hp.waiting n ev).isSome) (hp.async_list c))
  match (hp.async_list c).find? fun n => (hp.waiting n ev).isSome with
  | none => seen
  | some n =>
    match hp.waiting n ev with
    | none => seen
    | some i =>
      let done := seen.modify n fun a => { a with flight := update a.flight i none }
      if !ev.ok then done.modify n fun a => { a with status := -1 }
      else if (hp.mem n).ready_q.length < asyncDepth then
        done.modify n fun a => { a with ready_q := a.ready_q ++ [i] }
      else done.queueSlot n i ev.trb

def xhci_poll_events (c : ℕ) (evs : List Event) : AsyncHeap :=
  evs.foldl (fun hp ev => hp.xhci_handle_transfer_event c ev) hp

/-- `xhci_usbhc_async_in_check`, with the value it returns. -/
def xhci_usbhc_async_in_check (impl : Option ℕ) (evs : List Event) : AsyncHeap × Int :=
  match impl with
  | none => (hp, -1)
  | some n =>
    let polled := (hp.touch [n]).xhci_poll_events (hp.mem n).ctrl evs
    let a := polled.mem n
    if a.status < 0 then (polled, -1)
    else if a.status = 1 then (polled, 1)
    else
      match a.ready_q with
      | [] => (polled, 0)
      | i :: rest => (polled.modify n fun a => { a with ready_q := rest, status := 1, last_slot := some i }, 1)

/-- A finished request is started again. -/
def xhci_usbhc_async_in_rearm (impl : Option ℕ) (trb : Option ℕ) : AsyncHeap :=
  match impl with
  | none => hp
  | some n =>
    let seen := hp.touch [n]
    if (hp.mem n).status < 0 then seen
    else if (hp.mem n).status = 0 then seen
    else
      let reset := seen.modify n fun a => { a with status := 0, last_slot := none }
      match (hp.mem n).last_slot with
      | none => reset
      | some i => reset.queueSlot n i trb

/-- `xhci_usbhc_async_in_cancel`; the handle forgets its object. -/
def xhci_usbhc_async_in_cancel (impl : Option ℕ) : AsyncHeap :=
  match impl with
  | none => hp
  | some n =>
    let c := (hp.mem n).ctrl
    let seen := hp.touch (n :: walked (fun m => m = n) (hp.async_list c))
    let out := { seen with async_list := update hp.async_list c ((hp.async_list c).erase n) }
    (out.modify n fun a => { a with status := -1 }).xhci_async_free n

/-- The requests of the slot are taken out and freed. -/
def xhci_async_cancel_slot (c : ℕ) (slot_id : UInt8) : AsyncHeap :=
  let mine := (hp.async_list c).filter fun n => (hp.mem n).slot_id = slot_id
  let out := { hp.touch (hp.async_list c) with
    async_list := update hp.async_list c
      ((hp.async_list c).filter fun n => (hp.mem n).slot_id ≠ slot_id) }
  mine.foldl (fun hp n => (hp.modify n fun a => { a with status := -1 }).xhci_async_free n) out

def alloc (a : Async) : AsyncHeap :=
  { hp with
    mem := update hp.mem hp.next a, next := hp.next + 1
    allocated := hp.allocated ++ (hp.next, 0) :: (List.range a.bufs).map fun i => (hp.next, i + 1) }

/-- The answers during `xhci_usbhc_async_in_init`: whether the object was allocated, how many buffers, and where the
descriptors went. -/
structure Init where
  object : Bool
  bufs : ℕ
  trbs : Fin asyncDepth → Option ℕ

/-- `xhci_usbhc_async_in_init` for a device that is there, with the object if it succeeds. -/
def xhci_usbhc_async_in_init (c : ℕ) (slot_id : UInt8) (env : Init) : AsyncHeap × Option ℕ :=
  if !env.object then (hp, none)
  else
    let n := hp.next
    let bufs := min env.bufs asyncDepth
    let made := hp.alloc ⟨c, slot_id, 0, [], none, env.trbs, bufs⟩
    if bufs < asyncDepth then (made.xhci_async_free n, none)
    else if ∃ i, env.trbs i = none then (made.xhci_async_free n, none)
    else ({ made with async_list := update hp.async_list c (n :: hp.async_list c) }, some n)

end AsyncHeap

/-! ## The tables of mice and keyboards -/

/-- `usb_async_in_t` with the controller and the number of the device it belongs to. -/
structure Handle where
  hc : ℕ
  dev : UInt8
  impl : Option ℕ

/-- A handle belongs to the device `dev` of the controller `hc`. -/
def Handle.is (hc : ℕ) (dev : UInt8) (h : Handle) : Bool := h.hc = hc ∧ h.dev = dev

/-- A place of the keyboard driver. -/
structure KbdSlot where
  active : Bool
  handle : Handle

/-- The controllers' side, the tables of mice (`hid_devs`) and keyboards (`kbds`), and the controllers' slots in use. -/
structure Pipes where
  heap : AsyncHeap
  mice : List Handle
  kbds : Fin 4 → KbdSlot
  used : ℕ → UInt8 → Bool

namespace Pipes

def init : Pipes where
  heap := ⟨fun _ => ⟨0, 0, 0, [], none, fun _ => none, 0⟩, 0, fun _ => [], [], [], []⟩
  mice := []
  kbds := fun _ => ⟨false, 0, 0, none⟩
  used := fun _ _ => false

variable (s : Pipes)

/-- `USB_MAX_HID_DEVS` -/
abbrev maxMice : ℕ := 4

/-- A mouse gets a request, if there is room. -/
def addMouse (hc : ℕ) (dev : UInt8) (env : AsyncHeap.Init) : Pipes :=
  if s.mice.length ≥ maxMice then s
  else if !s.used hc dev then s
  else
    match s.heap.xhci_usbhc_async_in_init hc dev env with
    | (heap, none) => { s with heap := heap }
    | (heap, some n) => { s with heap := heap, mice := s.mice ++ [⟨hc, dev, some n⟩] }

/-- `hid_boot_kbd_add_device` -/
def addKbd (hc : ℕ) (dev : UInt8) (env : AsyncHeap.Init) : Pipes :=
  match (List.finRange 4).find? fun i => !(s.kbds i).active with
  | none => s
  | some i =>
    if !s.used hc dev then { s with kbds := update s.kbds i ⟨false, 0, 0, none⟩ }
    else
      match s.heap.xhci_usbhc_async_in_init hc dev env with
      | (heap, none) => { s with heap := heap, kbds := update s.kbds i ⟨false, 0, 0, none⟩ }
      | (heap, some n) => { s with heap := heap, kbds := update s.kbds i ⟨true, hc, dev, some n⟩ }

/-- `hid_boot_kbd_deactivate` -/
def deactivate (i : Fin 4) : Pipes :=
  let k := s.kbds i
  if !k.active then s
  else
    { s with
      heap := s.heap.xhci_usbhc_async_in_cancel k.handle.impl
      kbds := update s.kbds i ⟨false, k.handle.hc, k.handle.dev, none⟩ }

/-- `hid_boot_kbd_drop_device`: the keyboards with handles in `p` go. -/
def dropKbds (p : Handle → Bool) : Pipes :=
  (List.finRange 4).foldl (fun s i => if p (s.kbds i).handle then s.deactivate i else s) s

/-- The loop of `usb_hid_drop_device` from the position `i` on. The entry is overwritten with the last one. -/
def dropMice (p : Handle → Bool) : ℕ → ℕ → AsyncHeap → List Handle → AsyncHeap × List Handle
  | 0, _, heap, mice => (heap, mice)
  | n + 1, i, heap, mice =>
    match mice[i]?, mice.getLast? with
    | some h, some x =>
      if p h then dropMice p n i (heap.xhci_usbhc_async_in_cancel h.impl) (mice.set i x).dropLast
      else dropMice p n (i + 1) heap mice
    | _, _ => (heap, mice)

def usb_hid_drop_device (p : Handle → Bool) : Pipes :=
  let out := dropMice p s.mice.length 0 s.heap s.mice
  { s with heap := out.1, mice := out.2 }

/-- `xhci_release_slot`: the events that come in while the slot is disabled, the controller's list, then mice and
keyboards. -/
def xhci_release_slot (hc : ℕ) (slot_id : UInt8) (evs : List AsyncHeap.Event) : Pipes :=
  if !s.used hc slot_id then s
  else
    let cancelled := { s with heap := (s.heap.xhci_poll_events hc evs).xhci_async_cancel_slot hc slot_id }
    let dropped := (cancelled.usb_hid_drop_device (Handle.is hc slot_id)).dropKbds (Handle.is hc slot_id)
    { dropped with used := update s.used hc (update (s.used hc) slot_id false) }

def usb_hid_reset : Pipes :=
  let heap := s.mice.foldl (fun heap h => heap.xhci_usbhc_async_in_cancel h.impl) s.heap
  let cleared := (List.finRange 4).foldl (fun heap i => heap.xhci_usbhc_async_in_cancel (s.kbds i).handle.impl) heap
  { s with heap := cleared, mice := [], kbds := fun _ => ⟨false, 0, 0, none⟩ }

/-- One turn of the loop over the reports of a mouse in `usb_poll`. -/
def pollMouse (i : ℕ) (evs : List AsyncHeap.Event) (trb : Option ℕ) : Pipes :=
  match s.mice[i]? with
  | none => s
  | some h =>
    match s.heap.xhci_usbhc_async_in_check h.impl evs with
    | (heap, rc) =>
      if rc ≤ 0 then { s with heap := heap } else { s with heap := heap.xhci_usbhc_async_in_rearm h.impl trb }

/-- One turn of the loop over the reports of a keyboard in `hid_boot_kbd_poll`. -/
def pollKbd (i : Fin 4) (evs : List AsyncHeap.Event) (trb : Option ℕ) : Pipes :=
  if !(s.kbds i).active then s
  else
    match s.heap.xhci_usbhc_async_in_check (s.kbds i).handle.impl evs with
    | (heap, rc) =>
      if rc = 0 then { s with heap := heap }
      else if rc < 0 then { s with heap := heap }.deactivate i
      else { s with heap := heap.xhci_usbhc_async_in_rearm (s.kbds i).handle.impl trb }

end Pipes

/-- What happens to the pipelines. Only the drivers of other controllers drop all devices of one at once. -/
inductive PipeOp where
  | enable (hc : ℕ) (slot_id : UInt8)
  | addMouse (hc : ℕ) (dev : UInt8) (env : AsyncHeap.Init)
  | addKbd (hc : ℕ) (dev : UInt8) (env : AsyncHeap.Init)
  | pollMouse (i : ℕ) (evs : List AsyncHeap.Event) (trb : Option ℕ)
  | pollKbd (i : Fin 4) (evs : List AsyncHeap.Event) (trb : Option ℕ)
  | release (hc : ℕ) (slot_id : UInt8) (evs : List AsyncHeap.Event)
  | dropMice (hc : ℕ) (dev : UInt8)
  | dropKbds (hc : ℕ) (dev : UInt8)
  | reset

/-- One operation of the drivers or of the controller. -/
def pipeStep (s : Pipes) : PipeOp → Pipes
  | .enable hc slot_id => { s with used := update s.used hc (update (s.used hc) slot_id true) }
  | .addMouse hc dev env => s.addMouse hc dev env
  | .addKbd hc dev env => s.addKbd hc dev env
  | .pollMouse i evs trb => s.pollMouse i evs trb
  | .pollKbd i evs trb => s.pollKbd i evs trb
  | .release hc slot_id evs => s.xhci_release_slot hc slot_id evs
  | .dropMice hc dev => s.usb_hid_drop_device (Handle.is hc dev)
  | .dropKbds hc dev => s.dropKbds (Handle.is hc dev)
  | .reset => s.usb_hid_reset

/-! ## Freed once -/

def Pipes.handles (s : Pipes) : List Handle := s.mice ++ (List.finRange 4).map fun i => (s.kbds i).handle

/-- A handle still points to the request. -/
def InUse (L : List Handle) (n : ℕ) : Prop := ∃ h ∈ L, h.impl = some n

/-- Every block has been freed once when no handle points to its object any more, not before, and was not accessed
later. -/
structure FreedOnce (s : Pipes) : Prop where
  once : ∀ b ∈ s.heap.allocated, ¬ InUse s.handles b.1 → s.heap.frees.count b = 1
  kept : ∀ b ∈ s.heap.allocated, InUse s.handles b.1 → s.heap.frees.count b = 0
  late : s.heap.late = []

/-- A slot is released only once no handle points to its requests. -/
def DroppedFirst (s : Pipes) : PipeOp → Prop
  | .release hc slot_id _ => s.used hc slot_id = true →
      ∀ h ∈ s.handles, h.hc = hc → h.dev = slot_id → h.impl = none
  | _ => True

end Orion.Usb
