import Orion.Lib.Bytes
import Orion.Lib.Runs
import Orion.Lib.Toggle

/-!
# USB keyboards (`drivers/usb/hid_boot_kbd.c`)

Four slots for keyboards, each with the report that was processed last. A new report is compared with it and the
differences are injected as scancodes; a key that stays down is repeated; a keyboard that has not reported for too
long, fails or goes away is reset. Reports come in the boot protocol or in the format that the keyboard describes.

The state carries two ghosts: the scancodes injected so far, each with the slot and the key it was injected for, and
for each slot the report processed last.
-/

namespace Orion.Usb

open Lib

/-- `map` in `hid_usage_to_set1`: usage, prefix and scancode. -/
def set1Map : List (UInt8 × UInt8 × UInt8) :=
  [(0x04, 0x00, 0x1E), (0x05, 0x00, 0x30), (0x06, 0x00, 0x2E), (0x07, 0x00, 0x20), (0x08, 0x00, 0x12),
   (0x09, 0x00, 0x21), (0x0A, 0x00, 0x22), (0x0B, 0x00, 0x23), (0x0C, 0x00, 0x17), (0x0D, 0x00, 0x24),
   (0x0E, 0x00, 0x25), (0x0F, 0x00, 0x26), (0x10, 0x00, 0x32), (0x11, 0x00, 0x31), (0x12, 0x00, 0x18),
   (0x13, 0x00, 0x19), (0x14, 0x00, 0x10), (0x15, 0x00, 0x13), (0x16, 0x00, 0x1F), (0x17, 0x00, 0x14),
   (0x18, 0x00, 0x16), (0x19, 0x00, 0x2F), (0x1A, 0x00, 0x11), (0x1B, 0x00, 0x2D), (0x1C, 0x00, 0x15),
   (0x1D, 0x00, 0x2C), (0x1E, 0x00, 0x02), (0x1F, 0x00, 0x03), (0x20, 0x00, 0x04), (0x21, 0x00, 0x05),
   (0x22, 0x00, 0x06), (0x23, 0x00, 0x07), (0x24, 0x00, 0x08), (0x25, 0x00, 0x09), (0x26, 0x00, 0x0A),
   (0x27, 0x00, 0x0B), (0x28, 0x00, 0x1C), (0x29, 0x00, 0x01), (0x2A, 0x00, 0x0E), (0x2B, 0x00, 0x0F),
   (0x2C, 0x00, 0x39), (0x2D, 0x00, 0x0C), (0x2E, 0x00, 0x0D), (0x2F, 0x00, 0x1A), (0x30, 0x00, 0x1B),
   (0x31, 0x00, 0x2B), (0x32, 0x00, 0x56), (0x33, 0x00, 0x27), (0x34, 0x00, 0x28), (0x35, 0x00, 0x29),
   (0x36, 0x00, 0x33), (0x37, 0x00, 0x34), (0x38, 0x00, 0x35), (0x39, 0x00, 0x3A), (0x3A, 0x00, 0x3B),
   (0x3B, 0x00, 0x3C), (0x3C, 0x00, 0x3D), (0x3D, 0x00, 0x3E), (0x3E, 0x00, 0x3F), (0x3F, 0x00, 0x40),
   (0x40, 0x00, 0x41), (0x41, 0x00, 0x42), (0x42, 0x00, 0x43), (0x43, 0x00, 0x44), (0x44, 0x00, 0x57),
   (0x45, 0x00, 0x58), (0x47, 0x00, 0x46), (0x49, 0xE0, 0x52), (0x4A, 0xE0, 0x47), (0x4B, 0xE0, 0x49),
   (0x4C, 0xE0, 0x53), (0x4D, 0xE0, 0x4F), (0x4E, 0xE0, 0x51), (0x4F, 0xE0, 0x4D), (0x50, 0xE0, 0x4B),
   (0x51, 0xE0, 0x50), (0x52, 0xE0, 0x48), (0x53, 0x00, 0x45), (0x54, 0xE0, 0x35), (0x55, 0x00, 0x37),
   (0x56, 0x00, 0x4A), (0x57, 0x00, 0x4E), (0x58, 0xE0, 0x1C), (0x59, 0x00, 0x4F), (0x5A, 0x00, 0x50),
   (0x5B, 0x00, 0x51), (0x5C, 0x00, 0x4B), (0x5D, 0x00, 0x4C), (0x5E, 0x00, 0x4D), (0x5F, 0x00, 0x47),
   (0x60, 0x00, 0x48), (0x61, 0x00, 0x49), (0x62, 0x00, 0x52), (0x63, 0x00, 0x53), (0x64, 0x00, 0x56),
   (0x65, 0xE0, 0x5D)]

def hid_usage_to_set1 (usage : UInt8) : Option (UInt8 × UInt8) :=
  (set1Map.find? fun e => e.1 = usage).map fun e => e.2

/-- `mods`: bit, prefix and scancode of the modifiers. -/
def mods : List (Fin 8 × UInt8 × UInt8) :=
  [(0, 0x00, 0x1D), (1, 0x00, 0x2A), (2, 0x00, 0x38), (3, 0xE0, 0x5B), (4, 0xE0, 0x1D), (5, 0x00, 0x36),
   (6, 0xE0, 0x38), (7, 0xE0, 0x5C)]

/-- A key of the keyboard. -/
inductive Key where
  | usage (u : UInt8)
  | modifier (bit : Fin 8)
deriving DecidableEq

/-- A call of `send_scancode`. -/
structure Injected where
  slot : Fin 4
  key : Key
  pre : UInt8
  sc : UInt8
  make : Bool
deriving DecidableEq

/-- `hid_report_info_t`, without the fields that only the parser of descriptors uses. -/
structure ReportInfo where
  report_id : UInt8
  has_mods : Bool
  mod_bit_off : UInt16
  mod_bit_count : UInt8
  has_keys : Bool
  keys_bit_off : UInt16
  keys_count : UInt8
  keys_size : UInt8

/-- `hid_kbd_dev_t`. The array `prev_keys` is the list of its first `prev_keys_count` bytes. -/
structure Kbd where
  active : Bool
  hc : ℕ
  dev : UInt32
  report_proto : Bool
  report : ReportInfo
  prev_report : Bytes
  prev_mod : UInt8
  prev_keys : List UInt8
  repeat_active : Bool
  repeat_hid : UInt8
  repeat_prefix : UInt8
  repeat_sc : UInt8
  repeat_next_tick : UInt32
  last_report_tick : UInt32

def ReportInfo.zero : ReportInfo := ⟨0, false, 0, 0, false, 0, 0, 0⟩

/-- The memory of a keyboard after `memset`. -/
def Kbd.zero : Kbd := ⟨false, 0, 0, false, .zero, fun _ => 0, 0, [], false, 0, 0, 0, 0, 0⟩

def bootKeys (rep : Bytes) : List UInt8 := [rep 2, rep 3, rep 4, rep 5, rep 6, rep 7]

/-- The keyboard reports too many keys. -/
def hid_report_has_rollover (rep : Bytes) : Bool := (bootKeys rep).any fun b => 0x01 ≤ b ∧ b ≤ 0x03

def hid_usage_present (rep : Bytes) (usage : UInt8) : Bool := usage ≠ 0 && (bootKeys rep).contains usage

def kbd_key_present (keys : List UInt8) (key : UInt8) : Bool := keys.contains key

/-! ## Differences between two reports -/

/-- The loop over `mods`. -/
def modEvents (slot : Fin 4) (prev new : UInt8) : List Injected :=
  mods.filterMap fun (bit, pre, sc) =>
    let mask : UInt8 := 1 <<< UInt8.ofNat bit.val
    if (new ^^^ prev) &&& mask = 0 then none
    else some ⟨slot, .modifier bit, pre, sc, (new &&& mask) ≠ 0⟩

/-- The keys above `low` that are not `present` in the other report and have a scancode. -/
def changedKeys (low : UInt8) (present : UInt8 → Bool) (keys : List UInt8) : List (UInt8 × UInt8 × UInt8) :=
  keys.filterMap fun key =>
    if key ≤ low ∨ present key then none else (hid_usage_to_set1 key).map fun e => (key, e.1, e.2)

def keyEvents (slot : Fin 4) (make : Bool) (keys : List (UInt8 × UInt8 × UInt8)) : List Injected :=
  keys.map fun (key, pre, sc) => ⟨slot, .usage key, pre, sc, make⟩

/-- The key to repeat after a report: the first new key, or the old one if it has not been released. -/
def setRepeat (k : Kbd) (tick : UInt32) (released pressed : List (UInt8 × UInt8 × UInt8)) (present : UInt8 → Bool) :
    Kbd :=
  match pressed with
  | (key, pre, sc) :: _ =>
    { k with repeat_active := true, repeat_hid := key, repeat_prefix := pre, repeat_sc := sc
             repeat_next_tick := tick + 35 }
  | [] =>
    { k with repeat_active :=
        k.repeat_active && !(released.any fun e => e.1 = k.repeat_hid) && present k.repeat_hid }

/-- The keys that a report says are down. -/
structure Report where
  mod : UInt8
  keys : List UInt8

def Report.released : Report := ⟨0, []⟩

/-- The tests at the start of `process_report_boot`. -/
def bootReport (buf : Bytes) (actual : ℕ) : Option Report :=
  if actual < 8 then none else if hid_report_has_rollover buf then none else some ⟨buf 0, bootKeys buf⟩

/-- A report of the boot protocol is compared with the one before. -/
def process_report_boot (slot : Fin 4) (k : Kbd) (buf : Bytes) (actual : ℕ) (tick : UInt32) : Kbd × List Injected :=
  match bootReport buf actual with
  | none => (k, [])
  | some rep =>
    let released := changedKeys 0 (hid_usage_present buf) (bootKeys k.prev_report)
    let pressed := changedKeys 3 (hid_usage_present k.prev_report) rep.keys
    ({ setRepeat k tick released pressed (hid_usage_present buf) with prev_report := k.prev_report.splice 0 8 buf },
      modEvents slot (k.prev_report 0) rep.mod ++ keyEvents slot false released ++ keyEvents slot true pressed)

def hid_get_bits (buf : Bytes) (bit_off : UInt16) (bit_len : UInt8) : UInt32 :=
  (List.range bit_len.toNat).foldl (fun v i =>
    let b := bit_off + UInt16.ofNat i
    v ||| ((((buf (b >>> 3).toNat).toUInt32 >>> (b &&& 7).toUInt32) &&& 1) <<< UInt32.ofNat i)) 0

/-- The keys in a report of the report protocol. -/
def kbd_report_extract (r : ReportInfo) (buf : Bytes) (actual : ℕ) : Option Report :=
  if !r.has_keys ∨ r.keys_size ≠ 8 then none
  else if r.report_id ≠ 0 ∧ (actual < 1 ∨ buf 0 ≠ r.report_id) then none
  else
    let base : UInt16 := if r.report_id ≠ 0 then 8 else 0
    let need_bits := r.keys_bit_off + r.keys_count.toUInt16 * r.keys_size.toUInt16
    let mod_bits := r.mod_bit_off + r.mod_bit_count.toUInt16
    let total_bits := if need_bits > mod_bits then need_bits else mod_bits
    if base.toNat + total_bits.toNat > actual * 8 then none
    else
      let count := min r.keys_count.toNat 16
      let keys := (List.range count).map fun i =>
        (hid_get_bits buf (base + r.keys_bit_off + UInt16.ofNat i * r.keys_size.toUInt16) r.keys_size).toUInt8
      let mod_count := if r.mod_bit_count > 8 then 8 else r.mod_bit_count
      some ⟨if r.has_mods then (hid_get_bits buf (base + r.mod_bit_off) mod_count).toUInt8 else 0, keys⟩

/-- A report of the report protocol is compared with the one before. -/
def process_report_report (slot : Fin 4) (k : Kbd) (buf : Bytes) (actual : ℕ) (tick : UInt32) : Kbd × List Injected :=
  match kbd_report_extract k.report buf actual with
  | none => (k, [])
  | some rep =>
    let released := changedKeys 0 (kbd_key_present rep.keys) k.prev_keys
    let pressed := changedKeys 3 (kbd_key_present k.prev_keys) rep.keys
    ({ setRepeat k tick released pressed (kbd_key_present rep.keys) with prev_mod := rep.mod, prev_keys := rep.keys },
      modEvents slot k.prev_mod rep.mod ++ keyEvents slot false released ++ keyEvents slot true pressed)

/-! ## Polling -/

/-- The last report has the repeated key. -/
def stillDown (k : Kbd) : Bool :=
  if k.report_proto then kbd_key_present k.prev_keys k.repeat_hid
  else (bootKeys k.prev_report).contains k.repeat_hid

/-- The repeated key is sent again when it is time. -/
def repeat_tick (slot : Fin 4) (k : Kbd) (tick : UInt32) : Kbd × List Injected :=
  if !k.repeat_active then (k, [])
  else if tick < k.repeat_next_tick then (k, [])
  else if !stillDown k then ({ k with repeat_active := false }, [])
  else
    ({ k with repeat_next_tick := tick + 5 }, [⟨slot, .usage k.repeat_hid, k.repeat_prefix, k.repeat_sc, true⟩])

/-- `HID_KBD_REPORT_TIMEOUT_TICKS` -/
def timedOut (k : Kbd) (tick : UInt32) : Bool := tick - k.last_report_tick > 100

/-- The last report is forgotten. -/
def Kbd.forget (k : Kbd) : Kbd :=
  { k with repeat_active := false, repeat_hid := 0, prev_report := fun _ => 0, prev_mod := 0, prev_keys := [] }

def hid_boot_kbd_deactivate (k : Kbd) : Kbd :=
  { k.forget with active := false, report_proto := false, report := .zero }

/-! ## The keyboards -/

/-- The keyboards, what was injected and the last reports. -/
structure Kbds where
  devs : Fin 4 → Kbd
  injected : List Injected
  last : Fin 4 → Report

def Kbds.init : Kbds := ⟨fun _ => .zero, [], fun _ => .released⟩

namespace Kbds

variable (s : Kbds)

/-- A keyboard changes, scancodes are injected for it and its last report is `rep`. -/
def put (slot : Fin 4) (out : Kbd × List Injected) (rep : Report) : Kbds where
  devs := Function.update s.devs slot out.1
  injected := s.injected ++ out.2
  last := Function.update s.last slot rep

def hid_boot_kbd_find_free_slot : Option (Fin 4) := (List.finRange 4).find? fun i => !(s.devs i).active

/-- `hid_boot_kbd_add_device` behind the configuration; `format` is the format of the reports, if the driver takes it,
`started` the result of `async_in_init`. -/
def hid_boot_kbd_add_device (hc : ℕ) (dev : UInt32) (format : Option ReportInfo) (started : Bool) (tick : UInt32) :
    Kbds :=
  match s.hid_boot_kbd_find_free_slot with
  | none => s
  | some slot =>
    if started then
      s.put slot ({ Kbd.zero with
        active := true, hc := hc, dev := dev, report_proto := format.isSome, report := format.getD .zero
        last_report_tick := tick }, []) (s.last slot)
    else s.put slot (.zero, []) (s.last slot)

/-- A poll without a report. -/
def idle (slot : Fin 4) (tick : UInt32) : Kbds :=
  let k := s.devs slot
  if !k.active then s
  else if timedOut k tick then
    s.put slot (repeat_tick slot { k.forget with last_report_tick := tick } tick) .released
  else s.put slot (repeat_tick slot k tick) (s.last slot)

/-- The report that a poll takes in. -/
def processed (k : Kbd) (buf : Bytes) (actual : ℕ) : Option Report :=
  if actual = 0 then none
  else if k.report_proto then kbd_report_extract k.report buf actual
  else bootReport buf actual

def handle (slot : Fin 4) (k : Kbd) (buf : Bytes) (actual : ℕ) (tick : UInt32) : Kbd × List Injected :=
  if actual = 0 then (k, [])
  else if k.report_proto then process_report_report slot k buf actual tick
  else process_report_boot slot k buf actual tick

/-- A poll with a report. -/
def report (slot : Fin 4) (buf : Bytes) (actual : ℕ) (tick : UInt32) : Kbds :=
  let k := s.devs slot
  if !k.active then s
  else
    let out := handle slot k buf actual tick
    s.put slot ({ out.1 with last_report_tick := tick }, out.2) ((processed k buf actual).getD (s.last slot))

/-- The keyboards that `gone` selects are deactivated, by a failed transfer or a removal of the device or the
controller. -/
def drop (gone : Fin 4 → Kbd → Bool) : Kbds :=
  { s with
    devs := fun i => if (s.devs i).active ∧ gone i (s.devs i) then hid_boot_kbd_deactivate (s.devs i) else s.devs i
    last := fun i => if (s.devs i).active ∧ gone i (s.devs i) then .released else s.last i }

end Kbds

/-- A call of the driver. -/
inductive KbdOp where
  | add (hc : ℕ) (dev : UInt32) (format : Option ReportInfo) (started : Bool) (tick : UInt32)
  | idle (slot : Fin 4) (tick : UInt32)
  | report (slot : Fin 4) (buf : Bytes) (actual : ℕ) (tick : UInt32)
  | error (slot : Fin 4)
  | drop_device (hc : ℕ) (dev : UInt32)
  | drop_controller (hc : ℕ)

/-- The keyboards after a call. -/
def kbdStep (s : Kbds) : KbdOp → Kbds
  | .add hc dev format started tick => s.hid_boot_kbd_add_device hc dev format started tick
  | .idle slot tick => s.idle slot tick
  | .report slot buf actual tick => s.report slot buf actual tick
  | .error slot => s.drop fun i _ => i = slot
  | .drop_device hc dev => s.drop fun _ k => k.hc = hc ∧ k.dev = dev
  | .drop_controller hc => s.drop fun _ k => k.hc = hc

/-! ## Pairing -/

/-- The makes and breaks of a key, in order. -/
def flags (tr : List Injected) (slot : Fin 4) (key : Key) : List Bool :=
  (tr.filter fun e => e.slot = slot ∧ e.key = key).map Injected.make

/-- The key has a scan code. -/
def Mapped : Key → Prop
  | .usage u => (hid_usage_to_set1 u).isSome
  | .modifier _ => True

/-- The report says that the key is down. -/
def Report.down (r : Report) : Key → Bool
  | .usage u => r.keys.contains u
  | .modifier b => (r.mod &&& (1 <<< UInt8.ofNat b.val)) ≠ 0

/-- For each key, makes and breaks alternate, a make first, and the last is a make exactly if the key is down in the
last report. -/
def Paired (s : Kbds) : Prop :=
  ∀ slot key, Mapped key → Toggles false (flags s.injected slot key) ((s.last slot).down key)

/-- No key with a scan code is down. -/
def AllUp (r : Report) : Prop := ∀ key, Mapped key → r.down key = false

/-- A key that changes stands in the report once. -/
def SingleChanges (r r' : Report) : Prop :=
  ∀ u, Mapped (.usage u) → (u ∈ r.keys → u ∉ r'.keys → r.keys.count u = 1) ∧
    (u ∈ r'.keys → u ∉ r.keys → r'.keys.count u = 1)

/-- A repeated make is sent. -/
def repeatDue (k : Kbd) (tick : UInt32) : Prop :=
  k.repeat_active = true ∧ ¬ tick < k.repeat_next_tick ∧ stillDown k = true

/-- Keys that change are named once in their report, no key is repeated, and a keyboard is only reset or removed with
all keys up. -/
def KeepsPairs (s : Kbds) : KbdOp → Prop
  | .add .. => True
  | .idle slot tick => (s.devs slot).active →
      if timedOut (s.devs slot) tick then AllUp (s.last slot) else ¬ repeatDue (s.devs slot) tick
  | .report slot buf actual _ => (s.devs slot).active →
      ∀ r, Kbds.processed (s.devs slot) buf actual = some r → SingleChanges (s.last slot) r
  | .error slot => (s.devs slot).active → AllUp (s.last slot)
  | .drop_device hc dev => ∀ i, (s.devs i).active → (s.devs i).hc = hc → (s.devs i).dev = dev → AllUp (s.last i)
  | .drop_controller hc => ∀ i, (s.devs i).active → (s.devs i).hc = hc → AllUp (s.last i)

end Orion.Usb
