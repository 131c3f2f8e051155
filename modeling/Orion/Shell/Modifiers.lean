import Orion.Lib.Runs

/-!
# Modifier keys (`drivers/keyboard.c`)

The flags that `keyboard_handle_scancode` keeps about the keys that are held, next to the keys that the scancodes
themselves say are held. Whether the line editor calls `reset_modifiers` for a byte that reaches it is an input.
-/

namespace Orion.Shell

/-- The flags of the keyboard driver. -/
structure Modifiers where
  kbd_e0 : Bool
  shift_pressed : Bool
  alt_left_pressed : Bool
  alt_right_pressed : Bool
  ctrl_pressed : Bool
  capslock_on : Bool
  numlock_on : Bool
  deriving DecidableEq

/-- Ctrl and the locks are not reset. -/
def reset_modifiers (m : Modifiers) : Modifiers :=
  { m with shift_pressed := false, alt_left_pressed := false, alt_right_pressed := false, kbd_e0 := false }

def KBD_E0_PREFIX : UInt8 := 0xE0
def ALT_MAKE : UInt8 := 0x38
def ALT_BREAK : UInt8 := 0xB8
def LSHIFT_MAKE : UInt8 := 0x2A
def RSHIFT_MAKE : UInt8 := 0x36
def LSHIFT_BREAK : UInt8 := 0xAA
def RSHIFT_BREAK : UInt8 := 0xB6
def CAPSLOCK : UInt8 := 0x3A
def NUMLOCK_MAKE : UInt8 := 0x45
def CTRL_MAKE : UInt8 := 0x1D
def CTRL_BREAK : UInt8 := 0x9D

/-- The flags after a byte; `reset` tells whether the byte leads to a reset. -/
def keyboard_handle_scancode (m : Modifiers) (sc : UInt8) (reset : Bool) : Modifiers :=
  if sc = KBD_E0_PREFIX then { m with kbd_e0 := true }
  else if sc &&& 0x80 ≠ 0 then
    if m.kbd_e0 then { m with alt_right_pressed := m.alt_right_pressed && sc ≠ ALT_BREAK, kbd_e0 := false }
    else { m with
      alt_left_pressed := m.alt_left_pressed && sc ≠ ALT_BREAK
      shift_pressed := m.shift_pressed && !(sc = LSHIFT_BREAK || sc = RSHIFT_BREAK) }
  else if sc = ALT_MAKE then
    if m.kbd_e0 then { m with alt_right_pressed := true } else { m with alt_left_pressed := true }
  else if sc = LSHIFT_MAKE || sc = RSHIFT_MAKE then { m with shift_pressed := true }
  else if sc = CAPSLOCK then { m with capslock_on := !m.capslock_on }
  else if sc = NUMLOCK_MAKE then { m with numlock_on := !m.numlock_on }
  else if sc = CTRL_MAKE then { m with ctrl_pressed := true }
  else if sc = CTRL_BREAK then { m with ctrl_pressed := false }
  else if m.ctrl_pressed && sc = 0x12 then reset_modifiers { m with ctrl_pressed := false }
  -- every branch that follows a prefix ends with `kbd_e0 = 0`
  else { (if reset then reset_modifiers m else m) with kbd_e0 := false }

/-- A key is named by its make code and whether that has the prefix. -/
abbrev Key := Bool × UInt8

/-- The flags, the keys that are held, and whether the last byte was the prefix. -/
structure Keys where
  flags : Modifiers
  held : Key → Bool
  prefixed : Bool

def Keys.init (capslock_on numlock_on : Bool) : Keys where
  flags := ⟨false, false, false, false, false, capslock_on, numlock_on⟩
  held := fun _ => false
  prefixed := false

/-- The driver gets a byte, and the keys held follow it. -/
def keyStep (s : Keys) (a : UInt8 × Bool) : Keys where
  flags := keyboard_handle_scancode s.flags a.1 a.2
  held :=
    if a.1 = KBD_E0_PREFIX then s.held
    else if a.1 &&& 0x80 ≠ 0 then Function.update s.held (s.prefixed, a.1 - 0x80) false
    else Function.update s.held (s.prefixed, a.1) true
  prefixed := a.1 = KBD_E0_PREFIX

/-- A flag is set only while one of its keys is held, and the prefix is remembered for one byte. -/
structure Follows (s : Keys) : Prop where
  ctrl : s.flags.ctrl_pressed = true → s.held (false, CTRL_MAKE) = true ∨ s.held (true, CTRL_MAKE) = true
  alt_left : s.flags.alt_left_pressed = true → s.held (false, ALT_MAKE) = true
  alt_right : s.flags.alt_right_pressed = true → s.held (true, ALT_MAKE) = true
  shift : s.flags.shift_pressed = true → s.held (false, LSHIFT_MAKE) = true ∨ s.held (false, RSHIFT_MAKE) = true
  kbd_e0 : s.flags.kbd_e0 = s.prefixed

/-- No Ctrl key is released while `ctrl_pressed` is set, unless the other one is held, and none of the make codes that
are handled early follows a prefix. -/
def Tracked (s : Keys) (a : UInt8 × Bool) : Prop :=
  (a.1 = CTRL_BREAK → s.flags.ctrl_pressed = true → s.held (!s.flags.kbd_e0, CTRL_MAKE) = true) ∧
    (s.flags.kbd_e0 = true → a.1 ∉ [ALT_MAKE, LSHIFT_MAKE, RSHIFT_MAKE, CAPSLOCK, NUMLOCK_MAKE, CTRL_MAKE])

end Orion.Shell
