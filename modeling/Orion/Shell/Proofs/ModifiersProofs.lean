import Orion.Shell.Modifiers

/-!
# When the modifier flags follow the keys

Only the releases of Ctrl and the make codes that are handled before the prefix is looked at leave the flags behind the
keys.
-/

namespace Orion.Shell

open Lib

variable {s : Keys} {a : UInt8 × Bool}

attribute [local grind] KBD_E0_PREFIX ALT_MAKE ALT_BREAK LSHIFT_MAKE RSHIFT_MAKE LSHIFT_BREAK RSHIFT_BREAK CAPSLOCK
  NUMLOCK_MAKE CTRL_MAKE CTRL_BREAK reset_modifiers Tracked

theorem held_release (hne : a.1 ≠ KBD_E0_PREFIX) (hbit : a.1 &&& 0x80 ≠ 0) (q : Bool) (c : UInt8) :
    (keyStep s a).held (q, c) = (s.held (q, c) && !(q = s.prefixed && a.1 = c + 0x80)) := by
  have hkey : c = a.1 - 0x80 ↔ a.1 = c + 0x80 := by grind
  simp only [keyStep, if_neg hne, if_pos hbit, Function.update_apply, Prod.mk.injEq, hkey]
  grind

theorem held_press (hne : a.1 ≠ KBD_E0_PREFIX) (hbit : a.1 &&& 0x80 = 0) (q : Bool) (c : UInt8) :
    (keyStep s a).held (q, c) = (s.held (q, c) || (q = s.prefixed && a.1 = c)) := by
  simp only [keyStep, if_neg hne, if_neg (not_not.mpr hbit), Function.update_apply, Prod.mk.injEq]
  grind

theorem not_make (hbit : a.1 &&& 0x80 ≠ 0) :
    a.1 ∉ [ALT_MAKE, LSHIFT_MAKE, RSHIFT_MAKE, CAPSLOCK, NUMLOCK_MAKE, CTRL_MAKE] := by
  intro hmem
  simp only [List.mem_cons, List.not_mem_nil, or_false] at hmem
  rcases hmem with hc | hc | hc | hc | hc | hc
  all_goals
    rw [hc] at hbit
    exact hbit rfl

theorem ne_ctrl_break (hbit : a.1 &&& 0x80 = 0) : a.1 ≠ CTRL_BREAK := by
  intro hc
  rw [hc] at hbit
  cases hbit

/-- From a state in which the flags follow the keys, exactly the bytes that are tracked lead to such a state. -/
theorem follows_step (h : Follows s) : Follows (keyStep s a) ↔ Tracked s a := by
  have hflags : (keyStep s a).flags = keyboard_handle_scancode s.flags a.1 a.2 := rfl
  have hprefixed : (keyStep s a).prefixed = decide (a.1 = KBD_E0_PREFIX) := rfl
  obtain ⟨hctrl, hleft, hright, hshift, he0⟩ := h
  unfold keyboard_handle_scancode at hflags
  by_cases hne : a.1 = KBD_E0_PREFIX
  · have hheld : (keyStep s a).held = s.held := if_pos hne
    rw [if_pos hne] at hflags
    refine iff_of_true ?_ (by grind)
    constructor <;> grind
  rw [if_neg hne] at hflags
  by_cases hbit : a.1 &&& 0x80 = 0
  · have hheld := held_press (s := s) hne hbit
    have hbreak := ne_ctrl_break hbit
    rw [if_neg (not_not.mpr hbit)] at hflags
    constructor
    · rintro ⟨-, -, -, -, he0'⟩
      constructor <;> grind
    · intro htracked
      constructor <;> grind
  · have hheld := held_release (s := s) hne hbit
    have hmake := not_make hbit
    rw [if_pos hbit] at hflags
    constructor
    · rintro ⟨hctrl', -, -, -, -⟩
      constructor <;> grind
    · intro htracked
      constructor <;> grind

/-- The flags follow the keys in a run exactly if every byte of it is one that the driver tracks. -/
theorem flags_follow_keys_iff (capslock_on numlock_on : Bool) (bytes : List (UInt8 × Bool)) :
    Throughout keyStep Follows (Keys.init capslock_on numlock_on) bytes ↔
      EachStep keyStep Tracked (Keys.init capslock_on numlock_on) bytes := by
  have hinit : Follows (Keys.init capslock_on numlock_on) := ⟨nofun, nofun, nofun, nofun, rfl⟩
  exact throughout_iff_eachStep (fun _ h => h) (fun _ _ h ha => (follows_step h).mpr ha)
    (fun _ _ h h' => (follows_step h).mp h') hinit

/-- Ctrl is pressed and released, and the flag stays. -/
theorem ctrl_stays_pressed :
    (exec keyStep (Keys.init false false) [(CTRL_MAKE, false), (CTRL_BREAK, false)]).flags.ctrl_pressed = true ∧
      ¬Throughout keyStep Follows (Keys.init false false) [(CTRL_MAKE, false), (CTRL_BREAK, false)] := by
  refine ⟨by decide, fun hall => ?_⟩
  have hend := hall.2.2.ctrl (by decide)
  revert hend
  decide

end Orion.Shell
