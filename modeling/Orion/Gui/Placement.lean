import Mathlib.Tactic

/-!
# Where windows are placed (`src/cmds/gui.c`)

`window_create` takes position and size from a message or from the layout, and `clamp_window_to_work` moves the window
into the work area. The sums are those of 32-bit integers.
-/

namespace Orion.Gui

/-- The fields of `ui_layout_t` that `window_create` reads. -/
structure Layout where
  work_x : Int32
  work_y : Int32
  work_w : Int32
  work_h : Int32
  win_min_w : Int32
  win_min_h : Int32
  default_win_w : Int32
  default_win_h : Int32
  margin : Int32
  icon_label_w : Int32

/-- Position and size along one axis. -/
structure Span where
  pos : Int32
  len : Int32
deriving DecidableEq

/-- `clamp_window_to_work` along one axis. -/
def clampSpan (area : Span) (min_len : Int32) (s : Span) : Span :=
  let min_len := if min_len > area.len then area.len else min_len
  let len := if s.len > area.len then area.len else s.len
  let len := if len < min_len then min_len else len
  let pos := if s.pos < area.pos then area.pos else s.pos
  let pos := if pos + len > area.pos + area.len then area.pos + area.len - len else pos
  ⟨if pos < area.pos then area.pos else pos, len⟩

def Layout.columns (ui : Layout) : Span := ⟨ui.work_x, ui.work_w⟩

def Layout.rows (ui : Layout) : Span := ⟨ui.work_y, ui.work_h⟩

/-- A message `GUI_MSG_CREATE`: position and packed size. -/
structure Create where
  a : Int32
  b : Int32
  c : Int32

/-- Width and height in `handle_gui_message`. -/
def Create.size (msg : Create) : Int32 × Int32 :=
  if msg.c > 0 then
    let w := (msg.c >>> 16) &&& 0xffff
    let h := msg.c &&& 0xffff
    (if w ≤ 0 then -1 else w, if h ≤ 0 then -1 else h)
  else (-1, -1)

/-- The spans that `window_create` asks for. -/
def place (ui : Layout) (next_cascade : Int32) (msg : Create) : Span × Span :=
  let w := if msg.size.1 > 0 then msg.size.1 else ui.default_win_w
  let h := if msg.size.2 > 0 then msg.size.2 else ui.default_win_h
  if msg.a < 0 ∨ msg.b < 0 then
    let base_x := ui.margin + ui.icon_label_w + 12
    let base_x := if base_x + w > ui.work_w - ui.margin then ui.margin else base_x
    (⟨base_x + next_cascade, w⟩, ⟨ui.margin + next_cascade, h⟩)
  else (⟨msg.a, w⟩, ⟨msg.b, h⟩)

/-- Place and size of a new window, after clamping. -/
def window_create (ui : Layout) (next_cascade : Int32) (msg : Create) : Span × Span :=
  let asked := place ui next_cascade msg
  (clampSpan ui.columns ui.win_min_w asked.1, clampSpan ui.rows ui.win_min_h asked.2)

/-- A part of the screen that is not empty. -/
structure Span.OnScreen (area : Span) : Prop where
  pos : 0 ≤ area.pos.toInt
  len : 0 < area.len.toInt
  last : area.pos.toInt + area.len.toInt < 2 ^ 31

/-- The span is not empty and lies inside the area. -/
def Span.Inside (area s : Span) : Prop :=
  0 < s.len.toInt ∧ area.pos.toInt ≤ s.pos.toInt ∧ s.pos.toInt + s.len.toInt ≤ area.pos.toInt + area.len.toInt

/-- The length is positive, and the end of the span is no more than 2^31 - 1. -/
def Span.Fits (area : Span) (min_len : Int32) (s : Span) : Prop :=
  0 < max s.len.toInt min_len.toInt ∧
    max s.pos.toInt area.pos.toInt + min area.len.toInt (max s.len.toInt min_len.toInt) < 2 ^ 31

theorem toInt_add_of_nonneg {x y : Int32} (hx : 0 ≤ x.toInt) (hy : 0 ≤ y.toInt) : (x + y).toInt =
    if x.toInt + y.toInt < 2 ^ 31 then x.toInt + y.toInt else x.toInt + y.toInt - 2 ^ 32 := by
  have hx' := x.toInt_lt
  have hy' := y.toInt_lt
  rw [Int32.toInt_add, Int.bmod_def]
  split <;> split <;> omega

theorem clampSpan_len (area : Span) (min_len : Int32) (s : Span) :
    (clampSpan area min_len s).len.toInt = min area.len.toInt (max s.len.toInt min_len.toInt) := by
  simp only [clampSpan, gt_iff_lt, Int32.lt_iff_toInt_lt]
  split_ifs <;> omega

/-- The sum of the position and the length decides: where it is too large for 32 bits, it is negative, and the window
stays where it is. -/
theorem clampSpan_inside_iff {area : Span} (harea : area.OnScreen) (min_len : Int32) (s : Span) :
    area.Inside (clampSpan area min_len s) ↔ area.Fits min_len s := by
  obtain ⟨hpos, harealen, hlast⟩ := harea
  have hlen := clampSpan_len area min_len s
  have hbound := s.pos.toInt_lt
  unfold Span.Inside Span.Fits
  by_cases hpositive : 0 < max s.len.toInt min_len.toInt
  swap
  · omega
  generalize hp : (if s.pos < area.pos then area.pos else s.pos) = p
  have hmax : p.toInt = max s.pos.toInt area.pos.toInt := by
    rw [← hp]
    split <;> rename_i h <;> rw [Int32.lt_iff_toInt_lt] at h <;> omega
  generalize hl : (clampSpan area min_len s).len = l at hlen ⊢
  have hmoved : (clampSpan area min_len s).pos =
      let q := if p + l > area.pos + area.len then area.pos + area.len - l else p
      if q < area.pos then area.pos else q := by
    rw [← hp, ← hl]
    rfl
  have hend := toInt_add_of_nonneg hpos harealen.le
  have hsum : (p + l).toInt = _ := toInt_add_of_nonneg (by omega) (by omega)
  have hback : (area.pos + area.len - l).toInt = area.pos.toInt + area.len.toInt - l.toInt := by
    rw [Int32.toInt_sub, Int.bmod_def]
    split at hend <;> split <;> omega
  rw [hmoved]
  simp only [gt_iff_lt, Int32.lt_iff_toInt_lt, apply_ite Int32.toInt, hback]
  split at hend <;> split at hsum <;> split_ifs <;> omega

/-- For a layout with a work area on the screen the window lies in it exactly if the sums fit into 32 bits. -/
theorem window_inside_iff {ui : Layout} (hcolumns : ui.columns.OnScreen) (hrows : ui.rows.OnScreen)
    (next_cascade : Int32) (msg : Create) :
    (ui.columns.Inside (window_create ui next_cascade msg).1 ∧ ui.rows.Inside (window_create ui next_cascade msg).2) ↔
      ui.columns.Fits ui.win_min_w (place ui next_cascade msg).1 ∧
        ui.rows.Fits ui.win_min_h (place ui next_cascade msg).2 := by
  unfold window_create
  rw [clampSpan_inside_iff hcolumns, clampSpan_inside_iff hrows]

/-- A screen of 1024 by 768 pixels with a font of 8 by 16. -/
def xga : Layout := ⟨0, 0, 1024, 742, 128, 128, 336, 226, 12, 96⟩

theorem xga_onScreen : xga.columns.OnScreen ∧ xga.rows.OnScreen :=
  ⟨⟨by decide, by decide, by decide⟩, by decide, by decide, by decide⟩

theorem window_inside_corner : xga.columns.Inside (window_create xga 0 ⟨5000, 5000, 0x00640032⟩).1 ∧
    xga.rows.Inside (window_create xga 0 ⟨5000, 5000, 0x00640032⟩).2 :=
  (window_inside_iff xga_onScreen.1 xga_onScreen.2 0 ⟨5000, 5000, 0x00640032⟩).mpr (by unfold Span.Fits; decide)

theorem window_left_outside : (window_create xga 0 ⟨0x7FFFFFFF, 0, 0x00640032⟩).1 = ⟨0x7FFFFFFF, 128⟩ ∧
    ¬ xga.columns.Inside (window_create xga 0 ⟨0x7FFFFFFF, 0, 0x00640032⟩).1 := by
  unfold Span.Inside
  decide

end Orion.Gui
