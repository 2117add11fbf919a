import KinOS.Gui.TextGrid

/-!
# What the terminal prints

| here | there |
| --- | --- |
| `winFillRectangle`, `winWriteChar`, `winMoveRec` | the messages of these names (`libs/kinos/app/gui/guisyscall.cpp`), as gui handles them (`servers/gui/gui.cpp:128-203`) |
| `Display`          | the window, `cursorx` and `cursory` (`servers/terminal/terminal.hpp:17-18`) |
| `calcCursorPos`, `drawCursor`, `scroll1` | `CalcCursorPos`, `DrawCursor`, `Scroll1` (`terminal.cpp:6-28`) |
| `print`, `printInGreen` | `Print`, `PrintInGreen` (`terminal.cpp:30-108`) |
| `Sheet`            | what is printed: a grid of 15 x 60 characters and a cursor |

`Scroll1` moves the cells of the rows, which begin at the column of pixels 8, and clears the last row from column 4 on: the
right half of its last cell stays. A character with ink there is seen again in the next line. `Within` are the texts that
do not print one into the last cell of all.
-/

namespace KinOS.Terminal

open Gui

/-! ## Window messages -/

def winFillRectangle (w : Window) (x y width height : Int32) (color : UInt32) : Option Window :=
  w.draw (fillRectangle ⟨x, y⟩ ⟨width, height⟩ (toColor color))

/-- The byte behind the character in the message is 0. -/
def winWriteChar (font : List UInt8) (w : Window) (x y : Int32) (color : UInt32) (c : UInt8) : Option Window :=
  w.draw (writeString font ⟨x, y⟩ ([c].takeWhile (· ≠ 0)) (toColor color))

def winMoveRec (w : Window) (x0 y0 rx0 ry0 rx1 ry1 : Int32) : Option Window := w.move ⟨x0, y0⟩ ⟨⟨rx0, ry0⟩, ⟨rx1, ry1⟩⟩

/-! ## The display -/

def kRows : Int32 := 15
def kColumns : Int32 := 60
def Marginx : Int32 := 4
def Marginy : Int32 := 24
def kCanvasWidth : Int32 := kColumns * 8 + 8
def kCanvasHeight : Int32 := kRows * 16 + 8
def kTopLeftMargin : Vec := ⟨4, 24⟩

structure Display where
  window : Window
  cursorx : Int32
  cursory : Int32

namespace Display

def calcCursorPos (d : Display) : Vec := kTopLeftMargin + ⟨4 + 8 * d.cursorx, 4 + 16 * d.cursory⟩

def drawCursor (d : Display) (visible : Bool) : Option Display := do
  let color := if visible then 0xffffff else 0
  let w ← winFillRectangle d.window d.calcCursorPos.x d.calcCursorPos.y 7 15 color
  return { d with window := w }

def scroll1 (d : Display) : Option Display := do
  let w ← winMoveRec d.window (Marginx + 4) (Marginy + 4) (Marginx + 4) (Marginy + 4 + 16) (8 * kColumns) (16 * (kRows - 1))
  let w ← winFillRectangle w 4 (24 + 4 + 16 * d.cursory) (8 * kColumns) 16 0
  return { d with window := w }

def newline (d : Display) : Option Display :=
  let d := { d with cursorx := 0 }
  if d.cursory < kRows - 1 then some { d with cursory := d.cursory + 1 } else d.scroll1

/-- `Print` and `PrintInGreen` of one character. -/
def printChar (font : List UInt8) (color : UInt32) (d : Display) (c : UInt8) : Option Display :=
  if c = 10 then d.newline
  else do
    let w ← winWriteChar font d.window d.calcCursorPos.x d.calcCursorPos.y color c
    let d := { d with window := w }
    if d.cursorx = kColumns - 1 then d.newline else some { d with cursorx := d.cursorx + 1 }

/-- The characters that are printed: `len` of them, or those in front of the terminator. -/
def chars (s : List UInt8) : Option Nat → List UInt8
  | some len => s.take len
  | none => s.takeWhile (· ≠ 0)

def printIn (font : List UInt8) (color : UInt32) (d : Display) (s : List UInt8) (len : Option Nat) : Option Display := do
  let d ← d.drawCursor false
  let d ← (chars s len).foldlM (printChar font color) d
  d.drawCursor true

def print (font : List UInt8) : Display → List UInt8 → Option Nat → Option Display := printIn font 0xffffff

def printInGreen (font : List UInt8) : Display → List UInt8 → Option Nat → Option Display := printIn font 0x29ff86

end Display

/-! ## The sheet -/

/-- 15 rows and 60 columns, and a cursor. -/
structure Sheet where
  grid : Grid
  row : Nat
  column : Nat

/-- What a character leaves in its cell. -/
def cell (color : PixelColor) (c : UInt8) : Option (UInt8 × PixelColor) := if c = 0 then none else some (c, color)

namespace Sheet

/-- To the start of the next row; on the last row, all rows go up and the last one is emptied. -/
def newline (s : Sheet) : Sheet :=
  if s.row < 14 then { s with row := s.row + 1, column := 0 }
  else { s with grid := (s.grid.scroll 0 14).erase 14 0 1 60, column := 0 }

def cursor (s : Sheet) : Nat × Nat := (s.row, s.column)

def putChar (color : PixelColor) (s : Sheet) (c : UInt8) : Sheet :=
  if c = 10 then s.newline
  else
    let s := { s with grid := s.grid.put s.row s.column (cell color c) }
    if s.column = 59 then s.newline else { s with column := s.column + 1 }

end Sheet

/-- The character has no ink in the right half of its cell. -/
def Narrow (font : List UInt8) (c : UInt8) : Prop := c = 0 ∨ ∀ dx dy, 4 ≤ dx → dx < 8 → dy < 16 →
    Picture.ink font c dx dy = false

/-- The row and the column behind a character. -/
def advance (q : Nat × Nat) (c : UInt8) : Nat × Nat := if c = 10 ∨ q.2 = 59 then (min (q.1 + 1) 14, 0) else (q.1, q.2 + 1)

/-- Of the characters that are printed from a row and a column on, those that come into the last cell of the last row are
narrow. -/
def Within (font : List UInt8) : Nat × Nat → List UInt8 → Prop
  | _, [] => True
  | q, c :: cs => (q = (14, 59) → c ≠ 10 → Narrow font c) ∧ Within font (advance q c) cs

def black : PixelColor := ⟨0, 0, 0⟩
def white : PixelColor := ⟨255, 255, 255⟩
def green : PixelColor := ⟨0x29, 0xff, 0x86⟩

/-- The window shows the grid, and the rows below the cursor are empty. -/
structure Drawn (font : List UInt8) (p : Picture) (d : Display) (s : Sheet) : Prop where
  renders : Grid.Renders font black 8 28 15 60 s.grid p
  row : d.cursory.toInt = s.row
  inside : s.row < 15
  below : ∀ r k, s.row < r → r < 15 → k < 60 → s.grid r k = none

/-- The cursor is an empty cell, a block in it if it is visible, and so are all cells behind it. -/
structure Reads (font : List UInt8) (visible : Bool) (d : Display) (s : Sheet) : Prop where
  shows : ∃ p, Drawn font p d s ∧
    d.window.Shows 496 276 (if visible then p.fill (8 + 8 * s.column) (28 + 16 * s.row) 7 15 white else p)
  column : d.cursorx.toInt = s.column
  inside : s.column < 60
  behind : ∀ k, s.column ≤ k → k < 60 → s.grid s.row k = none

/-- The right half of a cell shows nothing. -/
def HalfBlank (font : List UInt8) (o : Option (UInt8 × PixelColor)) : Prop :=
  ∀ dx dy, 4 ≤ dx → dx < 8 → dy < 16 → Grid.color font black o dx dy = black

theorem Narrow.halfBlank {font : List UInt8} {c : UInt8} (h : Narrow font c) (color : PixelColor) :
    HalfBlank font (cell color c) := by
  intro dx dy h4 h8 h16
  unfold cell
  by_cases h0 : c = 0
  · rw [if_pos h0]
    rfl
  · rw [if_neg h0]
    simp only [Grid.color, (h.resolve_left h0) dx dy h4 h8 h16, Bool.false_eq_true, if_false]

theorem calcCursorPos_toInt {d : Display} {r k : Nat} (hx : d.cursorx.toInt = k) (hy : d.cursory.toInt = r)
    (hk : k < 60) (hr : r < 15) :
    d.calcCursorPos.x.toInt = (8 + 8 * k : Nat) ∧ d.calcCursorPos.y.toInt = (28 + 16 * r : Nat) := by
  have h4 : (4 : Int32).toInt = 4 := rfl
  have h8 : (8 : Int32).toInt = 8 := rfl
  have h16 : (16 : Int32).toInt = 16 := rfl
  have hcx : (8 * d.cursorx).toInt = 8 * k := by
    rw [Int32.toInt_mul, h8, hx, Int.bmod_def]
    push_cast
    omega
  have hcy : (16 * d.cursory).toInt = 16 * r := by
    rw [Int32.toInt_mul, h16, hy, Int.bmod_def]
    push_cast
    omega
  have hmx : kTopLeftMargin.x.toInt = 4 := rfl
  have hmy : kTopLeftMargin.y.toInt = 24 := rfl
  have h1 := Int32.toInt_add_cases 4 (8 * d.cursorx)
  have h2 := Int32.toInt_add_cases 4 (16 * d.cursory)
  have h3 := Int32.toInt_add_cases kTopLeftMargin.x (4 + 8 * d.cursorx)
  have h5 := Int32.toInt_add_cases kTopLeftMargin.y (4 + 16 * d.cursory)
  simp only [Display.calcCursorPos, Vec.add_x, Vec.add_y]
  push_cast
  omega

/-- A character is written into an empty cell. -/
theorem winWriteChar_renders {font : List UInt8} {w : Window} {p : Picture} {g : Grid} {x y : Int32} {r k : Nat}
    (hs : w.Shows 496 276 p)
    (h : Grid.Renders font black 8 28 15 60 g p) (hx : x.toInt = (8 + 8 * k : Nat))
    (hy : y.toInt = (28 + 16 * r : Nat)) (hk : k < 60)
    (hr : r < 15) (hfree : g r k = none) (color : UInt32) (c : UInt8) : ∃ w' p', winWriteChar font w x y color c = some w' ∧
      w'.Shows 496 276 p' ∧ Grid.Renders font black 8 28 15 60 (g.put r k (cell (toColor color) c)) p' := by
  unfold winWriteChar cell
  by_cases h0 : c = 0
  · have hsame : g.put r k none = g := by
      funext r' k'
      simp only [Grid.put]
      split
      · next he => rw [he.1, he.2, hfree]
      · rfl
    have hnil : writeString font ⟨x, y⟩ ([(0 : UInt8)].takeWhile (· ≠ 0)) (toColor color) = [] := by simp [writeString]
    rw [if_pos h0, hsame, h0, hnil]
    exact ⟨w, p, rfl, hs, h⟩
  · have hone : writeString font ⟨x, y⟩ ([c].takeWhile (· ≠ 0))
      (toColor color) = writeAscii font ⟨x, y⟩ c (toColor color) := by
      have hpos : (⟨x, y⟩ : Vec) + ⟨8 * Int32.ofNat 0, 0⟩ = ⟨x, y⟩ := Vec.ext' (by simp) (by simp)
      simp only [ne_eq, List.takeWhile_cons, h0, not_false_eq_true, decide_true, if_true, List.takeWhile_nil,
        writeString, List.zipIdx_cons, List.zipIdx_nil, List.flatMap_cons, List.flatMap_nil, List.append_nil, hpos]
    obtain ⟨w', hw', hs'⟩ : ∃ w', w.draw (writeAscii font ⟨x, y⟩ c (toColor color)) = some w' ∧
        w'.Shows 496 276 (p.glyph font (8 + 8 * k) (28 + 16 * r) c (toColor color)) :=
      hs.glyph hx hy (by omega) (by omega) font c _
    rw [if_neg h0, hone]
    exact ⟨w', _, hw', hs', h.glyph hfree c _⟩

namespace Drawn

variable {font : List UInt8} {p : Picture} {d : Display} {s : Sheet}

theorem newline (h : Drawn font p d s) (hs : d.window.Shows 496 276 p) (hlast : s.row = 14 → HalfBlank font (s.grid 14 59)) :
    ∃ d', d.newline = some d' ∧ Reads font false d' s.newline := by
  have hin := h.inside
  have hy := h.row
  have h14 : (kRows - 1).toInt = 14 := rfl
  have hlt : d.cursory < kRows - 1 ↔ s.row < 14 := by
    rw [Int32.lt_iff_toInt_lt, h14, hy]
    omega
  unfold Display.newline Sheet.newline
  by_cases hrow : s.row < 14
  · simp only [hlt, if_pos hrow]
    have hone := Int32.toInt_add_cases d.cursory 1
    have h1 : (1 : Int32).toInt = 1 := rfl
    refine ⟨_, rfl, ⟨p, ⟨h.renders, ?_, ?_, fun r k hr => ?_⟩, hs⟩, rfl, (by decide : 0 < 60), fun k _ hk => ?_⟩
    · simp only
      push_cast
      omega
    · simp only
      omega
    · simp only at hr
      exact h.below r k (by omega)
    · exact h.below _ k (Nat.lt_succ_self _) (by simp only; omega) hk
  · obtain hrow : s.row = 14 := by omega
    have hlast := hlast hrow
    obtain ⟨w1, h1, hs1⟩ : ∃ w1, winMoveRec d.window (Marginx + 4) (Marginy + 4) (Marginx + 4) (Marginy + 4 + 16)
      (8 * kColumns)
        (16 * (kRows - 1)) = some w1 ∧ w1.Shows 496 276 (p.scroll 8 28 8 44 480 224) :=
      hs.scroll rfl rfl rfl rfl rfl rfl (by decide) (by decide) (by decide) (by decide)
    have hbottom : (24 + 4 + 16 * d.cursory).toInt = (252 : Nat) := by
      have hc : d.cursory = 14 := Int32.toInt_inj.1 (by rw [hy, hrow]; rfl)
      rw [hc]
      rfl
    obtain ⟨w2, h2, hs2⟩ : ∃ w2, winFillRectangle w1 4 (24 + 4 + 16 * d.cursory) (8 * kColumns) 16 0 = some w2 ∧
        w2.Shows 496 276 ((p.scroll 8 28 8 44 480 224).fill 4 252 480 16 black) :=
      hs1.fill rfl hbottom rfl rfl (by decide) (by decide) _
    have hren : Grid.Renders font black 8 28 15 60 (s.grid.scroll 0 14) (p.scroll 8 28 8 44 480 224) :=
      h.renders.scroll (by decide : 0 + 14 < 15) (Nat.le_refl 60)
    simp only [hlt, hrow, Nat.lt_irrefl, if_false, Display.scroll1, h1, h2, Option.bind_eq_bind, Option.bind_some]
    refine ⟨_, rfl, ⟨_, ⟨fun r k hr hk dx dy hdx hdy => ?_, hy.trans (by rw [hrow]), (by decide : 14 < 15),
      fun r k hr hr' => ?_⟩, hs2⟩, rfl, (by decide : 0 < 60), fun k _ hk => ?_⟩
    · have hold := hren r k hr hk dx dy hdx hdy
      simp only [Grid.erase]
      by_cases hr14 : r = 14
      · subst hr14
        have hcell : (14 ≤ 14 ∧ 14 < 14 + 1) ∧ 0 ≤ k ∧ k < 0 + 60 := by omega
        rw [if_pos hcell]
        split
        · rfl
        · -- the pixels that are not cleared
          obtain rfl : k = 59 := by omega
          rw [hold]
          exact hlast dx dy (by omega) hdx hdy
      · rw [if_neg (by omega), if_neg (by omega)]
        exact hold
    · simp only at hr
      omega
    · simp only [Grid.erase]
      rw [if_pos (by omega)]

end Drawn

namespace Reads

variable {font : List UInt8} {visible : Bool} {d : Display} {s : Sheet}

theorem hidden (h : Reads font false d s) : ∃ p, Drawn font p d s ∧ d.window.Shows 496 276 p := h.shows

theorem drawCursor (h : Reads font visible d s) (v : Bool) : ∃ d', d.drawCursor v = some d' ∧ Reads font v d' s := by
  obtain ⟨p, hp, hs⟩ := h.shows
  have hr := hp.inside
  have hk := h.inside
  obtain ⟨hx, hy⟩ := calcCursorPos_toInt h.column hp.row hk hr
  obtain ⟨w, hw, hs'⟩ : ∃ w, winFillRectangle d.window d.calcCursorPos.x d.calcCursorPos.y 7 15
    (if v then 0xffffff else 0) = some w ∧
      w.Shows 496 276 (Picture.fill (8 + 8 * s.column) (28 + 16 * s.row) 7 15 (toColor (if v then 0xffffff else 0))
        (if visible then p.fill (8 + 8 * s.column) (28 + 16 * s.row) 7 15 white else p)) :=
    hs.fill hx hy rfl rfl (by omega) (by omega) _
  refine ⟨{ d with window := w }, ?_, ⟨p, ⟨hp.renders, hp.row, hp.inside, hp.below⟩, hs'.congr fun px py _ _ => ?_⟩,
    h.column, hk, h.behind⟩
  · simp only [Display.drawCursor, hw, Option.bind_eq_bind, Option.bind_some]
    rfl
  · by_cases hin : (8 + 8 * s.column ≤ px ∧ px < 8 + 8 * s.column + 7) ∧ 28 + 16 * s.row ≤ py ∧ py < 28 + 16 * s.row + 15
    · rw [Picture.fill, if_pos hin]
      cases v with
      | true => rw [if_pos rfl, Picture.fill, if_pos hin]; rfl
      | false =>
        -- the cell of the cursor is empty
        have hcell := hp.renders s.row s.column hr hk (px - (8 + 8 * s.column)) (py - (28 + 16 * s.row)) (by omega)
          (by omega)
        rw [h.behind _ (Nat.le_refl _) hk] at hcell
        rw [Nat.add_sub_cancel' hin.1.1, Nat.add_sub_cancel' hin.2.1] at hcell
        exact hcell
    · have hout : ∀ b : Bool, (if b then p.fill (8 + 8 * s.column) (28 + 16 * s.row) 7 15 white else p) px py = p px py := by
        intro b
        cases b with
        | true => rw [if_pos rfl, Picture.fill, if_neg hin]
        | false => rfl
      rw [Picture.fill, if_neg hin, hout, hout]

theorem printChar (h : Reads font false d s) (color : UInt32) {c : UInt8}
    (hc : s.cursor = (14, 59) → c ≠ 10 → Narrow font c) :
    ∃ d', d.printChar font color c = some d' ∧ Reads font false d' (s.putChar (toColor color) c) := by
  obtain ⟨p, hp, hs⟩ := h.hidden
  have hr := hp.inside
  have hk := h.inside
  unfold Display.printChar Sheet.putChar
  by_cases hn : c = 10
  · rw [if_pos hn, if_pos hn]
    refine hp.newline hs fun hrow dx dy _ _ _ => ?_
    rw [← hrow, h.behind 59 (by omega) (by decide)]
    rfl
  obtain ⟨hx, hy⟩ := calcCursorPos_toInt h.column hp.row hk hr
  obtain ⟨w, p', hw, hs', hren⟩ := winWriteChar_renders hs hp.renders hx hy hk hr (h.behind _ (Nat.le_refl _) hk) color c
  have hlast : d.cursorx = kColumns - 1 ↔ s.column = 59 := by
    have h59 : (kColumns - 1).toInt = 59 := rfl
    rw [← Int32.toInt_inj, h59, h.column]
    omega
  have hdrawn : Drawn font p' { d with window := w }
    { s with grid := s.grid.put s.row s.column (cell (toColor color) c) } := by
    refine ⟨hren, hp.row, hr, fun r k hlt hr' hk' => ?_⟩
    simp only at hlt
    simp only [Grid.put]
    rw [if_neg (by omega)]
    exact hp.below r k hlt hr' hk'
  simp only [if_neg hn, hw, Option.bind_eq_bind, Option.bind_some, hlast]
  by_cases h59 : s.column = 59
  · rw [if_pos h59, if_pos h59]
    refine hdrawn.newline hs' fun hrow => ?_
    simp only at hrow
    simp only [Grid.put, hrow, h59]
    exact (hc (Prod.ext hrow h59) hn).halfBlank _
  · rw [if_neg h59, if_neg h59]
    have hone := Int32.toInt_add_cases d.cursorx 1
    have h1 : (1 : Int32).toInt = 1 := rfl
    have hcol := h.column
    refine ⟨_, rfl, ⟨p', ⟨hren, hp.row, hr, hdrawn.below⟩, hs'⟩, ?_, by simp only; omega, fun k hk' hk60 => ?_⟩
    · simp only
      push_cast
      omega
    · simp only at hk'
      simp only [Grid.put]
      rw [if_neg (by omega)]
      exact h.behind k (by omega) hk60

end Reads

theorem Sheet.putChar_cursor {s : Sheet} (hr : s.row < 15) (color : PixelColor) (c : UInt8) :
    (s.putChar color c).cursor = advance s.cursor c ∧ (s.putChar color c).row < 15 := by
  have hnew : ∀ t : Sheet, t.row = s.row → t.newline.cursor = (min (s.row + 1) 14, 0) ∧ t.newline.row < 15 := by
    intro t ht
    unfold newline
    split
    · exact ⟨Prod.ext (by simp only [cursor]; omega) rfl, by simp only; omega⟩
    · exact ⟨Prod.ext (by simp only [cursor]; omega) rfl, by simp only; omega⟩
  unfold putChar advance
  by_cases hn : c = 10
  · rw [if_pos hn, if_pos (.inl hn)]
    exact hnew s rfl
  · by_cases h59 : s.column = 59
    · have hor : c = 10 ∨ s.cursor.2 = 59 := .inr h59
      simp only [if_neg hn, if_pos hor, if_pos h59]
      exact hnew _ rfl
    · have hor : ¬ (c = 10 ∨ s.cursor.2 = 59) := fun h => h.elim hn h59
      simp only [if_neg hn, if_neg hor, if_neg h59]
      exact ⟨rfl, hr⟩

theorem within_append {font : List UInt8} {cs ds : List UInt8} : ∀ {q : Nat × Nat},
    Within font q (cs ++ ds) ↔ Within font q cs ∧ Within font (cs.foldl advance q) ds := by
  induction cs with
  | nil => exact ⟨fun h => ⟨trivial, h⟩, fun h => h.2⟩
  | cons c cs ih =>
    intro q
    rw [List.cons_append, Within, Within, ih, and_assoc]
    rfl

/-- What stands on one row does not come into the last cell. -/
theorem within_of_short {font : List UInt8} {cs : List UInt8} : ∀ {q : Nat × Nat}, q.2 + cs.length ≤ 59 →
    Within font q cs := by
  induction cs with
  | nil => exact fun _ => trivial
  | cons c cs ih =>
    intro q h
    rw [List.length_cons] at h
    refine ⟨fun hq => ?_, ih ?_⟩
    · rw [hq] at h
      simp only at h
      omega
    · unfold advance
      split
      · simp only
        omega
      · simp only
        omega

theorem Sheet.foldl_cursor (color : PixelColor) (cs : List UInt8) : ∀ {s : Sheet}, s.row < 15 →
    (cs.foldl (putChar color) s).cursor = cs.foldl advance s.cursor := by
  induction cs with
  | nil => exact fun _ => rfl
  | cons c cs ih =>
    intro s hr
    obtain ⟨hq, hr'⟩ := putChar_cursor hr color c
    rw [List.foldl_cons, List.foldl_cons, ih hr', hq]

namespace Reads

variable {font : List UInt8} {visible : Bool} {d : Display} {s : Sheet}

theorem row_lt (h : Reads font visible d s) : s.row < 15 := by
  obtain ⟨p, hp, _⟩ := h.shows
  exact hp.inside

theorem printChars (color : UInt32) {cs : List UInt8} : ∀ {d : Display} {s : Sheet}, Reads font false d s →
    Within font s.cursor cs →
    ∃ d', cs.foldlM (Display.printChar font color) d = some d' ∧
      Reads font false d' (cs.foldl (Sheet.putChar (toColor color)) s) := by
  induction cs with
  | nil => exact fun h _ => ⟨_, rfl, h⟩
  | cons c cs ih =>
    intro d s h hw
    obtain ⟨d1, h1, hr1⟩ := h.printChar color hw.1
    rw [List.foldlM_cons, h1]
    exact ih hr1 (by rw [(Sheet.putChar_cursor h.row_lt _ c).1]; exact hw.2)

/-- **Printing.** -/
theorem printIn (h : Reads font visible d s) (str : List UInt8) (len : Option Nat)
    (hw : Within font s.cursor (Display.chars str len))
    (color : UInt32) : ∃ d', d.printIn font color str len = some d' ∧
      Reads font true d' ((Display.chars str len).foldl (Sheet.putChar (toColor color)) s) := by
  obtain ⟨d1, h1, hr1⟩ := h.drawCursor false
  obtain ⟨d2, h2, hr2⟩ := hr1.printChars color hw
  obtain ⟨d3, h3, hr3⟩ := hr2.drawCursor true
  refine ⟨d3, ?_, hr3⟩
  simp only [Display.printIn, h1, h2, Option.bind_eq_bind, Option.bind_some]
  exact h3

end Reads

end KinOS.Terminal
