import KinOS.Gui.TextGrid

/-!
# The console of gui

| here | there |
| --- | --- |
| `Console`, `putString`, `newline`, `clear`, `refresh` | `Console` (`servers/gui/console.hpp:8-34`, `console.cpp:17-81`) |
| `start`        | `InitializeConsole`, then `SetWindow` (`layer.cpp:226-228`) |
| `Screen`       | the console by its picture, without the window |
| `Text`         | what the console is for: a grid of 34 x 85 characters and a cursor |

The console is drawn on a window. `Screen` does with a picture what `Console` does with the window: this is so in every run
(`Follows`). A picture shows a text as long as each cell is empty when it is written. `Newline` keeps the cells behind the
cursor empty. `Clear` moves the cursor up and empties the rows from 14 to 32 only, so that what stands in the last row stays
there (`clear_leaves`).
-/

namespace KinOS.Gui

open TransitionSystem

/-- The font, `fg_color_` and `bg_color_`. -/
structure Style where
  font : List UInt8
  fgColor : PixelColor
  bgColor : PixelColor

structure Console where
  window : Window
  cursorRow : Int32
  cursorColumn : Int32

namespace Console

def kRows : Int32 := 34
def kColumns : Int32 := 85
def kTitleRows : Int32 := 14

def newline (st : Style) (k : Console) : Option Console :=
  let k := { k with cursorColumn := 2 }
  if k.cursorRow < kRows - 1 then some { k with cursorRow := k.cursorRow + 1 }
  else do
    let moveSrc : Rectangle := ⟨⟨0, 16 * (kTitleRows + 1)⟩, ⟨8 * kColumns, 16 * (kRows - kTitleRows - 1)⟩⟩
    let w ← k.window.move ⟨0, 16 * kTitleRows⟩ moveSrc
    let w ← w.draw (fillRectangle ⟨0, 16 * (kRows - 1)⟩ ⟨8 * kColumns, 16⟩ st.bgColor)
    return { k with window := w }

/-- One turn of the loop of `PutString`. -/
def putChar (st : Style) (k : Console) (c : UInt8) : Option Console :=
  if c = 10 then k.newline st
  else if k.cursorColumn < kColumns - 1 then do
    let w ← k.window.draw (writeAscii st.font ⟨8 * k.cursorColumn, 16 * k.cursorRow⟩ c st.fgColor)
    return { k with window := w, cursorColumn := k.cursorColumn + 1 }
  else some k

def putString (st : Style) (k : Console) : List UInt8 → Option Console
  | [] => some k
  | c :: s => if c = 0 then some k else do (← k.putChar st c).putString st s

def clear (st : Style) (k : Console) : Option Console := do
  let k := { k with cursorColumn := 2, cursorRow := kTitleRows }
  let w ← k.window.draw (fillRectangle ⟨0, 16 * kTitleRows⟩ ⟨8 * kColumns, 16 * (kRows - kTitleRows - 1)⟩ st.bgColor)
  return { k with window := w }

def refresh (st : Style) (k : Console) : Option Console := do
  let w ← k.window.draw (fillRectangle ⟨0, 0⟩ ⟨8 * kColumns, 16 * kRows⟩ st.bgColor)
  return { k with window := w }

def start (st : Style) : Option Console := do
  let w ← Window.new (kColumns * 8) (kRows * 16)
  refresh st ⟨w, 2, 2⟩

end Console

inductive Call
  | putString (s : List UInt8)
  | clear

def Console.next (st : Style) (k : Console) : Call → Option Console
  | .putString s => k.putString st s
  | .clear => k.clear st

/-! ## The picture -/

/-- The console, by its picture. -/
structure Screen where
  picture : Picture
  row : Nat
  column : Nat

namespace Screen

def newline (st : Style) (s : Screen) : Screen :=
  if s.row < 33 then { s with row := s.row + 1, column := 2 }
  else { s with picture := (s.picture.scroll 0 224 0 240 680 304).fill 0 528 680 16 st.bgColor, column := 2 }

def putChar (st : Style) (s : Screen) (c : UInt8) : Screen :=
  if c = 10 then s.newline st
  else if s.column < 84 then
    { s with picture := s.picture.glyph st.font (8 * s.column) (16 * s.row) c st.fgColor, column := s.column + 1 }
  else s

def clear (st : Style) (s : Screen) : Screen := ⟨s.picture.fill 0 224 680 304 st.bgColor, 14, 2⟩

def next (st : Style) (s : Screen) : Call → Screen
  | .putString cs => (cs.takeWhile (· ≠ 0)).foldl (putChar st) s
  | .clear => s.clear st

end Screen

/-- The console and its picture. -/
structure Follows (k : Console) (s : Screen) : Prop where
  shows : k.window.Shows 680 544 s.picture
  row : k.cursorRow.toInt = s.row
  column : k.cursorColumn.toInt = s.column
  inside : s.row < 34 ∧ s.column < 85

namespace Follows

variable {k : Console} {s : Screen}

theorem newline (h : Follows k s) (st : Style) : ∃ k', k.newline st = some k' ∧ Follows k' (s.newline st) := by
  obtain ⟨hrow, hcol⟩ := h.inside
  have hr := h.row
  unfold Console.newline Screen.newline
  have hlt : k.cursorRow < Console.kRows - 1 ↔ s.row < 33 := by
    have h33 : (Console.kRows - 1).toInt = 33 := rfl
    rw [Int32.lt_iff_toInt_lt, h33]
    omega
  by_cases hlast : s.row < 33
  · simp only [hlt, if_pos hlast]
    have hone := Int32.toInt_add_cases k.cursorRow 1
    have h1 : (1 : Int32).toInt = 1 := rfl
    refine ⟨_, rfl, h.shows, ?_, rfl, by simp only; omega⟩
    simp only
    push_cast
    omega
  · simp only [hlt, if_neg hlast]
    obtain ⟨w1, h1, hs1⟩ : ∃ w1, k.window.move ⟨0, 16 * Console.kTitleRows⟩
        ⟨⟨0, 16 * (Console.kTitleRows + 1)⟩, ⟨8 * Console.kColumns, 16 * (Console.kRows - Console.kTitleRows - 1)⟩⟩ =
          some w1 ∧ w1.Shows 680 544 (s.picture.scroll 0 224 0 240 680 304) :=
      h.shows.scroll rfl rfl rfl rfl rfl rfl (by decide) (by decide) (by decide) (by decide)
    obtain ⟨w2, h2, hs2⟩ : ∃ w2,
      w1.draw (fillRectangle ⟨0, 16 * (Console.kRows - 1)⟩ ⟨8 * Console.kColumns, 16⟩ st.bgColor) = some w2 ∧
        w2.Shows 680 544 ((s.picture.scroll 0 224 0 240 680 304).fill 0 528 680 16 st.bgColor) :=
      hs1.fill rfl rfl rfl rfl (by decide) (by decide) _
    simp only [h1, Option.bind_eq_bind, Option.bind_some, h2]
    exact ⟨_, rfl, hs2, h.row, rfl, hrow, (by decide : 2 < 85)⟩

/-- The cursor in pixels. -/
theorem cursor (h : Follows k s) : (8 * k.cursorColumn).toInt = (8 * s.column : Nat) ∧
    (16 * k.cursorRow).toInt = (16 * s.row : Nat) := by
  obtain ⟨hrow, hcol⟩ := h.inside
  have hr := h.row
  have hc := h.column
  have h8 : (8 : Int32).toInt = 8 := rfl
  have h16 : (16 : Int32).toInt = 16 := rfl
  rw [Int32.toInt_mul, Int32.toInt_mul, h8, h16, hr, hc, Int.bmod_def, Int.bmod_def]
  push_cast
  omega

theorem putChar (h : Follows k s) (st : Style) (c : UInt8) : ∃ k', k.putChar st c = some k' ∧
    Follows k' (s.putChar st c) := by
  obtain ⟨hrow, hcol⟩ := h.inside
  have hc := h.column
  unfold Console.putChar Screen.putChar
  by_cases hn : c = 10
  · simp only [if_pos hn]
    exact h.newline st
  have hlt : k.cursorColumn < Console.kColumns - 1 ↔ s.column < 84 := by
    have h84 : (Console.kColumns - 1).toInt = 84 := rfl
    rw [Int32.lt_iff_toInt_lt, h84]
    omega
  by_cases hfree : s.column < 84
  · obtain ⟨hx, hy⟩ := h.cursor
    obtain ⟨w, hw, hs⟩ : ∃ w, k.window.draw (writeAscii st.font ⟨8 * k.cursorColumn, 16 * k.cursorRow⟩ c st.fgColor) =
      some w ∧
        w.Shows 680 544 (s.picture.glyph st.font (8 * s.column) (16 * s.row) c st.fgColor) :=
      h.shows.glyph hx hy (by omega) (by omega) _ _ _
    simp only [if_neg hn, hlt, if_pos hfree, hw, Option.bind_eq_bind, Option.bind_some]
    have hone := Int32.toInt_add_cases k.cursorColumn 1
    have h1 : (1 : Int32).toInt = 1 := rfl
    refine ⟨_, rfl, hs, h.row, ?_, hrow, by simp only; omega⟩
    simp only
    push_cast
    omega
  · simp only [if_neg hn, hlt, if_neg hfree]
    exact ⟨k, rfl, h⟩

theorem putString (h : Follows k s) (st : Style) (cs : List UInt8) :
    ∃ k', k.putString st cs = some k' ∧ Follows k' ((cs.takeWhile (· ≠ 0)).foldl (Screen.putChar st) s) := by
  induction cs generalizing k s with
  | nil => exact ⟨k, rfl, h⟩
  | cons c cs ih =>
    unfold Console.putString
    by_cases h0 : c = 0
    · simp only [h0, if_true, List.takeWhile_cons]
      exact ⟨k, rfl, h⟩
    · obtain ⟨k1, h1, hf1⟩ := h.putChar st c
      simp only [h1, Option.bind_eq_bind, Option.bind_some, List.takeWhile_cons, ne_eq, h0, not_false_eq_true,
        decide_true, if_true, List.foldl_cons]
      exact ih hf1

theorem clear (h : Follows k s) (st : Style) : ∃ k', k.clear st = some k' ∧ Follows k' (s.clear st) := by
  obtain ⟨w, hw, hs⟩ : ∃ w, k.window.draw (fillRectangle ⟨0, 16 * Console.kTitleRows⟩
      ⟨8 * Console.kColumns, 16 * (Console.kRows - Console.kTitleRows - 1)⟩ st.bgColor) = some w ∧
        w.Shows 680 544 (s.picture.fill 0 224 680 304 st.bgColor) :=
    h.shows.fill rfl rfl rfl rfl (by decide) (by decide) _
  unfold Console.clear
  simp only [hw, Option.bind_eq_bind, Option.bind_some]
  exact ⟨_, rfl, hs, rfl, rfl, (by decide : 14 < 34), (by decide : 2 < 85)⟩

/-- **Step lemma.** No call fails, and the picture follows. -/
theorem next (h : Follows k s) (st : Style) (c : Call) : ∃ k', k.next st c = some k' ∧ Follows k' (s.next st c) := by
  cases c with
  | putString cs => exact h.putString st cs
  | clear => exact h.clear st

end Follows

/-- An empty console. -/
theorem Console.start_follows (st : Style) : ∃ k, Console.start st = some k ∧ Follows k ⟨fun _ _ => st.bgColor, 2, 2⟩ := by
  obtain ⟨w, hw⟩ : ∃ w, Window.new (kColumns * 8) (kRows * 16) = some w := ⟨_, rfl⟩
  have hblank : w.Shows 680 544 fun _ _ => ⟨0, 0, 0⟩ := by
    obtain ⟨⟨hx, hy⟩, hdata, -⟩ := Window.new_eq hw
    have hx' : w.width.toInt = 680 := by rw [hx]; rfl
    have hy' : w.height.toInt = 544 := by rw [hy]; rfl
    have hb : w.Buffered := by
      rw [Window.Buffered, hx', hy']
      decide
    refine ⟨hx', hy', hb, fun x y hxx hyy => ?_⟩
    have h1 := Int32.toInt_ofNat_of_lt (by omega : x < 2 ^ 31)
    have h2 := Int32.toInt_ofNat_of_lt (by omega : y < 2 ^ 31)
    have hpix := (Window.new_agree hw).2 hb ⟨Int32.ofNat x, Int32.ofNat y⟩
      (Window.inside_toInt.2 (by simp only [h1, h2]; omega))
    rwa [Window.shadowColor, hdata, h1, h2] at hpix
  obtain ⟨w1, h1, hs⟩ : ∃ w1, w.draw (fillRectangle ⟨0, 0⟩ ⟨8 * kColumns, 16 * kRows⟩ st.bgColor) = some w1 ∧
      w1.Shows 680 544 (Picture.fill 0 0 680 544 st.bgColor fun _ _ => ⟨0, 0, 0⟩) :=
    hblank.fill rfl rfl rfl rfl (by decide) (by decide) _
  refine ⟨⟨w1, 2, 2⟩, ?_, hs.congr fun x y hx hy => ?_, rfl, rfl, (by decide : 2 < 34), (by decide : 2 < 85)⟩
  · simp only [start, refresh, hw, h1, Option.bind_eq_bind, Option.bind_some]
    rfl
  · rw [Picture.fill, if_pos ⟨⟨Nat.zero_le x, by omega⟩, Nat.zero_le y, by omega⟩]

/-! ## The text -/

/-- 34 rows and 85 columns, and a cursor. -/
structure Text where
  grid : Grid
  row : Nat
  column : Nat

namespace Text

/-- To column 2 of the next row; on the last row, the rows from 15 on go up and the last row is emptied. -/
def newline (t : Text) : Text :=
  if t.row < 33 then { t with row := t.row + 1, column := 2 }
  else { t with grid := (t.grid.scroll 14 19).erase 33 0 1 85, column := 2 }

/-- Characters past column 83 are left out. -/
def putChar (st : Style) (t : Text) (c : UInt8) : Text :=
  if c = 10 then t.newline
  else if t.column < 84 then { t with grid := t.grid.put t.row t.column (some (c, st.fgColor)), column := t.column + 1 }
  else t

/-- All rows from 14 on are emptied. -/
def clear (t : Text) : Text := ⟨t.grid.erase 14 0 20 85, 14, 2⟩

def next (st : Style) (t : Text) : Call → Text
  | .putString cs => (cs.takeWhile (· ≠ 0)).foldl (putChar st) t
  | .clear => t.clear

def start : Text := ⟨fun _ _ => none, 2, 2⟩

end Text

/-- The picture shows the text, and the cells behind the cursor are empty. -/
structure Typed (st : Style) (s : Screen) (t : Text) : Prop where
  renders : Grid.Renders st.font st.bgColor 0 0 34 85 t.grid s.picture
  row : s.row = t.row
  column : s.column = t.column
  inside : t.row < 34 ∧ t.column < 85
  free : ∀ r k, r < 34 → k < 85 → t.row < r ∨ t.row = r ∧ t.column ≤ k → t.grid r k = none

/-- The last row shows nothing. -/
def Screen.LastRowBlank (st : Style) (s : Screen) : Prop := ∀ x y, x < 680 → 528 ≤ y → y < 544 → s.picture x y = st.bgColor

namespace Typed

variable {st : Style} {s : Screen} {t : Text}

theorem newline (h : Typed st s t) : Typed st (s.newline st) t.newline := by
  obtain ⟨hrow, hcol⟩ := h.inside
  unfold Screen.newline Text.newline
  rw [h.row]
  by_cases hlast : t.row < 33
  · rw [if_pos hlast, if_pos hlast]
    refine ⟨h.renders, rfl, rfl, by simp only; omega, fun r k hr hk hlt => h.free r k hr hk ?_⟩
    simp only at hlt
    omega
  · rw [if_neg hlast, if_neg hlast]
    have hscroll := (h.renders.scroll (by decide : 14 + 19 < 34) (Nat.le_refl 85)).fill 33 0 1 85
    refine ⟨hscroll, rfl, rfl, ⟨hrow, (by decide : 2 < 85)⟩, fun r k hr hk hlt => ?_⟩
    simp only at hlt
    simp only [Grid.erase]
    rw [if_pos (by omega)]

theorem putChar (h : Typed st s t) (c : UInt8) : Typed st (s.putChar st c) (t.putChar st c) := by
  obtain ⟨hrow, hcol⟩ := h.inside
  unfold Screen.putChar Text.putChar
  by_cases hn : c = 10
  · rw [if_pos hn, if_pos hn]
    exact h.newline
  rw [if_neg hn, if_neg hn, h.column, h.row]
  by_cases hfit : t.column < 84
  · rw [if_pos hfit, if_pos hfit]
    have hg := h.renders.glyph (h.free t.row t.column hrow hcol (.inr ⟨rfl, Nat.le_refl _⟩)) c st.fgColor
    rw [Nat.zero_add, Nat.zero_add] at hg
    refine ⟨hg, rfl, rfl, ⟨hrow, by simp only; omega⟩, fun r k hr hk hlt => ?_⟩
    simp only at hlt
    simp only [Grid.put]
    rw [if_neg (by omega)]
    exact h.free r k hr hk (by omega)
  · rw [if_neg hfit, if_neg hfit]
    exact h

theorem putString (h : Typed st s t) (cs : List UInt8) : Typed st (cs.foldl (Screen.putChar st) s)
    (cs.foldl (Text.putChar st) t) := by
  induction cs generalizing s t with
  | nil => exact h
  | cons c cs ih => exact ih (h.putChar c)

/-- After `Clear` the picture shows the text exactly if nothing stood in the last row. -/
theorem clear_renders (h : Typed st s t) :
    Grid.Renders st.font st.bgColor 0 0 34 85 t.clear.grid (s.clear st).picture ↔ s.LastRowBlank st := by
  have hfill := h.renders.fill 14 0 19 85
  constructor
  · intro hc x y hx hy hy'
    have hpix := Grid.renders_iff.1 hc x y hx hy'
    simp only [Screen.clear, Picture.fill, Grid.picture, Text.clear, Grid.erase] at hpix
    rw [if_neg (by omega), if_pos (by omega)] at hpix
    exact hpix
  · intro hb r k hr hk dx dy hdx hdy
    by_cases hlast : r = 33
    · subst hlast
      simp only [Screen.clear, Picture.fill, Text.clear, Grid.erase]
      rw [if_neg (by omega), if_pos (by omega), hb _ _ (by omega) (by omega) (by omega)]
      rfl
    · have hcell := hfill r k hr hk dx dy hdx hdy
      have hsame : t.clear.grid r k = t.grid.erase 14 0 19 85 r k := by
        simp only [Text.clear, Grid.erase]
        by_cases hin : 14 ≤ r
        · rw [if_pos (by omega), if_pos (by omega)]
        · rw [if_neg (by omega), if_neg (by omega)]
      rw [hsame, ← hcell]
      rfl

theorem clear (h : Typed st s t) (hb : s.LastRowBlank st) : Typed st (s.clear st) t.clear := by
  refine ⟨h.clear_renders.2 hb, rfl, rfl, ⟨(by decide : 14 < 34), (by decide : 2 < 85)⟩, fun r k hr hk hlt => ?_⟩
  simp only [Text.clear] at hlt
  simp only [Text.clear, Grid.erase]
  rw [if_pos (by omega)]

/-- **Step lemma.** -/
theorem next (h : Typed st s t) {c : Call} (hc : c = .clear → s.LastRowBlank st) : Typed st (s.next st c) (t.next st c) := by
  cases c with
  | putString cs => exact h.putString _
  | clear => exact h.clear (hc rfl)

end Typed

/-! ## Runs -/

namespace Console

/-- A call, on the console and on the text. -/
def step (st : Style) (x : Console × Text) (c : Call) : Option (Console × Text) := (x.1.next st c).map fun k =>
    (k, x.2.next st c)

/-- The shadow buffer has the pixels of the text, and the cursor is where it should be, inside the grid. -/
structure ShowsText (st : Style) (x : Console × Text) : Prop where
  shows : x.1.window.Shows 680 544 (x.2.grid.picture st.font st.bgColor)
  row : x.1.cursorRow.toInt = x.2.row
  column : x.1.cursorColumn.toInt = x.2.column
  inside : x.2.row < 34 ∧ x.2.column < 85

/-- `Clear` is called only when all pixels of the last row have the background colour. -/
def ClearsBlank (st : Style) (x : Console × Text) (c : Call) : Prop :=
  c = .clear → ∀ x' y : Nat, x' < 680 → 528 ≤ y → y < 544 → x.1.window.shadowBuffer.colorAt x' y = some st.bgColor

variable {st : Style} {k k' : Console} {t : Text} {c : Call}

theorem lastRowBlank_iff {s : Screen} (h : Follows k s) : s.LastRowBlank st ↔
    ∀ x y : Nat, x < 680 → 528 ≤ y → y < 544 → k.window.shadowBuffer.colorAt x y = some st.bgColor := by
  refine forall₂_congr fun x y => forall_congr' fun hx => forall_congr' fun _ => forall_congr' fun hy => ?_
  rw [h.shows.pixel x y hx hy, Option.some.injEq]

theorem showsText_of_typed {s : Screen} (h : Follows k s) (ht : Typed st s t) : ShowsText st (k, t) where
  shows := h.shows.congr fun x y hx hy => (Grid.renders_iff.1 ht.renders x y hx hy).symm
  row := ht.row ▸ h.row
  column := ht.column ▸ h.column
  inside := ht.inside

/-- Nothing has been written yet. -/
theorem start_typed (st : Style) : Typed st ⟨fun _ _ => st.bgColor, 2, 2⟩ Text.start where
  renders _ _ _ _ _ _ _ _ := rfl
  row := rfl
  column := rfl
  inside := by decide
  free _ _ _ _ _ := rfl

theorem step_some {x x' : Console × Text} (h : step st x c = some x') :
    x.1.next st c = some x'.1 ∧ x'.2 = x.2.next st c := by
  obtain ⟨k', hk, rfl⟩ := Option.map_eq_some_iff.1 h
  exact ⟨hk, rfl⟩

theorem step_eq (h : k.next st c = some k') (t : Text) : step st (k, t) c = some (k', t.next st c) := by
  rw [step, h]
  rfl

/-- A `Clear` with something in the last row. -/
theorem clear_leaves {s : Screen} (h : Follows k s) (ht : Typed st s t) (hb : ¬ ClearsBlank st (k, t) c)
    {x' : Console × Text} (hx : step st (k, t) c = some x') : ¬ ShowsText st x' := by
  obtain ⟨rfl, hlast⟩ := Classical.not_imp.1 hb
  obtain ⟨hk', ht'⟩ := step_some hx
  obtain ⟨k1, hk1, hf1⟩ := h.clear st
  obtain rfl : x'.1 = k1 := Option.some.inj (hk'.symm.trans hk1)
  intro hs
  refine hlast ((lastRowBlank_iff h).1 (ht.clear_renders.1 (Grid.renders_iff.2 fun x y hxx hyy => ?_)))
  have h1 := hs.shows.pixel x y hxx hyy
  rw [hf1.shows.pixel x y hxx hyy, ht'] at h1
  exact Option.some.inj h1

/-- **The console shows a grid of text in every state of a run exactly if it is never cleared with something in the last
row.** No run fails. -/
theorem shows_text_iff (st : Style) : ∃ k, start st = some k ∧ ∀ calls : List Call,
    (exec (step st) (k, Text.start) calls).isSome ∧
      (States (step st) (ShowsText st) (k, Text.start) calls ↔ Along (step st) (ClearsBlank st) (k, Text.start) calls) := by
  obtain ⟨k, hk, hf⟩ := start_follows st
  refine ⟨k, hk, fun calls => ⟨?_, ?_⟩⟩
  · have hrun : ∀ (cs : List Call) (x : Console × Text) (s : Screen), Follows x.1 s → (exec (step st) x cs).isSome := by
      intro cs
      induction cs with
      | nil => exact fun _ _ _ => rfl
      | cons c cs ih =>
        intro x s hx
        obtain ⟨k', hk', hf'⟩ := hx.next st c
        rw [exec, step, hk']
        exact ih _ _ hf'
    exact hrun calls _ _ hf
  · refine (along_iff_states_of_leaves (I := fun x => ∃ s, Follows x.1 s ∧ Typed st s x.2) ?_ ?_ ?_ calls
      ⟨_, hf, start_typed st⟩).symm
    · rintro x c x' ⟨s, hxf, hxt⟩ hp hx
      obtain ⟨hk', ht'⟩ := step_some hx
      obtain ⟨k1, hk1, hf1⟩ := hxf.next st c
      obtain rfl : x'.1 = k1 := Option.some.inj (hk'.symm.trans hk1)
      refine ⟨_, hf1, ?_⟩
      rw [ht']
      exact hxt.next fun hc => (lastRowBlank_iff hxf).2 (hp hc)
    · rintro x ⟨s, hxf, hxt⟩
      exact showsText_of_typed hxf hxt
    · rintro x c x' ⟨s, hxf, hxt⟩ hp hx
      exact clear_leaves hxf hxt hp hx

/-- The characters 0x00 and 0x01 of `servers/gui/hankaku.txt`, the second a diamond, and white text on black. -/
def diamondStyle : Style where
  font := List.replicate 16 0 ++
    [0x10, 0x10, 0x38, 0x38, 0x7c, 0x7c, 0xfe, 0xfe, 0x7c, 0x7c, 0x38, 0x38, 0x10, 0x10, 0, 0]
  fgColor := ⟨255, 255, 255⟩
  bgColor := ⟨0, 0, 0⟩

/-- 31 newlines and one character, so that the last row has text. -/
def lastRowText : Call := .putString (List.replicate 31 10 ++ [1])

set_option maxRecDepth 4000 in
theorem clear_keeps_last_row : ¬ ∀ (st : Style) (k : Console) (calls : List Call), start st = some k →
    States (step st) (ShowsText st) (k, Text.start) calls := by
  intro h
  obtain ⟨k, hk, hf⟩ := start_follows diamondStyle
  obtain ⟨k1, hk1, hf1⟩ := hf.next diamondStyle lastRowText
  have ht1 := (start_typed diamondStyle).next (c := lastRowText) (fun hc => by cases hc)
  obtain ⟨k2, hk2, -⟩ := hf1.next diamondStyle .clear
  generalize Screen.next diamondStyle _ lastRowText = s1 at hf1 ht1
  have hs := ((h diamondStyle k [lastRowText, .clear] hk).2 _ (step_eq hk1 _)).2 _ (step_eq hk2 _)
  refine clear_leaves hf1 ht1 (fun hb => ?_) (step_eq hk2 _) hs
  -- the tip of the diamond
  have hblank := (lastRowBlank_iff hf1).2 (hb rfl) 19 528 (by decide) (by decide) (by decide)
  have hcell : diamondStyle.bgColor = Grid.color diamondStyle.font diamondStyle.bgColor
    ((Text.start.next diamondStyle lastRowText).grid 33 2) 3 0 :=
    hblank.symm.trans (ht1.renders 33 2 (by decide) (by decide) 3 0 (by decide) (by decide))
  revert hcell
  decide

end Console

end KinOS.Gui
