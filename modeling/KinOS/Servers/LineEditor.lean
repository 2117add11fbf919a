import KinOS.Servers.Display
import KinOS.Lib.TransitionSystem

/-!
# The line editor of the terminal

| here | there |
| --- | --- |
| `State`            | the variables of the terminal (`servers/terminal/terminal.hpp:17-26`) |
| `historyUpDown`    | `HistoryUpDown` (`terminal.cpp:123-145`) |
| `inputKey`, `enter`, `backspace`, `insert` | `InputKey` (`terminal.cpp:147-198`) |
| `executeLine`      | `ExecuteLine` (`terminal.cpp:200-213`) |
| `start`            | `main` up to its loop, with the window it has opened (`terminal.cpp:454-466`) |

`ExecuteFile` prints what the programs write, for which there is no bound, and cuts `linebuf_`: both are chosen by the event
(`Command`). The rectangles that are returned are not used by anyone.

A line is at most 58 characters long, since `$` and the cursor are on the same row, and so are the lines of the history.
`Editing` is what a user may rely on. Backspace in front of an empty line breaks it (`backspace_deletes_prompt`): it tests
`cursorx > 0`, but the prompt ends at 1, so that `$` is deleted and the cursor is at `linebuf_index_` from then on.
-/

namespace KinOS.Terminal

open Gui TransitionSystem

def kLineMax : Int32 := 128

abbrev Line := Vector UInt8 128

def bytes (s : String) : List UInt8 := s.toUTF8.data.toList

/-- The string in a line. -/
def text (l : Line) : List UInt8 := l.toList.takeWhile (· ≠ 0)

/-- `linebuf_[i] = c` -/
def setChar (l : Line) (i : Int32) (c : UInt8) : Option Line :=
  if h : 0 ≤ i.toInt ∧ i.toInt < 128 then some (l.set i.toInt.toNat c (by omega)) else none

/-- The string and its terminator are copied, if they fit. -/
def strcpy (dst : Line) (s : List UInt8) : Option Line :=
  if s.length < 128 then some (Vector.ofFn fun i => (s ++ [0]).getD i dst[i]) else none

/-- What `ExecuteFile` prints, string by string, and what it leaves in `linebuf_`. -/
structure Command where
  prints : List (List UInt8 × Option Nat)
  line : Line

structure State where
  display : Display
  linebufIndex : Int32
  linebuf : Line
  cmdHistory : List Line
  cmdHistoryIndex : Int32

/-- `WinWriteString` -/
def winWriteString (font : List UInt8) (w : Window) (x y : Int32) (color : UInt32) : List UInt8 → Option Window
  | [] => some w
  | c :: s => do winWriteString font (← winWriteChar font w x y color c) (x + 8) y color s

def executeLine (font : List UInt8) (cmd : Command) (d : Display) (linebuf : Line) : Option (Display × Line) :=
  let command := text linebuf
  if command = bytes "help" then do
    let d ← d.print font (bytes "command [ls apps] shows applications\n") none
    let d ← d.print font (bytes "command [cat readme.txt] shows README\n") none
    return (d, linebuf)
  else if command = bytes "clear" then do
    let w ← winFillRectangle d.window Marginx Marginy kCanvasWidth kCanvasHeight 0
    return ({ d with window := w, cursory := 0 }, linebuf)
  else do
    let d ← cmd.prints.foldlM (fun d s => d.print font s.1 s.2) d
    return (d, cmd.line)

def prompt (font : List UInt8) (d : Display) : Option Display := do
  let d ← d.printInGreen font (bytes "kinOS:>\n") none
  d.printInGreen font (bytes "$") none

namespace State

/-- `history`: a line of `cmd_history_`, or nothing in front of them. -/
def historyAt (t : State) (cmdHistoryIndex : Int32) : Option (List UInt8) :=
  if 0 ≤ cmdHistoryIndex then (t.cmdHistory[cmdHistoryIndex.toInt.toNat]?).map text else some []

/-- `cmd_history_index_ + 1 < cmd_history_.size()` compares as unsigned numbers; the left side is not negative. -/
def historyUpDown (font : List UInt8) (direction : Int32) (t : State) : Option State := do
  let cmdHistoryIndex :=
    if direction = -1 ∧ 0 ≤ t.cmdHistoryIndex then t.cmdHistoryIndex - 1
    else if direction = 1 ∧ (t.cmdHistoryIndex + 1).toInt < t.cmdHistory.length then t.cmdHistoryIndex + 1
    else t.cmdHistoryIndex
  let d := { t.display with cursorx := 1 }
  let firstPos := d.calcCursorPos
  let w ← winFillRectangle d.window firstPos.x firstPos.y (8 * (kColumns - 1)) 16 0
  let history ← t.historyAt cmdHistoryIndex
  let linebuf ← strcpy t.linebuf history
  let linebufIndex := Int32.ofNat history.length
  let w ← winWriteString font w firstPos.x firstPos.y 0xffffff history
  return { t with display := { d with window := w, cursorx := linebufIndex + 1 }, linebufIndex, linebuf, cmdHistoryIndex }

def enter (font : List UInt8) (cmd : Command) (t : State) : Option State := do
  let linebuf ← setChar t.linebuf t.linebufIndex 0
  let cmdHistory := if 0 < t.linebufIndex then linebuf :: t.cmdHistory.dropLast else t.cmdHistory
  let d ← t.display.newline
  let r ← executeLine font cmd d linebuf
  let d ← prompt font r.1
  return ⟨d, 0, r.2, cmdHistory, -1⟩

def backspace (t : State) : Option State :=
  if 0 < t.display.cursorx then do
    let d := { t.display with cursorx := t.display.cursorx - 1 }
    let w ← winFillRectangle d.window d.calcCursorPos.x d.calcCursorPos.y 8 16 0
    let linebufIndex := if 0 < t.linebufIndex then t.linebufIndex - 1 else t.linebufIndex
    return { t with display := { d with window := w }, linebufIndex }
  else some t

def insert (font : List UInt8) (ascii : UInt8) (t : State) : Option State :=
  let d := t.display
  if d.cursorx < kColumns - 1 ∧ t.linebufIndex < kLineMax - 1 then do
    let linebuf ← setChar t.linebuf t.linebufIndex ascii
    let w ← winWriteChar font d.window d.calcCursorPos.x d.calcCursorPos.y 0xffffff ascii
    return { t with
      display := { d with window := w, cursorx := d.cursorx + 1 }
      linebufIndex := t.linebufIndex + 1
      linebuf }
  else some t

/-- What a key does between the two `DrawCursor`. -/
def key (font : List UInt8) (keycode ascii : UInt8) (cmd : Command) (t : State) : Option State :=
  if ascii = 10 then t.enter font cmd
  else if ascii = 8 then t.backspace
  else if ascii ≠ 0 then t.insert font ascii
  else if keycode = 0x51 then t.historyUpDown font (-1)
  else if keycode = 0x52 then t.historyUpDown font 1
  else some t

def inputKey (font : List UInt8) (keycode ascii : UInt8) (cmd : Command) (t : State) : Option State := do
  let d ← t.display.drawCursor false
  let t ← { t with display := d }.key font keycode ascii cmd
  let d ← t.display.drawCursor true
  return { t with display := d }

end State

/-- A key that is pressed, with the command it starts if it is Enter, or a call of `Print`. -/
inductive Input
  | key (keycode ascii : UInt8) (cmd : Command)
  | print (s : List UInt8) (len : Option Nat)

def next (font : List UInt8) (t : State) : Input → Option State
  | .key keycode ascii cmd => t.inputKey font keycode ascii cmd
  | .print s len => (t.display.print font s len).map fun d => { t with display := d }

def start (font : List UInt8) (w : Window) : Option State := do
  let w ← winFillRectangle w Marginx Marginy kCanvasWidth kCanvasHeight 0
  let d ← prompt font ⟨w, 0, 0⟩
  return ⟨d, 0, Vector.replicate 128 0, List.replicate 8 (Vector.replicate 128 0), -1⟩

/-! ## What is to be seen -/

namespace State

/-- The characters in `linebuf_`. -/
def typed (t : State) : List UInt8 := t.linebuf.toList.take t.linebufIndex.toInt.toNat

/-- The prompt and the line. -/
def promptLine (t : State) : List (UInt8 × PixelColor) := (36, green) :: t.typed.map fun c => (c, white)

end State

/-- The indices are in range, and the row of the cursor shows the prompt, the line and the cursor, and nothing else. -/
structure Editing (font : List UInt8) (t : State) : Prop where
  index : 0 ≤ t.linebufIndex.toInt ∧ t.linebufIndex.toInt ≤ 127
  history : t.cmdHistory.length = 8
  historyIndex : -1 ≤ t.cmdHistoryIndex.toInt ∧ t.cmdHistoryIndex.toInt < 8
  cursorx : 0 ≤ t.display.cursorx.toInt ∧ t.display.cursorx.toInt ≤ 59
  cursory : 0 ≤ t.display.cursory.toInt ∧ t.display.cursory.toInt ≤ 14
  column : t.display.cursorx.toInt = t.linebufIndex.toInt + 1
  shown : ∀ k dx dy : Nat, k < 60 → dx < 8 → dy < 16 →
    t.display.window.shadowBuffer.colorAt (8 + 8 * k + dx) (28 + 16 * t.display.cursory.toInt + dy) =
      some (if k = t.display.cursorx.toInt ∧ dx < 7 ∧ dy < 15 then white else Grid.color font black t.promptLine[k]? dx dy)

/-! ## Which inputs are kept -/

/-- What is printed when the line is executed. -/
def output (line : List UInt8) (cmd : Command) : List UInt8 :=
  if line = bytes "help" then
    bytes "command [ls apps] shows applications\n" ++ bytes "command [cat readme.txt] shows README\n"
  else if line = bytes "clear" then []
  else cmd.prints.flatMap fun s => Display.chars s.1 s.2

/-- The row and the column where it is printed. -/
def outputStart (line : List UInt8) (row : Nat) : Nat × Nat := if line = bytes "clear" then (0, 0) else (min (row + 1) 14, 0)

/-- Backspace has a character to delete, no character with ink in its right half comes into the last cell of the last row,
and only keys print. -/
def Kept (font : List UInt8) (t : State) : Input → Prop
  | .key _ ascii cmd =>
    let line := t.typed.takeWhile (· ≠ 0)
    (ascii = 8 → 0 < t.linebufIndex.toInt) ∧
      (ascii = 10 → Within font (outputStart line t.display.cursory.toInt.toNat) (output line cmd ++ bytes "kinOS:>\n"))
  | .print s len => Display.chars s len = []

/-! ## Commands -/

section

variable {font : List UInt8} {visible : Bool} {d : Display} {s : Sheet}

/-- An empty canvas. -/
theorem canvas_reads (font : List UInt8) {w : Window} {p : Picture} (hs : w.Shows 496 276 p) :
    ∃ w', winFillRectangle w Marginx Marginy kCanvasWidth kCanvasHeight 0 = some w' ∧
      Reads font false ⟨w', 0, 0⟩ ⟨fun _ _ => none, 0, 0⟩ := by
  obtain ⟨w', hw, hs'⟩ : ∃ w', winFillRectangle w Marginx Marginy kCanvasWidth kCanvasHeight 0 = some w' ∧
      w'.Shows 496 276 (p.fill 4 24 488 248 black) :=
    hs.fill rfl rfl rfl rfl (by decide) (by decide) (toColor 0)
  have hren : Grid.Renders font black 8 28 15 60 (fun _ _ => none) (p.fill 4 24 488 248 black) := by
    intro r k hr hk dx dy hdx hdy
    rw [Picture.fill, if_pos (by omega)]
    rfl
  exact ⟨w', hw, ⟨_, ⟨hren, rfl, (by decide : 0 < 15), fun _ _ _ _ _ => rfl⟩, hs'⟩, rfl, (by decide : 0 < 60),
    fun _ _ _ => rfl⟩

/-- A string without a null is printed. -/
theorem printIn_bytes {str : List UInt8} (color : UInt32) (h : Reads font visible d s) (h0 : 0 ∉ str)
    (hw : Within font s.cursor str) :
    ∃ d', d.printIn font color str none = some d' ∧ ∃ s', Reads font true d' s' ∧
      s'.cursor = str.foldl advance s.cursor := by
  have hall : Display.chars str none = str := List.takeWhile_eq_self_iff.2 fun c hc => by
    have hne : c ≠ 0 := fun he => h0 (he ▸ hc)
    simpa using hne
  obtain ⟨d1, h1, hr1⟩ := h.printIn str none (by rw [hall]; exact hw) color
  rw [hall] at hr1
  exact ⟨d1, h1, _, hr1, Sheet.foldl_cursor _ _ h.row_lt⟩

theorem Reads.printAll : ∀ (strs : List (List UInt8 × Option Nat)) {visible : Bool} {d : Display} {s : Sheet},
    Reads font visible d s → Within font s.cursor (strs.flatMap fun s => Display.chars s.1 s.2) →
    ∃ d' v' s', strs.foldlM (fun d s => d.print font s.1 s.2) d = some d' ∧ Reads font v' d' s' ∧
      s'.cursor = (strs.flatMap fun s => Display.chars s.1 s.2).foldl advance s.cursor := by
  intro strs
  induction strs with
  | nil => exact fun h _ => ⟨_, _, _, rfl, h, rfl⟩
  | cons x strs ih =>
    intro visible d s h hw
    rw [List.flatMap_cons, within_append] at hw
    obtain ⟨d1, h1, hr1⟩ := h.printIn _ _ hw.1 0xffffff
    have hq := Sheet.foldl_cursor (toColor 0xffffff) (Display.chars x.1 x.2) h.row_lt
    obtain ⟨d2, v2, s2, h2, hr2, hq2⟩ := ih hr1 (by rw [hq]; exact hw.2)
    refine ⟨d2, v2, s2, ?_, hr2, ?_⟩
    · rw [List.foldlM_cons, Display.print, h1]
      exact h2
    · rw [hq2, hq, List.flatMap_cons, List.foldl_append]

theorem executeLine_reads {linebuf : Line} (cmd : Command) (h : Reads font visible d s) (hcol : s.column = 0)
    (hw : Within font (if text linebuf = bytes "clear" then (0, 0) else s.cursor) (output (text linebuf) cmd)) :
    ∃ d' l' v' s', executeLine font cmd d linebuf = some (d', l') ∧ Reads font v' d' s' ∧
      s'.cursor = (output (text linebuf) cmd).foldl advance (if text linebuf = bytes "clear" then (0, 0) else s.cursor) := by
  unfold executeLine output at *
  by_cases hhelp : text linebuf = bytes "help"
  · have hne : text linebuf ≠ bytes "clear" := by
      rw [hhelp]
      decide
    rw [if_neg hne, if_pos hhelp, within_append] at hw
    simp only [if_neg hne, if_pos hhelp]
    have h1 := printIn_bytes 0xffffff h (by decide) hw.1
    obtain ⟨d1, h1, s1, hr1, hq1⟩ := h1
    rw [← hq1] at hw
    obtain ⟨d2, h2, s2, hr2, hq2⟩ := printIn_bytes 0xffffff hr1 (by decide) hw.2
    refine ⟨d2, linebuf, true, s2, ?_, hr2, ?_⟩
    · simp only [Display.print, h1, h2, Option.bind_eq_bind, Option.bind_some]
      rfl
    · rw [hq2, hq1, List.foldl_append]
  · by_cases hclear : text linebuf = bytes "clear"
    · obtain ⟨p, _, hs⟩ := h.shows
      obtain ⟨w, hw', hr⟩ := canvas_reads font hs
      have hx : d.cursorx = 0 := Int32.toInt_inj.1 (by rw [h.column, hcol]; rfl)
      simp only [if_neg hhelp, if_pos hclear, hw', Option.bind_eq_bind, Option.bind_some]
      refine ⟨_, _, false, ⟨fun _ _ => none, 0, 0⟩, rfl, ?_, rfl⟩
      rw [hx]
      exact hr
    · rw [if_neg hclear, if_neg hhelp, if_neg hclear] at hw
      obtain ⟨d1, v1, s1, h1, hr1, hq1⟩ := h.printAll cmd.prints hw
      simp only [if_neg hhelp, if_neg hclear, h1, Option.bind_eq_bind, Option.bind_some]
      exact ⟨d1, cmd.line, v1, s1, rfl, hr1, hq1⟩

/-- The prompt alone in the row of the cursor. -/
theorem prompt_reads (h : Reads font visible d s) (hw : Within font s.cursor (bytes "kinOS:>\n")) :
    ∃ d' s', prompt font d = some d' ∧ Reads font true d' s' ∧ s'.column = 1 ∧
      ∀ k, k < 60 → s'.grid s'.row k = if k = 0 then some (36, green) else none := by
  obtain ⟨d1, h1, s1, hr1, hq1⟩ := printIn_bytes 0x29ff86 h (by decide) hw
  have hsplit : bytes "kinOS:>\n" = bytes "kinOS:>" ++ [10] := by decide
  rw [hsplit, List.foldl_append] at hq1
  have hcol : s1.column = 0 := congrArg Prod.snd hq1
  have hone : Display.chars (bytes "$") none = [36] := by decide
  have hgreen : toColor 0x29ff86 = green := by decide
  have hput : s1.putChar green 36 = { s1 with grid := s1.grid.put s1.row 0 (some (36, green)), column := 1 } := by
    simp [Sheet.putChar, cell, hcol]
  obtain ⟨d2, h2, hr2⟩ := hr1.printIn (bytes "$") none (within_of_short (by simp [Sheet.cursor, hcol, hone])) 0x29ff86
  rw [hone, hgreen, List.foldl_cons, List.foldl_nil, hput] at hr2
  refine ⟨d2, _, ?_, hr2, rfl, fun k hk => ?_⟩
  · simp only [prompt, Display.printInGreen, h1, Option.bind_eq_bind, Option.bind_some]
    exact h2
  · simp only [Grid.put, true_and]
    split
    · rfl
    · exact hr1.behind k (by omega) hk

end

/-! ## Lines -/

theorem setChar_some {l : Line} {i : Int32} (h : 0 ≤ i.toInt ∧ i.toInt < 128) (c : UInt8) :
    ∃ l', setChar l i c = some l' ∧ l'.toList = l.toList.set i.toInt.toNat c := by
  unfold setChar
  rw [dif_pos h]
  exact ⟨_, rfl, Vector.toList_set ..⟩

theorem strcpy_some (dst : Line) {s : List UInt8} (h : s.length < 128) : ∃ l, strcpy dst s = some l ∧
    l.toList.take s.length = s := by
  unfold strcpy
  rw [if_pos h]
  refine ⟨_, rfl, List.ext_getElem? fun i => ?_⟩
  by_cases hi : i < s.length
  · rw [List.getElem?_take_of_lt hi, Vector.toList_ofFn, List.getElem?_ofFn, dif_pos (by omega), List.getD_eq_getElem?_getD,
      List.getElem?_append_left hi, List.getElem?_eq_getElem hi]
    rfl
  · rw [List.getElem?_eq_none ((List.length_take_le ..).trans (Nat.le_of_not_lt hi)),
      List.getElem?_eq_none (Nat.le_of_not_lt hi)]

/-- What stands in front of a null. -/
theorem text_of_set {l l' : Line} {n : Nat} (h : l'.toList = l.toList.set n 0) (hn : n < 128) :
    text l' = (l.toList.take n).takeWhile (· ≠ 0) := by
  have hlen : n < l.toList.length := by simpa using hn
  rw [text, h, List.set_eq_take_append_cons_drop, if_pos hlen, List.takeWhile_append]
  split
  · next heq =>
    rw [List.takeWhile_cons]
    exact (List.append_nil _).trans ((List.takeWhile_prefix _).eq_of_length heq).symm
  · rfl

theorem take_set_succ {l : List UInt8} {n : Nat} (hn : n < l.length) (c : UInt8) :
    (l.set n c).take (n + 1) = l.take n ++ [c] := by
  have hlen : (l.take n).length = n := by simp; omega
  rw [List.set_eq_take_append_cons_drop, if_pos hn, List.take_append, hlen]
  simp

theorem getElem?_concat {α : Type} (l : List α) (x : α) (k : Nat) :
    (l ++ [x])[k]? = if k = l.length then some x else l[k]? := by
  rw [List.getElem?_append]
  split
  · rw [if_neg (by omega)]
  · split
    · next he => rw [he, Nat.sub_self]; rfl
    · rw [List.getElem?_eq_none (by simp; omega), List.getElem?_eq_none (by omega)]

theorem not_mem_text (l : Line) : 0 ∉ text l := fun h => by
  have := List.mem_takeWhile_imp h
  simp at this

theorem length_text_le {l : List UInt8} {n : Nat} : ((l.take n).takeWhile (· ≠ 0)).length ≤ n :=
  (List.takeWhile_prefix _).length_le.trans (List.length_take_le ..)

/-- A string is written into empty cells. -/
theorem winWriteString_renders {font : List UInt8} {y : Int32} {r : Nat} (hy : y.toInt = (28 + 16 * r : Nat))
    (hr : r < 15) (color : UInt32) :
    ∀ (str : List UInt8) {w : Window} {p : Picture} {g : Grid} {x : Int32} {k : Nat}, w.Shows 496 276 p →
      Grid.Renders font black 8 28 15 60 g p → x.toInt = (8 + 8 * k : Nat) → k + str.length ≤ 60 → 0 ∉ str →
      (∀ k', k ≤ k' → k' < 60 → g r k' = none) →
      ∃ w' p' g', winWriteString font w x y color str = some w' ∧ w'.Shows 496 276 p' ∧
        Grid.Renders font black 8 28 15 60 g' p' ∧
        ∀ r' k', k' < 60 →
          g' r' k' = if r' = r ∧ k ≤ k' then (str.map fun c => (c, toColor color))[k' - k]? else g r' k' := by
  intro str
  induction str with
  | nil =>
    intro w p g x k hs hren _ _ _ hfree
    refine ⟨w, p, g, rfl, hs, hren, fun r' k' hk' => ?_⟩
    split
    · next he => rw [he.1, hfree k' he.2 hk']; rfl
    · rfl
  | cons c str ih =>
    intro w p g x k hs hren hx hk h0 hfree
    rw [List.length_cons] at hk
    rw [List.mem_cons, not_or] at h0
    obtain ⟨w1, p1, hw1, hs1, hren1⟩ := winWriteChar_renders hs hren hx hy (by omega)
      hr (hfree k (Nat.le_refl _) (by omega)) color c
    have h8 := Int32.toInt_add_cases x 8
    have h8' : (8 : Int32).toInt = 8 := rfl
    obtain ⟨w2, p2, g2, hw2, hs2, hren2, hg2⟩ := ih hs1 hren1 (x := x + 8) (k := k + 1) (by push_cast at *; omega)
      (by omega) h0.2
      fun k' hk1 hk2 => by
        simp only [Grid.put]
        rw [if_neg (by omega)]
        exact hfree k' (by omega) hk2
    refine ⟨w2, p2, g2, ?_, hs2, hren2, fun r' k' hk' => ?_⟩
    · rw [winWriteString, hw1]
      exact hw2
    · rw [hg2 r' k' hk']
      simp only [Grid.put, cell, if_neg (Ne.symm h0.1), List.map_cons]
      by_cases hr' : r' = r
      · rcases Nat.lt_trichotomy k' k with hlt | rfl | hlt
        · rw [if_neg (by omega), if_neg (by omega), if_neg (by omega)]
        · rw [if_neg (by omega), if_pos ⟨hr', rfl⟩, if_pos ⟨hr', Nat.le_refl _⟩, Nat.sub_self]
          rfl
        · obtain ⟨m, rfl⟩ : ∃ m, k' = k + 1 + m := ⟨k' - (k + 1), by omega⟩
          have h1 : k + 1 + m - k = m + 1 := by omega
          rw [if_pos ⟨hr', by omega⟩, if_pos ⟨hr', by omega⟩, Nat.add_sub_cancel_left, h1, List.getElem?_cons_succ]
      · rw [if_neg fun h => hr' h.1, if_neg fun h => hr' h.1, if_neg fun h => hr' h.1]

/-! ## Keys -/

/-- The sheet shows the line that is edited. -/
structure Edits (font : List UInt8) (visible : Bool) (t : State) (s : Sheet) : Prop where
  reads : Reads font visible t.display s
  index : 0 ≤ t.linebufIndex.toInt
  column : (s.column : Int) = t.linebufIndex.toInt + 1
  row : ∀ k, k < 60 → s.grid s.row k = t.promptLine[k]?
  history : t.cmdHistory.length = 8
  entries : ∀ l ∈ t.cmdHistory, (text l).length ≤ 58
  historyIndex : -1 ≤ t.cmdHistoryIndex.toInt ∧ t.cmdHistoryIndex.toInt < 8

namespace Edits

variable {font : List UInt8} {visible : Bool} {t : State} {s : Sheet}

theorem index_le (h : Edits font visible t s) : t.linebufIndex.toInt ≤ 58 := by
  have hk := h.reads.inside
  have hcol := h.column
  omega

theorem length_typed (h : Edits font visible t s) : t.typed.length = t.linebufIndex.toInt.toNat := by
  have hi := h.index_le
  rw [State.typed, List.length_take, Vector.length_toList]
  omega

theorem length_promptLine (h : Edits font visible t s) : t.promptLine.length = s.column := by
  have hcol := h.column
  have hi := h.index
  rw [State.promptLine, List.length_cons, List.length_map, h.length_typed]
  omega

theorem drawCursor (h : Edits font visible t s) (v : Bool) :
    ∃ d, t.display.drawCursor v = some d ∧ Edits font v { t with display := d } s := by
  obtain ⟨d, hd, hr⟩ := h.reads.drawCursor v
  exact ⟨d, hd, ⟨hr, h.index, h.column, h.row, h.history, h.entries, h.historyIndex⟩⟩

/-- A character at the end of the line. -/
theorem insert (h : Edits font false t s) {ascii : UInt8} (h0 : ascii ≠ 0) :
    ∃ t', t.insert font ascii = some t' ∧ ∃ s', Edits font false t' s' := by
  have hi := h.index
  have hi' := h.index_le
  have hcol := h.column
  have hc := h.reads.column
  have hk := h.reads.inside
  have hguard : t.display.cursorx < kColumns - 1 ∧ t.linebufIndex < kLineMax - 1 ↔ s.column < 59 := by
    have h59 : (kColumns - 1).toInt = 59 := rfl
    have h127 : (kLineMax - 1).toInt = 127 := rfl
    rw [Int32.lt_iff_toInt_lt, Int32.lt_iff_toInt_lt, h59, h127, hc]
    omega
  unfold State.insert
  by_cases hfit : s.column < 59
  · obtain ⟨p, hp, hs⟩ := h.reads.hidden
    obtain ⟨hx, hy⟩ := calcCursorPos_toInt hc hp.row hk hp.inside
    obtain ⟨l, hl, hset⟩ := setChar_some (l := t.linebuf) ⟨hi, by omega⟩ ascii
    obtain ⟨w, p', hw, hs', hren⟩ :=
      winWriteChar_renders hs hp.renders hx hy hk hp.inside (h.reads.behind _ (Nat.le_refl _) hk) 0xffffff ascii
    simp only [hguard, if_pos hfit, hl, hw, Option.bind_eq_bind, Option.bind_some]
    have hx1 := Int32.toInt_add_cases t.display.cursorx 1
    have hi1 := Int32.toInt_add_cases t.linebufIndex 1
    have h1 : (1 : Int32).toInt = 1 := rfl
    have hidx : (t.linebufIndex + 1).toInt = t.linebufIndex.toInt + 1 := by omega
    have hcell : cell (toColor 0xffffff) ascii = some (ascii, white) := if_neg h0
    rw [hcell] at hren
    refine ⟨_, rfl, ⟨s.grid.put s.row s.column (some (ascii, white)), s.row, s.column + 1⟩,
      ⟨⟨p', ⟨hren, hp.row, hp.inside, ?_⟩, hs'⟩, ?_, ?_, ?_⟩, ?_, ?_, ?_, h.history, h.entries, h.historyIndex⟩
    · intro r k hr hr' hk'
      simp only at hr
      simp only [Grid.put]
      rw [if_neg (by omega)]
      exact hp.below r k hr hr' hk'
    · simp only
      push_cast
      omega
    · simp only
      omega
    · intro k hk1 hk2
      simp only at hk1
      simp only [Grid.put]
      rw [if_neg (by omega)]
      exact h.reads.behind k (by omega) hk2
    · simp only
      omega
    · simp only
      push_cast
      omega
    · intro k hk'
      have hline : State.typed ⟨⟨w, t.display.cursorx + 1, t.display.cursory⟩, t.linebufIndex + 1, l,
          t.cmdHistory, t.cmdHistoryIndex⟩ =
          t.typed ++ [ascii] := by
        have hlt : t.linebufIndex.toInt.toNat < t.linebuf.toList.length := by
          rw [Vector.length_toList]
          omega
        have hnat : (t.linebufIndex.toInt + 1).toNat = t.linebufIndex.toInt.toNat + 1 := by omega
        simp only [State.typed, hidx, hset, hnat, take_set_succ hlt]
      have hold := h.row k hk'
      have hlen := h.length_promptLine
      rw [State.promptLine] at hold hlen
      rw [State.promptLine, hline, List.map_append, ← List.cons_append, List.map_singleton, getElem?_concat, hlen, ← hold]
      simp only [Grid.put, true_and]
  · simp only [hguard, if_neg hfit]
    exact ⟨t, rfl, s, h⟩

/-- The cell in front of the cursor is emptied. -/
theorem backspace_reads (h : Reads font false t.display s) (hcol : 0 < s.column) : ∃ d, t.backspace = some { t with
      display := d, linebufIndex := if 0 < t.linebufIndex then t.linebufIndex - 1 else t.linebufIndex } ∧
    Reads font false d ⟨s.grid.erase s.row (s.column - 1) 1 1, s.row, s.column - 1⟩ := by
  obtain ⟨p, hp, hs⟩ := h.hidden
  have hc := h.column
  have hk := h.inside
  have hr := hp.inside
  have hx1 := Int32.toInt_sub_cases t.display.cursorx 1
  have h1 : (1 : Int32).toInt = 1 := rfl
  have hx' : (t.display.cursorx - 1).toInt = (s.column - 1 : Nat) := by omega
  have hpos : 0 < t.display.cursorx := by
    rw [Int32.lt_iff_toInt_lt, hc, Int32.toInt_zero]
    omega
  let d := { t.display with cursorx := t.display.cursorx - 1 }
  obtain ⟨hx, hy⟩ := calcCursorPos_toInt (d := d) hx' hp.row (by omega) hr
  obtain ⟨w, hw, hs'⟩ : ∃ w, winFillRectangle d.window d.calcCursorPos.x d.calcCursorPos.y 8 16 0 = some w ∧
      w.Shows 496 276 (p.fill (8 + 8 * (s.column - 1)) (28 + 16 * s.row) 8 16 black) :=
    hs.fill hx hy rfl rfl (by omega) (by omega) (toColor 0)
  have hren : Grid.Renders font black 8 28 15 60 (s.grid.erase s.row (s.column - 1) 1 1) _ :=
    hp.renders.fill s.row (s.column - 1) 1 1
  unfold State.backspace
  simp only [if_pos hpos]
  rw [hw]
  refine ⟨_, rfl, ⟨_, ⟨hren, hp.row, hr, fun r k hlt hr' hk' => ?_⟩, hs'⟩, hx', by simp only; omega, fun k hk1 hk2 => ?_⟩
  · simp only at hlt
    simp only [Grid.erase]
    rw [if_neg (by omega)]
    exact hp.below r k hlt hr' hk'
  · simp only at hk1
    simp only [Grid.erase]
    split
    · rfl
    · exact h.behind k (by omega) hk2

theorem backspace (h : Edits font false t s) (hpos : 0 < t.linebufIndex.toInt) :
    ∃ t', t.backspace = some t' ∧ ∃ s', Edits font false t' s' := by
  have hcol := h.column
  obtain ⟨d, hd, hr⟩ := backspace_reads h.reads (by omega)
  have hi1 := Int32.toInt_sub_cases t.linebufIndex 1
  have h1 : (1 : Int32).toInt = 1 := rfl
  have hidx : (if 0 < t.linebufIndex then t.linebufIndex - 1 else t.linebufIndex).toInt = t.linebufIndex.toInt - 1 := by
    have hlt : 0 < t.linebufIndex := Int32.lt_iff_toInt_lt.2 (Int32.toInt_zero ▸ hpos)
    rw [if_pos hlt]
    have hle := h.index_le
    omega
  refine ⟨_, hd, _, hr, ?_, ?_, fun k hk => ?_, h.history, h.entries, h.historyIndex⟩
  · simp only [hidx]
    omega
  · simp only [hidx]
    omega
  · have hold := h.row k hk
    have hlen := h.length_promptLine
    have htyped : State.typed { t with
        display := d, linebufIndex := if 0 < t.linebufIndex then t.linebufIndex - 1 else t.linebufIndex } =
          t.typed.take (s.column - 2) := by
      simp only [State.typed, hidx, List.take_take]
      congr 1
      omega
    obtain ⟨m, hm⟩ : ∃ m, s.column = m + 2 := ⟨s.column - 2, by omega⟩
    have hline : (36, green) :: (t.typed.take (s.column - 2)).map (fun c => (c, white)) =
        t.promptLine.take (s.column - 1) := by
      rw [State.promptLine, List.map_take, hm]
      rfl
    rw [State.promptLine, htyped, hline, List.getElem?_take, ← hold]
    simp only [Grid.erase]
    by_cases hin : k < s.column - 1
    · rw [if_neg (by omega), if_pos hin]
    · rw [if_neg hin]
      split
      · rfl
      · exact h.reads.behind k (by omega) hk

/-- The line is replaced by one of the history. -/
theorem historyUpDown (h : Edits font false t s) (direction : Int32) :
    ∃ t', t.historyUpDown font direction = some t' ∧ ∃ s', Edits font false t' s' := by
  obtain ⟨p, hp, hs⟩ := h.reads.hidden
  have hr := hp.inside
  have h1 : (1 : Int32).toInt = 1 := rfl
  obtain ⟨i, hi, hrange⟩ : ∃ i, (if direction = -1 ∧ 0 ≤ t.cmdHistoryIndex then t.cmdHistoryIndex - 1
      else if direction = 1 ∧ (t.cmdHistoryIndex + 1).toInt < t.cmdHistory.length then t.cmdHistoryIndex + 1
      else t.cmdHistoryIndex) = i ∧ -1 ≤ i.toInt ∧ i.toInt < 8 := by
    have hrange := h.historyIndex
    have hlen := h.history
    have hsub := Int32.toInt_sub_cases t.cmdHistoryIndex 1
    have hadd := Int32.toInt_add_cases t.cmdHistoryIndex 1
    refine ⟨_, rfl, ?_⟩
    split
    · next hd =>
      have h0 := hd.2
      rw [Int32.le_iff_toInt_le, Int32.toInt_zero] at h0
      omega
    · split
      · next hd =>
        have h0 := hd.2
        omega
      · exact hrange
  obtain ⟨str, hstr, hlen, h0⟩ : ∃ str, t.historyAt i = some str ∧ str.length ≤ 58 ∧ 0 ∉ str := by
    unfold State.historyAt
    by_cases hnn : 0 ≤ i
    · have hnn' := Int32.le_iff_toInt_le.1 hnn
      rw [Int32.toInt_zero] at hnn'
      have hlt : i.toInt.toNat < t.cmdHistory.length := by
        rw [h.history]
        omega
      rw [if_pos hnn, List.getElem?_eq_getElem hlt]
      exact ⟨_, rfl, h.entries _ (List.getElem_mem hlt), not_mem_text _⟩
    · rw [if_neg hnn]
      exact ⟨[], rfl, Nat.zero_le _, List.not_mem_nil⟩
  obtain ⟨l, hl, hcopy⟩ := strcpy_some t.linebuf (by omega : str.length < 128)
  let d := { t.display with cursorx := 1 }
  obtain ⟨hx, hy⟩ := calcCursorPos_toInt (d := d) (k := 1) rfl hp.row (by decide) hr
  obtain ⟨w1, hw1, hs1⟩ : ∃ w,
      winFillRectangle d.window d.calcCursorPos.x d.calcCursorPos.y (8 * (kColumns - 1)) 16 0 = some w ∧
      w.Shows 496 276 (p.fill (8 + 8 * 1) (28 + 16 * s.row) (8 * 59) (16 * 1) black) :=
    hs.fill hx hy rfl rfl (by decide) (by omega) (toColor 0)
  obtain ⟨w2, p2, g2, hw2, hs2, hren2, hg2⟩ :=
    winWriteString_renders (k := 1) hy hr 0xffffff str hs1 (hp.renders.fill s.row 1 1 59) hx
    (by omega) h0 fun k hk1 hk2 => by
      simp only [Grid.erase]
      rw [if_pos (by omega)]
  have hn := Int32.toInt_ofNat_of_lt (by omega : str.length < 2 ^ 31)
  have hn1 := Int32.toInt_add_cases (Int32.ofNat str.length) 1
  have hcol : (Int32.ofNat str.length + 1).toInt = (str.length + 1 : Nat) := by
    push_cast
    omega
  unfold State.historyUpDown
  simp only [hi]
  rw [hw1]
  simp only [Option.bind_eq_bind, Option.bind_some, hstr, hl]
  rw [hw2]
  refine ⟨_, rfl, ⟨g2, s.row, str.length + 1⟩,
    ⟨⟨p2, ⟨hren2, hp.row, hr, fun r k hlt hr' hk' => ?_⟩, hs2⟩, hcol, by simp only; omega,
    fun k hk1 hk2 => ?_⟩, ?_, ?_, fun k hk => ?_, h.history, h.entries, hrange⟩
  · simp only at hlt
    simp only [hg2 r k hk', Grid.erase]
    rw [if_neg (by omega), if_neg (by omega)]
    exact hp.below r k hlt hr' hk'
  · simp only at hk1
    simp only [hg2 _ k hk2]
    rw [if_pos ⟨trivial, by omega⟩, List.getElem?_eq_none (by rw [List.length_map]; omega)]
  · simp only [hn]
    omega
  · simp only [hn]
    push_cast
    rfl
  · have htyped : l.toList.take (Int32.ofNat str.length).toInt.toNat = str := by
      rw [hn, Int.toNat_natCast, hcopy]
    simp only [State.promptLine, State.typed, htyped, hg2 _ k hk, Grid.erase, true_and]
    cases k with
    | zero =>
      rw [if_neg (by omega), if_neg (by omega), h.row 0 hk]
      rfl
    | succ k =>
      rw [if_pos (by omega), Nat.add_sub_cancel, List.getElem?_cons_succ]
      rfl

/-- The line is executed, and the prompt is on the row of the cursor. -/
theorem enter (h : Edits font false t s) {cmd : Command}
    (hw : Within font (outputStart (t.typed.takeWhile (· ≠ 0)) s.row)
    (output (t.typed.takeWhile (· ≠ 0)) cmd ++ bytes "kinOS:>\n")) :
    ∃ t', t.enter font cmd = some t' ∧ ∃ s', Edits font true t' s' := by
  have hi := h.index
  have hi' := h.index_le
  obtain ⟨l, hl, hset⟩ := setChar_some (l := t.linebuf) ⟨hi, by omega⟩ 0
  have htext : text l = t.typed.takeWhile (· ≠ 0) := text_of_set hset (by omega)
  rw [← htext, within_append] at hw
  obtain ⟨p, hp, hs⟩ := h.reads.hidden
  obtain ⟨d1, hd1, hr1⟩ := hp.newline hs fun hrow dx dy _ _ _ => by
    rw [← hrow, h.reads.behind 59 (by have := h.reads.inside; omega) (by decide)]
    rfl
  have hcur : s.newline.cursor = (min (s.row + 1) 14, 0) := by
    have hin := hp.inside
    unfold Sheet.newline
    split
    · exact Prod.ext (by simp only [Sheet.cursor]; omega) rfl
    · exact Prod.ext (by simp only [Sheet.cursor]; omega) rfl
  have hstart : outputStart (text l) s.row = if text l = bytes "clear" then (0, 0) else s.newline.cursor := by
    rw [outputStart, hcur]
  rw [hstart] at hw
  obtain ⟨d2, l2, v2, s2, hd2, hr2, hq2⟩ := executeLine_reads cmd hr1 (congrArg Prod.snd hcur) hw.1
  rw [← hq2] at hw
  obtain ⟨d3, s3, hd3, hr3, hcol3, hrow3⟩ := prompt_reads hr2 hw.2
  have hentries : ∀ l' ∈ (if 0 < t.linebufIndex then l :: t.cmdHistory.dropLast else t.cmdHistory),
      (text l').length ≤ 58 := by
    intro l' hl'
    split at hl'
    · rcases List.mem_cons.1 hl' with rfl | hmem
      · rw [htext]
        exact length_text_le.trans (by omega)
      · exact h.entries l' (List.dropLast_subset _ hmem)
    · exact h.entries l' hl'
  have hlength : (if 0 < t.linebufIndex then l :: t.cmdHistory.dropLast else t.cmdHistory).length = 8 := by
    have hlen := h.history
    split
    · rw [List.length_cons, List.length_dropLast, hlen]
    · exact hlen
  unfold State.enter
  simp only [hl, hd1, hd2, hd3, Option.bind_eq_bind, Option.bind_some]
  refine ⟨_, rfl, s3, hr3, Int.le_refl 0, by rw [hcol3]; rfl, fun k hk => ?_, hlength, hentries,
    (by decide : -1 ≤ (-1 : Int) ∧ (-1 : Int) < 8)⟩
  rw [hrow3 k hk]
  cases k with
  | zero => rfl
  | succ k => rfl

/-- **Step lemma.** -/
theorem next (h : Edits font true t s) {e : Input} (hk : Kept font t e) :
    ∃ t', next font t e = some t' ∧ ∃ s', Edits font true t' s' := by
  cases e with
  | print str len =>
    obtain ⟨d, hd, hr⟩ := h.reads.printIn str len (by rw [hk]; trivial) 0xffffff
    rw [hk] at hr
    refine ⟨{ t with display := d }, ?_, s, hr, h.index, h.column, h.row, h.history, h.entries, h.historyIndex⟩
    rw [Terminal.next, Display.print, hd]
    rfl
  | key keycode ascii cmd =>
    obtain ⟨hback, henter⟩ := hk
    obtain ⟨p, hp, _⟩ := h.reads.shows
    rw [hp.row, Int.toNat_natCast] at henter
    obtain ⟨d, hd, h1⟩ := h.drawCursor false
    have hkey : ∃ t', State.key font keycode ascii cmd { t with display := d } = some t' ∧ ∃ v' s', Edits font v' t' s' := by
      unfold State.key
      split
      · next he =>
        obtain ⟨t', ht, s', h'⟩ := h1.enter (henter he)
        exact ⟨t', ht, true, s', h'⟩
      split
      · next he =>
        obtain ⟨t', ht, s', h'⟩ := h1.backspace (hback he)
        exact ⟨t', ht, false, s', h'⟩
      split
      · next h0 =>
        obtain ⟨t', ht, s', h'⟩ := h1.insert h0
        exact ⟨t', ht, false, s', h'⟩
      split
      · obtain ⟨t', ht, s', h'⟩ := h1.historyUpDown (-1)
        exact ⟨t', ht, false, s', h'⟩
      split
      · obtain ⟨t', ht, s', h'⟩ := h1.historyUpDown 1
        exact ⟨t', ht, false, s', h'⟩
      · exact ⟨_, rfl, false, s, h1⟩
    obtain ⟨t1, ht1, v', s', h2⟩ := hkey
    obtain ⟨d', hd', h3⟩ := h2.drawCursor true
    refine ⟨_, ?_, s', h3⟩
    simp only [Terminal.next, State.inputKey, hd, ht1, hd', Option.bind_eq_bind, Option.bind_some]
    rfl

theorem editing (h : Edits font true t s) : Editing font t := by
  obtain ⟨p, hp, hs⟩ := h.reads.shows
  have hin := hp.inside
  have hk := h.reads.inside
  have hcol := h.column
  have hc := h.reads.column
  have hrow := hp.row
  refine ⟨⟨h.index, by have := h.index_le; omega⟩, h.history, h.historyIndex, by omega, by omega, by omega,
    fun k dx dy hk60 hdx hdy => ?_⟩
  have hpix := hs.pixel (8 + 8 * k + dx) (28 + 16 * s.row + dy) (by omega) (by omega)
  push_cast at hpix
  rw [hrow, hpix, if_pos rfl, Picture.fill, hp.renders s.row k hin hk60 dx dy hdx hdy, h.row k hk60, hc]
  congr 1
  by_cases hcur : k = s.column ∧ dx < 7 ∧ dy < 15
  · rw [if_pos (by omega), if_pos (by omega)]
  · rw [if_neg (by omega), if_neg (by omega)]

end Edits

/-! ## Runs -/

theorem start_edits (font : List UInt8) {w : Window} {p : Picture} (hs : w.Shows 496 276 p) :
    ∃ t, start font w = some t ∧ t.linebufIndex = 0 ∧ ∃ s, Edits font true t s := by
  obtain ⟨w', hw, hr⟩ := canvas_reads font hs
  obtain ⟨d, s, hd, hr', hcol, hrow⟩ := prompt_reads hr (within_of_short (by decide))
  have hempty : text (Vector.replicate 128 0) = [] := by
    rw [text, Vector.toList_replicate]
    rfl
  refine ⟨⟨d, 0, Vector.replicate 128 0, List.replicate 8 (Vector.replicate 128 0), -1⟩, ?_, rfl, s, hr',
    Int.le_refl 0, by rw [hcol]; rfl, fun k hk => ?_, List.length_replicate, fun l hl => ?_,
    (by decide : -1 ≤ (-1 : Int) ∧ (-1 : Int) < 8)⟩
  · simp only [start, hw, hd, Option.bind_eq_bind, Option.bind_some]
    rfl
  · rw [hrow k hk]
    cases k with
    | zero => rfl
    | succ k => rfl
  · rw [(List.mem_replicate.1 hl).2, hempty]
    exact Nat.zero_le _

/-- Backspace in front of an empty line. -/
theorem backspace_leaves {font : List UInt8} {t : State} {s : Sheet} (h : Edits font true t s)
    (h0 : t.linebufIndex = 0) (keycode : UInt8)
    (cmd : Command) : ∃ t', next font t (.key keycode 8 cmd) = some t' ∧ ¬ Editing font t' := by
  have hz : (0 : Int32).toInt = 0 := rfl
  have hcol := h.column
  rw [h0, hz] at hcol
  obtain ⟨d, hd, h1⟩ := h.drawCursor false
  obtain ⟨d1, hd1, hr1⟩ := Edits.backspace_reads h1.reads (by omega)
  obtain ⟨d2, hd2, hr2⟩ := hr1.drawCursor true
  simp only [h0, if_neg (by decide : ¬ (0 : Int32) < 0)] at hd1
  refine ⟨{ t with display := d2, linebufIndex := 0 }, ?_, fun he => ?_⟩
  · have hkey : State.key font keycode 8 cmd { t with display := d } = State.backspace { t with display := d } := rfl
    rw [next, State.inputKey, hd, Option.bind_eq_bind, Option.bind_some, hkey, h0, hd1, Option.bind_eq_bind,
      Option.bind_some, hd2]
    rfl
  · have hcur := hr2.column
    have hbad := he.column
    simp only at hcur hbad
    rw [hcur, hz] at hbad
    omega

/-- **In every run whose inputs are kept, the line editor is in order in every state**, and no input fails. -/
theorem editing_of_kept (font : List UInt8) {w : Window} (hw : w.width = 496) (hh : w.height = 276) :
    ∃ t, start font w = some t ∧ ∀ inputs : List Input, Throughout (next font) (Kept font) t inputs →
      (exec (next font) t inputs).isSome ∧ States (next font) (Editing font) t inputs := by
  obtain ⟨p, hs⟩ := Window.exists_shows (W := 496) (H := 276) (by rw [hw]; rfl) (by rw [hh]; rfl) (by decide)
  obtain ⟨t, ht, _, s, he⟩ := start_edits font hs
  have hstep : ∀ t e t', (∃ s, Edits font true t s) → Kept font t e → next font t e = some t' →
      ∃ s, Edits font true t' s := by
    rintro t e t' ⟨s, h⟩ hk hn
    obtain ⟨t1, h1, hs1⟩ := h.next hk
    cases hn.symm.trans h1
    exact hs1
  refine ⟨t, ht, fun inputs hk => ⟨?_, ?_⟩⟩
  · refine (throughout_iff_exec hstep (Q := fun _ _ => True) ?_ inputs ⟨s, he⟩ hk).1 (hk.mono (fun _ _ _ => trivial) inputs)
    rintro t e ⟨s, h⟩ hk
    obtain ⟨t1, h1, _⟩ := h.next hk
    rw [h1]
    exact iff_of_true trivial rfl
  · refine (hk.along.states hstep inputs ⟨s, he⟩).mono ?_ inputs
    rintro t ⟨s, h⟩
    exact h.editing

def blankWindow : Window := Window.blank 496 276 (by decide)

def noCommand : Command := ⟨[], Vector.replicate 128 0⟩

/-- Two characters, and the history up and down. -/
theorem editing_of_kept_arrows : ∃ t, start [] blankWindow = some t ∧
    States (next []) (Editing []) t [.key 0 97 noCommand, .key 0x52 0 noCommand, .key 0 98 noCommand,
      .key 0x51 0 noCommand] := by
  obtain ⟨t, ht, hrun⟩ := editing_of_kept [] (w := blankWindow) rfl rfl
  have hkept : ∀ (t : State) (keycode ascii : UInt8), ascii ≠ 8 → ascii ≠ 10 → Kept [] t (.key keycode ascii noCommand) :=
    fun _ _ _ h8 h10 => ⟨fun h => absurd h h8, fun h => absurd h h10⟩
  have hall : Throughout (next []) (Kept []) t
      [.key 0 97 noCommand, .key 0x52 0 noCommand, .key 0 98 noCommand, .key 0x51 0 noCommand] :=
    ⟨hkept _ _ _ (by decide) (by decide), fun _ _ => ⟨hkept _ _ _ (by decide) (by decide), fun _ _ =>
      ⟨hkept _ _ _ (by decide) (by decide), fun _ _ => ⟨hkept _ _ _ (by decide) (by decide), fun _ _ => trivial⟩⟩⟩⟩
  exact ⟨t, ht, (hrun _ hall).2⟩

/-- The first key is Backspace. -/
theorem backspace_deletes_prompt : ¬ ∀ (font : List UInt8) (w : Window) (t : State) (inputs : List Input),
    w.width = 496 → w.height = 276 → start font w = some t → States (next font) (Editing font) t inputs := by
  intro h
  obtain ⟨p, hs⟩ := Window.exists_shows (w := blankWindow) (W := 496) (H := 276) rfl rfl (by decide)
  obtain ⟨t, ht, h0, s, he⟩ := start_edits [] hs
  obtain ⟨t', ht', hbad⟩ := backspace_leaves he h0 42 noCommand
  exact hbad ((h [] blankWindow t [.key 42 8 noCommand] rfl rfl ht).2 t' ht')

end KinOS.Terminal
