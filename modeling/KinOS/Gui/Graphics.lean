import KinOS.Gui.Layer
import KinOS.Lib.Int32

/-!
# What gui draws

| here | there |
| --- | --- |
| `Rectangle`, `inter`           | `Rectangle<int>` and its `&` (`libs/common/template.hpp:53-75`) |
| `fillRectangle`, `toColor`     | `FillRectangle`, `ToColor` (`servers/gui/graphics.cpp:48-55`, `graphics.hpp:13-17`) |
| `getFont`, `writeAscii`, `writeString` | `GetFont`, `WriteAscii`, `WriteString` (`font.cpp`) |
| `drawWindowTitle`              | `DrawWindowTitle` (`window.cpp:40-63`) |
| `copyToFrameBuffer`, `blits`   | `ShadowBuffer::CopyToFrameBuffer` (`shadow_buffer.cpp:36-60`), `Window::DrawTo` (`window.cpp:80-100`) |

A drawing function is the list of the pixels it writes, in order, with their colours. A row that is copied to the frame
buffer is the list of its pixels: which pixel of the screen, and which of the window. Positions are `int`s that go round.
`font` holds the bytes of the font that the build makes out of `hankaku.txt`.
-/

namespace KinOS.Gui

/-- `PixelColor` -/
structure PixelColor where
  r : UInt8
  g : UInt8
  b : UInt8
deriving DecidableEq, Repr

def toColor (c : UInt32) : PixelColor := ⟨((c >>> 16) &&& 0xff).toUInt8, ((c >>> 8) &&& 0xff).toUInt8, (c &&& 0xff).toUInt8⟩

/-! ## Rectangles -/

structure Rectangle where
  pos : Vec
  size : Vec
deriving DecidableEq, Repr

namespace Rectangle

/-- `lhs & rhs` -/
def inter (lhs rhs : Rectangle) : Rectangle :=
  let lhsEnd := lhs.pos + lhs.size
  let rhsEnd := rhs.pos + rhs.size
  if lhsEnd.x < rhs.pos.x ∨ lhsEnd.y < rhs.pos.y ∨ rhsEnd.x < lhs.pos.x ∨ rhsEnd.y < lhs.pos.y then ⟨⟨0, 0⟩, ⟨0, 0⟩⟩
  else
    let newPos := lhs.pos.elementMax rhs.pos
    let newSize := lhsEnd.elementMin rhsEnd - newPos
    ⟨newPos, newSize⟩

/-- The points of a rectangle, by the numbers it is made of. -/
def Covers (r : Rectangle) (p : Vec) : Prop :=
  (r.pos.x.toInt ≤ p.x.toInt ∧ p.x.toInt < r.pos.x.toInt + r.size.x.toInt) ∧
    (r.pos.y.toInt ≤ p.y.toInt ∧ p.y.toInt < r.pos.y.toInt + r.size.y.toInt)

instance (r : Rectangle) : DecidablePred r.Covers := fun _ => inferInstanceAs (Decidable (_ ∧ _))

end Rectangle

/-- A position of a window or of the screen of this size. -/
def Inside (size p : Vec) : Prop := (0 ≤ p.x ∧ p.x < size.x) ∧ (0 ≤ p.y ∧ p.y < size.y)

instance (size p : Vec) : Decidable (Inside size p) := inferInstanceAs (Decidable (_ ∧ _))

/-! ## Drawing -/

abbrev Pixels := List (Vec × PixelColor)

open Int32 (upTo)

def fillRectangle (pos size : Vec) (c : PixelColor) : Pixels :=
  (upTo 0 size.y).flatMap fun dy => (upTo 0 size.x).map fun dx => (pos + ⟨dx, dy⟩, c)

/-- The rows of a character, from `16 * static_cast<unsigned int>(c)` on; `char` is signed. -/
def getFont (font : List UInt8) (c : UInt8) : Option (List UInt8) :=
  let index := 16 * c.toInt8.toInt32.toUInt32
  if font.length ≤ index.toNat then none else some (font.drop index.toNat)

def writeAscii (font : List UInt8) (pos : Vec) (c : UInt8) (color : PixelColor) : Pixels :=
  match getFont font c with
  | none => []
  | some rows =>
    (List.range 16).flatMap fun dy =>
      ((List.range 8).filter fun dx => ((rows.getD dy 0).toNat <<< dx) &&& 0x80 ≠ 0).map fun dx =>
        (pos + ⟨Int32.ofNat dx, Int32.ofNat dy⟩, color)

/-- `s` is what stands before the terminating null. -/
def writeString (font : List UInt8) (pos : Vec) (s : List UInt8) (color : PixelColor) : Pixels :=
  s.zipIdx.flatMap fun (c, i) => writeAscii font (pos + ⟨8 * Int32.ofNat i, 0⟩) c color

/-! ## The frame of a window -/

def closeButton : List String :=
  ["...............@", ".:::::::::::::$@", ".:::::::::::::$@",
    ".:::@@::::@@::$@", ".::::@@::@@:::$@", ".:::::@@@@::::$@",
    ".::::::@@:::::$@", ".:::::@@@@::::$@", ".::::@@::@@:::$@",
    ".:::@@::::@@::$@", ".:::::::::::::$@", ".:::::::::::::$@",
    ".$$$$$$$$$$$$$$@", "@@@@@@@@@@@@@@@@"]

def closeColor (x y : Nat) : PixelColor :=
  let c := (closeButton.getD y "").toList.getD x ' '
  if c = '@' then toColor 0x000000
  else if c = '$' then toColor 0x848484
  else if c = ':' then toColor 0xc6c6c6
  else toColor 0xffffff

def drawCloseButton (size : Vec) : Pixels :=
  (List.range 14).flatMap fun y => (List.range 16).map fun x =>
    (⟨size.x - 5 - 16 + Int32.ofNat x, 5 + Int32.ofNat y⟩, closeColor x y)

def drawWindowTitle (font : List UInt8) (size : Vec) (title : List UInt8) (active : Bool) : Pixels :=
  let bgcolor := if active then 0x009b6b else 0x848484
  fillRectangle ⟨3, 3⟩ ⟨size.x - 6, 18⟩ (toColor bgcolor) ++ writeString font ⟨24, 4⟩ title (toColor 0xffffff) ++
    drawCloseButton size

/-! ## From a window to the screen -/

/-- The pixels that `CopyToFrameBuffer` copies: where to, and where from in a shadow buffer of the size `size`. -/
def copyToFrameBuffer (screen size pos : Vec) (area : Rectangle) : List (Vec × Vec) :=
  let copyAreaShifted : Rectangle := ⟨pos, area.size⟩
  let shadowBufferOutline : Rectangle := ⟨pos - area.pos, size⟩
  let frameBufferOutline : Rectangle := ⟨⟨0, 0⟩, screen⟩
  let copyArea := (frameBufferOutline.inter shadowBufferOutline).inter copyAreaShifted
  let shadowBufStartPos := copyArea.pos - (pos - area.pos)
  (upTo 0 copyArea.size.y).flatMap fun dy => (upTo 0 copyArea.size.x).map fun dx =>
    (copyArea.pos + ⟨dx, dy⟩, shadowBufStartPos + ⟨dx, dy⟩)

/-- The pixels `DrawTo` handles: their place on the screen and in the window. With a transparent colour the area is not
looked at. -/
def blits (screen : Vec) (transparent : Bool) (pos size : Vec) (area : Rectangle) : List (Vec × Vec) :=
  if transparent then
    (upTo (max 0 (0 - pos.y)) (min size.y (screen.y - pos.y))).flatMap fun y =>
      (upTo (max 0 (0 - pos.x)) (min size.x (screen.x - pos.x))).map fun x => (pos + ⟨x, y⟩, ⟨x, y⟩)
  else
    let intersection := area.inter ⟨pos, size⟩
    copyToFrameBuffer screen size intersection.pos ⟨intersection.pos - pos, intersection.size⟩

end KinOS.Gui
