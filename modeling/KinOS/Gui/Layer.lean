import Mathlib
/-!
# The layers, the mouse and the main loop of gui

| here | there |
| --- | --- |
| `Layer`, `LayerManager`, `upDown`, `hide`, `getHeight` | `LayerManager` (`servers/gui/layer.cpp:46-185`) |
| `removeLayer`                  | `LayerManager::RemoveLayer` (`layer.cpp:60-72`), which also edits `window_layer_id` |
| `ActiveLayer`, `activate`      | `ActiveLayer::Activate` (`layer.cpp:196-215`) |
| `getWindowRegion`              | `ToplevelWindow::GetWindowRegion`, `Window::GetWindowRegion` (`window.cpp`) |
| `onInterrupt`, `buttonEvent`   | `Mouse::OnInterrupt` (`mouse.cpp:106-155`) |
| `sendMouseMessage`, `sendCloseMessage` | `SendMouseMessage`, `SendCloseMessage` (`mouse.cpp:41-80`) |
| `initializeLayer`, `initializeMainWindow`, `initializeMouse` | the functions of these names |
| `turn`                         | one message of the main loop (`gui.cpp:60-226`) |

A layer is a heap object: `ptr` says which, `id` is the number clients know it by. `layer_stack_` holds pointers, `0` is
the null pointer. `none` is a null or dangling pointer that is followed. Pixels are left out: where a window is moved,
raised or closed the pointers that `Draw` follows are kept (`draw`). `Clear` of the console (F2) and the messages that only
draw (`other`) leave everything here as it is, and the pointers they follow are left out too.
-/

namespace KinOS.Gui

/-- `Vector2D<int>` -/
structure Vec where
  x : Int32
  y : Int32
deriving DecidableEq, Repr

namespace Vec

instance : Add Vec := ⟨fun a b => ⟨a.x + b.x, a.y + b.y⟩⟩
instance : Sub Vec := ⟨fun a b => ⟨a.x - b.x, a.y - b.y⟩⟩

def elementMin (a b : Vec) : Vec := ⟨min a.x b.x, min a.y b.y⟩
def elementMax (a b : Vec) : Vec := ⟨max a.x b.x, max a.y b.y⟩

end Vec

/-- `Layer` with what is read of its window: the size, and whether it is a `ToplevelWindow`. -/
structure Layer where
  ptr : Nat
  id : UInt32
  pos : Vec
  size : Vec
  toplevel : Bool
  draggable : Bool
deriving DecidableEq, Repr

inductive WindowRegion
  | titleBar | closeButton | border | other
deriving DecidableEq, Repr

namespace Layer

def getWindowRegion (l : Layer) (pos : Vec) : WindowRegion :=
  if l.toplevel then
    if pos.x < 2 ∨ l.size.x - 2 ≤ pos.x ∨ pos.y < 2 ∨ l.size.y - 2 ≤ pos.y then .border
    else if pos.y < 24 then
      if l.size.x - 5 - 16 ≤ pos.x ∧ pos.x < l.size.x - 5 ∧ 5 ≤ pos.y ∧ pos.y < 5 + 14 then .closeButton
      else .titleBar
    else .other
  else .other

/-- The test of `FindLayerByPosition`. -/
def under (l : Layer) (pos : Vec) : Bool :=
  let winEndPos := l.pos + l.size
  l.pos.x ≤ pos.x ∧ pos.x < winEndPos.x ∧ l.pos.y ≤ pos.y ∧ pos.y < winEndPos.y

end Layer

/-- `made` counts the calls of `NewLayer`. -/
structure LayerManager where
  layers : List Layer
  layerStack : List Nat
  made : Nat
deriving DecidableEq, Repr

namespace LayerManager

/-- `latest_id_`, an `unsigned int`. -/
def latestId (m : LayerManager) : UInt32 := UInt32.ofNat m.made

def findLayer (m : LayerManager) (id : UInt32) : Option Layer := m.layers.find? fun l => l.id = id

/-- The pointer `FindLayer` returns. -/
def pointer (m : LayerManager) (id : UInt32) : Nat := (m.findLayer id).elim 0 Layer.ptr

/-- What a pointer of `layer_stack_` points to. -/
def deref (m : LayerManager) (p : Nat) : Option Layer := m.layers.find? fun l => l.ptr = p

/-- `NewLayer().SetWindow(..).SetDraggable(..).Move(..)`; the layer is not on the stack yet. -/
def newLayer (m : LayerManager) (pos size : Vec) (toplevel draggable : Bool) : LayerManager :=
  { m with
    layers := m.layers ++ [⟨m.made + 1, UInt32.ofNat (m.made + 1), pos, size, toplevel, draggable⟩]
    made := m.made + 1 }

/-- `Draw` follows every pointer of the stack. -/
def draw (m : LayerManager) : Option Unit :=
  if m.layerStack.all fun p => (m.deref p).isSome then some () else none

/-- `Layer::Move` on the object at `p`. -/
def setPos (m : LayerManager) (p : Nat) (pos : Vec) : LayerManager :=
  { m with layers := m.layers.map fun l => if l.ptr = p then { l with pos := pos } else l }

def move (m : LayerManager) (id : UInt32) (newPos : Vec) : Option LayerManager := do
  let layer ← m.findLayer id
  let m := m.setPos layer.ptr newPos
  m.draw
  return m

def moveRelative (m : LayerManager) (id : UInt32) (posDiff : Vec) : Option LayerManager := do
  let layer ← m.findLayer id
  let m := m.setPos layer.ptr (layer.pos + posDiff)
  m.draw
  return m

def hide (m : LayerManager) (id : UInt32) : LayerManager :=
  { m with layerStack := m.layerStack.erase (m.pointer id) }

def upDown (m : LayerManager) (id : UInt32) (newHeight : Int) : LayerManager :=
  if newHeight < 0 then m.hide id
  else
    let newPos := min newHeight.toNat m.layerStack.length
    let layer := m.pointer id
    if layer ∈ m.layerStack then
      -- the position was taken before the erase: at the end it is moved one down
      let newPos := if newPos = m.layerStack.length then newPos - 1 else newPos
      { m with layerStack := (m.layerStack.erase layer).insertIdx newPos layer }
    else { m with layerStack := m.layerStack.insertIdx newPos layer }

def heightFrom (m : LayerManager) (id : UInt32) : Nat → List Nat → Option Int
  | _, [] => some (-1)
  | h, p :: ps => do
    let layer ← m.deref p
    if layer.id = id then some h else m.heightFrom id (h + 1) ps

def getHeight (m : LayerManager) (id : UInt32) : Option Int := m.heightFrom id 0 m.layerStack

/-- The search of `FindLayerByPosition`, from the top of the stack. -/
def findUnder (m : LayerManager) (pos : Vec) (excludeId : UInt32) : List Nat → Option (Option Layer)
  | [] => some none
  | p :: ps => do
    let layer ← m.deref p
    if layer.id ≠ excludeId ∧ layer.under pos then some (some layer) else m.findUnder pos excludeId ps

def findLayerByPosition (m : LayerManager) (pos : Vec) (excludeId : UInt32) : Option (Option Layer) :=
  m.findUnder pos excludeId m.layerStack.reverse

end LayerManager

structure ActiveLayer where
  activeLayer : UInt32
  mouseLayer : UInt32
deriving DecidableEq, Repr

structure Mouse where
  layerId : UInt32
  position : Vec
  dragLayerId : UInt32
  previousButtons : UInt8
deriving DecidableEq, Repr

structure Key where
  modifier : UInt8
  keycode : UInt8
  ascii : UInt8
  press : Int32
deriving DecidableEq, Repr

/-- What gui sends to a client. -/
inductive Reply
  | mouseMove (x y dx dy : Int32) (buttons : UInt8)
  | mouseButton (x y : Int32) (press : UInt8) (button : Nat)
  | keyPush (k : Key)
  | quit
  | layerId (id : UInt32)
deriving DecidableEq, Repr

/-- What gui receives. The messages that only draw are `other`. -/
inductive Msg
  | mouseMove (buttons : UInt8) (dx dy : Int32)
  | keyPush (k : Key)
  | openWindow (src : UInt64) (w h x y : Int32)
  | closeWindow (src : UInt64) (layerid : UInt32)
  | other
deriving DecidableEq, Repr

/-- The globals of gui. `sent` lists the messages it has sent, in order. -/
structure Desktop where
  screen : Vec
  manager : LayerManager
  active : ActiveLayer
  windowLayerId : List UInt32
  layerTaskMap : List (UInt32 × UInt64)
  mouse : Mouse
  sent : List (UInt64 × Reply)
deriving DecidableEq, Repr

namespace Desktop

def send (g : Desktop) (r : Reply) (task : UInt64) : Desktop := { g with sent := g.sent ++ [(task, r)] }

def setActive (g : Desktop) (id : UInt32) : Desktop := { g with active := { g.active with activeLayer := id } }

/-- The second half of `Activate`: the new active layer goes to the bottom, then below the mouse. -/
def bringUp (g : Desktop) : Option Desktop := do
  let id := g.active.activeLayer
  if 0 < id then
    let _ ← g.manager.findLayer id
    let m := g.manager.upDown id 0
    let h ← m.getHeight g.active.mouseLayer
    let m := m.upDown id (h - 1)
    m.draw
    return { g with manager := m }
  else return g

def activate (g : Desktop) (layerId : UInt32) : Option Desktop := do
  if g.active.activeLayer = layerId then return g
  if 0 < g.active.activeLayer then
    let _ ← g.manager.findLayer g.active.activeLayer
    g.manager.draw
  (g.setActive layerId).bringUp

def removeLayer (g : Desktop) (id : UInt32) : Desktop :=
  let m := g.manager.hide id
  { g with
    manager := { m with layers := m.layers.filter fun l => l.id ≠ id }
    windowLayerId := g.windowLayerId.filter fun i => i ≠ id }

/-- `FindActiveLayerTask`, once the layer and the task are there. -/
def findActiveLayerTask (g : Desktop) : Option (Layer × UInt64) :=
  if g.active.activeLayer = 0 then none
  else match g.manager.findLayer g.active.activeLayer, g.layerTaskMap.lookup g.active.activeLayer with
    | some layer, some task => if task = 0 then none else some (layer, task)
    | _, _ => none

def sendButtons (g : Desktop) (relpos : Vec) (buttons diff : UInt8) (task : UInt64) : Desktop :=
  (List.range 8).foldl (fun g i =>
    if diff.toNat.testBit i then
      g.send (.mouseButton relpos.x relpos.y (if buttons.toNat.testBit i then 1 else 0) i) task
    else g) g

def sendMouseMessage (g : Desktop) (newpos posdiff : Vec) (buttons previousButtons : UInt8) : Desktop :=
  match g.findActiveLayerTask with
  | none => g
  | some (layer, task) =>
    let relpos := newpos - layer.pos
    let g := if posdiff.x ≠ 0 ∨ posdiff.y ≠ 0 then
        g.send (.mouseMove relpos.x relpos.y posdiff.x posdiff.y buttons) task
      else g
    if previousButtons ≠ buttons then g.sendButtons relpos buttons (previousButtons ^^^ buttons) task else g

def sendCloseMessage (g : Desktop) : Desktop :=
  match g.findActiveLayerTask with
  | none => g
  | some (_, task) => g.send .quit task

def setDrag (g : Desktop) (id : UInt32) : Desktop := { g with mouse := { g.mouse with dragLayerId := id } }

/-- A press of the left button; the second component is `close_layer_id`. -/
def press (g : Desktop) : Option (Desktop × UInt32) := do
  let found ← g.manager.findLayerByPosition g.mouse.position g.mouse.layerId
  match found with
  | some layer =>
    if layer.draggable then
      let region := layer.getWindowRegion (g.mouse.position - layer.pos)
      let g := if region = .titleBar then g.setDrag layer.id else g
      let close := if region = .closeButton then g.mouse.layerId else 0
      let g ← g.activate layer.id
      return (g, close)
    else
      let g ← g.activate 0
      return (g, 0)
  | none =>
    let g ← g.activate 0
    return (g, 0)

def leftPressed (buttons : UInt8) : Bool := buttons.toNat.testBit 0

/-- The three cases of the left button. -/
def buttonEvent (g : Desktop) (buttons : UInt8) (posdiff : Vec) : Option (Desktop × UInt32) :=
  match leftPressed g.mouse.previousButtons, leftPressed buttons with
  | false, true => g.press
  | true, true => do
    if 0 < g.mouse.dragLayerId then
      let m ← g.manager.moveRelative g.mouse.dragLayerId posdiff
      return ({ g with manager := m }, 0)
    else return (g, 0)
  | true, false => some (g.setDrag 0, 0)
  | false, false => some (g, 0)

/-- The cursor is moved, within the screen. -/
def moveCursor (g : Desktop) (position : Vec) : Option Desktop := do
  let m ← g.manager.move g.mouse.layerId position
  return { g with manager := m, mouse := { g.mouse with position := position } }

/-- The end of `OnInterrupt`: what the client is told. -/
def report (g : Desktop) (close : UInt32) (newpos posdiff : Vec) (buttons : UInt8) : Desktop :=
  if g.mouse.dragLayerId = 0 then
    if close = 0 then g.sendMouseMessage newpos posdiff buttons g.mouse.previousButtons else g.sendCloseMessage
  else g

def setButtons (g : Desktop) (buttons : UInt8) : Desktop := { g with mouse := { g.mouse with previousButtons := buttons } }

def onInterrupt (g : Desktop) (buttons : UInt8) (dx dy : Int8) : Option Desktop := do
  let oldpos := g.mouse.position
  let newpos := (oldpos + ⟨dx.toInt32, dy.toInt32⟩).elementMin (g.screen + ⟨-1, -1⟩)
  let position := newpos.elementMax ⟨0, 0⟩
  let posdiff := position - oldpos
  let g ← g.moveCursor position
  let (g, close) ← g.buttonEvent buttons posdiff
  return (g.report close newpos posdiff buttons).setButtons buttons

/-- The loop over `window_layer_id`: what follows the active id, the first id after the last. -/
def nextWindow (first act : UInt32) : List UInt32 → UInt32 → UInt32
  | [], next => next
  | a :: rest, next => nextWindow first act rest (if act = a then rest.headD first else next)

def onKeyPush (g : Desktop) (k : Key) : Option Desktop :=
  if k.ascii = 9 then
    if k.press ≠ 0 then do
      let first ← g.windowLayerId.head?
      g.activate (nextWindow first g.active.activeLayer g.windowLayerId first)
    else some g
  else if k.press ≠ 0 ∧ k.keycode = 59 then some g
  else match g.layerTaskMap.lookup g.active.activeLayer with
    | some task =>
      if k.keycode = 20 ∧ k.modifier &&& (1 ||| 16) ≠ 0 then some (g.send .quit task) else some (g.send (.keyPush k) task)
    | none => some g

def onOpenWindow (g : Desktop) (src : UInt64) (w h x y : Int32) : Option Desktop := do
  let m := g.manager.newLayer ⟨x, y⟩ ⟨w, h⟩ true true
  let layerId := m.latestId
  let g ← { g with manager := m }.activate layerId
  let g := { g with windowLayerId := g.windowLayerId ++ [layerId] }
  let g := g.send (.layerId layerId) src
  -- `std::map::insert` keeps an entry that is there
  return if (g.layerTaskMap.lookup layerId).isSome then g else { g with layerTaskMap := g.layerTaskMap ++ [(layerId, src)] }

def onCloseWindow (g : Desktop) (layerid : UInt32) : Option Desktop :=
  match g.manager.findLayer layerid with
  | none => some g
  | some _ => do
    let g ← g.activate 0
    let g := g.removeLayer layerid
    g.manager.draw
    return { g with layerTaskMap := g.layerTaskMap.filter fun e => e.1 ≠ layerid }

def turn (g : Desktop) : Msg → Option Desktop
  | .mouseMove buttons dx dy => g.onInterrupt buttons dx.toInt8 dy.toInt8
  | .keyPush k => g.onKeyPush k
  | .openWindow src w h x y => g.onOpenWindow src w h x y
  | .closeWindow _ layerid => g.onCloseWindow layerid
  | .other => some g

/-! ## Initialisation -/

/-- `std::numeric_limits<int>::max()` -/
def intMax : Int := 2147483647

/-- The desktop, then the console of 85 columns and 34 rows. -/
def initializeLayer (screen : Vec) : LayerManager :=
  let m := (LayerManager.mk [] [] 0).newLayer ⟨0, 0⟩ screen false false
  let bglayerId := m.latestId
  let m := m.newLayer ⟨0, 0⟩ ⟨85 * 8, 34 * 16⟩ false false
  let consoleId := m.latestId
  (m.upDown bglayerId 0).upDown consoleId 1

def initializeMainWindow (g : Desktop) : Desktop :=
  let m := g.manager.newLayer ⟨300, 100⟩ ⟨160, 68⟩ true true
  let id := m.latestId
  { g with manager := m.upDown id intMax, windowLayerId := g.windowLayerId ++ [id] }

def initializeMouse (g : Desktop) : Option Desktop := do
  let m := g.manager.newLayer ⟨0, 0⟩ ⟨15, 24⟩ false false
  let id := m.latestId
  let m ← m.move id ⟨200, 200⟩
  return { g with
    manager := m.upDown id intMax
    mouse := { layerId := id, position := ⟨200, 200⟩, dragLayerId := 0, previousButtons := 0 }
    active := { g.active with mouseLayer := id } }

def start (screen : Vec) : Option Desktop :=
  (Desktop.mk screen (initializeLayer screen) ⟨0, 0⟩ [] [] ⟨0, ⟨0, 0⟩, 0, 0⟩ []).initializeMainWindow.initializeMouse

end Desktop

end KinOS.Gui
