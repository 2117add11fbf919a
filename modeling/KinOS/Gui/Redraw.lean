import KinOS.Gui.Patches
import KinOS.Gui.LayerStack
import KinOS.Gui.TextGrid

/-!
# Incremental redraw

| here | there |
| --- | --- |
| `Desk`             | the layers, their windows and the frame buffer |
| `drawArea`, `drawId` | the two `LayerManager::Draw` (`servers/gui/layer.cpp:74-93`) |
| `move`, `moveRelative` | `LayerManager::Move`, `MoveRelative` (`layer.cpp:95-111`) |
| `setTitle`         | `Activate` and `Deactivate` of a window (`window.cpp:133-141`) |
| `activate`         | `ActiveLayer::Activate` (`layer.cpp:196-215`) |
| `close`            | `kCloseWindow` of the main loop (`gui.cpp:210-225`) |

A layer shows its `sheet`, and the picture is the composite of all sheets. None of the functions draws all of it: a point of
the screen is drawn by the layers from some layer upwards, or not at all. Either that layer covers the point, or nothing has
changed there (`Painter.Right`). The mouse is drawn whole whatever the area, which does no harm because it is the top layer.
-/

namespace KinOS.Gui

open Bytes Rectangle TransitionSystem

/-- `window` and `title` are those of the layer at a pointer. -/
structure Desk where
  manager : LayerManager
  active : ActiveLayer
  window : Nat → Window
  title : Nat → List UInt8
  frame : Mem

namespace Desk

/-- `Layer::DrawTo` -/
def drawTo (config : FrameBufferConfig) (d : Desk) (l : Layer) (area : Rectangle) (f : Mem) : Option Mem :=
  ((d.window l.ptr).drawTo config l.pos area).map (put f)

def drawLayers (config : FrameBufferConfig) (d : Desk) (area : Rectangle) : List Nat → Mem → Option Mem
  | [], f => some f
  | p :: ps, f => do
    let l ← d.manager.deref p
    let f ← d.drawTo config l area f
    drawLayers config d area ps f

def drawArea (config : FrameBufferConfig) (area : Rectangle) (d : Desk) : Option Desk := do
  let f ← d.drawLayers config area d.manager.layerStack d.frame
  return { d with frame := f }

/-- The loop of `Draw(id)`. There is a `window_area` once the layer has been found. -/
def drawFrom (config : FrameBufferConfig) (d : Desk) (id : UInt32) : Option Rectangle → List Nat → Mem → Option Mem
  | _, [], f => some f
  | windowArea, p :: ps, f => do
    let l ← d.manager.deref p
    let windowArea := if l.id = id then some ⟨l.pos, (d.window l.ptr).size⟩ else windowArea
    let f ← windowArea.elim (some f) fun area => d.drawTo config l area f
    drawFrom config d id windowArea ps f

def drawId (config : FrameBufferConfig) (id : UInt32) (d : Desk) : Option Desk := do
  let f ← d.drawFrom config id none d.manager.layerStack d.frame
  return { d with frame := f }

def move (config : FrameBufferConfig) (id : UInt32) (newPos : Vec) (d : Desk) : Option Desk := do
  let layer ← d.manager.findLayer id
  let windowSize := (d.window layer.ptr).size
  let oldPos := layer.pos
  let d ← { d with manager := d.manager.setPos layer.ptr newPos }.drawArea config ⟨oldPos, windowSize⟩
  d.drawId config id

def moveRelative (config : FrameBufferConfig) (id : UInt32) (posDiff : Vec) (d : Desk) : Option Desk := do
  let layer ← d.manager.findLayer id
  let windowSize := (d.window layer.ptr).size
  let oldPos := layer.pos
  let d ← { d with manager := d.manager.setPos layer.ptr (layer.pos + posDiff) }.drawArea config ⟨oldPos, windowSize⟩
  d.drawId config id

def setWindow (ptr : Nat) (w : Window) (d : Desk) : Desk := { d with window := fun p => if p = ptr then w else d.window p }

def setTitle (font : List UInt8) (active : Bool) (l : Layer) (d : Desk) : Option Desk :=
  if l.toplevel then do
    let w ← (d.window l.ptr).draw (drawWindowTitle font (d.window l.ptr).size (d.title l.ptr) active)
    return d.setWindow l.ptr w
  else some d

/-- The layer that was active until now. -/
def deactivate (font : List UInt8) (config : FrameBufferConfig) (d : Desk) : Option Desk :=
  if 0 < d.active.activeLayer then do
    let layer ← d.manager.findLayer d.active.activeLayer
    let d' ← d.setTitle font false layer
    d'.drawId config d.active.activeLayer
  else some d

def bringUp (font : List UInt8) (config : FrameBufferConfig) (d : Desk) : Option Desk :=
  let id := d.active.activeLayer
  if 0 < id then do
    let layer ← d.manager.findLayer id
    let d ← d.setTitle font true layer
    let m := d.manager.upDown id 0
    let height ← m.getHeight d.active.mouseLayer
    { d with manager := m.upDown id (height - 1) }.drawId config id
  else some d

def activate (font : List UInt8) (config : FrameBufferConfig) (layerId : UInt32) (d : Desk) : Option Desk :=
  if d.active.activeLayer = layerId then some d
  else do
    let d ← d.deactivate font config
    { d with active := { d.active with activeLayer := layerId } }.bringUp font config

def removeLayer (id : UInt32) (d : Desk) : Desk :=
  let m := d.manager.hide id
  { d with manager := { m with layers := m.layers.filter fun l => l.id ≠ id } }

def close (font : List UInt8) (config : FrameBufferConfig) (id : UInt32) (d : Desk) : Option Desk :=
  (d.manager.findLayer id).elim (some d) fun layer => do
    let layerPos := layer.pos
    let winSize := (d.window layer.ptr).size
    let d ← d.activate font config 0
    (d.removeLayer id).drawArea config ⟨layerPos, winSize⟩

end Desk

inductive Change
  | move (id : UInt32) (newPos : Vec)
  | moveRelative (id : UInt32) (posDiff : Vec)
  | activate (id : UInt32)
  | close (id : UInt32)

def Desk.step (font : List UInt8) (config : FrameBufferConfig) (d : Desk) : Change → Option Desk
  | .move id newPos => d.move config id newPos
  | .moveRelative id posDiff => d.moveRelative config id posDiff
  | .activate id => d.activate font config id
  | .close id => d.close font config id

namespace Desk

/-! ## The picture -/

/-- What the layer at a pointer shows at a point of the screen. -/
def sheet (d : Desk) (ptr : Nat) (p : Vec) : Option PixelColor := (d.manager.deref ptr).bind fun l =>
    (d.window ptr).sheet l.pos p

/-- What is drawn of it in an area. -/
def patch (d : Desk) (area : Rectangle) (ptr : Nat) (p : Vec) : Option PixelColor :=
  (d.manager.deref ptr).bind fun l => (d.window ptr).patch l.pos area p

/-- The colour of the highest layer that has one at this point. -/
def composite (d : Desk) (p : Vec) : Option PixelColor := Painter.composite (d.manager.layerStack.map d.sheet) p

/-- The screen shows the picture. -/
def Shows (config : FrameBufferConfig) (d : Desk) : Prop :=
  ∀ p, Inside config.screenSize p → ∀ c, d.composite p = some c → config.shown d.frame p = c

/-- The title has its place in the window: the constructor has drawn it there. -/
def Titled (font : List UInt8) (w : Window) (title : List UInt8) : Prop :=
  ∀ active, ∀ e ∈ drawWindowTitle font w.size title active, Inside w.size e.1

/-- The mouse is the top layer and the only one that may have a transparent colour; the layers are there, the windows
have all their bytes and those with a title have room for it. -/
structure Ready (font : List UInt8) (d : Desk) : Prop where
  numbered : d.manager.Numbered
  nodup : d.manager.layerStack.Nodup
  present : ∀ p ∈ d.manager.layerStack, p ∈ d.manager.ptrs
  top : ∃ rest, d.manager.layerStack = rest ++ [d.active.mouseLayer.toNat]
  plain : ∀ p ∈ d.manager.ptrs, p ≠ d.active.mouseLayer.toNat → (d.window p).transparentColor = none
  buffered : ∀ p, (d.window p).Buffered
  titled : ∀ l ∈ d.manager.layers, l.toplevel = true → Titled font (d.window l.ptr) (d.title l.ptr)
  active : d.active.activeLayer = 0 ∨ d.active.activeLayer.toNat ∈ d.manager.ptrs ∧
    d.active.activeLayer ≠ d.active.mouseLayer

/-- What is moved or activated is there. The mouse is a layer, but no window. -/
def Allowed (d : Desk) : Change → Prop
  | .move id _ | .moveRelative id _ => id.toNat ∈ d.manager.ptrs
  | .activate id => id = 0 ∨ id.toNat ∈ d.manager.ptrs ∧ id ≠ d.active.mouseLayer
  | .close id => id ≠ d.active.mouseLayer

instance (d : Desk) : ∀ c, Decidable (d.Allowed c)
  | .move _ _ | .moveRelative _ _ => inferInstanceAs (Decidable (_ ∈ _))
  | .activate _ => inferInstanceAs (Decidable (_ ∨ _ ∧ _))
  | .close _ => inferInstanceAs (Decidable (_ ≠ _))

/-! ## Drawing -/

section

variable {font : List UInt8} {config : FrameBufferConfig} {d d' : Desk} {area : Rectangle} {q : Vec} {f f' : Mem}
  {ps : List Nat}

/-- The layers of `ps` have been drawn in the area. -/
def Painted (config : FrameBufferConfig) (d : Desk) (area : Rectangle) (ps : List Nat) (f f' : Mem) : Prop :=
  ∀ q, Inside config.screenSize q → config.shown f' q = (Painter.composite (ps.map (d.patch area)) q).getD (config.shown f q)

/-- The point has the colour of the picture. -/
def RightAt (config : FrameBufferConfig) (d : Desk) (f : Mem) (q : Vec) : Prop :=
  Painter.Right (d.manager.layerStack.map d.sheet) q (config.shown f q)

theorem drawLayers_painted (hs : config.Addressable) (hf : config.pixelFormat = .bgrResv8BitPerColor)
    (hb : ∀ p, (d.window p).Buffered) (ha : Whole area.size) : ∀ {ps : List Nat}, (∀ p ∈ ps, p ∈ d.manager.ptrs) → ∀ f,
      ∃ f', d.drawLayers config area ps f = some f' ∧ Painted config d area ps f f' := by
  intro ps
  induction ps with
  | nil => exact fun _ f => ⟨f, rfl, fun _ _ => rfl⟩
  | cons p ps ih =>
    intro hps f
    obtain ⟨l, hl⟩ := Option.isSome_iff_exists.1 (LayerManager.deref_isSome.2 (hps p (List.mem_cons_self ..)))
    obtain ⟨-, rfl⟩ := LayerManager.deref_some hl
    obtain ⟨drawn, hd, hshown⟩ := Window.drawTo_shown hs hf (hb l.ptr) ha l.pos
    obtain ⟨f', hf', hpaint⟩ := ih (fun p' hp' => hps p' (List.mem_cons_of_mem _ hp')) (put f drawn)
    refine ⟨f', ?_, fun q hq => ?_⟩
    · rw [drawLayers, hl, Option.bind_eq_bind, Option.bind_some, drawTo, hd]
      exact hf'
    · have hpatch : d.patch area l.ptr q = (d.window l.ptr).patch l.pos area q := by
        rw [patch, hl]
        rfl
      rw [hpaint q hq, hshown f q hq, List.map_cons, Painter.composite_cons, hpatch]
      cases Painter.composite (ps.map (d.patch area)) q <;> rfl

theorem id_iff (h : d.manager.Numbered) {l : Layer} {p : Nat} (hl : d.manager.deref p = some l)
    {id : UInt32} : l.id = id ↔ p = id.toNat := by
  obtain ⟨hmem, rfl⟩ := LayerManager.deref_some hl
  rw [← h.id l hmem, UInt32.toNat_inj]

/-- Behind the layer, its rectangle is the area of all. -/
theorem drawFrom_behind (h : d.manager.Numbered) {id : UInt32} : ∀ {ps : List Nat}, id.toNat ∉ ps → ∀ f,
    d.drawFrom config id (some area) ps f = d.drawLayers config area ps f := by
  intro ps
  induction ps with
  | nil => exact fun _ _ => rfl
  | cons p ps ih =>
    intro hni f
    rw [List.mem_cons, not_or] at hni
    rw [drawFrom, drawLayers]
    cases hl : d.manager.deref p with
    | none => rfl
    | some l =>
      have hid : l.id ≠ id := fun he => hni.1 ((id_iff h hl).1 he).symm
      simp only [Option.bind_eq_bind, Option.bind_some, if_neg hid, Option.elim_some, ih hni.2]

/-- In front of the layer, nothing is drawn. -/
theorem drawFrom_before (h : d.manager.Numbered) {id : UInt32} {post : List Nat} : ∀ {pre : List Nat},
    (∀ p ∈ pre, p ∈ d.manager.ptrs) →
    id.toNat ∉ pre → ∀ f, d.drawFrom config id none (pre ++ post) f = d.drawFrom config id none post f := by
  intro pre
  induction pre with
  | nil => exact fun _ _ _ => rfl
  | cons p pre ih =>
    intro hps hni f
    rw [List.mem_cons, not_or] at hni
    obtain ⟨l, hl⟩ := Option.isSome_iff_exists.1 (LayerManager.deref_isSome.2 (hps p (List.mem_cons_self ..)))
    have hid : l.id ≠ id := fun he => hni.1 ((id_iff h hl).1 he).symm
    rw [List.cons_append, drawFrom, hl]
    simp only [Option.bind_eq_bind, Option.bind_some, if_neg hid, Option.elim_none]
    exact ih (fun p' hp' => hps p' (List.mem_cons_of_mem _ hp')) hni.2 f

theorem drawFrom_at (h : d.manager.Numbered) {id : UInt32} {l : Layer} (hl : d.manager.deref id.toNat = some l)
    {post : List Nat} (hni : id.toNat ∉ post) (f : Mem) :
    d.drawFrom config id none (id.toNat :: post) f = d.drawLayers config ⟨l.pos, (d.window l.ptr).size⟩
      (id.toNat :: post) f := by
  have hid : l.id = id := (id_iff h hl).2 rfl
  rw [drawFrom, drawLayers, hl]
  simp only [Option.bind_eq_bind, Option.bind_some, if_pos hid, Option.elim_some, drawFrom_behind h hni]

/-! ## Points that are right -/

theorem patch_of_covers (h : area.Covers q) (p : Nat) : d.patch area p q = d.sheet p q := by
  unfold patch sheet
  cases d.manager.deref p with
  | none => rfl
  | some l => exact Window.patch_of_covers h

theorem patch_of_plain {p : Nat} (ht : (d.window p).transparentColor = none) (h : ¬ area.Covers q) :
    d.patch area p q = none := by
  unfold patch
  cases d.manager.deref p with
  | none => rfl
  | some l => exact Window.patch_of_plain ht h

theorem patch_of_transparent {p : Nat} (ht : (d.window p).transparentColor ≠ none) : d.patch area p q = d.sheet p q := by
  unfold patch sheet
  cases d.manager.deref p with
  | none => rfl
  | some l => exact Window.patch_of_transparent ht

/-- What is drawn of the layers from some layer upwards is what the layers from some layer upwards show. -/
theorem patches_eq (hr : d.Ready font) {pre ps : List Nat} (hstack : d.manager.layerStack = pre ++ ps)
    (area : Rectangle) (q : Vec) :
    ∃ pre' post, d.manager.layerStack = pre' ++ post ∧
      Painter.composite (ps.map (d.patch area)) q = Painter.composite (post.map d.sheet) q := by
  by_cases hq : area.Covers q
  · exact ⟨pre, ps, hstack, Painter.composite_congr fun p _ => patch_of_covers hq p⟩
  · obtain ⟨rest, hrest⟩ := hr.top
    have hplain : ∀ p ∈ rest, d.patch area p q = none := by
      intro p hp
      have hmem : p ∈ d.manager.layerStack := hrest ▸ List.mem_append_left _ hp
      refine patch_of_plain (hr.plain p (hr.present p hmem) fun he => ?_) hq
      have hnd := hr.nodup
      rw [hrest] at hnd
      exact List.disjoint_of_nodup_append hnd hp (List.mem_singleton.2 he)
    rcases List.eq_nil_or_concat ps with rfl | ⟨init, m, rfl⟩
    · exact ⟨d.manager.layerStack, [], (List.append_nil _).symm, rfl⟩
    · -- the mouse alone
      rw [List.concat_eq_append, ← List.append_assoc] at hstack
      obtain ⟨hinit, hm⟩ := List.append_inj' (hrest.symm.trans hstack) rfl
      have hnone : Painter.composite (init.map (d.patch area)) q = none :=
        Painter.composite_none fun s hs => by
          obtain ⟨p, hp, rfl⟩ := List.mem_map.1 hs
          exact hplain p (hinit ▸ List.mem_append_right _ hp)
      rw [List.concat_eq_append, List.map_append, Painter.composite_append, hnone, Option.or_none]
      by_cases ht : (d.window m).transparentColor = none
      · refine ⟨d.manager.layerStack, [], (List.append_nil _).symm, ?_⟩
        simp only [List.map_cons, List.map_nil, Painter.composite_cons, Painter.composite_nil, patch_of_plain ht hq,
          Option.or_none]
      · refine ⟨_, [m], hstack, ?_⟩
        simp only [List.map_cons, List.map_nil, Painter.composite_cons, Painter.composite_nil, patch_of_transparent ht]

/-- A point that is right stays right. -/
theorem Painted.keep (hp : Painted config d area ps f f') (hr : d.Ready font) {pre : List Nat}
    (hstack : d.manager.layerStack = pre ++ ps)
    (hq : Inside config.screenSize q) (h : RightAt config d f q) : RightAt config d f' q := by
  obtain ⟨pre', post, hpost, heq⟩ := patches_eq hr hstack area q
  unfold RightAt at h ⊢
  rw [hp q hq, heq]
  rw [hpost, List.map_append] at h ⊢
  exact h.repaint

/-- A point in the area becomes right if one of the layers shows something there. -/
theorem Painted.hit (hp : Painted config d area ps f f') {pre : List Nat} (hstack : d.manager.layerStack = pre ++ ps)
    (hq : Inside config.screenSize q) (ha : area.Covers q) (h : (Painter.composite (ps.map d.sheet) q).isSome) :
    RightAt config d f' q := by
  have heq : Painter.composite (ps.map (d.patch area)) q = Painter.composite (ps.map d.sheet) q :=
    Painter.composite_congr fun p _ => patch_of_covers ha p
  unfold RightAt
  rw [hp q hq, heq, hstack, List.map_append]
  exact Painter.right_of_isSome h _

/-- `Draw(area)` -/
theorem drawArea_right (hs : config.Addressable) (hf : config.pixelFormat = .bgrResv8BitPerColor) (hr : d.Ready font)
    (ha : Whole area.size) : ∃ f', d.drawArea config area = some { d with frame := f' } ∧ ∀ q, Inside config.screenSize q →
      RightAt config d d.frame q ∨ area.Covers q → RightAt config d f' q := by
  obtain ⟨f', hf', hpaint⟩ := drawLayers_painted hs hf hr.buffered ha hr.present d.frame
  refine ⟨f', ?_, fun q hq h => ?_⟩
  · rw [drawArea, hf']
    rfl
  · rcases h with h | h
    · exact hpaint.keep hr (List.nil_append _).symm hq h
    · unfold RightAt
      rw [hpaint q hq, Painter.composite_congr fun p _ => patch_of_covers h p]
      exact Painter.right_of_all _ _

/-- `Draw(id)` -/
theorem drawId_right (hs : config.Addressable) (hf : config.pixelFormat = .bgrResv8BitPerColor) (hr : d.Ready font)
    (id : UInt32) :
    ∃ f', d.drawId config id = some { d with frame := f' } ∧ ∀ q, Inside config.screenSize q →
      RightAt config d d.frame q ∨ id.toNat ∈ d.manager.layerStack ∧ (d.sheet id.toNat q).isSome →
        RightAt config d f' q := by
  unfold drawId
  by_cases hmem : id.toNat ∈ d.manager.layerStack
  · obtain ⟨pre, post, hstack⟩ := List.append_of_mem hmem
    have hnd := hr.nodup
    rw [hstack] at hnd
    have hpre : id.toNat ∉ pre := fun h => List.disjoint_of_nodup_append hnd h (List.mem_cons_self ..)
    have hpost : id.toNat ∉ post := (List.nodup_cons.1 hnd.of_append_right).1
    obtain ⟨l, hl⟩ := Option.isSome_iff_exists.1 (LayerManager.deref_isSome.2 (hr.present _ hmem))
    have hpresent := hr.present
    rw [hstack] at hpresent
    have ha : Whole (⟨l.pos, (d.window l.ptr).size⟩ : Rectangle).size := (hr.buffered l.ptr).whole
    obtain ⟨f', hf', hpaint⟩ :=
      drawLayers_painted hs hf hr.buffered ha (fun p hp => hpresent p (List.mem_append_right _ hp)) d.frame
    refine ⟨f', ?_, fun q hq h => ?_⟩
    · rw [hstack, drawFrom_before hr.numbered (fun p hp => hpresent p (List.mem_append_left _ hp)) hpre,
        drawFrom_at hr.numbered hl hpost, hf']
      rfl
    · rcases h with h | ⟨-, h⟩
      · exact hpaint.keep hr hstack hq h
      · obtain ⟨-, hptr⟩ := LayerManager.deref_some hl
        have hcov : Covers ⟨l.pos, (d.window l.ptr).size⟩ q := by
          by_contra hn
          rw [sheet, hl, Option.bind_some, ← hptr, Window.sheet_of_not_covers hn] at h
          cases h
        refine hpaint.hit hstack hq hcov ?_
        obtain ⟨c, hc⟩ := Option.isSome_iff_exists.1 h
        rw [List.map_cons, Painter.composite_cons, hc]
        cases Painter.composite (post.map d.sheet) q <;> rfl
  · refine ⟨d.frame, ?_, fun q hq h => h.elim (fun h => h) fun h => absurd h.1 hmem⟩
    have hsame : d.drawFrom config id none (d.manager.layerStack ++ []) d.frame = d.drawFrom config id none [] d.frame :=
      drawFrom_before hr.numbered hr.present hmem d.frame
    rw [List.append_nil] at hsame
    rw [hsame]
    rfl

/-! ## What changes a picture -/

/-- The pictures differ by one layer: its place in the stack, its position or what is in its window. -/
structure Differ (d d' : Desk) (k : Nat) : Prop where
  stack : d'.manager.layerStack.erase k = d.manager.layerStack.erase k
  sheet : ∀ p, p ≠ k → d'.sheet p = d.sheet p

/-- Where the layer shows nothing in either, they are the same. -/
theorem Differ.composite_eq {k : Nat} (h : Differ d d' k) (hnd : d.manager.layerStack.Nodup)
    (hk : k ∈ d.manager.layerStack → d.sheet k q = none) (hk' : k ∈ d'.manager.layerStack → d'.sheet k q = none) :
    Painter.composite (d'.manager.layerStack.map d'.sheet) q = Painter.composite (d.manager.layerStack.map d.sheet) q := by
  have herase : ∀ (e : Desk), (k ∈ e.manager.layerStack → e.sheet k q = none) →
      Painter.composite ((e.manager.layerStack.erase k).map e.sheet) q = Painter.composite
        (e.manager.layerStack.map e.sheet) q := by
    intro e he
    by_cases hmem : k ∈ e.manager.layerStack
    · exact Painter.composite_erase (he hmem) _
    · rw [List.erase_of_not_mem hmem]
  rw [← herase d' hk', ← herase d hk, h.stack]
  refine Painter.composite_congr fun p hp => ?_
  rw [h.sheet p (hnd.mem_erase_iff.1 hp).1]

theorem Differ.right {k : Nat} (h : Differ d d' k) (hnd : d.manager.layerStack.Nodup)
    (hk : k ∈ d.manager.layerStack → d.sheet k q = none) (hk' : k ∈ d'.manager.layerStack → d'.sheet k q = none)
    (hright : RightAt config d f q) : RightAt config d' f q := by
  unfold RightAt Painter.Right at hright ⊢
  rw [h.composite_eq hnd hk hk']
  exact hright

/-- `Draw(id)` after a change that leaves the layer where it covers what it covered. -/
theorem Differ.drawId_shows {id : UInt32} (h : Differ d d' id.toNat) (hs : config.Addressable)
    (hf : config.pixelFormat = .bgrResv8BitPerColor)
    (hr : d'.Ready font) (hnd : d.manager.layerStack.Nodup) (hframe : d'.frame = d.frame) (hshow : d.Shows config)
    (hmem : id.toNat ∈ d.manager.layerStack → id.toNat ∈ d'.manager.layerStack)
    (hcov : ∀ q, d'.sheet id.toNat q = none → d.sheet id.toNat q = none) :
    ∃ f', d'.drawId config id = some { d' with frame := f' } ∧ Shows config { d' with frame := f' } := by
  obtain ⟨f', hf', hright⟩ := drawId_right hs hf hr id
  refine ⟨f', hf', fun q hq => hright q hq ?_⟩
  rw [hframe]
  by_cases hin : id.toNat ∈ d'.manager.layerStack
  · cases hsheet : d'.sheet id.toNat q with
    | none => exact .inl (h.right hnd (fun _ => hcov q hsheet) (fun _ => hsheet) (hshow q hq))
    | some c => exact .inr ⟨hin, rfl⟩
  · exact .inl (h.right hnd (fun hk => absurd (hmem hk) hin) (fun hk => absurd hk hin) (hshow q hq))

/-- A plain layer shows something exactly where it lies. -/
theorem sheet_isSome_iff (hr : d.Ready font) {l : Layer} {k : Nat} (hl : d.manager.deref k = some l)
    (hne : k ≠ d.active.mouseLayer.toNat) : (d.sheet k q).isSome ↔ Covers ⟨l.pos, (d.window k).size⟩ q := by
  have hk : k ∈ d.manager.ptrs := LayerManager.deref_isSome.1 (by rw [hl]; rfl)
  rw [sheet, hl, Option.bind_some]
  refine ⟨fun h => ?_, Window.sheet_isSome (hr.plain k hk hne) (hr.buffered k)⟩
  by_contra hn
  rw [Window.sheet_of_not_covers hn] at h
  cases h

/-! ## Windows -/

/-- A window that has been drawn on. -/
structure Redrawn (w w' : Window) : Prop where
  size : w'.size = w.size
  buffered : w'.Buffered
  transparent : w'.transparentColor = w.transparentColor

theorem redrawn_of_draw : ∀ {ps : Pixels} {w : Window}, w.Buffered → (∀ e ∈ ps, Inside w.size e.1) →
    ∃ w', w.draw ps = some w' ∧ Redrawn w w' := by
  intro ps
  induction ps with
  | nil => exact fun hb _ => ⟨_, rfl, rfl, hb, rfl⟩
  | cons e ps ih =>
    intro w hb hin
    obtain ⟨w1, h1, hsize, hb1, -⟩ := hb.write (hin e (List.mem_cons_self ..)) e.2
    obtain ⟨w2, h2, hr⟩ := ih hb1 fun e' he' => hsize ▸ hin e' (List.mem_cons_of_mem _ he')
    refine ⟨w2, ?_, hr.size.trans hsize, hr.buffered, hr.transparent.trans (Window.write_some h1).2.2.1⟩
    rw [Window.draw, List.foldlM_cons, h1]
    exact h2

/-- `Activate` and `Deactivate` of a window draw on it, or do nothing. -/
theorem setTitle_redrawn (hr : d.Ready font) {l : Layer} (hl : l ∈ d.manager.layers) (active : Bool) :
    ∃ w, d.setTitle font active l = some (d.setWindow l.ptr w) ∧ Redrawn (d.window l.ptr) w := by
  unfold setTitle
  by_cases ht : l.toplevel = true
  · obtain ⟨w, hw, hre⟩ := redrawn_of_draw (hr.buffered l.ptr) (hr.titled l hl ht active)
    rw [if_pos ht, hw]
    exact ⟨w, rfl, hre⟩
  · have hsame : d.setWindow l.ptr (d.window l.ptr) = d := by
      have hw : (fun p => if p = l.ptr then d.window l.ptr else d.window p) = d.window := by
        funext p
        split
        · next he => rw [he]
        · rfl
      rw [setWindow, hw]
    rw [if_neg ht]
    exact ⟨d.window l.ptr, by rw [hsame], rfl, hr.buffered l.ptr, rfl⟩

theorem setWindow_size {k : Nat} {w : Window} (h : Redrawn (d.window k) w)
    (p : Nat) : ((d.setWindow k w).window p).size = (d.window p).size := by
  simp only [setWindow]
  split
  · next he => rw [h.size, he]
  · rfl

theorem setWindow_ready (hr : d.Ready font) {k : Nat} {w : Window} (h : Redrawn (d.window k) w) :
    (d.setWindow k w).Ready font where
  numbered := hr.numbered
  nodup := hr.nodup
  present := hr.present
  top := hr.top
  plain p hp hne := by
    have hold := hr.plain p hp hne
    simp only [setWindow]
    split
    · next he => rw [h.transparent, ← he, hold]
    · exact hold
  buffered p := by
    simp only [setWindow]
    split
    · exact h.buffered
    · exact hr.buffered p
  titled l hl ht := by
    have hold := hr.titled l hl ht
    unfold Titled at hold ⊢
    rw [setWindow_size h]
    exact hold
  active := hr.active

theorem setWindow_differ (k : Nat) (w : Window) : Differ d (d.setWindow k w) k where
  stack := rfl
  sheet p hp := by
    funext q
    simp only [sheet, setWindow, if_neg hp]

/-! ## Activate -/

/-- Only what windows hold and the frame buffer are different. -/
structure Same (d d' : Desk) : Prop where
  manager : d'.manager = d.manager
  active : d'.active = d.active
  size : ∀ p, (d'.window p).size = (d.window p).size

/-- The title of a layer, other than the mouse, is drawn. -/
theorem setTitle_differ (hr : d.Ready font) {l : Layer} {k : Nat} (hl : d.manager.deref k = some l)
    (hne : k ≠ d.active.mouseLayer.toNat)
    (active : Bool) : ∃ d', d.setTitle font active l = some d' ∧ d'.Ready font ∧ Same d d' ∧ d'.frame = d.frame ∧
    Differ d d' k ∧
      ∀ q, (d'.sheet k q).isSome ↔ (d.sheet k q).isSome := by
  obtain ⟨hmem, rfl⟩ := LayerManager.deref_some hl
  obtain ⟨w, hw, hre⟩ := setTitle_redrawn hr hmem active
  have hready := setWindow_ready hr hre
  refine ⟨_, hw, hready, ⟨rfl, rfl, setWindow_size hre⟩, rfl, setWindow_differ _ _, fun q => ?_⟩
  have hl' : (d.setWindow l.ptr w).manager.deref l.ptr = some l := hl
  rw [sheet_isSome_iff hready hl' hne, sheet_isSome_iff hr hl hne, setWindow_size hre]

theorem Ready.withFrame (hr : d.Ready font) (f : Mem) : Ready font { d with frame := f } :=
  ⟨hr.numbered, hr.nodup, hr.present, hr.top, hr.plain, hr.buffered, hr.titled, hr.active⟩

theorem findLayer_some (h : d.manager.Numbered) {id : UInt32} (hid : id.toNat ∈ d.manager.ptrs) :
    ∃ l, d.manager.findLayer id = some l ∧ d.manager.deref id.toNat = some l := by
  obtain ⟨l, hl⟩ := Option.isSome_iff_exists.1 (h.findLayer_isSome.2 hid)
  exact ⟨l, hl, by rw [← h.findLayer, hl]⟩

theorem isSome_none {α β : Type} {a : Option α} {b : Option β} (h : a.isSome ↔ b.isSome) (ha : a = none) : b = none := by
  rw [ha] at h
  exact Option.not_isSome_iff_eq_none.1 fun hb => by simpa using h.2 hb

theorem deactivate_shows (hs : config.Addressable) (hf : config.pixelFormat = .bgrResv8BitPerColor) (hr : d.Ready font)
    (hshow : d.Shows config) : ∃ d', d.deactivate font config = some d' ∧ d'.Ready font ∧ d'.Shows config ∧ Same d d' := by
  unfold deactivate
  by_cases hpos : 0 < d.active.activeLayer
  · obtain ⟨hid, hne⟩ := hr.active.resolve_left (UInt32.pos_iff_ne_zero.1 hpos)
    have hmouse : d.active.activeLayer.toNat ≠ d.active.mouseLayer.toNat := fun he => hne (UInt32.toNat_inj.1 he)
    obtain ⟨l, hfind, hl⟩ := findLayer_some hr.numbered hid
    obtain ⟨d1, h1, hr1, hsame, hframe, hdiff, hsheet⟩ := setTitle_differ hr hl hmouse false
    obtain ⟨f', h2, hshow'⟩ := hdiff.drawId_shows hs hf hr1 hr.nodup hframe hshow (by rw [hsame.manager]; exact fun h => h)
      fun q => isSome_none (hsheet q)
    refine ⟨_, ?_, hr1.withFrame f', hshow', hsame.manager, hsame.active, hsame.size⟩
    simp only [if_pos hpos, hfind, h1, Option.bind_eq_bind, Option.bind_some]
    exact h2
  · rw [if_neg hpos]
    exact ⟨d, rfl, hr, hshow, rfl, rfl, fun _ => rfl⟩

/-- The layer is raised. -/
theorem raise_ready (hr : d.Ready font) {id : UInt32} (hid : id.toNat ∈ d.manager.ptrs) (hne : id ≠ d.active.mouseLayer) :
    Ready font { d with manager := d.manager.raise id } where
  numbered := ⟨hr.numbered.id, hr.numbered.made, hr.numbered.nodup, hr.numbered.bound⟩
  nodup := Stack.raise_nodup hr.nodup
  present p hp := by
    rcases Stack.mem_raise.1 hp with rfl | hp
    · exact hid
    · exact hr.present p hp
  top := by
    obtain ⟨rest, hrest⟩ := hr.top
    refine ⟨rest.erase id.toNat ++ [id.toNat], ?_⟩
    have hne' : id.toNat ≠ d.active.mouseLayer.toNat := fun he => hne (UInt32.toNat_inj.1 he)
    simp only [LayerManager.raise, hrest, Stack.raise_append hne']
    simp
  plain := hr.plain
  buffered := hr.buffered
  titled := hr.titled
  active := hr.active

theorem bringUp_shows (hs : config.Addressable) (hf : config.pixelFormat = .bgrResv8BitPerColor) (hr : d.Ready font)
    (hshow : d.Shows config) : ∃ d', d.bringUp font config = some d' ∧ d'.Ready font ∧ d'.Shows config ∧
      d'.active = d.active ∧ d'.manager = if d.active.activeLayer = 0 then d.manager else d.manager.raise
        d.active.activeLayer := by
  unfold bringUp
  by_cases hpos : 0 < d.active.activeLayer
  · have h0 : d.active.activeLayer ≠ 0 := UInt32.pos_iff_ne_zero.1 hpos
    obtain ⟨hid, hne⟩ := hr.active.resolve_left h0
    have hmouse : d.active.activeLayer.toNat ≠ d.active.mouseLayer.toNat := fun he => hne (UInt32.toNat_inj.1 he)
    obtain ⟨l, hfind, hl⟩ := findLayer_some hr.numbered hid
    obtain ⟨d1, h1, hr1, hsame, hframe, hdiff, hsheet⟩ := setTitle_differ hr hl hmouse true
    obtain ⟨rest, hrest⟩ := hr.top
    obtain ⟨height, hheight, hup⟩ := LayerManager.raise_eq hr.numbered hr.present hr.nodup hid hne hrest
    have hr2 : Ready font { d1 with manager := d1.manager.raise d.active.activeLayer } :=
      raise_ready hr1 (by rw [hsame.manager]; exact hid) (by rw [hsame.active]; exact hne)
    have hdiff2 : Differ d { d1 with manager := d1.manager.raise d.active.activeLayer } d.active.activeLayer.toNat := by
      refine ⟨?_, hdiff.sheet⟩
      rw [← hdiff.stack]
      exact Stack.erase_raise hr1.nodup
    obtain ⟨f', h2, hshow'⟩ := hdiff2.drawId_shows hs hf hr2 hr.nodup hframe hshow (fun _ => Stack.mem_raise.2 (.inl rfl))
      fun q => isSome_none (hsheet q)
    refine ⟨_, ?_, hr2.withFrame f', hshow', hsame.active, ?_⟩
    · rw [← hsame.manager] at hheight hup
      have hheight1 : (d1.manager.upDown d.active.activeLayer 0).getHeight d1.active.mouseLayer = some height := by
        rw [hsame.active]
        exact hheight
      simp only [if_pos hpos, hfind, h1, Option.bind_eq_bind, Option.bind_some, hheight1, hup]
      exact h2
    · rw [if_neg h0, hsame.manager]
  · have h0 : d.active.activeLayer = 0 := by
      by_contra h0
      exact hpos (UInt32.pos_iff_ne_zero.2 h0)
    rw [if_neg hpos]
    exact ⟨d, rfl, hr, hshow, rfl, by rw [if_pos h0]⟩

theorem activate_shows (hs : config.Addressable) (hf : config.pixelFormat = .bgrResv8BitPerColor) (hr : d.Ready font)
    (hshow : d.Shows config) {id : UInt32} (hid : id = 0 ∨ id.toNat ∈ d.manager.ptrs ∧ id ≠ d.active.mouseLayer) :
    ∃ d', d.activate font config id = some d' ∧ d'.Ready font ∧ d'.Shows config := by
  unfold activate
  by_cases hsame : d.active.activeLayer = id
  · rw [if_pos hsame]
    exact ⟨d, rfl, hr, hshow⟩
  · obtain ⟨d1, h1, hr1, hshow1, hman⟩ := deactivate_shows hs hf hr hshow
    have hr2 : Ready font { d1 with active := { d1.active with activeLayer := id } } := by
      refine ⟨hr1.numbered, hr1.nodup, hr1.present, hr1.top, hr1.plain, hr1.buffered, hr1.titled, ?_⟩
      rw [hman.manager, hman.active]
      exact hid
    obtain ⟨d2, h2, hr3, hshow2, -⟩ := bringUp_shows hs hf hr2 hshow1
    refine ⟨d2, ?_, hr3, hshow2⟩
    rw [if_neg hsame, h1]
    exact h2

/-- No layer is active any more. -/
theorem activate_zero (hs : config.Addressable) (hf : config.pixelFormat = .bgrResv8BitPerColor) (hr : d.Ready font)
    (hshow : d.Shows config) : ∃ d', d.activate font config 0 = some d' ∧ d'.Ready font ∧ d'.Shows config ∧
      d'.manager = d.manager ∧ d'.active = { d.active with activeLayer := 0 } ∧
        ∀ p, (d'.window p).size = (d.window p).size := by
  unfold activate
  by_cases hzero : d.active.activeLayer = 0
  · rw [if_pos hzero]
    refine ⟨d, rfl, hr, hshow, rfl, ?_, fun _ => rfl⟩
    rw [← hzero]
  · obtain ⟨d1, h1, hr1, hshow1, hman⟩ := deactivate_shows hs hf hr hshow
    refine ⟨{ d1 with active := { d1.active with activeLayer := 0 } }, ?_, ?_, hshow1, hman.manager, ?_, hman.size⟩
    · rw [if_neg hzero, h1]
      rfl
    · exact ⟨hr1.numbered, hr1.nodup, hr1.present, hr1.top, hr1.plain, hr1.buffered, hr1.titled, .inl rfl⟩
    · rw [← hman.active]

/-! ## Moving and closing -/

theorem deref_setPos {m : LayerManager} {p k : Nat} {pos : Vec} (h : p ≠ k) : (m.setPos k pos).deref p = m.deref p := by
  unfold LayerManager.deref LayerManager.setPos
  induction m.layers with
  | nil => rfl
  | cons l ls ih =>
    rw [List.map_cons, List.find?_cons, List.find?_cons, ih]
    by_cases hl : l.ptr = k
    · rw [if_pos hl]
      have hp : decide (l.ptr = p) = false := decide_eq_false fun he => h (he.symm.trans hl)
      simp only [hp]
    · rw [if_neg hl]

theorem setPos_ready (hr : d.Ready font) (k : Nat)
    (pos : Vec) : Ready font { d with manager := d.manager.setPos k pos } where
  numbered := hr.numbered.setPos k pos
  nodup := hr.nodup
  present p hp := by
    rw [LayerManager.setPos_ptrs]
    exact hr.present p hp
  top := hr.top
  plain p hp := by
    rw [LayerManager.setPos_ptrs] at hp
    exact hr.plain p hp
  buffered := hr.buffered
  titled l hl ht := by
    obtain ⟨l', hl', rfl⟩ := List.mem_map.1 hl
    have hold := hr.titled l' hl'
    split at ht
    · next he =>
      rw [if_pos he]
      exact hold ht
    · next he =>
      rw [if_neg he]
      exact hold ht
  active := by
    rw [LayerManager.setPos_ptrs]
    exact hr.active

theorem setPos_differ (k : Nat) (pos : Vec) : Differ d { d with manager := d.manager.setPos k pos } k where
  stack := rfl
  sheet p hp := by
    funext q
    simp only [sheet, deref_setPos hp]

/-- **`Move`**: the old place is drawn, then the layer at its new one. -/
theorem setPos_shows (hs : config.Addressable) (hf : config.pixelFormat = .bgrResv8BitPerColor) (hr : d.Ready font)
    (hshow : d.Shows config) {id : UInt32} {l : Layer} (hl : d.manager.deref id.toNat = some l) (newPos : Vec) :
    ∃ d1 d2, drawArea config ⟨l.pos, (d.window l.ptr).size⟩ { d with manager := d.manager.setPos l.ptr newPos } = some d1 ∧
      d1.drawId config id = some d2 ∧ d2.Ready font ∧ d2.Shows config := by
  obtain ⟨hmem, hptr⟩ := LayerManager.deref_some hl
  have hready := setPos_ready hr l.ptr newPos
  have hdiff : Differ d { d with manager := d.manager.setPos l.ptr newPos } l.ptr := setPos_differ _ _
  have ha : Whole (⟨l.pos, (d.window l.ptr).size⟩ : Rectangle).size := (hr.buffered l.ptr).whole
  obtain ⟨f1, h1, hright1⟩ := drawArea_right hs hf hready ha
  obtain ⟨f2, h2, hright2⟩ := drawId_right hs hf (hready.withFrame f1) id
  refine ⟨_, _, h1, h2, (hready.withFrame f1).withFrame f2, fun q hq => hright2 q hq ?_⟩
  have hright1 := hright1 q hq
  by_cases hold : Covers ⟨l.pos, (d.window l.ptr).size⟩ q
  · exact .inl (hright1 (.inr hold))
  · have hnone : d.sheet l.ptr q = none := by
      rw [sheet, hptr, hl]
      exact Window.sheet_of_not_covers (hptr ▸ hold)
    rw [← hptr]
    by_cases hnew : l.ptr ∈ d.manager.layerStack ∧ (sheet { d with manager := d.manager.setPos l.ptr newPos } l.ptr q).isSome
    · exact .inr hnew
    · refine .inl (hright1 (.inl (hdiff.right hr.nodup (fun _ => hnone) (fun hk => ?_) (hshow q hq))))
      exact Option.not_isSome_iff_eq_none.1 fun hsome => hnew ⟨hk, hsome⟩

theorem removeLayer_eq (hr : d.Ready font) {id : UInt32} (hid : id.toNat ∈ d.manager.ptrs) : d.removeLayer id =
    { d with manager := { d.manager with
        layers := d.manager.layers.filter fun l => l.id ≠ id
        layerStack := d.manager.layerStack.erase id.toNat } } := by
  simp only [removeLayer, LayerManager.hide, hr.numbered.pointer hid]

theorem deref_removeLayer (hr : d.Ready font) {id : UInt32} {p : Nat} (hp : p ≠ id.toNat) :
    (d.removeLayer id).manager.deref p = d.manager.deref p := by
  simp only [removeLayer, LayerManager.deref, LayerManager.hide, List.find?_filter]
  refine List.find?_congr fun l hl => ?_
  have hid : l.ptr = p → l.id ≠ id := fun he hi => hp (by rw [← he, ← hr.numbered.id l hl, hi])
  by_cases he : l.ptr = p
  · simp [he, hid he]
  · simp [he]

theorem removeLayer_ready (hr : d.Ready font) {id : UInt32} (hid : id.toNat ∈ d.manager.ptrs)
    (hne : id ≠ d.active.mouseLayer) (hactive : d.active.activeLayer = 0) : (d.removeLayer id).Ready font := by
  have hsub : ∀ p, p ∈ (d.removeLayer id).manager.ptrs → p ∈ d.manager.ptrs := by
    intro p hp
    obtain ⟨l, hl, rfl⟩ := LayerManager.mem_ptrs.1 hp
    exact LayerManager.mem_ptrs.2 ⟨l, List.mem_of_mem_filter hl, rfl⟩
  have heq := removeLayer_eq hr hid
  refine ⟨hr.numbered.filter _ _, ?_, fun p hp => ?_, ?_, fun p hp => hr.plain p (hsub p hp), hr.buffered, fun l hl =>
    ?_, .inl hactive⟩
  · rw [heq]
    exact hr.nodup.erase _
  · rw [heq] at hp
    obtain ⟨hpne, hmem⟩ := hr.nodup.mem_erase_iff.1 hp
    rw [← LayerManager.deref_isSome, deref_removeLayer hr hpne, LayerManager.deref_isSome]
    exact hr.present p hmem
  · obtain ⟨rest, hrest⟩ := hr.top
    have hne' : id.toNat ≠ d.active.mouseLayer.toNat := fun he => hne (UInt32.toNat_inj.1 he)
    refine ⟨rest.erase id.toNat, ?_⟩
    rw [heq]
    simp only [hrest, Stack.erase_append_top hne']
  · exact hr.titled l (List.mem_of_mem_filter hl)

theorem removeLayer_differ (hr : d.Ready font) {id : UInt32} (hid : id.toNat ∈ d.manager.ptrs) :
    Differ d (d.removeLayer id) id.toNat where
  stack := by
    rw [removeLayer_eq hr hid]
    exact List.erase_of_not_mem fun h => (hr.nodup.mem_erase_iff.1 h).1 rfl
  sheet p hp := by
    funext q
    unfold sheet
    rw [deref_removeLayer hr hp]
    rfl

theorem close_shows (hs : config.Addressable) (hf : config.pixelFormat = .bgrResv8BitPerColor) (hr : d.Ready font)
    (hshow : d.Shows config) {id : UInt32} (hne : id ≠ d.active.mouseLayer) :
    ∃ d', d.close font config id = some d' ∧ d'.Ready font ∧ d'.Shows config := by
  unfold close
  by_cases hid : id.toNat ∈ d.manager.ptrs
  · obtain ⟨l, hfind, hl⟩ := findLayer_some hr.numbered hid
    obtain ⟨d1, h1, hr1, hshow1, hman, hact, hsize⟩ := activate_zero hs hf hr hshow
    have hid1 : id.toNat ∈ d1.manager.ptrs := hman ▸ hid
    have hready := removeLayer_ready hr1 hid1 (by rw [hact]; exact hne) (by rw [hact])
    have ha : Whole (⟨l.pos, (d.window l.ptr).size⟩ : Rectangle).size := (hr.buffered l.ptr).whole
    obtain ⟨f2, h2, hright⟩ := drawArea_right hs hf hready ha
    refine ⟨_, ?_, hready.withFrame f2, fun q hq => hright q hq ?_⟩
    · simp only [hfind, Option.elim_some, h1, Option.bind_eq_bind, Option.bind_some]
      exact h2
    · by_cases hold : Covers ⟨l.pos, (d.window l.ptr).size⟩ q
      · exact .inr hold
      · refine .inl ((removeLayer_differ hr1 hid1).right hr1.nodup (fun _ => ?_) (fun hk => ?_) (hshow1 q hq))
        · obtain ⟨-, hptr⟩ := LayerManager.deref_some hl
          rw [sheet, hman, hl, Option.bind_some]
          exact Window.sheet_of_not_covers (by rw [hsize, ← hptr]; exact hold)
        · rw [removeLayer_eq hr1 hid1] at hk
          exact absurd rfl (hr1.nodup.mem_erase_iff.1 hk).1
  · have hfind : d.manager.findLayer id = none := Option.not_isSome_iff_eq_none.1 fun h =>
      hid (hr.numbered.findLayer_isSome.1 h)
    rw [hfind]
    exact ⟨d, rfl, hr, hshow⟩

/-- **Step lemma.** -/
theorem step_shows (hs : config.Addressable) (hf : config.pixelFormat = .bgrResv8BitPerColor) (hr : d.Ready font)
    (hshow : d.Shows config) {c : Change} (hc : d.Allowed c) : ∃ d', d.step font config c = some d' ∧ d'.Ready font ∧
    d'.Shows config := by
  cases c with
  | move id newPos =>
    obtain ⟨l, hfind, hl⟩ := findLayer_some hr.numbered hc
    obtain ⟨d1, d2, h1, h2, hready, hshow2⟩ := setPos_shows hs hf hr hshow hl newPos
    refine ⟨d2, ?_, hready, hshow2⟩
    simp only [step, move, hfind, h1, Option.bind_eq_bind, Option.bind_some]
    exact h2
  | moveRelative id posDiff =>
    obtain ⟨l, hfind, hl⟩ := findLayer_some hr.numbered hc
    obtain ⟨d1, d2, h1, h2, hready, hshow2⟩ := setPos_shows hs hf hr hshow hl (l.pos + posDiff)
    refine ⟨d2, ?_, hready, hshow2⟩
    simp only [step, moveRelative, hfind, h1, Option.bind_eq_bind, Option.bind_some]
    exact h2
  | activate id => exact activate_shows hs hf hr hshow hc
  | close id => exact close_shows hs hf hr hshow hc

/-- **Incremental redraw is full redraw**: a screen that shows the picture of the stack shows it after every change, wherever
the windows lie, and no change fails. -/
theorem redraw_shows (hs : config.Addressable) (hf : config.pixelFormat = .bgrResv8BitPerColor) (hr : d.Ready font)
    (hshow : d.Shows config) (cs : List Change) (hc : Throughout (step font config) Allowed d cs) :
    (exec (step font config) d cs).isSome ∧ States (step font config) (Shows config) d cs := by
  have hstep : ∀ d c d', Ready font d ∧ Shows config d → Allowed d c → step font config d c = some d' → Ready font d' ∧
    Shows config d' := by
    rintro d c d' ⟨hr, hshow⟩ hc hd
    obtain ⟨d1, h1, hr1, hshow1⟩ := step_shows hs hf hr hshow hc
    cases hd.symm.trans h1
    exact ⟨hr1, hshow1⟩
  constructor
  · refine (throughout_iff_exec hstep ?_ cs ⟨hr, hshow⟩ hc).1 hc
    rintro d c ⟨hr, hshow⟩ hc
    obtain ⟨d1, h1, -⟩ := step_shows hs hf hr hshow hc
    rw [h1]
    exact iff_of_true hc rfl
  · exact (hc.along.states hstep cs ⟨hr, hshow⟩).mono (fun _ h => h.2) cs

end

/-- A window of one colour. -/
def plainWindow (c : PixelColor) : Window where
  width := 5
  height := 3
  sized := by decide
  data _ := c
  shadow a := if a % 4 = 0 then c.b else if a % 4 = 1 then c.g else if a % 4 = 2 then c.r else 0
  transparentColor := none

theorem dot_sized : (0 : Int32) ≤ 1 ∧ (0 : Int32) ≤ 1 := by decide

/-- A red window, a white one that hangs over the left edge, both still hidden, and the mouse with nothing but a black dot. -/
def twoWindows : Desk where
  manager := ⟨[⟨1, 1, ⟨2, 1⟩, ⟨5, 3⟩, false, true⟩, ⟨2, 2, ⟨-1, 0⟩, ⟨5, 3⟩, false, true⟩,
    ⟨3, 3, ⟨3, 2⟩, ⟨1, 1⟩, false, false⟩], [3], 3⟩
  active := ⟨0, 3⟩
  window p := if p = 1 then plainWindow ⟨255, 0, 0⟩ else if p = 2 then plainWindow ⟨255, 255, 255⟩
    else { Window.blank 1 1 dot_sized with transparentColor := some ⟨0, 0, 1⟩ }
  title _ := []
  frame _ := 0

/-- The red window comes up, then the white one above it; it is moved, and closed. -/
def upAndAway : List Change := [.activate 1, .activate 2, .moveRelative 2 ⟨-1, 1⟩, .close 2]

/-- At every step the screen shows the picture. At the end the white window has left the red one. -/
theorem redraw_shows_windows : States (step [] (Window.xga .bgrResv8BitPerColor)) (Shows (Window.xga .bgrResv8BitPerColor))
      twoWindows upAndAway ∧
    (exec (step [] (Window.xga .bgrResv8BitPerColor)) twoWindows (upAndAway.take 2)).map (fun d =>
      [⟨0, 0⟩, ⟨2, 1⟩, ⟨3, 2⟩, ⟨6, 3⟩].map ((Window.xga .bgrResv8BitPerColor).shown d.frame)) =
        some [⟨255, 255, 255⟩, ⟨255, 255, 255⟩, ⟨0, 0, 0⟩, ⟨255, 0, 0⟩] ∧
    (exec (step [] (Window.xga .bgrResv8BitPerColor)) twoWindows upAndAway).map (fun d =>
      [⟨2, 1⟩, ⟨3, 2⟩, ⟨6, 3⟩].map ((Window.xga .bgrResv8BitPerColor).shown d.frame)) =
        some [⟨255, 0, 0⟩, ⟨0, 0, 0⟩, ⟨255, 0, 0⟩] := by
  have hplain : ∀ l ∈ twoWindows.manager.layers, l.toplevel = false := by decide
  have hr : twoWindows.Ready [] := by
    refine ⟨⟨by decide, by decide, by decide, by decide⟩, by decide, by decide, ⟨[], rfl⟩, by decide, fun p => ?_,
      fun l hl ht => ?_, .inl rfl⟩
    · have hcases : ∀ (c : PixelColor) (w : Window), w.Buffered →
          (if p = 1 then plainWindow ⟨255, 0, 0⟩ else if p = 2 then plainWindow c else w).Buffered := by
        intro c w hw
        split
        · exact (by decide : 4 * (5 : Int) * 3 < 4294967296)
        · split
          · exact (by decide : 4 * (5 : Int) * 3 < 4294967296)
          · exact hw
      exact hcases _ _ (by decide : 4 * (1 : Int) * 1 < 4294967296)
    · rw [hplain l hl] at ht
      cases ht
  have hshow : twoWindows.Shows (Window.xga .bgrResv8BitPerColor) := by
    intro q _ c hc
    obtain ⟨s, hs, hsc⟩ := Painter.exists_of_composite hc
    obtain rfl : s = twoWindows.sheet 3 := by simpa [twoWindows] using hs
    obtain ⟨l, -, hl⟩ := Option.bind_eq_some_iff.1 hsc
    have hblack : (twoWindows.window 3).seen (q - l.pos) = some ⟨0, 0, 0⟩ := rfl
    unfold Window.sheet at hl
    split at hl
    · obtain rfl := Option.some.inj (hblack.symm.trans hl)
      rfl
    · cases hl
  have hc : Throughout (step [] (Window.xga .bgrResv8BitPerColor)) Allowed twoWindows upAndAway := by decide +kernel
  exact ⟨(redraw_shows ⟨by decide, by decide, by decide⟩ rfl hr hshow upAndAway hc).2, by decide +kernel, by decide +kernel⟩

end Desk

end KinOS.Gui
