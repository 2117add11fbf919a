import KinOS.Gui.PixelFormats
import KinOS.Gui.LayerStack

/-!
# Hit testing and drawing

| here | there |
| --- | --- |
| `Window.pixels`  | what `Window::DrawTo` (`servers/gui/window.cpp:80-100`) draws, pixel by pixel |
| `Scene.drawLayer`, `Scene.draw` | `Layer::DrawTo`, `LayerManager::Draw(area)` (`layer.cpp:46-50`, `74-78`) |
| `Scene.hit`      | `LayerManager::FindLayerByPosition` (`layer.cpp:146-166`) |
| `Scene.drawBytes` | `Draw(area)` on the bytes of the frame buffer |

A canvas says for each pixel of the screen which pixel of which layer was drawn there last. `Draw` goes through the stack
from the bottom, and each layer draws over the ones before it; `FindLayerByPosition` looks for the first layer from the top.
Neither has a separate treatment of windows whose right or lower end is no `int`: such an end has gone round, so that for
both the window covers no pixel of the screen.

`drawBytes_spec` leads from the canvas to the frame buffer: if each layer can be drawn, the bytes of a pixel of the screen
are those which the shadow buffer of the layer on the canvas has for its pixel (`hit_bytes`).
-/

namespace KinOS.Gui

open Bytes Rectangle

/-- What `DrawTo` draws: the pixel of the screen, and the pixel of the window. -/
def Window.pixels (w : Window) (screen pos : Vec) (area : Rectangle) : List (Vec × Vec) :=
  match w.transparentColor with
  | none => blits screen false pos w.size area
  | some tc => (blits screen true pos w.size area).filter fun e => w.colorAt e.2 ≠ tc

/-- The layers with their windows. Every pointer of `layer_stack_` is a layer. -/
structure Scene where
  manager : LayerManager
  window : Nat → Window
  size : ∀ l ∈ manager.layers, l.size = (window l.ptr).size
  alive : ∀ p ∈ manager.layerStack, p ∈ manager.ptrs

namespace Scene

variable {s : Scene} {screen p : Vec} {area : Rectangle} {l : Layer} {mouse : UInt32}

abbrev Canvas := Vec → Option (Layer × Vec)

def drawLayer (s : Scene) (screen : Vec) (area : Rectangle) (c : Canvas) (l : Layer) : Canvas :=
  Painter.stamp (((s.window l.ptr).pixels screen l.pos area).map fun e => (e.1, some (some (l, e.2)))) c

def draw (s : Scene) (screen : Vec) (area : Rectangle) (stack : List Layer) : Canvas :=
  stack.foldl (s.drawLayer screen area) fun _ => none

/-- The stack, from the bottom to the top. -/
def stack (s : Scene) : List Layer := s.manager.layerStack.filterMap s.manager.deref

def stackWithout (s : Scene) (mouse : UInt32) : List Layer := s.stack.filter fun l => l.id ≠ mouse

def hit (s : Scene) (pos : Vec) (mouse : UInt32) : Option (Option Layer) := s.manager.findLayerByPosition pos mouse

/-- The only transparent layer is the mouse layer. -/
def OnlyMouse (s : Scene) (mouse : UInt32) : Prop :=
  ∀ l ∈ s.stack, l.id ≠ mouse → (s.window l.ptr).transparentColor = none

/-! ## Hit testing -/

theorem under_iff : l.under p = true ↔ Within ⟨l.pos, l.size⟩ p := by
  simp only [Layer.under, Within, decide_eq_true_eq, and_assoc]

theorem findUnder_eq (m : LayerManager) (pos : Vec) (ex : UInt32) : ∀ ps : List Nat, (∀ p ∈ ps, p ∈ m.ptrs) →
    m.findUnder pos ex ps = some ((ps.filterMap m.deref).find? fun l => decide (l.id ≠ ex) && l.under pos)
  | [], _ => rfl
  | p :: ps, h => by
    obtain ⟨l, hl⟩ := Option.isSome_iff_exists.1 (LayerManager.deref_isSome.2 (h p (List.mem_cons_self ..)))
    have ih := findUnder_eq m pos ex ps fun q hq => h q (List.mem_cons_of_mem _ hq)
    simp only [LayerManager.findUnder, hl, Option.bind_eq_bind, Option.bind_some, List.filterMap_cons_some hl,
      List.find?_cons, ih]
    by_cases hc : l.id ≠ ex ∧ l.under pos = true
    · rw [if_pos hc]
      simp [hc]
    · rw [if_neg hc]
      have hb : (decide (l.id ≠ ex) && l.under pos) = false := by
        rw [Bool.eq_false_iff]
        intro hb
        rw [Bool.and_eq_true, decide_eq_true_eq] at hb
        exact hc hb
      rw [hb]

/-- The first layer from the top, the mouse left out. -/
theorem hit_eq (s : Scene) (pos : Vec) (mouse : UInt32) :
    s.hit pos mouse = some ((s.stackWithout mouse).reverse.find? fun l => l.under pos) := by
  unfold hit LayerManager.findLayerByPosition
  rw [findUnder_eq _ _ _ _ fun p hp => s.alive p (List.mem_reverse.1 hp), List.filterMap_reverse, stackWithout,
    ← List.filter_reverse, List.find?_filter]
  simp only [Bool.decide_and, Bool.decide_eq_true]
  rfl

/-! ## Drawing -/

theorem mem_stack (h : l ∈ s.stack) : l.size = (s.window l.ptr).size := by
  obtain ⟨p, _, hp⟩ := List.mem_filterMap.1 h
  exact s.size l (LayerManager.deref_some hp).1

/-- A window without a transparent colour is drawn where it is under the point. -/
theorem mem_pixels {w : Window} {pos q : Vec} (ht : w.transparentColor = none) (hs : Sized ⟨⟨0, 0⟩, screen⟩)
    (ha : area.Sized) : (p, q) ∈ w.pixels screen pos area ↔
      (Inside screen p ∧ area.Within p ∧ Within ⟨pos, w.size⟩ p) ∧ q = p - pos := by
  have hw : Sized ⟨pos, w.size⟩ := w.window_sized pos
  have hscreen : Within ⟨⟨0, 0⟩, screen⟩ p ↔ Inside screen p := by
    rw [within_iff hs, covers_screen]
    exact and_iff_left ⟨by simpa using screen.x.toInt_lt, by simpa using screen.y.toInt_lt⟩
  have hall := within_iff (p := p) (inter_sized (inter_sized hs hw) (inter_sized ha hw))
  rw [and_iff_left (inter_fits (inter_sized hs hw) (inter_sized ha hw))] at hall
  simp only [Window.pixels, ht]
  rw [mem_copy hs hw ha, ← hall, inter_within (inter_sized hs hw) (inter_sized ha hw), inter_within hs hw,
    inter_within ha hw, hscreen]
  constructor
  · rintro ⟨⟨⟨h1, h2⟩, h3, _⟩, rfl⟩
    exact ⟨⟨h1, h3, h2⟩, rfl⟩
  · rintro ⟨⟨h1, h3, h2⟩, rfl⟩
    exact ⟨⟨⟨h1, h2⟩, h3, h2⟩, rfl⟩

/-- What a layer shows, once all of it has been drawn. -/
def sheet (l : Layer) (p : Vec) : Option (Option (Layer × Vec)) := if l.under p then some (some (l, p - l.pos)) else none

/-- One layer. -/
theorem drawLayer_apply (ht : (s.window l.ptr).transparentColor = none) (hl : l.size = (s.window l.ptr).size)
    (hs : Sized ⟨⟨0, 0⟩, screen⟩) (ha : area.Sized) (hp : Inside screen p) (hpa : area.Within p) (c : Canvas) :
    s.drawLayer screen area c l p = (sheet l p).getD (c p) := by
  have hmem : ∀ q, (p, q) ∈ (s.window l.ptr).pixels screen l.pos area ↔ l.under p = true ∧ q = p - l.pos := by
    intro q
    rw [mem_pixels ht hs ha, under_iff, hl]
    simp only [hp, hpa, true_and]
  unfold drawLayer sheet
  by_cases hu : l.under p = true
  · rw [if_pos hu]
    refine Painter.stamp_of_mem (List.mem_map.2 ⟨(p, p - l.pos), (hmem _).2 ⟨hu, rfl⟩, rfl⟩) (fun o ho => ?_) c
    obtain ⟨⟨p', q⟩, hq, he⟩ := List.mem_map.1 ho
    obtain ⟨rfl, rfl⟩ := Prod.mk.inj he
    rw [((hmem q).1 hq).2]
  · rw [if_neg hu]
    refine Painter.stamp_of_not_mem (fun o ho => ?_) c
    obtain ⟨⟨p', q⟩, hq, he⟩ := List.mem_map.1 ho
    obtain ⟨rfl, rfl⟩ := Prod.mk.inj he
    exact hu ((hmem q).1 hq).1

/-- The stack without the mouse: each pixel of the screen shows the first layer from the top. -/
theorem draw_apply (hm : s.OnlyMouse mouse) (hs : Sized ⟨⟨0, 0⟩, screen⟩) (ha : area.Sized) (hp : Inside screen p)
    (hpa : area.Within p) : s.draw screen area (s.stackWithout mouse) p =
      ((s.stackWithout mouse).reverse.find? fun l => l.under p).map fun l => (l, p - l.pos) := by
  have hsheet : ∀ l ∈ s.stackWithout mouse, ∀ c : Canvas, s.drawLayer screen area c l p = (sheet l p).getD (c p) := by
    intro l hl c
    obtain ⟨hmem, hid⟩ := List.mem_filter.1 hl
    exact drawLayer_apply (hm l hmem (by simpa using hid)) (mem_stack hmem) hs ha hp hpa c
  have hfind : Painter.composite ((s.stackWithout mouse).map sheet) p = _ := Painter.composite_find _ _ p _
  rw [draw, Painter.foldl_draw hsheet, hfind]
  cases (s.stackWithout mouse).reverse.find? fun l => l.under p <;> rfl

/-! ## On the bytes of the frame buffer -/

/-- `Draw(area)`. -/
def drawBytes (s : Scene) (config : FrameBufferConfig) (area : Rectangle) : List Layer → Mem → Option Mem
  | [], f => some f
  | l :: ls, f => do
    let drawn ← (s.window l.ptr).drawTo config l.pos area
    s.drawBytes config area ls (put f drawn)

/-- The bytes of a pixel: those of the layer on the canvas. -/
def byteOf (s : Scene) (f : Mem) (a : Nat) (k : Nat) : Option (Layer × Vec) → UInt8
  | none => f (a + k)
  | some (l, q) => (s.window l.ptr).shadowBuffer.byteAt q.x.toInt q.y.toInt k

/-- The frame buffer `f` shows the canvas in the area, and what `f₀` has in the rest of the screen. -/
def Shows (s : Scene) (config : FrameBufferConfig) (area : Rectangle) (f₀ f : Mem) (c : Canvas) : Prop :=
  ∀ p, Inside config.screenSize p → ∀ k < 4,
    (area.Within p → f ((config.offset p).toNat + k) = s.byteOf f₀ (config.offset p).toNat k (c p)) ∧
    (¬ area.Within p → f ((config.offset p).toNat + k) = f₀ ((config.offset p).toNat + k))

/-- A layer that `DrawTo` draws as it should be. -/
structure Clean (s : Scene) (config : FrameBufferConfig) (area : Rectangle) (l : Layer) : Prop where
  plain : (s.window l.ptr).transparentColor = none
  size : l.size = (s.window l.ptr).size
  fits : Fits ⟨l.pos, (s.window l.ptr).size⟩
  drawable : (s.window l.ptr).Drawable config l.pos area

variable {config : FrameBufferConfig} {ls : List Layer}

theorem within_of_visible (ha : area.Sized) (hfa : area.Fits) {pos size : Vec}
    (hv : Window.Visible config.screenSize pos size area p.x.toInt p.y.toInt) : area.Within p :=
  (within_iff ha).2 ⟨hv.2.1, hfa⟩

theorem visible_iff_under (h : s.Clean config area l) (hp : Inside config.screenSize p) (ha : area.Sized)
    (hpa : area.Within p) :
    Window.Visible config.screenSize l.pos (s.window l.ptr).size area p.x.toInt p.y.toInt ↔ l.under p = true := by
  have hw : Within ⟨l.pos, (s.window l.ptr).size⟩ p ↔ Covers ⟨l.pos, (s.window l.ptr).size⟩ p :=
    (within_iff ((s.window l.ptr).window_sized l.pos)).trans (and_iff_left h.fits)
  have hcov : area.Covers p := ((within_iff ha).1 hpa).1
  rw [under_iff, h.size, hw]
  simp only [Inside, Int32.le_iff_toInt_le, Int32.lt_iff_toInt_lt, Int32.toInt_zero] at hp
  exact ⟨fun hv => hv.2.2, fun hc => ⟨hp, hcov, hc⟩⟩

/-- One layer. -/
theorem Shows.drawLayer {f₀ f : Mem} {c : Canvas} {drawn : Bytewise} (h : s.Shows config area f₀ f c)
    (hl : s.Clean config area l) (ha : area.Sized) (hfa : area.Fits)
    (he : (s.window l.ptr).Exact config l.pos area drawn) :
    s.Shows config area f₀ (put f drawn) (s.drawLayer config.screenSize area c l) := by
  intro p hp k hk
  obtain ⟨hin, hout⟩ := h p hp k hk
  refine ⟨fun hpa => ?_, fun hpa => ?_⟩
  · have hv := visible_iff_under hl hp ha hpa
    rw [drawLayer_apply hl.plain hl.size (Window.frame_sized config) ha hp hpa, sheet]
    by_cases hu : l.under p = true
    · obtain ⟨hx, hy⟩ := Window.visible_sub (hv.2 hu)
      rw [if_pos hu, he.byte (hv.2 hu) f hk, ← hx, ← hy]
      rfl
    · rw [if_neg hu, he.byte_of_hidden hp (fun h => hu (hv.1 h)) f hk]
      exact hin hpa
  · rw [he.byte_of_hidden hp (fun hv => hpa (within_of_visible ha hfa hv)) f hk]
    exact hout hpa

/-- `Draw(area)` comes to its end, and the frame buffer shows what is on the canvas. -/
theorem drawBytes_spec (ha : area.Sized) (hfa : area.Fits) {f₀ : Mem} :
    ∀ {ls : List Layer} {f : Mem} {c : Canvas}, (∀ l ∈ ls, s.Clean config area l) → s.Shows config area f₀ f c →
      ∃ f', s.drawBytes config area ls f = some f' ∧
        s.Shows config area f₀ f' (ls.foldl (s.drawLayer config.screenSize area) c)
  | [], f, _, _, h => ⟨f, rfl, h⟩
  | l :: ls, f, c, hall, h => by
    have hl := hall l (List.mem_cons_self ..)
    obtain ⟨drawn, hd, he⟩ := (Window.drawTo_exact_iff hl.plain ha hfa hl.fits).2 hl.drawable
    obtain ⟨f', hf', hshows⟩ :=
      drawBytes_spec ha hfa (fun m hm => hall m (List.mem_cons_of_mem _ hm)) (h.drawLayer hl ha hfa he)
    refine ⟨f', ?_, hshows⟩
    rw [drawBytes, hd]
    exact hf'

/-! ## Hit testing and drawing agree -/

/-- **A click goes to the layer whose pixel is to be seen**, the mouse left out, and to none where nothing has been drawn. -/
theorem hit_iff_drawn (s : Scene) (config : FrameBufferConfig) (hm : s.OnlyMouse mouse) (hp : Inside config.screenSize p) :
    (∀ l, s.hit p mouse = some (some l) ↔
      s.draw config.screenSize ⟨⟨0, 0⟩, config.screenSize⟩ (s.stackWithout mouse) p = some (l, p - l.pos)) ∧
    (s.hit p mouse = some none ↔
      s.draw config.screenSize ⟨⟨0, 0⟩, config.screenSize⟩ (s.stackWithout mouse) p = none) := by
  have hs := Window.frame_sized config
  have hscreen : Within ⟨⟨0, 0⟩, config.screenSize⟩ p :=
    (within_iff hs).2 ⟨covers_screen.2 hp, Window.frame_fits config⟩
  rw [hit_eq, draw_apply hm hs hs hp hscreen]
  cases (s.stackWithout mouse).reverse.find? fun l => l.under p with
  | none => simp
  | some k =>
    simp only [Option.map_some, Option.some.injEq, Prod.mk.injEq, reduceCtorEq, and_true]
    intro l
    constructor
    · rintro rfl
      exact ⟨rfl, rfl⟩
    · intro h
      exact h.1

/-- **A click goes to the layer whose bytes are in the frame buffer**: after `Draw(area)` each pixel of the area has the
bytes that the shadow buffer of the layer found there has for it, and those it had before where none is found; the rest of the
screen is left alone. -/
theorem hit_bytes (ha : area.Sized) (hfa : area.Fits) (hc : ∀ l ∈ s.stackWithout mouse, s.Clean config area l) (f : Mem) :
    ∃ f', s.drawBytes config area (s.stackWithout mouse) f = some f' ∧ ∀ p, Inside config.screenSize p → ∀ k < 4,
      (area.Within p → ∃ found, s.hit p mouse = some found ∧ f' ((config.offset p).toNat + k) =
        found.elim (f ((config.offset p).toNat + k)) fun l =>
          (s.window l.ptr).shadowBuffer.byteAt (p - l.pos).x.toInt (p - l.pos).y.toInt k) ∧
      (¬ area.Within p → f' ((config.offset p).toNat + k) = f ((config.offset p).toNat + k)) := by
  have hm : s.OnlyMouse mouse := fun l hl hid => (hc l (List.mem_filter.2 ⟨hl, by simpa using hid⟩)).plain
  have hstart : s.Shows config area f f fun _ => none := fun p hp k hk => ⟨fun _ => rfl, fun _ => rfl⟩
  obtain ⟨f', hf', hshows⟩ := drawBytes_spec ha hfa hc hstart
  refine ⟨f', hf', fun p hp k hk => ⟨fun hpa => ⟨_, hit_eq s p mouse, ?_⟩, (hshows p hp k hk).2⟩⟩
  have hdraw := draw_apply hm (Window.frame_sized config) ha hp hpa
  rw [draw] at hdraw
  rw [(hshows p hp k hk).1 hpa, hdraw]
  cases (s.stackWithout mouse).reverse.find? fun l => l.under p <;> rfl

/-- Two windows that overlap at (2, 1), the upper one hanging over the left edge, and the mouse above both. -/
def overlapping : Scene where
  manager := ⟨[⟨1, 1, ⟨2, 1⟩, ⟨4, 3⟩, true, true⟩, ⟨2, 2, ⟨-1, 0⟩, ⟨4, 2⟩, true, true⟩,
    ⟨3, 3, ⟨2, 1⟩, ⟨1, 1⟩, false, false⟩], [1, 2, 3], 3⟩
  window ptr :=
    if ptr = 1 then .blank 4 3 (by decide)
    else if ptr = 2 then .blank 4 2 (by decide)
    else { Window.blank 1 1 (by decide) with transparentColor := some ⟨0, 0, 1⟩ }
  size := by decide
  alive := by decide

theorem hit_iff_drawn_overlapping : overlapping.hit ⟨2, 1⟩ 3 = some (some ⟨2, 2, ⟨-1, 0⟩, ⟨4, 2⟩, true, true⟩) ∧
    overlapping.draw (Window.xga .bgrResv8BitPerColor).screenSize ⟨⟨0, 0⟩, (Window.xga .bgrResv8BitPerColor).screenSize⟩
      (overlapping.stackWithout 3) ⟨2, 1⟩ = some (⟨2, 2, ⟨-1, 0⟩, ⟨4, 2⟩, true, true⟩, ⟨3, 1⟩) := by
  have hhit : overlapping.hit ⟨2, 1⟩ 3 = some (some ⟨2, 2, ⟨-1, 0⟩, ⟨4, 2⟩, true, true⟩) := by decide
  have hm : overlapping.OnlyMouse 3 := by
    unfold OnlyMouse
    decide
  exact ⟨hhit, ((hit_iff_drawn overlapping (Window.xga .bgrResv8BitPerColor) hm (by decide)).1 _).1 hhit⟩

/-- The two windows filled with ones and with twos. -/
def filled : Scene where
  manager := overlapping.manager
  window ptr :=
    if ptr = 1 then { Window.blank 4 3 (by decide) with shadow := fun _ => 1 }
    else if ptr = 2 then { Window.blank 4 2 (by decide) with shadow := fun _ => 2 }
    else { Window.blank 1 1 (by decide) with transparentColor := some ⟨0, 0, 1⟩ }
  size := by decide
  alive := by decide

/-- The upper window is drawn at (2, 1) and the lower one at (3, 1); (4, 2) is not in the area, and nothing is at (0, 2). -/
theorem hit_bytes_filled : ∃ f', filled.drawBytes (Window.xga .bgrResv8BitPerColor) ⟨⟨0, 0⟩, ⟨4, 3⟩⟩
      (filled.stackWithout 3) (fun _ => 9) = some f' ∧
    (f' ((Window.xga .bgrResv8BitPerColor).offset ⟨2, 1⟩).toNat = 2 ∧
      f' ((Window.xga .bgrResv8BitPerColor).offset ⟨3, 1⟩).toNat = 1) ∧
    f' ((Window.xga .bgrResv8BitPerColor).offset ⟨4, 2⟩).toNat = 9 ∧
      f' ((Window.xga .bgrResv8BitPerColor).offset ⟨0, 2⟩).toNat = 9 := by
  have hstack : filled.stackWithout 3 =
      [⟨1, 1, ⟨2, 1⟩, ⟨4, 3⟩, true, true⟩, ⟨2, 2, ⟨-1, 0⟩, ⟨4, 2⟩, true, true⟩] := by decide
  have hclean : ∀ l ∈ filled.stackWithout 3, filled.Clean (Window.xga .bgrResv8BitPerColor) ⟨⟨0, 0⟩, ⟨4, 3⟩⟩ l := by
    rw [hstack]
    refine List.forall_mem_cons.2 ⟨?_, List.forall_mem_singleton.2 ?_⟩
    · exact ⟨rfl, rfl, ⟨by decide, by decide⟩, by unfold Window.Drawable; decide⟩
    · exact ⟨rfl, rfl, ⟨by decide, by decide⟩, by unfold Window.Drawable; decide⟩
  obtain ⟨f', hf', hbytes⟩ := hit_bytes ⟨by decide, by decide⟩ ⟨by decide, by decide⟩ hclean fun _ => 9
  have hhit : filled.hit ⟨2, 1⟩ 3 = some (some ⟨2, 2, ⟨-1, 0⟩, ⟨4, 2⟩, true, true⟩) ∧
      filled.hit ⟨3, 1⟩ 3 = some (some ⟨1, 1, ⟨2, 1⟩, ⟨4, 3⟩, true, true⟩) ∧ filled.hit ⟨0, 2⟩ 3 = some none := by decide
  refine ⟨f', hf', ⟨?_, ?_⟩, ?_, ?_⟩
  · obtain ⟨found, hfound, hbyte⟩ := (hbytes ⟨2, 1⟩ (by decide) 0 (by decide)).1 (by unfold Within; decide)
    rw [hhit.1] at hfound
    cases hfound
    exact hbyte
  · obtain ⟨found, hfound, hbyte⟩ := (hbytes ⟨3, 1⟩ (by decide) 0 (by decide)).1 (by unfold Within; decide)
    rw [hhit.2.1] at hfound
    cases hfound
    exact hbyte
  · exact (hbytes ⟨4, 2⟩ (by decide) 0 (by decide)).2 (by unfold Within; decide)
  · obtain ⟨found, hfound, hbyte⟩ := (hbytes ⟨0, 2⟩ (by decide) 0 (by decide)).1 (by unfold Within; decide)
    rw [hhit.2.2] at hfound
    cases hfound
    exact hbyte

end Scene

end KinOS.Gui
