import KinOS.Gui.Runs
import KinOS.Gui.Graphics

/-!
# What clients are told about the mouse

| here | there |
| --- | --- |
| `MouseShown`        | `position_` and the place of the mouse layer (`servers/gui/mouse.cpp:101-115`) |
| `Reports`           | the fields of `kMouseMove` and `kMouseButton` (`mouse.cpp:46-69`) |
| `clamped`, `Heard`  | where the cursor goes, and whether a client is told (`mouse.cpp:109-150`) |

`OnInterrupt` keeps the cursor on the screen in two steps: `newpos` is kept left of and above the far edges, `position_`
is `newpos` kept right of and below the near ones. `SendMouseMessage` is given `newpos`.
-/

namespace KinOS.Gui

open TransitionSystem

namespace Desktop

open LayerManager

variable {g g' : Desktop} {id : UInt32}

/-! ## What is reported -/

/-- The cursor is on the screen, and so is its layer. -/
def MouseShown (g : Desktop) : Prop :=
  Inside g.screen g.mouse.position ∧ (g.manager.findLayer g.mouse.layerId).map Layer.pos = some g.mouse.position

instance : DecidablePred MouseShown := fun _ => inferInstanceAs (Decidable (_ ∧ _))

/-- The cursor as the active window sees it. -/
def relpos (g : Desktop) : Option Vec :=
  (g.manager.findLayer g.active.activeLayer).map fun layer => g.mouse.position - layer.pos

/-- A message that takes gui from `g` to `g'` says where the cursor is now, and how far it has come. -/
def Right (g g' : Desktop) : Reply → Prop
  | .mouseMove x y dx dy _ => g'.relpos = some ⟨x, y⟩ ∧ ⟨dx, dy⟩ = g'.mouse.position - g.mouse.position
  | .mouseButton x y _ _ => g'.relpos = some ⟨x, y⟩
  | _ => True

instance : ∀ r, Decidable (Right g g' r)
  | .mouseMove .. => inferInstanceAs (Decidable (_ ∧ _))
  | .mouseButton .. => inferInstanceAs (Decidable (_ = _))
  | .keyPush .. | .quit | .layerId .. => inferInstanceAs (Decidable True)

/-- All that is sent on the way from `g` to `g'` is right. -/
def Reports (g g' : Desktop) : Prop := g.sent <+: g'.sent ∧ ∀ e ∈ g'.sent.drop g.sent.length, Right g g' e.2

instance : Decidable (Reports g g') := inferInstanceAs (Decidable (_ ∧ _))

theorem reports_of_append {l : List (UInt64 × Reply)} (h : g'.sent = g.sent ++ l) :
    Reports g g' ↔ ∀ e ∈ l, Right g g' e.2 := by
  simp [Reports, h]

/-! ## Where the cursor goes, and who hears of it -/

/-- The point of the screen next to `v`. -/
def clamped (g : Desktop) (v : Vec) : Vec := (v.elementMin (g.screen + ⟨-1, -1⟩)).elementMax ⟨0, 0⟩

/-- The layer a report goes to: what a press finds, unless it is a press on the frame; else the active layer, unless it
is a drag. -/
def listener (g : Desktop) (buttons : UInt8) (p : Vec) : UInt32 :=
  match leftPressed g.mouse.previousButtons, leftPressed buttons with
  | false, true =>
    match g.manager.findLayerByPosition p g.mouse.layerId with
    | some (some layer) =>
      let region := layer.getWindowRegion (p - layer.pos)
      if layer.draggable ∧ region ≠ .titleBar ∧ region ≠ .closeButton then layer.id else 0
    | _ => 0
  | true, true => if g.mouse.dragLayerId = 0 then g.active.activeLayer else 0
  | _, false => g.active.activeLayer

/-- A client hears of a report that moves the cursor to `p`. -/
def Heard (g : Desktop) (buttons : UInt8) (p : Vec) : Prop :=
  g.listener buttons p ≠ 0 ∧ ∃ task ∈ g.layerTaskMap.lookup (g.listener buttons p), task ≠ 0

instance (buttons : UInt8) (p : Vec) : Decidable (g.Heard buttons p) := inferInstanceAs (Decidable (_ ∧ _))

/-- The mouse is not pushed over the left or the upper edge, or no client is told. -/
def FromInside (g : Desktop) : Msg → Prop
  | .mouseMove buttons dx dy =>
    let v := g.mouse.position + ⟨dx.toInt8.toInt32, dy.toInt8.toInt32⟩
    (0 ≤ v.x ∧ 0 ≤ v.y) ∨ ¬ g.Heard buttons (g.clamped v) ∨
      (g.clamped v = g.mouse.position ∧ buttons = g.mouse.previousButtons)
  | _ => True

instance : ∀ m, Decidable (g.FromInside m)
  | .mouseMove .. => inferInstanceAs (Decidable (_ ∨ _))
  | .keyPush .. | .openWindow .. | .closeWindow .. | .other => inferInstanceAs (Decidable True)

/-! ## The messages of a report -/

/-- What `SendMouseMessage` sends. -/
def replies (relpos posdiff : Vec) (buttons previousButtons : UInt8) : List Reply :=
  (if posdiff.x ≠ 0 ∨ posdiff.y ≠ 0 then [.mouseMove relpos.x relpos.y posdiff.x posdiff.y buttons] else []) ++
    ((List.range 8).filter fun i => (previousButtons ^^^ buttons).toNat.testBit i).map fun i =>
      .mouseButton relpos.x relpos.y (if buttons.toNat.testBit i then 1 else 0) i

theorem sendButtons_eq (v : Vec) (buttons diff : UInt8) (task : UInt64) (g : Desktop) :
    g.sendButtons v buttons diff task =
      { g with sent := g.sent ++ ((List.range 8).filter fun i => diff.toNat.testBit i).map fun i =>
          (task, .mouseButton v.x v.y (if buttons.toNat.testBit i then 1 else 0) i) } := by
  unfold sendButtons
  generalize List.range 8 = is
  induction is generalizing g with
  | nil => simp
  | cons i is ih =>
    rw [List.foldl_cons, ih]
    by_cases hi : diff.toNat.testBit i
    · simp [hi, send]
    · simp [hi]

theorem sendMouseMessage_eq {layer : Layer} {task : UInt64} (h : g.findActiveLayerTask = some (layer, task))
    (newpos posdiff : Vec) (b b' : UInt8) : g.sendMouseMessage newpos posdiff b b' =
      { g with sent := g.sent ++ (replies (newpos - layer.pos) posdiff b b').map (Prod.mk task) } := by
  unfold sendMouseMessage
  simp only [h]
  by_cases hp : posdiff.x ≠ 0 ∨ posdiff.y ≠ 0
  · simp only [if_pos hp, replies]
    by_cases hb : b' = b
    · simp [hb, send]
    · simp [hb, sendButtons_eq, send]
  · simp only [if_neg hp, replies]
    by_cases hb : b' = b
    · simp [hb]
    · simp [hb, sendButtons_eq]

/-- The client of the active window is told, unless something is dragged or closed. -/
def Told (g : Desktop) (close : UInt32) : Prop :=
  (g.mouse.dragLayerId = 0 ∧ close = 0) ∧ g.findActiveLayerTask.isSome

theorem report_eq (g : Desktop) (close : UInt32) (newpos posdiff : Vec) (b : UInt8) :
    ∃ l, g.report close newpos posdiff b = { g with sent := g.sent ++ l } ∧
      (g.Told close → ∃ layer task, g.findActiveLayerTask = some (layer, task) ∧
        l = (replies (newpos - layer.pos) posdiff b g.mouse.previousButtons).map (Prod.mk task)) ∧
      (¬ g.Told close → ∀ e ∈ l, e.2 = .quit) := by
  have hnil : g = { g with sent := g.sent ++ [] } := by simp
  unfold report Told
  by_cases hd : g.mouse.dragLayerId = 0
  · by_cases hc : close = 0
    · simp only [hd, hc, if_true, and_self, true_and]
      cases hf : g.findActiveLayerTask with
      | none => exact ⟨[], by rw [sendMouseMessage, hf]; exact hnil, fun ht => by simp at ht, fun _ e he => by cases he⟩
      | some lt =>
        obtain ⟨layer, task⟩ := lt
        exact ⟨_, sendMouseMessage_eq hf .., fun _ => ⟨layer, task, rfl, rfl⟩, fun hn => by simp at hn⟩
    · simp only [if_pos hd, if_neg hc]
      cases hf : g.findActiveLayerTask with
      | none => exact ⟨[], by rw [sendCloseMessage, hf]; exact hnil, fun ht => absurd ht.1.2 hc, fun _ e he => by cases he⟩
      | some lt =>
        obtain ⟨layer, task⟩ := lt
        refine ⟨[(task, .quit)], by rw [sendCloseMessage, hf]; rfl, fun ht => absurd ht.1.2 hc, fun _ e he => ?_⟩
        cases List.mem_singleton.1 he
        rfl
  · simp only [if_neg hd]
    exact ⟨[], hnil, fun ht => absurd ht.1.1 hd, fun _ e he => by cases he⟩

theorem exists_testBit {d : UInt8} (h : d ≠ 0) : ∃ i < 8, d.toNat.testBit i = true := by
  have hne : d.toNat ≠ 0 := fun h0 => h (UInt8.toNat_inj.1 h0)
  obtain ⟨i, hi⟩ := Nat.exists_testBit_of_ne_zero hne
  refine ⟨i, ?_, hi⟩
  by_contra h8
  have hlt : d.toNat < 2 ^ i := Nat.lt_of_lt_of_le d.toNat_lt (Nat.pow_le_pow_right (by decide) (Nat.not_lt.1 h8))
  rw [Nat.testBit_lt_two_pow hlt] at hi
  cases hi

theorem replies_eq_nil {v posdiff : Vec} {b b' : UInt8} : replies v posdiff b b' = [] ↔ posdiff = ⟨0, 0⟩ ∧ b = b' := by
  rw [replies, List.append_eq_nil_iff]
  refine and_congr ?_ ?_
  · obtain ⟨x, y⟩ := posdiff
    by_cases hp : x ≠ 0 ∨ y ≠ 0
    · simp only [if_pos hp, Vec.mk.injEq]
      refine iff_of_false (List.cons_ne_nil _ _) fun h => ?_
      exact hp.elim (fun hx => hx h.1) fun hy => hy h.2
    · simp only [if_neg hp, Vec.mk.injEq, true_iff]
      simpa [not_or] using hp
  · simp only [List.map_eq_nil_iff, List.filter_eq_nil_iff, List.mem_range]
    constructor
    · intro h
      by_contra hne
      obtain ⟨i, hi, hbit⟩ := exists_testBit fun h0 => hne (UInt8.xor_eq_zero_iff.1 h0).symm
      exact h i hi hbit
    · rintro rfl i _
      simp

theorem Vec.sub_left_inj {a b c : Vec} : a - c = b - c ↔ a = b := by
  refine ⟨fun h => ?_, fun h => by rw [h]⟩
  have hcancel : ∀ x y z : Int32, x - z = y - z → x = y := fun x y z h => by grind
  cases a
  cases b
  obtain ⟨hx, hy⟩ := Vec.mk.inj h
  exact congrArg₂ Vec.mk (hcancel _ _ _ hx) (hcancel _ _ _ hy)

/-- A message is right exactly if it was made with the position of the cursor. -/
theorem right_iff {layer : Layer} {newpos posdiff : Vec} {b b' : UInt8} {r : Reply}
    (hl : g'.manager.findLayer g'.active.activeLayer = some layer) (hd : posdiff = g'.mouse.position - g.mouse.position)
    (hr : r ∈ replies (newpos - layer.pos) posdiff b b') : Right g g' r ↔ newpos = g'.mouse.position := by
  have hrel : g'.relpos = some (newpos - layer.pos) ↔ newpos = g'.mouse.position := by
    rw [relpos, hl, Option.map_some, Option.some_inj, Vec.sub_left_inj, eq_comm]
  simp only [replies, List.mem_append, List.mem_map] at hr
  rcases hr with hr | ⟨i, _, rfl⟩
  · split at hr
    · cases List.mem_singleton.1 hr
      exact (and_iff_left hd).trans hrel
    · cases hr
  · exact hrel

/-! ## The search that leaves out the mouse -/

theorem deref_setPos (m : LayerManager) (q : Nat) (v : Vec) (p : Nat) :
    (m.setPos q v).deref p = (m.deref p).map fun l => if l.ptr = q then { l with pos := v } else l := by
  simp only [deref, setPos, List.find?_map]
  congr 1
  refine List.find?_congr fun l _ => ?_
  simp only [Function.comp_apply]
  split <;> rfl

theorem findLayer_setPos_eq (m : LayerManager) (q : Nat) (v : Vec) (i : UInt32) :
    (m.setPos q v).findLayer i = (m.findLayer i).map fun l => if l.ptr = q then { l with pos := v } else l := by
  simp only [LayerManager.findLayer, setPos, List.find?_map]
  congr 1
  refine List.find?_congr fun l _ => ?_
  simp only [Function.comp_apply]
  split <;> rfl

/-- Where the excluded layer is makes no difference. -/
theorem findUnder_setPos {m : LayerManager} (h : m.Numbered) (v pos : Vec) (ex : UInt32) : ∀ ps : List Nat,
    (m.setPos ex.toNat v).findUnder pos ex ps = m.findUnder pos ex ps
  | [] => rfl
  | p :: ps => by
    simp only [findUnder, deref_setPos, findUnder_setPos h v pos ex ps]
    cases hl : m.deref p with
    | none => rfl
    | some l =>
      obtain ⟨hmem, _⟩ := deref_some hl
      simp only [Option.map_some, Option.bind_eq_bind, Option.bind_some]
      by_cases hp : l.ptr = ex.toNat
      · have hid : l.id = ex := UInt32.toNat_inj.1 ((h.id l hmem).trans hp)
        simp [hp, hid]
      · simp [hp]

/-! ## One report -/

/-- The cursor has not moved. -/
structure Still (g g' : Desktop) : Prop where
  screen : g'.screen = g.screen
  layerId : g'.mouse.layerId = g.mouse.layerId
  position : g'.mouse.position = g.mouse.position
  cursor : g'.manager.findLayer g.mouse.layerId = g.manager.findLayer g.mouse.layerId

theorem Still.refl (g : Desktop) : Still g g := ⟨rfl, rfl, rfl, rfl⟩

theorem Still.shown (h : Still g g') (hg : g.MouseShown) : g'.MouseShown := by
  unfold MouseShown
  rw [h.screen, h.layerId, h.position, h.cursor]
  exact hg

theorem activated_still (g : Desktop) (id : UInt32) : Still g (g.activated id) := by
  refine ⟨rfl, rfl, rfl, ?_⟩
  unfold Desktop.activated
  split
  · rfl
  · rfl

/-- Nobody drags the mouse, and nothing is dragged unless the left button is down. -/
structure Calm (g : Desktop) : Prop where
  drag : g.mouse.dragLayerId ≠ g.mouse.layerId
  released : leftPressed g.mouse.previousButtons = false → g.mouse.dragLayerId = 0

theorem findActiveLayerTask_isSome (h : g.Good) : g.findActiveLayerTask.isSome ↔
    g.active.activeLayer ≠ 0 ∧ ∃ task ∈ g.layerTaskMap.lookup g.active.activeLayer, task ≠ 0 := by
  unfold findActiveLayerTask
  by_cases h0 : g.active.activeLayer = 0
  · simp [h0]
  · obtain ⟨hw, _⟩ := h.active.resolve_left h0
    obtain ⟨l, hl⟩ := Option.isSome_iff_exists.1 (h.arranged.numbered.findLayer_isSome.2 hw.1)
    simp only [if_neg h0, hl]
    cases g.layerTaskMap.lookup g.active.activeLayer with
    | none => simp
    | some task => by_cases ht : task = 0 <;> simp [h0, ht]

/-- What a button event leaves, and to whom the report goes afterwards. -/
structure Handled (g : Desktop) (buttons : UInt8) (g' : Desktop) (close : UInt32) : Prop where
  still : Still g g'
  sent : g'.sent = g.sent
  tasks : g'.layerTaskMap = g.layerTaskMap
  previous : g'.mouse.previousButtons = g.mouse.previousButtons
  drag : g'.mouse.dragLayerId ≠ g'.mouse.layerId
  released : leftPressed buttons = false → g'.mouse.dragLayerId = 0
  listener : g.listener buttons g.mouse.position =
    if g'.mouse.dragLayerId = 0 ∧ close = 0 then g'.active.activeLayer else 0

theorem press_handled (h : g.Good) (hc : g.Calm) {buttons : UInt8} {close : UInt32}
    (hp : leftPressed g.mouse.previousButtons = false) (hb : leftPressed buttons = true)
    (he : g.press = some (g', close)) : g.Handled buttons g' close := by
  have hpres : ∀ p ∈ g.manager.layerStack.reverse, p ∈ g.manager.ptrs := fun p hp =>
    h.arranged.present p (List.mem_reverse.1 hp)
  obtain ⟨r, hr, hmem⟩ := findUnder_eq g.mouse.position g.mouse.layerId hpres
  have hdrag := hc.released hp
  have hlist : g.listener buttons g.mouse.position = r.elim 0 fun layer =>
      if layer.draggable ∧ layer.getWindowRegion (g.mouse.position - layer.pos) ≠ .titleBar ∧
        layer.getWindowRegion (g.mouse.position - layer.pos) ≠ .closeButton then layer.id else 0 := by
    simp only [listener, hp, hb, findLayerByPosition, hr]
    cases r <;> rfl
  -- a layer is activated, after it may have become the one that is dragged
  have hact : ∀ {id drag c}, id = 0 ∨ g.manager.IsWindow id → drag ≠ g.mouse.layerId →
      g.listener buttons g.mouse.position = (if drag = 0 ∧ c = 0 then id else 0) →
      ((g.setDrag drag).activate id).bind (fun g' => some (g', c)) = some (g', close) → g.Handled buttons g' close := by
    intro id drag c hid hd hl he
    have hset : (g.setDrag drag).Good := h.setMouse ..
    rw [activate_eq hset hid, Option.bind_some] at he
    cases he
    obtain ⟨h1, h2, h3, h4⟩ := activated_still (g.setDrag drag) id
    exact ⟨⟨h1, h2, h3, h4⟩, rfl, rfl, rfl, hd, fun hn => Bool.noConfusion (hb.symm.trans hn), hl⟩
  have hzero : g.listener buttons g.mouse.position = 0 →
    (g.activate 0).bind (fun g' => some (g', (0 : UInt32))) = some (g', close) →
      g.Handled buttons g' close := fun hl => hact (.inl rfl) hc.drag (hl.trans (ite_self _).symm)
  unfold press at he
  simp only [findLayerByPosition, hr, Option.bind_eq_bind, Option.bind_some, Option.pure_def] at he
  cases r with
  | none => exact hzero hlist he
  | some l =>
    simp only [Option.elim_some] at he hlist
    by_cases hd : l.draggable = true
    · simp only [hd, if_true, true_and] at he hlist
      have hl := hmem l rfl
      have hw : g.manager.IsWindow l.id := by
        unfold IsWindow
        rw [h.arranged.numbered.id l hl]
        exact ⟨mem_ptrs.2 ⟨l, hl, rfl⟩, h.arranged.draggable l hl hd⟩
      have hne : l.id ≠ g.mouse.layerId := fun he => hw.2.2.2 (by rw [he, h.mouse]; rfl)
      have hl0 : l.id ≠ 0 := fun he => Nat.lt_irrefl 0 (by
        have := (h.arranged.numbered.pos hw.1).1
        rwa [he] at this)
      have hm0 : g.mouse.layerId ≠ 0 := by rw [h.mouse]; decide
      cases hreg : l.getWindowRegion (g.mouse.position - l.pos) with
      | titleBar =>
        simp only [hreg, if_true, reduceCtorEq, if_false] at he
        exact hact (.inr hw) hne (by simp [hlist, hreg, hl0]) he
      | closeButton =>
        simp only [hreg, if_true, reduceCtorEq, if_false] at he
        exact hact (.inr hw) hc.drag (by simp [hlist, hreg, hm0]) he
      | border =>
        simp only [hreg, reduceCtorEq, if_false] at he
        exact hact (.inr hw) hc.drag (by simp [hlist, hreg, hdrag]) he
      | other =>
        simp only [hreg, reduceCtorEq, if_false] at he
        exact hact (.inr hw) hc.drag (by simp [hlist, hreg, hdrag]) he
    · simp only [if_neg hd] at he
      exact hzero (by rw [hlist, if_neg fun h => hd h.1]) he

theorem buttonEvent_handled (h : g.Good) (hc : g.Calm) {buttons : UInt8} {posdiff : Vec} {close : UInt32}
    (he : g.buttonEvent buttons posdiff = some (g', close)) : g.Handled buttons g' close := by
  unfold buttonEvent at he
  cases hp : leftPressed g.mouse.previousButtons with
  | false =>
    have hdrag := hc.released hp
    cases hb : leftPressed buttons with
    | true =>
      simp only [hp, hb] at he
      exact press_handled h hc hp hb he
    | false =>
      simp only [hp, hb] at he
      cases he
      exact ⟨.refl g, rfl, rfl, rfl, hc.drag, fun _ => hdrag, by simp [listener, hb, hdrag]⟩
  | true =>
    cases hb : leftPressed buttons with
    | false =>
      simp only [hp, hb] at he
      cases he
      have hm0 : (0 : UInt32) ≠ g.mouse.layerId := by rw [h.mouse]; decide
      exact ⟨⟨rfl, rfl, rfl, rfl⟩, rfl, rfl, rfl, hm0, fun _ => rfl, by simp [listener, hb, setDrag]⟩
    | true =>
      have hrel : leftPressed buttons = false → g.mouse.dragLayerId = 0 := fun hn => Bool.noConfusion (hb.symm.trans hn)
      simp only [hp, hb] at he
      by_cases h0 : g.mouse.dragLayerId = 0
      · rw [if_neg (by simp [h0])] at he
        cases he
        exact ⟨.refl g, rfl, rfl, rfl, hc.drag, hrel, by simp [listener, hp, hb, h0]⟩
      · rw [if_pos (UInt32.pos_iff_ne_zero.2 h0)] at he
        obtain ⟨m, hm, he⟩ := Option.bind_eq_some_iff.1 he
        cases he
        obtain ⟨hnone, hsome⟩ := moveRelative_eq h.arranged g.mouse.dragLayerId posdiff
        have hs : (g.manager.findLayer g.mouse.dragLayerId).isSome := by
          by_contra hn
          rw [hnone (Option.not_isSome_iff_eq_none.1 hn)] at hm
          cases hm
        obtain ⟨v, hv⟩ := hsome hs
        cases hv.symm.trans hm
        refine ⟨⟨rfl, rfl, rfl, ?_⟩, rfl, rfl, rfl, hc.drag, hrel, by simp [listener, hp, hb, h0]⟩
        -- the layer that is dragged is not the mouse
        simp only [findLayer_setPos_eq]
        cases hl : g.manager.findLayer g.mouse.layerId with
        | none => rfl
        | some l =>
          rw [h.arranged.numbered.findLayer] at hl
          have hne : l.ptr ≠ g.mouse.dragLayerId.toNat := by
            rw [(deref_some hl).2]
            exact fun he => hc.drag (UInt32.toNat_inj.1 he.symm)
          simp [hne]

/-! ## The edges of the screen -/

/-- A screen of at least one pixel. -/
def HasScreen (g : Desktop) : Prop := 1 ≤ g.screen.x ∧ 1 ≤ g.screen.y

theorem far_edge {s : Int32} (h : 1 ≤ s) : (s + -1).toInt = s.toInt - 1 := by
  have h1 : 1 ≤ s.toInt := Int32.le_iff_toInt_le.1 h
  have hs := s.toInt_lt
  have hadd := Int32.toInt_add_cases s (-1)
  have hneg : (-1 : Int32).toInt = -1 := rfl
  omega

theorem far_edge_nonneg {s : Int32} (h : 1 ≤ s) : 0 ≤ s + -1 := by
  have h1 : 1 ≤ s.toInt := Int32.le_iff_toInt_le.1 h
  rw [Int32.le_iff_toInt_le, far_edge h, Int32.toInt_zero]
  omega

theorem clamped_inside (h : g.HasScreen) (v : Vec) : Inside g.screen (g.clamped v) := by
  have hx : 1 ≤ g.screen.x.toInt := Int32.le_iff_toInt_le.1 h.1
  have hy : 1 ≤ g.screen.y.toInt := Int32.le_iff_toInt_le.1 h.2
  simp only [Inside, clamped, Vec.elementMax, Vec.elementMin, Int32.le_iff_toInt_le, Int32.lt_iff_toInt_lt, Int32.toInt_max,
    Int32.toInt_min, Int32.toInt_zero]
  have hex : ((g.screen + ⟨-1, -1⟩).x).toInt = g.screen.x.toInt - 1 := far_edge h.1
  have hey : ((g.screen + ⟨-1, -1⟩).y).toInt = g.screen.y.toInt - 1 := far_edge h.2
  omega

theorem max_zero_eq {a : Int32} : a = max a 0 ↔ 0 ≤ a := by
  rw [← Int32.toInt_inj, Int32.toInt_max, Int32.le_iff_toInt_le, Int32.toInt_zero]
  omega

theorem zero_le_min {a b : Int32} (hb : 0 ≤ b) : 0 ≤ min a b ↔ 0 ≤ a := by
  simp only [Int32.le_iff_toInt_le, Int32.toInt_min, Int32.toInt_zero] at *
  omega

/-- The two sides of the clamping agree unless the mouse is pushed over a near edge. -/
theorem newpos_eq (h : g.HasScreen) (v : Vec) :
    v.elementMin (g.screen + ⟨-1, -1⟩) = g.clamped v ↔ 0 ≤ v.x ∧ 0 ≤ v.y := by
  have hx : (0 : Int32) ≤ (g.screen + ⟨-1, -1⟩).x := far_edge_nonneg h.1
  have hy : (0 : Int32) ≤ (g.screen + ⟨-1, -1⟩).y := far_edge_nonneg h.2
  simp only [clamped, Vec.elementMax, Vec.elementMin, Vec.mk.injEq, max_zero_eq, zero_le_min hx, zero_le_min hy]

/-! ## A report as a whole -/

theorem forall_right {layer : Layer} {newpos posdiff : Vec} {b b' : UInt8}
    (hl : g'.manager.findLayer g'.active.activeLayer = some layer) (hd : posdiff = g'.mouse.position - g.mouse.position) :
    (∀ r ∈ replies (newpos - layer.pos) posdiff b b', Right g g' r) ↔
      newpos = g'.mouse.position ∨ (posdiff = ⟨0, 0⟩ ∧ b = b') := by
  rw [← replies_eq_nil (v := newpos - layer.pos)]
  constructor
  · intro h
    cases hr : replies (newpos - layer.pos) posdiff b b' with
    | nil => exact .inr rfl
    | cons r rs =>
      have hmem : r ∈ replies (newpos - layer.pos) posdiff b b' := by simp [hr]
      exact .inl ((right_iff hl hd hmem).1 (h r hmem))
  · rintro (h | h) r hr
    · exact (right_iff hl hd hr).2 h
    · rw [h] at hr
      cases hr

theorem findActiveLayerTask_layer {layer : Layer} {task : UInt64} (h : g.findActiveLayerTask = some (layer, task)) :
    g.manager.findLayer g.active.activeLayer = some layer := by
  unfold findActiveLayerTask at h
  split at h
  · cases h
  · split at h
    · split at h
      · cases h
      · cases h
        assumption
    · cases h

theorem buttonEvent_good (h : g.Good) {buttons : UInt8} {posdiff : Vec} {close : UInt32}
    (he : g.buttonEvent buttons posdiff = some (g', close)) : g'.Good := by
  obtain ⟨hnone, hsome⟩ := buttonEvent_eq h buttons posdiff
  by_cases hd : leftPressed g.mouse.previousButtons = true ∧ leftPressed buttons = true → g.DragAlive
  · obtain ⟨g1, c, h1, hg, _⟩ := hsome hd
    cases h1.symm.trans he
    exact hg
  · obtain ⟨hl, ha⟩ := Classical.not_imp.1 hd
    cases (hnone hl ha).symm.trans he

theorem told_iff (hg : g'.Good) {buttons : UInt8} {close : UInt32} (h : g.Handled buttons g' close) :
    g'.Told close ↔ g.Heard buttons g.mouse.position := by
  unfold Told Heard
  rw [findActiveLayerTask_isSome hg, h.listener, h.tasks]
  by_cases hc : g'.mouse.dragLayerId = 0 ∧ close = 0
  · rw [if_pos hc, and_iff_right hc]
  · rw [if_neg hc]
    exact iff_of_false (fun ht => hc ht.1) fun ht => ht.1 rfl

/-- The cursor at its new place, before anything else is done. -/
def placed (g : Desktop) (p : Vec) : Desktop :=
  { g with manager := g.manager.setPos g.mouse.layerId.toNat p, mouse := { g.mouse with position := p } }

theorem moveCursor_placed (h : g.Good) (p : Vec) : g.moveCursor p = some (g.placed p) := by
  simp only [moveCursor, move_eq h.arranged (mouse_present h), Option.bind_eq_bind, Option.bind_some, Option.pure_def]
  rfl

theorem placed_good (h : g.Good) (p : Vec) : (g.placed p).Good := (h.setPos g.mouse.layerId.toNat p).setMouse ..

theorem placed_shown (h : g.Good) {p : Vec} (hp : Inside g.screen p) : (g.placed p).MouseShown := by
  refine ⟨hp, ?_⟩
  simp only [placed, findLayer_setPos_eq]
  obtain ⟨l, hl⟩ := Option.isSome_iff_exists.1 (h.arranged.numbered.findLayer_isSome.2 (mouse_present h))
  rw [hl]
  rw [h.arranged.numbered.findLayer] at hl
  simp [(deref_some hl).2]

theorem placed_heard (h : g.Good) (buttons : UInt8) (p : Vec) : (g.placed p).Heard buttons p ↔ g.Heard buttons p := by
  have hl : (g.placed p).listener buttons p = g.listener buttons p := by
    simp only [listener, placed, findLayerByPosition]
    rw [show (g.manager.setPos g.mouse.layerId.toNat p).layerStack = g.manager.layerStack from rfl,
      findUnder_setPos h.arranged.numbered]
    rfl
  unfold Heard
  rw [hl]
  rfl

/-- The end of a report, once the cursor has been moved to `p`. -/
theorem report_reports (h : g.Good) (hc : g.Calm) {newpos p : Vec} (hin : Inside g.screen p) {g2 : Desktop} {close : UInt32}
    {buttons : UInt8} (h2 : (g.placed p).buttonEvent buttons (p - g.mouse.position) = some (g2, close))
    (he : g' = (g2.report close newpos (p - g.mouse.position) buttons).setButtons buttons) :
    (g'.screen = g.screen ∧ g'.MouseShown ∧ g'.Calm) ∧
      (Reports g g' ↔ newpos = p ∨ ¬ g.Heard buttons p ∨ (p = g.mouse.position ∧ buttons = g.mouse.previousButtons)) := by
  have hd := buttonEvent_handled (placed_good h p) ⟨hc.drag, hc.released⟩ h2
  have hg2 := buttonEvent_good (placed_good h p) h2
  have hshown : g2.MouseShown := hd.still.shown (placed_shown h hin)
  have hpos : g2.mouse.position = p := hd.still.position
  have hprev : g2.mouse.previousButtons = g.mouse.previousButtons := hd.previous
  have htold : g2.Told close ↔ g.Heard buttons p := (told_iff hg2 hd).trans (placed_heard h buttons p)
  obtain ⟨l, hl, hlt, hln⟩ := report_eq g2 close newpos (p - g.mouse.position) buttons
  rw [hl] at he
  have hsent : g'.sent = g.sent ++ l := he ▸ congrArg (· ++ l) hd.sent
  have hmouse : g'.mouse.position = p := he ▸ hpos
  have hfind : g'.manager.findLayer g'.active.activeLayer = g2.manager.findLayer g2.active.activeLayer := he ▸ rfl
  refine ⟨⟨he ▸ hd.still.screen, he ▸ hshown, he ▸ ⟨hd.drag, hd.released⟩⟩, ?_⟩
  rw [reports_of_append hsent]
  by_cases ht : g2.Told close
  · obtain ⟨layer, task, hf, hr⟩ := hlt ht
    have hstay : p - g.mouse.position = ⟨0, 0⟩ ↔ p = g.mouse.position := by
      have hzero : (⟨0, 0⟩ : Vec) = g.mouse.position - g.mouse.position := congrArg₂ Vec.mk (by simp) (by simp)
      rw [hzero, Vec.sub_left_inj]
    rw [hr, List.forall_mem_map, forall_right (hfind.trans (findActiveLayerTask_layer hf)) (by rw [hmouse]), hmouse,
      hstay, hprev, or_iff_right (fun hn : ¬ g.Heard buttons p => hn (htold.1 ht))]
  · refine iff_of_true (fun e he => ?_) (.inr (.inl fun hh => ht (htold.2 hh)))
    rw [hln ht e he]
    trivial

theorem onInterrupt_reports (h : g.Good) (hc : g.Calm) (hs : g.HasScreen) {buttons : UInt8} {dx dy : Int8}
    (he : g.onInterrupt buttons dx dy = some g') :
    let v := g.mouse.position + ⟨dx.toInt32, dy.toInt32⟩
    (g'.screen = g.screen ∧ g'.MouseShown ∧ g'.Calm) ∧
      (Reports g g' ↔ (0 ≤ v.x ∧ 0 ≤ v.y) ∨ ¬ g.Heard buttons (g.clamped v) ∨
        (g.clamped v = g.mouse.position ∧ buttons = g.mouse.previousButtons)) := by
  intro v
  obtain ⟨g1, h1, he⟩ := Option.bind_eq_some_iff.1 he
  obtain ⟨⟨g2, close⟩, h2, he⟩ := Option.bind_eq_some_iff.1 he
  have hg1 : g.placed (g.clamped v) = g1 := Option.some.inj ((moveCursor_placed h (g.clamped v)).symm.trans h1)
  rw [← hg1] at h2
  rw [← newpos_eq hs v]
  exact report_reports h hc (clamped_inside hs v) h2 (Option.some.inj he).symm

/-! ## The other messages -/

/-- The mouse is as it was, and what has been sent does not speak of it. -/
structure Aside (g g' : Desktop) : Prop where
  screen : g'.screen = g.screen
  mouse : g'.mouse = g.mouse
  cursor : g'.manager.findLayer g.mouse.layerId = g.manager.findLayer g.mouse.layerId
  sent : ∃ l, g'.sent = g.sent ++ l ∧ ∀ e ∈ l, ∀ g1 g2, Right g1 g2 e.2

theorem Aside.refl (g : Desktop) : Aside g g := ⟨rfl, rfl, rfl, [], by simp, fun _ h => by cases h⟩

theorem Aside.reports (h : Aside g g') : Reports g g' := by
  obtain ⟨l, hl, hr⟩ := h.sent
  exact (reports_of_append hl).2 fun e he => hr e he g g'

theorem Aside.shown (h : Aside g g') (hg : g.MouseShown) : g'.MouseShown := by
  have hs : Still g g' := ⟨h.screen, by rw [h.mouse], by rw [h.mouse], h.cursor⟩
  exact hs.shown hg

theorem Aside.calm (h : Aside g g') (hg : g.Calm) : g'.Calm := by
  refine ⟨?_, ?_⟩
  · rw [h.mouse]
    exact hg.drag
  · rw [h.mouse]
    exact hg.released

/-- Nothing is sent, and no layer has moved. -/
theorem Aside.quiet (hs : g'.screen = g.screen) (hm : g'.mouse = g.mouse) (hl : g'.manager.layers = g.manager.layers)
    (he : g'.sent = g.sent) : Aside g g' :=
  ⟨hs, hm, by rw [LayerManager.findLayer, hl]; rfl, [], by simp [he], fun _ h => by cases h⟩

theorem Aside.send (g : Desktop) {r : Reply} (hr : ∀ g1 g2, Right g1 g2 r) (task : UInt64) : Aside g (g.send r task) :=
  ⟨rfl, rfl, rfl, [(task, r)], rfl, fun e he => by
    cases List.mem_singleton.1 he
    exact hr⟩

theorem Aside.trans {g'' : Desktop} (h : Aside g g') (h' : Aside g' g'') : Aside g g'' := by
  obtain ⟨l, hl, hr⟩ := h.sent
  obtain ⟨l', hl', hr'⟩ := h'.sent
  refine ⟨h'.screen.trans h.screen, h'.mouse.trans h.mouse, ?_, l ++ l', by rw [hl', hl, List.append_assoc], fun e he => ?_⟩
  · rw [← h.cursor, ← h.mouse, h'.cursor]
  · rcases List.mem_append.1 he with he | he
    · exact hr e he
    · exact hr' e he

theorem upDown_layers (m : LayerManager) (id : UInt32) (height : Int) : (m.upDown id height).layers = m.layers := by
  simp only [upDown, hide]
  split
  · rfl
  · split
    · rfl
    · rfl

theorem activate_aside (he : g.activate id = some g') : Aside g g' := by
  have hup : ∀ {k : Desktop}, k.bringUp = some g' → Aside k g' := by
    intro k hk
    unfold bringUp at hk
    simp only at hk
    split at hk
    · obtain ⟨_, _, hk⟩ := Option.bind_eq_some_iff.1 hk
      obtain ⟨height, _, hk⟩ := Option.bind_eq_some_iff.1 hk
      obtain ⟨_, _, hk⟩ := Option.bind_eq_some_iff.1 hk
      cases hk
      exact .quiet rfl rfl ((upDown_layers ..).trans (upDown_layers ..)) rfl
    · cases hk
      exact .refl _
  have hset : Aside g (g.setActive id) := .quiet rfl rfl rfl rfl
  unfold activate at he
  split at he
  · cases he
    exact .refl g
  · simp only at he
    split at he
    · obtain ⟨_, _, he⟩ := Option.bind_eq_some_iff.1 he
      obtain ⟨_, _, he⟩ := Option.bind_eq_some_iff.1 he
      exact hset.trans (hup he)
    · exact hset.trans (hup he)

theorem onKeyPush_aside {k : Key} (he : g.onKeyPush k = some g') : Aside g g' := by
  unfold onKeyPush at he
  split at he
  · split at he
    · obtain ⟨first, _, he⟩ := Option.bind_eq_some_iff.1 he
      exact activate_aside he
    · cases he
      exact .refl g
  · split at he
    · cases he
      exact .refl g
    · split at he
      · split at he
        · cases he
          have hquit : ∀ g1 g2, Right g1 g2 .quit := fun _ _ => trivial
          exact .send g hquit _
        · cases he
          have hkey : ∀ g1 g2, Right g1 g2 (.keyPush k) := fun _ _ => trivial
          exact .send g hkey _
      · cases he
        exact .refl g

theorem onOpenWindow_aside (h : g.Good) {src : UInt64} {w ht x y : Int32} (he : g.onOpenWindow src w ht x y = some g') :
    Aside g g' := by
  have hnew : Aside g { g with manager := g.manager.newLayer ⟨x, y⟩ ⟨w, ht⟩ true true } := by
    refine ⟨rfl, rfl, ?_, [], by simp, fun _ h => by cases h⟩
    obtain ⟨l, hl⟩ := Option.isSome_iff_exists.1 (h.arranged.numbered.findLayer_isSome.2 (mouse_present h))
    simp only [LayerManager.findLayer, LayerManager.newLayer, List.find?_append] at hl ⊢
    rw [hl]
    rfl
  obtain ⟨g1, h1, he⟩ := Option.bind_eq_some_iff.1 he
  have htold : ∀ g1 g2, Right g1 g2 (.layerId (g.manager.newLayer ⟨x, y⟩ ⟨w, ht⟩ true true).latestId) := fun _ _ => trivial
  refine (hnew.trans (activate_aside h1)).trans ((Aside.send g1 htold src).trans ?_)
  cases he
  split
  · exact .quiet rfl rfl rfl rfl
  · exact .quiet rfl rfl rfl rfl

theorem onCloseWindow_aside (h : g.Good) (h5 : (g.manager.findLayer id).isSome → 5 ≤ id.toNat)
    (he : g.onCloseWindow id = some g') :
    Aside g g' := by
  unfold onCloseWindow at he
  cases hl : g.manager.findLayer id with
  | none =>
    rw [hl] at he
    cases he
    exact .refl g
  | some l =>
    have h5 := h5 (by rw [hl]; rfl)
    rw [hl] at he
    obtain ⟨g1, h1, he⟩ := Option.bind_eq_some_iff.1 he
    obtain ⟨_, _, he⟩ := Option.bind_eq_some_iff.1 he
    cases he
    have hact := activate_aside h1
    refine hact.trans ⟨rfl, rfl, ?_, [], by simp [removeLayer], fun _ h => by cases h⟩
    -- the layer that goes is not the mouse
    simp only [removeLayer, hide, LayerManager.findLayer, List.find?_filter]
    refine List.find?_congr fun k _ => ?_
    have hne : g1.mouse.layerId ≠ id := by
      rw [hact.mouse, h.mouse]
      intro he
      rw [← he] at h5
      exact absurd h5 (by decide)
    by_cases hk : k.id = g1.mouse.layerId
    · simp [hk, hne]
    · simp [hk]

/-! ## Runs -/

/-- What holds between two messages. -/
structure Steady (g : Desktop) : Prop where
  good : g.Good
  calm : g.Calm
  screen : g.HasScreen
  shown : g.MouseShown

/-- **Step lemma.** The cursor is kept on the screen; what is sent about it is right exactly in a step that meets
`FromInside`. -/
theorem Steady.turn (h : g.Steady) {m : Msg} (hp : g.ClientClose m ∧ g.Fresh m) (he : g.turn m = some g') :
    g'.Steady ∧ (Reports g g' ↔ g.FromInside m) := by
  have hgood : g'.Good := (turn_good h.good hp he).1
  have haside : Aside g g' → g'.Steady ∧ (Reports g g' ↔ True) := fun ha =>
    ⟨⟨hgood, ha.calm h.calm, by unfold HasScreen; rw [ha.screen]; exact h.screen, ha.shown h.shown⟩,
      iff_true_intro ha.reports⟩
  cases m with
  | mouseMove buttons dx dy =>
    obtain ⟨⟨hs, hshown, hcalm⟩, hr⟩ := onInterrupt_reports h.good h.calm h.screen he
    exact ⟨⟨hgood, hcalm, by unfold HasScreen; rw [hs]; exact h.screen, hshown⟩, hr⟩
  | keyPush k => exact haside (onKeyPush_aside he)
  | openWindow src w ht x y => exact haside (onOpenWindow_aside h.good he)
  | closeWindow src i =>
    obtain ⟨e, hsent, hi⟩ := hp.1
    exact haside (onCloseWindow_aside h.good (fun _ => h.good.opened e hsent i hi) he)
  | other =>
    cases he
    exact haside (.refl g)

theorem booted_steady {screen : Vec} (hx : 200 < screen.x) (hy : 200 < screen.y) : (booted screen).Steady where
  good := booted_good screen
  calm := ⟨fun he => absurd he (by decide : (0 : UInt32) ≠ 4), fun _ => rfl⟩
  screen := by
    simp only [Int32.lt_iff_toInt_lt, HasScreen, booted, Int32.le_iff_toInt_le] at *
    exact ⟨Int.le_trans (by decide) hx, Int.le_trans (by decide) hy⟩
  shown :=
    have h0 : (0 : Int32) ≤ 200 := by decide
    ⟨⟨⟨h0, hx⟩, h0, hy⟩, rfl⟩

/-- **The cursor is where gui says it is exactly if it is on the screen when gui starts, and is never pushed over the left
or the upper edge while a client listens.** -/
theorem mouse_reports_iff {screen : Vec} {ms : List Msg} (h0 : start screen = some g)
    (h : Throughout turn (fun g m => g.ClientClose m ∧ g.Fresh m) g ms) :
    States turn MouseShown g ms ∧ Along turn (fun g m => ∀ g', g.turn m = some g' → Reports g g') g ms ↔
      (200 < screen.x ∧ 200 < screen.y) ∧ Along turn FromInside g ms := by
  cases (start_eq screen).symm.trans h0
  by_cases hin : 200 < screen.x ∧ 200 < screen.y
  · have hsteady := booted_steady hin.1 hin.2
    have hkeep : ∀ (s : Desktop) m s', s.Steady → s.ClientClose m ∧ s.Fresh m → s.turn m = some s' → s'.Steady :=
      fun s m s' hs hp he => (hs.turn hp he).1
    have hstates := (h.along.states hkeep ms hsteady).mono (fun s hs => hs.shown) ms
    rw [and_iff_right hstates, and_iff_right hin]
    refine Along.congr hkeep (fun s m s' hs hp he => ?_) ms hsteady h.along
    rw [← (hs.turn hp he).2]
    exact ⟨fun hr => hr s' he, fun hr s'' he' => by cases he.symm.trans he'; exact hr⟩
  · refine iff_of_false (fun hs => hin ?_) fun hs => hin hs.1
    obtain ⟨⟨⟨_, hsx⟩, _, hsy⟩, _⟩ := hs.1.start
    exact ⟨hsx, hsy⟩

/-- A client opens a window, and the user clicks into it, drags it and leaves it. -/
theorem mouse_reports_session : States turn MouseShown (booted ⟨1024, 768⟩)
    [.openWindow 9 100 100 150 195, .mouseMove 1 0 50, .mouseMove 0 5 0, .mouseMove 1 0 (-50), .mouseMove 1 3 4,
      .mouseMove 0 100 0] := by
  refine ((mouse_reports_iff (start_eq ⟨1024, 768⟩) ?_).2 ⟨by decide, ?_⟩).1
  · decide
  · decide

/-- The mouse is pushed to the left edge while a window is active. -/
theorem mouse_reports_edge : ¬ ∀ (screen : Vec) (g : Desktop) (ms : List Msg), 1 ≤ screen.x → 1 ≤ screen.y →
    start screen = some g → Throughout turn (fun g m => g.ClientClose m ∧ g.Fresh m) g ms →
    States turn MouseShown g ms ∧ Along turn (fun g m => ∀ g', g.turn m = some g' → Reports g g') g ms := by
  intro h
  have hrun := (h ⟨1024, 768⟩ _ [.openWindow 9 100 100 150 195, .mouseMove 0 (-128) 0, .mouseMove 0 (-128) 0]
    (by decide) (by decide) (start_eq _) (by decide)).2
  revert hrun
  decide

end Desktop

end KinOS.Gui
