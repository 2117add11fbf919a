import KinOS.Gui.LayerStack

/-!
# The messages of gui

| here | there |
| --- | --- |
| `Quiet`           | `SyscallSendMessage` in `servers/gui/gui.cpp` and `mouse.cpp:41-80`: nothing else changes |
| `Fresh`           | `++latest_id_` (`layer.cpp:55-58`), which nothing keeps from starting over at 0 |
| `ClientClose`     | `kCloseWindow` for an id that a `kLayerId` has told a client |
| `Drags`, `DragAlive` | a move with the left button held (`mouse.cpp:134-137`), and the layer `drag_layer_id_` names |

`turn_eq` is the step lemma: gui handles every message and keeps `Good`, but for one case. `Mouse::OnInterrupt` moves
the layer `drag_layer_id_` without asking whether it is still there.
-/

namespace KinOS.Gui

namespace Desktop

open LayerManager

variable {g g' : Desktop} {id : UInt32}

/-! ## Sending -/

/-- Some messages, none of them a new id, have been sent; the rest is as before. -/
structure Quiet (g g' : Desktop) : Prop where
  manager : g'.manager = g.manager
  active : g'.active = g.active
  windows : g'.windowLayerId = g.windowLayerId
  mouse : g'.mouse = g.mouse
  sent : ∀ e ∈ g'.sent, e ∈ g.sent ∨ ∀ i, e.2 ≠ .layerId i

theorem Quiet.refl (g : Desktop) : Quiet g g := ⟨rfl, rfl, rfl, rfl, fun _ h => .inl h⟩

theorem Quiet.trans {g'' : Desktop} (h : Quiet g g') (h' : Quiet g' g'') : Quiet g g'' where
  manager := h'.manager.trans h.manager
  active := h'.active.trans h.active
  windows := h'.windows.trans h.windows
  mouse := h'.mouse.trans h.mouse
  sent e he := by
    rcases h'.sent e he with he | he
    · exact h.sent e he
    · exact .inr he

theorem Quiet.send {r : Reply} (hr : ∀ i, r ≠ .layerId i) (task : UInt64) : Quiet g (g.send r task) where
  manager := rfl
  active := rfl
  windows := rfl
  mouse := rfl
  sent e he := by
    simp only [Desktop.send, List.mem_append, List.mem_singleton] at he
    rcases he with he | rfl
    · exact .inl he
    · exact .inr hr

theorem Quiet.good (h : Quiet g g') (hg : g.Good) : g'.Good where
  arranged := h.manager ▸ hg.arranged
  made := h.manager ▸ hg.made
  mouse := h.mouse ▸ hg.mouse
  mouseLayer := h.active ▸ hg.mouseLayer
  active := by
    rw [h.active, h.manager]
    exact hg.active
  windows := by
    rw [h.windows, h.manager]
    exact hg.windows
  main := h.windows ▸ hg.main
  opened e he i hi := by
    rcases h.sent e he with he | he
    · exact hg.opened e he i hi
    · exact absurd hi (he i)

theorem sendButtons_quiet (relpos : Vec) (buttons diff : UInt8) (task : UInt64) (g : Desktop) :
    Quiet g (g.sendButtons relpos buttons diff task) := by
  unfold sendButtons
  generalize List.range 8 = is
  induction is generalizing g with
  | nil => exact Quiet.refl g
  | cons i is ih =>
    rw [List.foldl_cons]
    refine Quiet.trans ?_ (ih _)
    split
    · exact Quiet.send (fun i h => by cases h) task
    · exact Quiet.refl g

theorem sendMouseMessage_quiet (g : Desktop) (newpos posdiff : Vec) (b b' : UInt8) :
    Quiet g (g.sendMouseMessage newpos posdiff b b') := by
  unfold sendMouseMessage
  cases g.findActiveLayerTask with
  | none => exact Quiet.refl g
  | some lt =>
    obtain ⟨layer, task⟩ := lt
    have hmove : Quiet g (if posdiff.x ≠ 0 ∨ posdiff.y ≠ 0 then
        g.send (.mouseMove (newpos - layer.pos).x (newpos - layer.pos).y posdiff.x posdiff.y b) task else g) := by
      split
      · exact Quiet.send (fun i h => by cases h) task
      · exact Quiet.refl g
    simp only
    split
    · exact hmove.trans (sendButtons_quiet ..)
    · exact hmove

theorem sendCloseMessage_quiet (g : Desktop) : Quiet g g.sendCloseMessage := by
  unfold sendCloseMessage
  cases g.findActiveLayerTask with
  | none => exact Quiet.refl g
  | some lt => exact Quiet.send (fun i h => by cases h) lt.2

/-! ## Keys and windows -/

/-- The counter has not gone round: the next layer gets an id that is not 0 and that no other layer has. -/
def Fresh (g : Desktop) : Msg → Prop
  | .openWindow .. => g.manager.made + 1 < 4294967296
  | _ => True

/-- Windows are closed by clients that have been told of them. -/
def ClientClose (g : Desktop) : Msg → Prop
  | .closeWindow _ id => ∃ e ∈ g.sent, e.2 = .layerId id
  | _ => True

theorem nextWindow_mem (first act : UInt32) : ∀ (ids : List UInt32) (next : UInt32),
    nextWindow first act ids next = next ∨ nextWindow first act ids next = first ∨ nextWindow first act ids next ∈ ids
  | [], _ => .inl rfl
  | a :: rest, next => by
    rcases nextWindow_mem first act rest (if act = a then rest.headD first else next) with h | h | h
    · rw [nextWindow, h]
      split
      · cases rest with
        | nil => exact .inr (.inl rfl)
        | cons b rest => exact .inr (.inr (List.mem_cons_of_mem _ (List.mem_cons_self ..)))
      · exact .inl rfl
    · exact .inr (.inl h)
    · exact .inr (.inr (List.mem_cons_of_mem _ h))

theorem onKeyPush_eq (h : g.Good) (k : Key) : ∃ g', g.onKeyPush k = some g' ∧ g'.Good ∧ Moved g g' := by
  have hquiet : ∀ {g'}, Quiet g g' → g'.Good ∧ Moved g g' := fun hq => ⟨hq.good h, by rw [hq.manager], by
    unfold DragAlive
    rw [hq.manager, hq.mouse]
    exact fun hd => hd⟩
  unfold onKeyPush
  by_cases htab : k.ascii = 9
  · simp only [if_pos htab]
    by_cases hpress : k.press ≠ 0
    · simp only [if_pos hpress, h.main, Option.bind_eq_bind, Option.bind_some]
      have hfirst : (3 : UInt32) ∈ g.windowLayerId := List.mem_of_mem_head? h.main
      have hwin : g.manager.IsWindow (nextWindow 3 g.active.activeLayer g.windowLayerId 3) := by
        rcases nextWindow_mem 3 g.active.activeLayer g.windowLayerId 3 with hn | hn | hn
        · rw [hn]
          exact h.windows _ hfirst
        · rw [hn]
          exact h.windows _ hfirst
        · exact h.windows _ hn
      exact ⟨_, activate_eq h (.inr hwin), h.activated (.inr hwin), activated_moved h _⟩
    · exact ⟨g, if_neg hpress, h, .refl g⟩
  · simp only [if_neg htab]
    split
    · exact ⟨g, rfl, h, .refl g⟩
    · split
      · split
        · exact ⟨_, rfl, hquiet (Quiet.send (fun i h => by cases h) _)⟩
        · exact ⟨_, rfl, hquiet (Quiet.send (fun i h => by cases h) _)⟩
      · exact ⟨g, rfl, h, .refl g⟩

theorem Good.newLayer (h : g.Good) (hf : g.manager.made + 1 < 4294967296) (pos size : Vec) (t d : Bool) :
    { g with manager := g.manager.newLayer pos size t d }.Good := by
  have hmono : ∀ {i}, g.manager.IsWindow i → (g.manager.newLayer pos size t d).IsWindow i := fun hw =>
    ⟨by rw [newLayer_ptrs]; exact List.mem_append_left _ hw.1, hw.2⟩
  refine { h with
    arranged := h.arranged.newLayer h.made hf pos size t d
    made := Nat.le_succ_of_le h.made
    active := h.active.imp_right fun ⟨hw, hr⟩ => ⟨hmono hw, ?_⟩
    windows := fun i hi => hmono (h.windows i hi) }
  simp only [LayerManager.raise, LayerManager.newLayer, LayerManager.mk.injEq, true_and, and_true]
  exact congrArg LayerManager.layerStack hr

theorem latestId_toNat {m : LayerManager} (hm : m.made < 4294967296) : m.latestId.toNat = m.made := by
  simp only [latestId, UInt32.toNat_ofNat']
  omega

theorem onOpenWindow_eq (h : g.Good) (hf : g.manager.made + 1 < 4294967296) (src : UInt64) (w ht x y : Int32) :
    ∃ g', g.onOpenWindow src w ht x y = some g' ∧ g'.Good ∧ Moved g g' := by
  have hmid := h.newLayer hf ⟨x, y⟩ ⟨w, ht⟩ true true
  have hid := latestId_toNat hmid.arranged.numbered.bound
  have hwin : (g.manager.newLayer ⟨x, y⟩ ⟨w, ht⟩ true true).IsWindow
      (g.manager.newLayer ⟨x, y⟩ ⟨w, ht⟩ true true).latestId := by
    have hmade := h.made
    unfold IsWindow
    rw [hid, newLayer_ptrs]
    exact ⟨List.mem_append_right _ (List.mem_singleton_self _), by simp only [LayerManager.newLayer]; omega⟩
  have hact := hmid.activated (.inr hwin)
  unfold onOpenWindow
  simp only [activate_eq hmid (.inr hwin), Option.bind_eq_bind, Option.bind_some, Option.pure_def]
  refine ⟨_, rfl, ?_, ?_⟩
  · have hgood : ∀ map, Good
        { (Desktop.activated { g with manager := g.manager.newLayer ⟨x, y⟩ ⟨w, ht⟩ true true }
            (g.manager.newLayer ⟨x, y⟩ ⟨w, ht⟩ true true).latestId) with
          windowLayerId := g.windowLayerId ++ [(g.manager.newLayer ⟨x, y⟩ ⟨w, ht⟩ true true).latestId]
          layerTaskMap := map
          sent := g.sent ++ [(src, .layerId (g.manager.newLayer ⟨x, y⟩ ⟨w, ht⟩ true true).latestId)] } := by
      intro map
      refine { hact with windows := ?_, main := ?_, opened := ?_ }
      · intro i hi
        simp only [List.mem_append, List.mem_singleton] at hi
        rcases hi with hi | rfl
        · exact hact.windows i hi
        · unfold Desktop.activated
          split
          · exact hwin
          · exact hwin
      · simp [List.head?_append, h.main]
      · intro e he i hi
        simp only [List.mem_append, List.mem_singleton] at he
        rcases he with he | rfl
        · exact h.opened e he i hi
        · cases hi
          rw [hid]
          exact Nat.succ_le_succ h.made
    split
    · exact hgood _
    · exact hgood _
  · have hmoved := activated_moved hmid (g.manager.newLayer ⟨x, y⟩ ⟨w, ht⟩ true true).latestId
    have hdrag : g.DragAlive → DragAlive { g with manager := g.manager.newLayer ⟨x, y⟩ ⟨w, ht⟩ true true } :=
      Or.imp_right fun hs => by
        simp only [LayerManager.findLayer, LayerManager.newLayer, List.find?_append, Option.isSome_or] at hs ⊢
        rw [hs, Bool.true_or]
    split
    · exact ⟨hmoved.order, fun hd => hmoved.drag (hdrag hd)⟩
    · exact ⟨hmoved.order, fun hd => hmoved.drag (hdrag hd)⟩

theorem Good.removeLayer (h : g.Good) (h0 : g.active.activeLayer = 0) (h5 : 5 ≤ id.toNat) (hw : g.manager.IsWindow id) :
    (g.removeLayer id).Good where
  arranged := h.arranged.remove hw
  made := h.made
  mouse := h.mouse
  mouseLayer := h.mouseLayer
  active := .inl h0
  windows i hi := by
    simp only [Desktop.removeLayer, List.mem_filter, decide_eq_true_eq] at hi
    obtain ⟨hi, hne⟩ := hi
    obtain ⟨hp, hrest⟩ := h.windows i hi
    obtain ⟨l, hl, hlp⟩ := mem_ptrs.1 hp
    refine ⟨mem_ptrs.2 ⟨l, List.mem_filter.2 ⟨hl, ?_⟩, hlp⟩, hrest⟩
    have hli : l.id = i := UInt32.toNat_inj.1 ((h.arranged.numbered.id l hl).trans hlp)
    simpa [hli] using hne
  main := by
    obtain ⟨rest, hrest⟩ := List.head?_eq_some_iff.1 h.main
    have h3 : (3 : UInt32) ≠ id := fun he => by
      rw [← he] at h5
      exact absurd h5 (by decide)
    simp [Desktop.removeLayer, hrest, h3]
  opened := h.opened

theorem onCloseWindow_eq (h : g.Good) (h5 : (g.manager.findLayer id).isSome → 5 ≤ id.toNat) :
    ∃ g', g.onCloseWindow id = some g' ∧ g'.Good ∧
      g'.manager.layerStack = g.manager.layerStack.erase (g.manager.pointer id) ∧
      (g.mouse.dragLayerId ≠ id → g.DragAlive → g'.DragAlive) := by
  unfold onCloseWindow
  cases hl : g.manager.findLayer id with
  | none =>
    refine ⟨g, rfl, h, ?_, fun _ hd => hd⟩
    simp [LayerManager.pointer, hl, List.erase_of_not_mem h.zero_notin]
  | some l =>
    have hsome : (g.manager.findLayer id).isSome := by simp [hl]
    have h5 := h5 hsome
    have hw : g.manager.IsWindow id := ⟨h.arranged.numbered.findLayer_isSome.1 hsome, by omega⟩
    have hrem : ((g.activated 0).removeLayer id).Good := (h.activated (.inl rfl)).removeLayer rfl h5 hw
    simp only [activate_eq h (.inl rfl), draw_eq hrem.arranged.present, Option.bind_eq_bind, Option.bind_some,
      Option.pure_def]
    refine ⟨_, rfl, { hrem with }, rfl, fun hne hd => hd.imp_right fun hs => ?_⟩
    obtain ⟨k, hk⟩ := Option.isSome_iff_exists.1 hs
    have hkid : k.id = g.mouse.dragLayerId := by simpa using List.find?_some hk
    refine List.find?_isSome.2 ⟨k, List.mem_filter.2 ⟨List.mem_of_find?_eq_some hk, ?_⟩, decide_eq_true hkid⟩
    simpa [hkid] using hne

/-! ## The mouse -/

theorem Good.withManager {m : LayerManager} (h : g.Good) (ha : m.Arranged) (hp : m.ptrs = g.manager.ptrs)
    (hs : m.layerStack = g.manager.layerStack) (hmade : m.made = g.manager.made) : { g with manager := m }.Good := by
  have hwin : ∀ {i}, g.manager.IsWindow i → m.IsWindow i := fun hw => by simpa only [IsWindow, hp] using hw
  exact { h with
    arranged := ha
    made := hmade ▸ h.made
    active := h.active.imp_right fun ⟨hw, hr⟩ => ⟨hwin hw, by
      have hr := congrArg LayerManager.layerStack hr
      simp only [LayerManager.raise] at hr ⊢
      rw [hs, hr, ← hs]⟩
    windows := fun i hi => hwin (h.windows i hi) }

theorem Good.setPos (h : g.Good) (p : Nat) (pos : Vec) : { g with manager := g.manager.setPos p pos }.Good :=
  h.withManager (h.arranged.setPos p pos) (setPos_ptrs ..) rfl rfl

theorem Good.setMouse (h : g.Good) (position : Vec) (drag : UInt32) (buttons : UInt8) :
    { g with mouse := ⟨g.mouse.layerId, position, drag, buttons⟩ }.Good := { h with }

/-- Both buttons events hold the left button down: a drag. -/
def Drags (g : Desktop) : Msg → Prop
  | .mouseMove buttons _ _ => leftPressed g.mouse.previousButtons = true ∧ leftPressed buttons = true
  | _ => False

instance : ∀ m, Decidable (g.Drags m)
  | .mouseMove .. => inferInstanceAs (Decidable (_ ∧ _))
  | .keyPush .. | .openWindow .. | .closeWindow .. | .other => inferInstanceAs (Decidable False)

instance : ∀ m, Decidable (g.Fresh m)
  | .openWindow .. => inferInstanceAs (Decidable (_ < _))
  | .keyPush .. | .mouseMove .. | .closeWindow .. | .other => inferInstanceAs (Decidable True)

instance : ∀ m, Decidable (g.ClientClose m)
  | .closeWindow .. => inferInstanceAs (Decidable (∃ e ∈ g.sent, _))
  | .keyPush .. | .mouseMove .. | .openWindow .. | .other => inferInstanceAs (Decidable True)

theorem move_eq {m : LayerManager} (h : m.Arranged) (hid : id.toNat ∈ m.ptrs) (pos : Vec) :
    m.move id pos = some (m.setPos id.toNat pos) := by
  obtain ⟨l, hl⟩ := Option.isSome_iff_exists.1 (h.numbered.findLayer_isSome.2 hid)
  have hptr : l.ptr = id.toNat := (deref_some (h.numbered.findLayer id ▸ hl)).2
  simp [LayerManager.move, hl, hptr, draw_eq (h.setPos id.toNat pos).present]

theorem moveRelative_eq {m : LayerManager} (h : m.Arranged) (id : UInt32) (pos : Vec) :
    (m.findLayer id = none → m.moveRelative id pos = none) ∧
      ((m.findLayer id).isSome → ∃ v, m.moveRelative id pos = some (m.setPos id.toNat v)) := by
  refine ⟨fun hn => by simp [LayerManager.moveRelative, hn], fun hs => ?_⟩
  obtain ⟨l, hl⟩ := Option.isSome_iff_exists.1 hs
  have hptr : l.ptr = id.toNat := (deref_some (h.numbered.findLayer id ▸ hl)).2
  exact ⟨l.pos + pos, by simp [LayerManager.moveRelative, hl, hptr, draw_eq (h.setPos id.toNat _).present]⟩

theorem press_eq (h : g.Good) : ∃ g' c, g.press = some (g', c) ∧ g'.Good ∧ Moved g g' := by
  have hpres : ∀ p ∈ g.manager.layerStack.reverse, p ∈ g.manager.ptrs := fun p hp =>
    h.arranged.present p (List.mem_reverse.1 hp)
  obtain ⟨r, hr, hmem⟩ := findUnder_eq g.mouse.position g.mouse.layerId hpres
  have hzero : ∃ g' c, (g.activate 0).bind (fun g' => some (g', (0 : UInt32))) = some (g', c) ∧ g'.Good ∧ Moved g g' :=
    ⟨g.activated 0, 0, by rw [activate_eq h (.inl rfl)]; rfl, h.activated (.inl rfl), activated_moved h 0⟩
  unfold press
  simp only [findLayerByPosition, hr, Option.bind_eq_bind, Option.bind_some, Option.pure_def]
  cases r with
  | none => exact hzero
  | some l =>
    simp only
    by_cases hd : l.draggable = true
    · simp only [if_pos hd]
      have hl := hmem l rfl
      have hw : g.manager.IsWindow l.id := by
        unfold IsWindow
        rw [h.arranged.numbered.id l hl]
        exact ⟨mem_ptrs.2 ⟨l, hl, rfl⟩, h.arranged.draggable l hl hd⟩
      generalize hg1 : (if l.getWindowRegion (g.mouse.position - l.pos) = .titleBar then g.setDrag l.id else g) = g1
      have hgood : g1.Good ∧ g1.manager = g.manager ∧ (g.DragAlive → g1.DragAlive) := by
        rw [← hg1]
        split
        · refine ⟨h.setMouse .., rfl, fun _ => .inr (List.find?_isSome.2 ⟨l, hl, by simp [setDrag]⟩)⟩
        · exact ⟨h, rfl, fun hd => hd⟩
      have hw1 : g1.manager.IsWindow l.id := hgood.2.1 ▸ hw
      obtain ⟨horder, hdrag⟩ := activated_moved hgood.1 l.id
      rw [hgood.2.1] at horder
      rw [activate_eq hgood.1 (.inr hw1)]
      exact ⟨_, _, rfl, hgood.1.activated (.inr hw1), horder, fun hd => hdrag (hgood.2.2 hd)⟩
    · simp only [if_neg hd]
      exact hzero

theorem findLayer_setPos {m : LayerManager} (h : m.Arranged) (p : Nat) (pos : Vec) :
    ((m.setPos p pos).findLayer id).isSome ↔ (m.findLayer id).isSome := by
  rw [(h.setPos p pos).numbered.findLayer_isSome, h.numbered.findLayer_isSome, setPos_ptrs]

theorem buttonEvent_eq (h : g.Good) (buttons : UInt8) (posdiff : Vec) :
    (leftPressed g.mouse.previousButtons = true ∧ leftPressed buttons = true → ¬ g.DragAlive →
      g.buttonEvent buttons posdiff = none) ∧
    ((leftPressed g.mouse.previousButtons = true ∧ leftPressed buttons = true → g.DragAlive) →
      ∃ g' c, g.buttonEvent buttons posdiff = some (g', c) ∧ g'.Good ∧ Moved g g') := by
  unfold buttonEvent
  cases leftPressed g.mouse.previousButtons with
  | false =>
    refine ⟨fun hd => by simp at hd, fun _ => ?_⟩
    cases leftPressed buttons with
    | true => exact press_eq h
    | false => exact ⟨g, 0, rfl, h, .refl g⟩
  | true =>
    cases leftPressed buttons with
    | false => exact ⟨fun hd => by simp at hd, fun _ => ⟨_, 0, rfl, h.setMouse .., rfl, fun _ => .inl rfl⟩⟩
    | true =>
      simp only [and_self, true_imp_iff, DragAlive]
      by_cases h0 : g.mouse.dragLayerId = 0
      · rw [if_neg (by simp [h0])]
        exact ⟨fun hn => absurd (.inl h0) hn, fun _ => ⟨g, 0, rfl, h, .refl g⟩⟩
      · rw [if_pos (UInt32.pos_iff_ne_zero.2 h0)]
        obtain ⟨hnone, hsome⟩ := moveRelative_eq h.arranged g.mouse.dragLayerId posdiff
        refine ⟨fun hn => ?_, fun ha => ?_⟩
        · rw [hnone (Option.not_isSome_iff_eq_none.1 fun hs => hn (.inr hs))]
          rfl
        · obtain ⟨v, hv⟩ := hsome (ha.resolve_left h0)
          rw [hv]
          exact ⟨_, 0, rfl, h.setPos .., rfl, fun hd => hd.imp_right (findLayer_setPos h.arranged ..).2⟩

theorem mouse_present (h : g.Good) : g.mouse.layerId.toNat ∈ g.manager.ptrs := by
  obtain ⟨mid, hs⟩ := h.arranged.shape
  refine h.arranged.present _ ?_
  rw [h.mouse, hs]
  simp

theorem moveCursor_eq (h : g.Good) (position : Vec) : ∃ g', g.moveCursor position = some g' ∧ g'.Good ∧
    g'.manager.layerStack = g.manager.layerStack ∧ g'.mouse.previousButtons = g.mouse.previousButtons ∧
    (g'.DragAlive ↔ g.DragAlive) := by
  unfold moveCursor
  rw [move_eq h.arranged (mouse_present h)]
  exact ⟨_, rfl, (h.setPos g.mouse.layerId.toNat position).setMouse .., rfl, rfl,
    or_congr_right (findLayer_setPos h.arranged ..)⟩

theorem report_quiet (g : Desktop) (close : UInt32) (newpos posdiff : Vec) (buttons : UInt8) :
    Quiet g (g.report close newpos posdiff buttons) := by
  unfold report
  split
  · split
    · exact sendMouseMessage_quiet ..
    · exact sendCloseMessage_quiet _
  · exact Quiet.refl _

theorem onInterrupt_eq (h : g.Good) (buttons : UInt8) (dx dy : Int8) :
    (leftPressed g.mouse.previousButtons = true ∧ leftPressed buttons = true → ¬ g.DragAlive →
      g.onInterrupt buttons dx dy = none) ∧
    ((leftPressed g.mouse.previousButtons = true ∧ leftPressed buttons = true → g.DragAlive) →
      ∃ g', g.onInterrupt buttons dx dy = some g' ∧ g'.Good ∧ Moved g g') := by
  unfold onInterrupt
  simp only [Option.bind_eq_bind, Option.pure_def]
  generalize (g.mouse.position + ⟨dx.toInt32, dy.toInt32⟩).elementMin (g.screen + ⟨-1, -1⟩) = newpos
  generalize newpos.elementMax ⟨0, 0⟩ = position
  obtain ⟨g1, h1, hgood, hstack, hprev, halive⟩ := moveCursor_eq h position
  obtain ⟨hnone, hsome⟩ := buttonEvent_eq hgood buttons (position - g.mouse.position)
  rw [hprev, halive] at hnone hsome
  rw [h1, Option.bind_some]
  refine ⟨fun hd ha => ?_, fun hd => ?_⟩
  · rw [hnone hd ha]
    rfl
  · obtain ⟨g2, c, h2, hg2, hm2⟩ := hsome hd
    have hq := report_quiet g2 c newpos (position - g.mouse.position) buttons
    rw [h2, Option.bind_some]
    refine ⟨_, rfl, (hq.good hg2).setMouse .., ?_⟩
    obtain ⟨horder, hdrag⟩ := hm2
    rw [hstack] at horder
    refine ⟨?_, fun hd => ?_⟩
    · simp only [setButtons, hq.manager, hq.active]
      exact horder
    · have hd2 := hdrag (halive.2 hd)
      unfold DragAlive at hd2 ⊢
      simp only [setButtons, hq.manager, hq.mouse]
      exact hd2

/-! ## Every message -/

/-- The layers keep their order: a closed one is gone, the active one is elsewhere. -/
def KeepsOrder (g : Desktop) : Msg → Desktop → Prop
  | .closeWindow _ id, g' => g'.manager.layerStack = g.manager.layerStack.erase (g.manager.pointer id)
  | _, g' =>
    let p := g'.manager.pointer g'.active.activeLayer
    g'.manager.layerStack.erase p = g.manager.layerStack.erase p

/-- The window being dragged is not closed. -/
def SparesDragged (g : Desktop) : Msg → Prop
  | .closeWindow _ id => g.mouse.dragLayerId ≠ id
  | _ => True

theorem Good.pointer_active (h : g.Good) : g.manager.pointer g.active.activeLayer = g.active.activeLayer.toNat := by
  rcases h.active with h0 | ⟨hw, _⟩
  · rw [h0]
    exact h.arranged.numbered.pointer_zero
  · exact h.arranged.numbered.pointer hw.1

/-- **Step lemma.** gui handles the message, unless it is a drag of a layer that is gone. -/
theorem turn_eq (h : g.Good) {m : Msg} (hc : g.ClientClose m) (hf : g.Fresh m) :
    (g.Drags m → ¬ g.DragAlive → g.turn m = none) ∧
      ((g.Drags m → g.DragAlive) → ∃ g', g.turn m = some g' ∧ g'.Good ∧ g.KeepsOrder m g' ∧
        (g.SparesDragged m → g.DragAlive → g'.DragAlive)) := by
  have horder : ∀ {g'}, g'.Good → Moved g g' →
      g'.manager.layerStack.erase (g'.manager.pointer g'.active.activeLayer) =
        g.manager.layerStack.erase (g'.manager.pointer g'.active.activeLayer) := by
    intro g' hg' hm
    rw [hg'.pointer_active]
    exact hm.order
  cases m with
  | mouseMove buttons dx dy =>
    obtain ⟨hnone, hsome⟩ := onInterrupt_eq h buttons dx.toInt8 dy.toInt8
    refine ⟨hnone, fun hd => ?_⟩
    obtain ⟨g', he, hg', hm⟩ := hsome hd
    exact ⟨g', he, hg', horder hg' hm, fun _ => hm.drag⟩
  | keyPush k =>
    refine ⟨fun hd => hd.elim, fun _ => ?_⟩
    obtain ⟨g', he, hg', hm⟩ := onKeyPush_eq h k
    exact ⟨g', he, hg', horder hg' hm, fun _ => hm.drag⟩
  | openWindow src w ht x y =>
    refine ⟨fun hd => hd.elim, fun _ => ?_⟩
    obtain ⟨g', he, hg', hm⟩ := onOpenWindow_eq h hf src w ht x y
    exact ⟨g', he, hg', horder hg' hm, fun _ => hm.drag⟩
  | closeWindow src id =>
    refine ⟨fun hd => hd.elim, fun _ => ?_⟩
    obtain ⟨e, hsent, he⟩ := hc
    exact onCloseWindow_eq h fun _ => h.opened e hsent id he
  | other => exact ⟨fun hd => hd.elim, fun _ => ⟨g, rfl, h, rfl, fun _ hd => hd⟩⟩

end Desktop

end KinOS.Gui
