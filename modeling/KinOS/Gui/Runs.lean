import KinOS.Gui.MainLoop
import KinOS.Lib.TransitionSystem

/-!
# Runs of gui

| here | there |
| --- | --- |
| `booted`, `start_eq` | `InitializeLayer`, `InitializeMainWindow`, `InitializeMouse` (`servers/gui/layer.cpp:221-245`, `gui.cpp:17-34`, `mouse.cpp:163-180`) |
| `LayerStack`      | what the stack looks like between two messages of the main loop |
| `Owned`           | a client closes the windows it has opened |

Two things go wrong in a long or an unlucky run. `latest_id_` is an `unsigned int`: after 4294967295 layers the next id is
0, the one after it is the desktop's, and activating that window raises the desktop. And a window can be closed while the
user drags it, which leaves `drag_layer_id_` behind: the next move follows a null pointer.
-/

namespace KinOS.Gui

open TransitionSystem

namespace Desktop

open LayerManager

variable {g g' : Desktop} {id : UInt32}

/-! ## The start -/

/-- The desktop after the initialisation. -/
def booted (screen : Vec) : Desktop where
  screen := screen
  manager :=
    { layers := [⟨1, 1, ⟨0, 0⟩, screen, false, false⟩, ⟨2, 2, ⟨0, 0⟩, ⟨680, 544⟩, false, false⟩,
        ⟨3, 3, ⟨300, 100⟩, ⟨160, 68⟩, true, true⟩, ⟨4, 4, ⟨200, 200⟩, ⟨15, 24⟩, false, false⟩]
      layerStack := [1, 2, 3, 4]
      made := 4 }
  active := ⟨0, 4⟩
  windowLayerId := [3]
  layerTaskMap := []
  mouse := ⟨4, ⟨200, 200⟩, 0, 0⟩
  sent := []

theorem start_eq (screen : Vec) : start screen = some (booted screen) := by
  simp [start, initializeMouse, initializeMainWindow, initializeLayer, newLayer, latestId, LayerManager.move,
    LayerManager.draw, deref, upDown, findLayer, pointer, intMax, setPos, booted]

/-- The desktop as it was at the start, after more windows have come and gone. -/
def usedUp (screen : Vec) (made : Nat) (sent : List (UInt64 × Reply)) : Desktop :=
  { booted screen with manager := { (booted screen).manager with made := made }, sent := sent }

theorem usedUp_good (screen : Vec) {n : Nat} (sent : List (UInt64 × Reply)) (h4 : 4 ≤ n) (hn : n < 4294967296)
    (hs : ∀ e ∈ sent, ∀ i, e.2 = .layerId i → 5 ≤ i.toNat) : (usedUp screen n sent).Good where
  arranged :=
    { numbered := by
        refine ⟨?_, ?_, ?_, hn⟩
        · simp [usedUp, booted]
        · simp [usedUp, booted]
          omega
        · simp [usedUp, booted, ptrs]
      shape := ⟨[3], rfl⟩
      nodup := by simp [usedUp, booted]
      present := by simp [usedUp, booted, ptrs]
      draggable := by simp [usedUp, booted] }
  made := h4
  mouse := rfl
  mouseLayer := rfl
  active := .inl rfl
  windows := by simp [usedUp, booted, IsWindow, ptrs]
  main := rfl
  opened := hs

theorem booted_good (screen : Vec) : (booted screen).Good :=
  usedUp_good screen [] (Nat.le_refl 4) (by decide) fun e he => by cases he

/-! ## The stack -/

/-- The layer stack between two messages. 1 and 2 are the ids of the desktop and the console. -/
structure LayerStack (g : Desktop) : Prop where
  nodup : g.manager.layerStack.Nodup
  present : ∀ p ∈ g.manager.layerStack, (g.manager.deref p).isSome
  desktop : g.manager.getHeight 1 = some 0
  console : g.manager.getHeight 2 = some 1
  mouse : g.manager.getHeight g.mouse.layerId = some (g.manager.layerStack.length - 1 : Int)
  active : g.active.activeLayer ≠ 0 →
    g.manager.getHeight g.active.activeLayer = some (g.manager.layerStack.length - 2 : Int)
  windows : ∀ i ∈ g.windowLayerId, (g.manager.findLayer i).isSome

theorem Good.layerStack (h : g.Good) : g.LayerStack := by
  obtain ⟨mid, hs⟩ := h.arranged.shape
  have hn := h.arranged.numbered
  have hnd := h.arranged.nodup
  have hp := h.arranged.present
  have hheight : ∀ (i : UInt32) (pre post : List Nat), g.manager.layerStack = pre ++ i.toNat :: post →
      g.manager.getHeight i = some (pre.length : Int) := by
    intro i pre post hi
    refine getHeight_append hn hi hp fun hm => ?_
    rw [hi] at hnd
    exact List.disjoint_of_nodup_append hnd hm (List.mem_cons_self ..)
  refine ⟨hnd, fun p hpm => deref_isSome.2 (hp p hpm), hheight 1 [] _ hs, hheight 2 [1] _ hs, ?_, fun hne => ?_,
    fun i hi => hn.findLayer_isSome.2 (h.windows i hi).1⟩
  · rw [h.mouse, hheight 4 (1 :: 2 :: mid) [] (by simpa using hs), hs]
    simp
  · obtain ⟨hw, hr⟩ := h.active.resolve_left hne
    have hr := congrArg LayerManager.layerStack hr
    simp only [LayerManager.raise] at hr
    rw [hs] at hr
    have happ := Stack.raise_append hw.2.2.2 (1 :: 2 :: mid)
    rw [List.cons_append, List.cons_append, hr, ← hs] at happ
    rw [hheight _ _ [4] happ, happ]
    simp

/-! ## Runs while the counter has not gone round -/

section

variable {ms : List Msg}

theorem turn_good {m : Msg} (h : g.Good) (hp : g.ClientClose m ∧ g.Fresh m) (he : g.turn m = some g') :
    g'.Good ∧ g.KeepsOrder m g' ∧ (g.SparesDragged m → g.DragAlive → g'.DragAlive) := by
  obtain ⟨hnone, hsome⟩ := turn_eq h hp.1 hp.2
  by_cases hd : g.Drags m → g.DragAlive
  · obtain ⟨g1, h1, hg1⟩ := hsome hd
    cases he.symm.trans h1
    exact hg1
  · obtain ⟨hd, ha⟩ := Classical.not_imp.1 hd
    cases (hnone hd ha).symm.trans he

/-- gui reaches the end of a run exactly when it never drags a layer that is gone. -/
theorem survives (hg : g.Good) (h : Throughout turn (fun g m => g.ClientClose m ∧ g.Fresh m) g ms) :
    Throughout turn (fun g m => g.Drags m → g.DragAlive) g ms ↔ (exec turn g ms).isSome := by
  refine throughout_iff_exec (I := Good) (fun s m s' hs hp he => (turn_good hs hp he).1) (fun s m hs hp => ?_) ms hg h
  obtain ⟨hnone, hsome⟩ := turn_eq hs hp.1 hp.2
  refine ⟨fun hd => ?_, fun hi hd => ?_⟩
  · obtain ⟨s1, h1, _⟩ := hsome hd
    simp [h1]
  · by_contra ha
    simp [hnone hd ha] at hi

/-- **The layer stack is kept**, whatever the clients and the user do, as long as the counter has not gone round; and
without a drag nothing stops gui. -/
theorem layer_stack_kept {screen : Vec} (h0 : start screen = some g)
    (h : Throughout turn (fun g m => g.ClientClose m ∧ g.Fresh m) g ms) :
    States turn LayerStack g ms ∧ Along turn (fun g m => ∀ g', g.turn m = some g' → g.KeepsOrder m g') g ms ∧
      (Throughout turn (fun g m => ¬ g.Drags m) g ms → (exec turn g ms).isSome) := by
  cases (start_eq screen).symm.trans h0
  have hg := booted_good screen
  have hstep : ∀ (s : Desktop) m s', s.Good → (s.ClientClose m ∧ s.Fresh m) → s.turn m = some s' →
    s'.Good := fun s m s' hs hp he => (turn_good hs hp he).1
  refine ⟨(h.along.states hstep ms hg).mono (fun s hs => hs.layerStack) ms, ?_, fun hd => (survives hg h).1 ?_⟩
  · exact h.along.mono (fun s m s' hs hp he => ⟨hstep s m s' hs hp he, fun s'' he' => (turn_good hs hp he').2.1⟩) ms hg
  · exact hd.mono (fun s m hn hd => absurd hd hn) ms

end

/-- Two clicks on the main window, a window that is opened and closed, and the key that changes the active window. -/
theorem layer_stack_kept_session : States turn LayerStack (booted ⟨1024, 768⟩)
    [.mouseMove 1 120 0, .mouseMove 0 0 0, .openWindow 9 100 100 150 195, .keyPush ⟨0, 43, 9, 1⟩, .closeWindow 9 5] := by
  refine (layer_stack_kept (start_eq ⟨1024, 768⟩) ?_).1
  decide

/-! ## Once the counter has gone round -/

/-- `n` windows are opened and closed while the counter runs up to its last value, then two windows are opened. -/
def wearOut : Nat → List Msg
  | 0 => [.openWindow 9 100 100 150 195, .openWindow 9 100 100 150 195]
  | n + 1 => .openWindow 9 100 100 150 195 :: .closeWindow 9 (UInt32.ofNat (4294967295 - n)) :: wearOut n

/-- One more window is open. -/
def withWindow (screen : Vec) (n : Nat) (sent : List (UInt64 × Reply)) : Desktop :=
  { booted screen with
    manager :=
      { layers := (booted screen).manager.layers ++ [⟨n + 1, UInt32.ofNat (n + 1), ⟨150, 195⟩, ⟨100, 100⟩, true, true⟩]
        layerStack := [1, 2, 3, n + 1, 4]
        made := n + 1 }
    active := ⟨UInt32.ofNat (n + 1), 4⟩
    windowLayerId := [3, UInt32.ofNat (n + 1)]
    layerTaskMap := [(UInt32.ofNat (n + 1), 9)]
    sent := sent ++ [(9, .layerId (UInt32.ofNat (n + 1)))] }

section

variable {screen : Vec} {n : Nat} {sent : List (UInt64 × Reply)}

theorem ofNat_toNat (hn : n < 4294967296) : (UInt32.ofNat n).toNat = n := by
  simp only [UInt32.toNat_ofNat']
  omega

theorem ofNat_ne {k : Nat} (h : k < n) (hn : n < 4294967296) : UInt32.ofNat n ≠ UInt32.ofNat k := by
  intro he
  have := congrArg UInt32.toNat he
  rw [ofNat_toNat hn, ofNat_toNat (by omega)] at this
  omega

theorem usedUp_open (screen : Vec) (h4 : 4 ≤ n) (hn : n + 1 < 4294967296)
    (hs : ∀ e ∈ sent, ∀ i, e.2 = .layerId i → 5 ≤ i.toNat) :
    (usedUp screen n sent).turn (.openWindow 9 100 100 150 195) = some (withWindow screen n sent) := by
  have hid := ofNat_toNat hn
  have hgood := (usedUp_good screen sent h4 (by omega) hs).newLayer hn ⟨150, 195⟩ ⟨100, 100⟩ true true
  have hwin : ((usedUp screen n sent).manager.newLayer ⟨150, 195⟩ ⟨100, 100⟩ true true).IsWindow
      (UInt32.ofNat (n + 1)) := by
    rw [IsWindow, hid, newLayer_ptrs]
    exact ⟨by simp [usedUp], by omega⟩
  have h0 : UInt32.ofNat (n + 1) ≠ 0 := ofNat_ne (k := 0) (by omega) hn
  have hraise : Stack.raise (n + 1) [1, 2, 3, 4] = [1, 2, 3, n + 1, 4] := by
    have hne : n + 1 ≠ 4 := by omega
    have := Stack.raise_append hne [1, 2, 3]
    rwa [List.erase_of_not_mem (by simp; omega)] at this
  unfold turn onOpenWindow
  have hact := activate_eq hgood (.inr hwin)
  simp only [latestId, LayerManager.newLayer, usedUp, Option.bind_eq_bind] at hact ⊢
  rw [hact]
  simp [Desktop.activated, h0, LayerManager.raise, hid, booted, hraise, withWindow, send, -UInt32.ofNat_add]

theorem withWindow_close (screen : Vec) (sent : List (UInt64 × Reply)) (h4 : 4 ≤ n) (hn : n + 1 < 4294967296) :
    (withWindow screen n sent).turn (.closeWindow 9 (UInt32.ofNat (n + 1))) =
      some (usedUp screen (n + 1) (sent ++ [(9, .layerId (UInt32.ofNat (n + 1)))])) := by
  have h0 : UInt32.ofNat (n + 1) ≠ 0 := ofNat_ne (k := 0) (by omega) hn
  have h1 : UInt32.ofNat (n + 1) ≠ 1 := ofNat_ne (k := 1) (by omega) hn
  have h2 : UInt32.ofNat (n + 1) ≠ 2 := ofNat_ne (k := 2) (by omega) hn
  have h3 : UInt32.ofNat (n + 1) ≠ 3 := ofNat_ne (k := 3) (by omega) hn
  have h4' : UInt32.ofNat (n + 1) ≠ 4 := ofNat_ne (k := 4) (by omega) hn
  unfold withWindow
  generalize UInt32.ofNat (n + 1) = id at h0 h1 h2 h3 h4' ⊢
  have hpos : 0 < id := UInt32.pos_iff_ne_zero.2 h0
  have herase : [1, 2, 3, n + 1, 4].erase (n + 1) = [1, 2, 3, 4] := by
    simp [show n ≠ 0 by omega, show n ≠ 1 by omega, show n ≠ 2 by omega]
  simp [turn, onCloseWindow, activate, bringUp, setActive, findLayer, deref, pointer, removeLayer, hide, LayerManager.draw,
    booted, usedUp, h0, h1.symm, h2.symm, h3.symm, h4'.symm, hpos, herase]

/-- The window that gets the id 0 after the last one. -/
def withZero (screen : Vec) (sent : List (UInt64 × Reply)) : Desktop :=
  { booted screen with
    manager :=
      { layers := (booted screen).manager.layers ++ [⟨4294967296, 0, ⟨150, 195⟩, ⟨100, 100⟩, true, true⟩]
        layerStack := [1, 2, 3, 4]
        made := 4294967296 }
    windowLayerId := [3, 0]
    layerTaskMap := [(0, 9)]
    sent := sent ++ [(9, .layerId 0)] }

theorem open_zero : (usedUp screen 4294967295 sent).turn (.openWindow 9 100 100 150 195) = some (withZero screen sent) := by
  have hid : UInt32.ofNat 4294967296 = 0 := rfl
  simp [turn, onOpenWindow, activate, latestId, newLayer, usedUp, booted, withZero, send, hid]

theorem open_one (screen : Vec) (sent : List (UInt64 × Reply)) :
    ∃ g, (withZero screen sent).turn (.openWindow 9 100 100 150 195) = some g ∧ g.manager.getHeight 1 = some 2 := by
  have hid : UInt32.ofNat 4294967297 = 1 := rfl
  simp [turn, onOpenWindow, activate, bringUp, setActive, latestId, newLayer, booted, withZero, send, hid, findLayer, deref,
    pointer, upDown, getHeight, heightFrom, LayerManager.draw]

theorem wearOut_breaks (screen : Vec) : ∀ (n : Nat) (sent : List (UInt64 × Reply)), n ≤ 4294967291 →
    (∀ e ∈ sent, ∀ i, e.2 = .layerId i → 5 ≤ i.toNat) →
    Throughout turn ClientClose (usedUp screen (4294967295 - n) sent) (wearOut n) ∧
      ¬ States turn LayerStack (usedUp screen (4294967295 - n) sent) (wearOut n)
  | 0, sent, _, _ => by
    obtain ⟨g, hopen, hh⟩ := open_one screen sent
    simp only [wearOut, Nat.sub_zero]
    refine ⟨⟨trivial, fun s1 h1 => ⟨trivial, fun _ _ => trivial⟩⟩, fun hs => ?_⟩
    have hlast := (((hs.2 _ open_zero).2 _ hopen) : g.LayerStack).desktop
    rw [hh] at hlast
    exact absurd hlast (by decide)
  | n + 1, sent, hn, hs => by
    have h4 : 4 ≤ 4294967295 - (n + 1) := by omega
    have hlt : 4294967295 - (n + 1) + 1 < 4294967296 := by omega
    have hid : 4294967295 - (n + 1) + 1 = 4294967295 - n := by omega
    have hopen := usedUp_open screen h4 hlt hs
    have hclose := withWindow_close screen sent h4 hlt
    have hs' : ∀ e ∈ sent ++ [(9, Reply.layerId (UInt32.ofNat (4294967295 - (n + 1) + 1)))], ∀ i,
        e.2 = .layerId i → 5 ≤ i.toNat := by
      intro e he i hi
      simp only [List.mem_append, List.mem_singleton] at he
      rcases he with he | rfl
      · exact hs e he i hi
      · cases hi
        rw [ofNat_toNat hlt]
        omega
    rw [hid] at hclose hs'
    obtain ⟨hlegal, hbreak⟩ := wearOut_breaks screen n _ (by omega) hs'
    refine ⟨⟨trivial, fun s1 h1 => ?_⟩, fun hst => ?_⟩
    · cases hopen.symm.trans h1
      refine ⟨⟨(9, .layerId (UInt32.ofNat (4294967295 - n))), ?_, rfl⟩, fun s2 h2 => ?_⟩
      · simp only [withWindow, hid]
        exact List.mem_append_right _ (List.mem_singleton_self _)
      · cases hclose.symm.trans h2
        exact hlegal
    · exact hbreak ((hst.2 _ hopen).2 _ hclose)

/-- Windows that are opened and closed until the counter has gone round, and the desktop is no longer at the bottom. -/
theorem layer_stack_broken : ¬ ∀ (screen : Vec) (g : Desktop) (ms : List Msg), start screen = some g →
    Throughout turn ClientClose g ms → States turn LayerStack g ms := by
  intro h
  obtain ⟨hlegal, hbreak⟩ := wearOut_breaks ⟨1024, 768⟩ 4294967291 [] (Nat.le_refl _) (by simp)
  exact hbreak (h ⟨1024, 768⟩ _ _ (start_eq _) hlegal)

end

/-! ## Ids of layers that are gone -/

/-- A client closes the windows it has opened. -/
def Owned (g : Desktop) : Msg → Prop
  | .closeWindow src id => (src, .layerId id) ∈ g.sent
  | _ => True

theorem Owned.clientClose {m : Msg} (h : g.Owned m) : g.ClientClose m := by
  cases m with
  | closeWindow src id => exact ⟨(src, .layerId id), h, rfl⟩
  | _ => trivial

instance : ∀ m, Decidable (g.Owned m)
  | .closeWindow .. => inferInstanceAs (Decidable (_ ∈ _))
  | .keyPush .. | .mouseMove .. | .openWindow .. | .other => inferInstanceAs (Decidable True)

instance : ∀ m, Decidable (g.SparesDragged m)
  | .closeWindow .. => inferInstanceAs (Decidable (_ ≠ _))
  | .keyPush .. | .mouseMove .. | .openWindow .. | .other => inferInstanceAs (Decidable True)

/-- If the window being dragged is never closed, no drag comes too late. -/
theorem spares_alive : ∀ {ms : List Msg} {g : Desktop}, g.Good → g.DragAlive →
    Throughout turn (fun g m => g.ClientClose m ∧ g.Fresh m) g ms → Throughout turn SparesDragged g ms →
    Throughout turn (fun g m => g.Drags m → g.DragAlive) g ms
  | [], _, _, _, _, _ => trivial
  | _ :: _, _, hg, hd, hp, hs => ⟨fun _ => hd, fun g' he => by
    obtain ⟨hg', _, hdrag⟩ := turn_good hg hp.1 he
    exact spares_alive hg' (hdrag hs.1 hd) (hp.2 g' he) (hs.2 g' he)⟩

/-- **gui follows the id of a layer that is gone exactly when it drags one**: while the counter has not gone round, a run
gets to its end if and only if every drag finds its layer. It does if no window is closed while it is dragged. -/
theorem ids_alive {screen : Vec} {ms : List Msg} (h0 : start screen = some g)
    (h : Throughout turn (fun g m => g.Owned m ∧ g.Fresh m) g ms) :
    (Throughout turn (fun g m => g.Drags m → g.DragAlive) g ms ↔ (exec turn g ms).isSome) ∧
      (Throughout turn SparesDragged g ms → (exec turn g ms).isSome) := by
  cases (start_eq screen).symm.trans h0
  have hg := booted_good screen
  have hp : Throughout turn (fun g m => g.ClientClose m ∧ g.Fresh m) (booted screen) ms :=
    h.mono (fun s m hm => ⟨hm.1.clientClose, hm.2⟩) ms
  exact ⟨survives hg hp, fun hs => (survives hg hp).1 (spares_alive hg (.inl rfl) hp hs)⟩

/-- A client opens a window, the user drags it about and lets go, and the client closes it. -/
theorem ids_alive_session : (exec turn (booted ⟨1024, 768⟩)
    [.openWindow 9 100 100 150 195, .mouseMove 1 0 0, .mouseMove 1 3 4, .mouseMove 0 0 0, .closeWindow 9 5]).isSome := by
  refine (ids_alive (start_eq ⟨1024, 768⟩) ?_).2 ?_
  · decide
  · decide

/-- The client closes its window while the user drags it, and the user goes on. -/
theorem ids_alive_broken : ¬ ∀ (screen : Vec) (g : Desktop) (ms : List Msg), start screen = some g →
    Throughout turn Owned g ms → (exec turn g ms).isSome := by
  intro h
  have hrun := h ⟨1024, 768⟩ _
    [.openWindow 9 100 100 150 195, .mouseMove 1 0 0, .closeWindow 9 5, .mouseMove 1 1 0] (start_eq _) (by decide)
  revert hrun
  decide

end Desktop

end KinOS.Gui
