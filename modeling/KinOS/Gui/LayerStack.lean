import KinOS.Gui.Layer
import KinOS.Lib.Stack

/-!
# The layer stack of gui

| here | there |
| --- | --- |
| `Numbered`                 | `++latest_id_` (`servers/gui/layer.cpp:55-58`), as long as it has not gone round |
| `Arranged`, `Good`         | `layers_`, `layer_stack_` and the ids that `ActiveLayer`, `Mouse` and `window_layer_id` keep |
| `activated`, `activate_eq` | what `ActiveLayer::Activate` (`layer.cpp:196-215`) amounts to: one `Stack.raise` |

`Activate` lowers a layer to the bottom and then raises it to `GetHeight(mouse) - 1`, a position of the stack that still
holds the layer. Whatever the position it came from, it ends just below the mouse.
-/

namespace KinOS.Gui

namespace LayerManager

variable {m : LayerManager} {id : UInt32} {p : Nat} {l : Layer}

/-! ## Ids and pointers -/

def ptrs (m : LayerManager) : List Nat := m.layers.map Layer.ptr

theorem mem_ptrs : p ∈ m.ptrs ↔ ∃ l ∈ m.layers, l.ptr = p := List.mem_map

theorem deref_isSome : (m.deref p).isSome ↔ p ∈ m.ptrs := by
  simp [deref, List.find?_isSome, mem_ptrs]

theorem deref_some (h : m.deref p = some l) : l ∈ m.layers ∧ l.ptr = p :=
  ⟨List.mem_of_find?_eq_some h, by simpa using List.find?_some h⟩

@[simp] theorem setPos_ptrs (m : LayerManager) (p : Nat) (pos : Vec) : (m.setPos p pos).ptrs = m.ptrs := by
  simp only [ptrs, setPos, List.map_map]
  refine List.map_congr_left fun l _ => ?_
  simp only [Function.comp_apply]
  split <;> rfl

theorem setPos_mem {pos : Vec} (h : l ∈ (m.setPos p pos).layers) :
    ∃ k ∈ m.layers, l.ptr = k.ptr ∧ l.id = k.id ∧ l.draggable = k.draggable := by
  simp only [setPos, List.mem_map] at h
  obtain ⟨k, hk, rfl⟩ := h
  refine ⟨k, hk, ?_⟩
  split <;> exact ⟨rfl, rfl, rfl⟩

/-- Every layer has a number of its own, and its id is this number. -/
structure Numbered (m : LayerManager) : Prop where
  id : ∀ l ∈ m.layers, l.id.toNat = l.ptr
  made : ∀ l ∈ m.layers, 0 < l.ptr ∧ l.ptr ≤ m.made
  nodup : m.ptrs.Nodup
  bound : m.made < 4294967296

namespace Numbered

theorem pos (h : m.Numbered) (hp : p ∈ m.ptrs) : 0 < p ∧ p ≤ m.made := by
  obtain ⟨l, hl, rfl⟩ := mem_ptrs.1 hp
  exact h.made l hl

theorem findLayer (h : m.Numbered) (id : UInt32) : m.findLayer id = m.deref id.toNat := by
  refine List.find?_congr fun l hl => ?_
  rw [← h.id l hl, decide_eq_decide, UInt32.toNat_inj]

theorem findLayer_isSome (h : m.Numbered) : (m.findLayer id).isSome ↔ id.toNat ∈ m.ptrs := by
  rw [h.findLayer, deref_isSome]

theorem pointer (h : m.Numbered) (hp : id.toNat ∈ m.ptrs) : m.pointer id = id.toNat := by
  obtain ⟨l, hl⟩ := Option.isSome_iff_exists.1 (deref_isSome.2 hp)
  rw [LayerManager.pointer, h.findLayer, hl]
  exact (deref_some hl).2

theorem pointer_zero (h : m.Numbered) : m.pointer 0 = 0 := by
  have hno : (0 : UInt32).toNat ∉ m.ptrs := fun h0 => Nat.lt_irrefl 0 (h.pos h0).1
  rw [← h.findLayer_isSome, Option.not_isSome_iff_eq_none] at hno
  simp [LayerManager.pointer, hno]

/-- A new layer, while the counter has not gone round. -/
theorem newLayer (h : m.Numbered) (hm : m.made + 1 < 4294967296) (pos size : Vec) (t d : Bool) :
    (m.newLayer pos size t d).Numbered where
  id l hl := by
    simp only [LayerManager.newLayer, List.mem_append, List.mem_singleton] at hl
    rcases hl with hl | rfl
    · exact h.id l hl
    · simp only [UInt32.toNat_ofNat']
      omega
  made l hl := by
    simp only [LayerManager.newLayer, List.mem_append, List.mem_singleton] at hl ⊢
    rcases hl with hl | rfl
    · have := h.made l hl
      omega
    · simp
  nodup := by
    simp only [ptrs, LayerManager.newLayer, List.map_append, List.map_cons, List.map_nil]
    refine List.nodup_append.2 ⟨h.nodup, List.nodup_singleton _, ?_⟩
    intro a ha b hb
    have := (h.pos ha).2
    simp only [List.mem_singleton] at hb
    omega
  bound := hm

theorem setPos (h : m.Numbered) (p : Nat) (pos : Vec) : (m.setPos p pos).Numbered := by
  refine ⟨fun l hl => ?_, fun l hl => ?_, ?_, h.bound⟩
  · obtain ⟨k, hk, hp, hi, _⟩ := setPos_mem hl
    rw [hp, hi, h.id k hk]
  · obtain ⟨k, hk, hp, _⟩ := setPos_mem hl
    rw [hp]
    exact h.made k hk
  · rw [setPos_ptrs]
    exact h.nodup

/-- A layer is taken out of `layers_`. -/
theorem filter (h : m.Numbered) (q : Layer → Bool) (stack : List Nat) :
    ({ m with layers := m.layers.filter q, layerStack := stack }).Numbered :=
  have hsub : (m.layers.filter q).Sublist m.layers := List.filter_sublist
  ⟨fun l hl => h.id l (hsub.subset hl), fun l hl => h.made l (hsub.subset hl), (hsub.map Layer.ptr).nodup h.nodup, h.bound⟩

end Numbered

theorem newLayer_ptrs (m : LayerManager) (pos size : Vec) (t d : Bool) :
    (m.newLayer pos size t d).ptrs = m.ptrs ++ [m.made + 1] := by
  simp [ptrs, newLayer]

/-! ## Heights -/

theorem heightFrom_append (h : m.Numbered) (post : List Nat) (hid : id.toNat ∈ m.ptrs) :
    ∀ (pre : List Nat) (n : Nat), (∀ p ∈ pre, p ∈ m.ptrs) → id.toNat ∉ pre →
      m.heightFrom id n (pre ++ id.toNat :: post) = some ((n + pre.length : Nat) : Int)
  | [], n, _, _ => by
    obtain ⟨l, hl⟩ := Option.isSome_iff_exists.1 (deref_isSome.2 hid)
    obtain ⟨hmem, hptr⟩ := deref_some hl
    have hlid : l.id = id := UInt32.toNat_inj.1 ((h.id l hmem).trans hptr)
    simp [heightFrom, hl, hlid]
  | p :: pre, n, hpre, hni => by
    obtain ⟨l, hl⟩ := Option.isSome_iff_exists.1 (deref_isSome.2 (hpre p (List.mem_cons_self ..)))
    obtain ⟨hmem, hptr⟩ := deref_some hl
    simp only [List.mem_cons, not_or] at hni
    have hlid : l.id ≠ id := fun he => hni.1 (by rw [← he, h.id l hmem, hptr])
    have ih := heightFrom_append h post hid pre (n + 1) (fun q hq => hpre q (List.mem_cons_of_mem _ hq)) hni.2
    simp only [List.cons_append, heightFrom, hl, Option.bind_eq_bind, Option.bind_some, if_neg hlid, ih, List.length_cons]
    congr 2
    omega

theorem getHeight_append (h : m.Numbered) {pre post : List Nat} (hs : m.layerStack = pre ++ id.toNat :: post)
    (hp : ∀ p ∈ m.layerStack, p ∈ m.ptrs) (hni : id.toNat ∉ pre) : m.getHeight id = some (pre.length : Int) := by
  rw [hs] at hp
  simp only [getHeight, hs]
  rw [heightFrom_append h post (hp _ (by simp)) pre 0 (fun p hpp => hp p (List.mem_append_left _ hpp)) hni, Nat.zero_add]

theorem draw_eq (h : ∀ p ∈ m.layerStack, p ∈ m.ptrs) : m.draw = some () :=
  if_pos (List.all_eq_true.2 fun p hp => deref_isSome.2 (h p hp))

/-! ## Up and down -/

theorem upDown_zero (id : UInt32) :
    m.upDown id 0 = { m with layerStack := m.pointer id :: m.layerStack.erase (m.pointer id) } := by
  unfold upDown
  by_cases hp : m.pointer id ∈ m.layerStack
  · have hne : (0 : Nat) ≠ m.layerStack.length := fun h => by simp [List.length_eq_zero_iff.1 h.symm] at hp
    simp [hp, hne]
  · simp [hp, List.erase_of_not_mem hp]

theorem upDown_below {rest : List Nat} (hs : m.layerStack = m.pointer id :: rest) (hne : rest ≠ []) :
    m.upDown id ((rest.length : Int) - 1) = { m with layerStack := rest.insertIdx (rest.length - 1) (m.pointer id) } := by
  have hlen : 0 < rest.length := List.length_pos_iff.2 hne
  have h0 : ¬ ((rest.length : Int) - 1 < 0) := by omega
  have hn : ((rest.length : Int) - 1).toNat = rest.length - 1 := by omega
  have hmin : min (rest.length - 1) (rest.length + 1) = rest.length - 1 := by omega
  have hne' : rest.length - 1 ≠ rest.length + 1 := by omega
  simp only [upDown, hs, if_neg h0, hn, List.mem_cons_self, if_true, List.length_cons, hmin, if_neg hne',
    List.erase_cons_head]

/-- `Activate` seen from the stack. -/
def raise (m : LayerManager) (id : UInt32) : LayerManager :=
  { m with layerStack := Stack.raise id.toNat m.layerStack }

/-- To the bottom, and then below the mouse: the mouse is still the last one when its height is looked up. -/
theorem raise_eq (h : m.Numbered)
    (hpres : ∀ p ∈ m.layerStack, p ∈ m.ptrs) (hnodup : m.layerStack.Nodup) (hid : id.toNat ∈ m.ptrs)
    {mouse : UInt32} (hne : id ≠ mouse) {rest : List Nat} (hs : m.layerStack = rest ++ [mouse.toNat]) :
    ∃ height, (m.upDown id 0).getHeight mouse = some height ∧ (m.upDown id 0).upDown id (height - 1) = m.raise id := by
  have hptr := h.pointer hid
  have hmouse : mouse.toNat ≠ id.toNat := fun he => hne (UInt32.toNat_inj.1 he.symm)
  have herase : m.layerStack.erase id.toNat = rest.erase id.toNat ++ [mouse.toNat] := by
    rw [hs, Stack.erase_append_top (Ne.symm hmouse)]
  let m1 : LayerManager := { m with layerStack := id.toNat :: m.layerStack.erase id.toNat }
  have hdown : m.upDown id 0 = m1 := by rw [upDown_zero, hptr]
  have hn1 : m1.Numbered := ⟨h.id, h.made, h.nodup, h.bound⟩
  have hpres1 : ∀ p ∈ m1.layerStack, p ∈ m1.ptrs := by
    intro p hp
    rcases List.mem_cons.1 hp with rfl | hp
    · exact hid
    · exact hpres p (List.mem_of_mem_erase hp)
  have hnd : (rest.erase id.toNat ++ [mouse.toNat]).Nodup := herase ▸ hnodup.erase _
  have hni : mouse.toNat ∉ id.toNat :: rest.erase id.toNat := by
    rw [List.mem_cons, not_or]
    exact ⟨hmouse, fun hm => List.disjoint_of_nodup_append hnd hm (List.mem_singleton_self _)⟩
  have hs1 : m1.layerStack = (id.toNat :: rest.erase id.toNat) ++ mouse.toNat :: [] := by
    simp only [m1, herase]
    rfl
  have hheight := getHeight_append hn1 hs1 hpres1 hni
  refine ⟨_, hdown ▸ hheight, ?_⟩
  have hlen : (((id.toNat :: rest.erase id.toNat).length : Nat) : Int) - 1 = ((m.layerStack.erase id.toNat).length :
    Int) - 1 := by
    rw [herase, List.length_cons, List.length_append, List.length_singleton]
  have hptr1 : m1.pointer id = id.toNat := hn1.pointer hid
  rw [hdown, hlen, upDown_below (by rw [hptr1]) (by simp [herase]), hptr1]
  rfl

/-! ## The arrangement -/

/-- The desktop and the console at the bottom, the mouse on top, everything else between them. -/
structure Arranged (m : LayerManager) : Prop where
  numbered : m.Numbered
  shape : ∃ mid, m.layerStack = 1 :: 2 :: (mid ++ [4])
  nodup : m.layerStack.Nodup
  present : ∀ p ∈ m.layerStack, p ∈ m.ptrs
  draggable : ∀ l ∈ m.layers, l.draggable = true → l.ptr ≠ 1 ∧ l.ptr ≠ 2 ∧ l.ptr ≠ 4

/-- The id of a layer that can be activated. -/
def IsWindow (m : LayerManager) (id : UInt32) : Prop :=
  id.toNat ∈ m.ptrs ∧ id.toNat ≠ 1 ∧ id.toNat ≠ 2 ∧ id.toNat ≠ 4

namespace Arranged

theorem shape_erase (h : m.Arranged) (h1 : p ≠ 1) (h2 : p ≠ 2) (h4 : p ≠ 4) :
    ∃ mid, m.layerStack.erase p = 1 :: 2 :: (mid ++ [4]) := by
  obtain ⟨mid, hs⟩ := h.shape
  refine ⟨mid.erase p, ?_⟩
  rw [hs, List.erase_cons_tail (by simpa using Ne.symm h1), List.erase_cons_tail (by simpa using Ne.symm h2),
    Stack.erase_append_top h4]

theorem raise (h : m.Arranged) (hw : m.IsWindow id) : (m.raise id).Arranged where
  numbered := ⟨h.numbered.id, h.numbered.made, h.numbered.nodup, h.numbered.bound⟩
  shape := by
    obtain ⟨mid, hs⟩ := h.shape
    refine ⟨mid.erase id.toNat ++ [id.toNat], ?_⟩
    have hr := Stack.raise_append hw.2.2.2 (1 :: 2 :: mid)
    rw [List.erase_cons_tail (by simpa using Ne.symm hw.2.1), List.erase_cons_tail (by simpa using Ne.symm hw.2.2.1)] at hr
    simp only [LayerManager.raise, hs]
    simpa using hr
  nodup := Stack.raise_nodup h.nodup
  present q hq := by
    rcases Stack.mem_raise.1 hq with rfl | hq
    · exact hw.1
    · exact h.present q hq
  draggable := h.draggable

theorem setPos (h : m.Arranged) (p : Nat) (pos : Vec) : (m.setPos p pos).Arranged where
  numbered := h.numbered.setPos p pos
  shape := h.shape
  nodup := h.nodup
  present q hq := by
    rw [setPos_ptrs]
    exact h.present q hq
  draggable l hl hd := by
    obtain ⟨k, hk, hp, _, hkd⟩ := setPos_mem hl
    rw [hp]
    exact h.draggable k hk (hkd ▸ hd)

theorem newLayer (h : m.Arranged) (h4 : 4 ≤ m.made) (hm : m.made + 1 < 4294967296) (pos size : Vec) (t d : Bool) :
    (m.newLayer pos size t d).Arranged where
  numbered := h.numbered.newLayer hm pos size t d
  shape := h.shape
  nodup := h.nodup
  present q hq := by
    rw [newLayer_ptrs]
    exact List.mem_append_left _ (h.present q hq)
  draggable l hl hd := by
    simp only [LayerManager.newLayer, List.mem_append, List.mem_singleton] at hl
    rcases hl with hl | rfl
    · exact h.draggable l hl hd
    · simp only
      omega

/-- Hidden, and out of `layers_`. -/
theorem remove (h : m.Arranged) (hw : m.IsWindow id) :
    { m.hide id with layers := m.layers.filter fun l => l.id ≠ id }.Arranged := by
  have hptr := h.numbered.pointer hw.1
  have hsub : (m.layers.filter fun l => l.id ≠ id).Sublist m.layers := List.filter_sublist
  refine ⟨h.numbered.filter _ _, ?_, h.nodup.erase _, ?_, fun l hl => h.draggable l (hsub.subset hl)⟩
  · simp only [hide, hptr]
    exact h.shape_erase hw.2.1 hw.2.2.1 hw.2.2.2
  · intro q hq
    simp only [hide, hptr] at hq
    obtain ⟨hne, hq⟩ := h.nodup.mem_erase_iff.1 hq
    obtain ⟨l, hl, rfl⟩ := mem_ptrs.1 (h.present q hq)
    refine mem_ptrs.2 ⟨l, List.mem_filter.2 ⟨hl, ?_⟩, rfl⟩
    have : l.id ≠ id := fun he => hne (by rw [← h.numbered.id l hl, he])
    simpa using this

end Arranged

/-- What the search by position finds lies on the stack. -/
theorem findUnder_eq (pos : Vec) (ex : UInt32) : ∀ {ps : List Nat}, (∀ p ∈ ps, p ∈ m.ptrs) →
    ∃ r, m.findUnder pos ex ps = some r ∧ ∀ l, r = some l → l ∈ m.layers
  | [], _ => ⟨none, rfl, fun _ h => by cases h⟩
  | p :: ps, hps => by
    obtain ⟨k, hk⟩ := Option.isSome_iff_exists.1 (deref_isSome.2 (hps p (List.mem_cons_self ..)))
    obtain ⟨r, hr, hmem⟩ := findUnder_eq pos ex fun q hq => hps q (List.mem_cons_of_mem _ hq)
    simp only [findUnder, hk, Option.bind_eq_bind, Option.bind_some]
    split
    · refine ⟨some k, rfl, fun l hl => ?_⟩
      cases hl
      exact (deref_some hk).1
    · exact ⟨r, hr, hmem⟩

end LayerManager

namespace Desktop

open LayerManager

variable {g g' : Desktop} {id : UInt32}

/-! ## The desktop as a whole -/

/-- What holds after every message, as long as the counter has not gone round. -/
structure Good (g : Desktop) : Prop where
  arranged : g.manager.Arranged
  made : 4 ≤ g.manager.made
  mouse : g.mouse.layerId = 4
  mouseLayer : g.active.mouseLayer = 4
  active : g.active.activeLayer = 0 ∨
    g.manager.IsWindow g.active.activeLayer ∧ g.manager.raise g.active.activeLayer = g.manager
  windows : ∀ i ∈ g.windowLayerId, g.manager.IsWindow i
  main : g.windowLayerId.head? = some 3
  opened : ∀ e ∈ g.sent, ∀ i, e.2 = .layerId i → 5 ≤ i.toNat

/-- `Activate`, seen from outside. -/
def activated (g : Desktop) (id : UInt32) : Desktop :=
  { g with manager := if id = 0 then g.manager else g.manager.raise id, active := { g.active with activeLayer := id } }

theorem raise_raise {m : LayerManager} (hm : m.Arranged) : (m.raise id).raise id = m.raise id := by
  have herase := Stack.erase_raise (a := id.toNat) hm.nodup
  simp only [LayerManager.raise, Stack.raise, LayerManager.mk.injEq, true_and, and_true] at herase ⊢
  rw [herase]

theorem Good.activated (h : g.Good) (hid : id = 0 ∨ g.manager.IsWindow id) : (g.activated id).Good := by
  unfold Desktop.activated
  by_cases h0 : id = 0
  · subst h0
    exact { h with active := .inl rfl }
  · have hw := hid.resolve_left h0
    simp only [if_neg h0]
    exact { h with
      arranged := h.arranged.raise hw
      active := .inr ⟨hw, raise_raise h.arranged⟩ }

theorem bringUp_eq (h : g.Good) (hid : id = 0 ∨ g.manager.IsWindow id) :
    (g.setActive id).bringUp = some (g.activated id) := by
  unfold bringUp Desktop.activated
  by_cases h0 : id = 0
  · subst h0
    rfl
  have hw := hid.resolve_left h0
  have hpos : 0 < id := UInt32.pos_iff_ne_zero.2 h0
  obtain ⟨l, hl⟩ := Option.isSome_iff_exists.1 (h.arranged.numbered.findLayer_isSome.2 hw.1)
  obtain ⟨mid, hmid⟩ := h.arranged.shape
  have hne : id ≠ 4 := fun he => hw.2.2.2 (he ▸ rfl)
  have hs : g.manager.layerStack = (1 :: 2 :: mid) ++ [(4 : UInt32).toNat] := hmid
  obtain ⟨height, hheight, hup⟩ := raise_eq h.arranged.numbered h.arranged.present h.arranged.nodup hw.1 hne hs
  have hdraw : (g.manager.raise id).draw = some () := draw_eq (h.arranged.raise hw).present
  simp only [setActive, if_pos hpos, hl, h.mouseLayer, hheight, hup, hdraw, if_neg h0, Option.bind_eq_bind,
    Option.bind_some, Option.pure_def]

/-- **Activation is one raise**: whatever lies between, the active layer ends just below the mouse. -/
theorem activate_eq (h : g.Good) (hid : id = 0 ∨ g.manager.IsWindow id) : g.activate id = some (g.activated id) := by
  unfold activate
  by_cases hsame : g.active.activeLayer = id
  · have hman : (if id = 0 then g.manager else g.manager.raise id) = g.manager := by
      subst hsame
      rcases h.active with h0 | ⟨_, hr⟩
      · rw [if_pos h0]
      · rw [hr, ite_self]
    simp only [Desktop.activated, hman, if_pos hsame, Option.pure_def]
    subst hsame
    rfl
  · simp only [if_neg hsame, Option.bind_eq_bind, bringUp_eq h hid]
    rcases h.active with h0 | ⟨hw, _⟩
    · simp [h0]
    · obtain ⟨l, hl⟩ := Option.isSome_iff_exists.1 (h.arranged.numbered.findLayer_isSome.2 hw.1)
      simp [hl, draw_eq h.arranged.present]

/-- `drag_layer_id_` is nobody, or a layer that is still there. -/
def DragAlive (g : Desktop) : Prop := g.mouse.dragLayerId = 0 ∨ (g.manager.findLayer g.mouse.dragLayerId).isSome

instance : Decidable g.DragAlive := inferInstanceAs (Decidable (_ ∨ _))

/-- No layer has gone, and those that are not active are in the order they were in. -/
structure Moved (g g' : Desktop) : Prop where
  order : g'.manager.layerStack.erase g'.active.activeLayer.toNat = g.manager.layerStack.erase g'.active.activeLayer.toNat
  drag : g.DragAlive → g'.DragAlive

theorem Moved.refl (g : Desktop) : Moved g g := ⟨rfl, fun h => h⟩

theorem Good.zero_notin (h : g.Good) : (0 : Nat) ∉ g.manager.layerStack := fun h0 =>
  Nat.lt_irrefl 0 (h.arranged.numbered.pos (h.arranged.present 0 h0)).1

theorem activated_moved (h : g.Good) (id : UInt32) : Moved g (g.activated id) := by
  refine ⟨?_, fun hd => ?_⟩
  · unfold Desktop.activated
    by_cases h0 : id = 0
    · simp [h0]
    · simp only [if_neg h0]
      exact Stack.erase_raise h.arranged.nodup
  · unfold Desktop.activated
    split
    · exact hd
    · exact hd

end Desktop

end KinOS.Gui
