import KinOS.Kernel.PageSetup

/-!
# A page-map tree as a map from paths to entries

`walk` follows present entries down as the processor does and stops at an entry of level 3 or 2 that maps a huge page;
`view` is the entry a path names, zero where there is no page map. On a tree (`IsTree`) writing one entry changes the
view at one path (`Write.view`), whether the entry was present or gets a page map just cleared. `Grown` is what a run of
`SetupPageMaps` may do to the view; one write does it (`Grown.touch`, `Grown.link`) and it is transitive.
-/

namespace KinOS.Paging

/-- Where an entry leads that the path names: nowhere if it is not present or maps a huge page. -/
def linkOf (r : Path) (e : PageMapEntry) : Option Nat :=
  if e.present && !(e.hugePage && (r.length == 2 || r.length == 3)) then some e.pointer else none

/-- The frame the path leads to. -/
def walk (mem : Memory) (root : Nat) : Path → Option Nat
  | [] => some root
  | i :: p => (walk mem root p).bind fun t => linkOf (i :: p) (mem t i)

/-- The entry the path names; the empty path names none. -/
def view (mem : Memory) (root : Nat) : Path → PageMapEntry
  | [] => .zero
  | i :: p =>
    match walk mem root p with
    | some t => mem t i
    | none => .zero

section
variable {mem mem' : Memory} {root t f : Nat} {i j : Fin 512} {p q r : Path} {e : PageMapEntry}

@[simp] theorem linkOf_zero (r : Path) : linkOf r .zero = none := rfl

theorem view_some (h : walk mem root p = some t) : view mem root (i :: p) = mem t i := by
  simp only [view, h]

theorem view_none (h : walk mem root p = none) : view mem root (i :: p) = .zero := by
  simp only [view, h]

/-- The walk is read off the view. -/
theorem walk_cons : walk mem root (i :: p) = linkOf (i :: p) (view mem root (i :: p)) := by
  cases h : walk mem root p with
  | none => rw [view_none h, linkOf_zero, walk, h, Option.bind_none]
  | some t => rw [view_some h, walk, h, Option.bind_some]

theorem linkOf_eq_some : linkOf r e = some f ↔
    e.present = true ∧ (e.hugePage = true → r.length ≠ 2 ∧ r.length ≠ 3) ∧ e.pointer = f := by
  unfold linkOf
  cases e.present <;> cases e.hugePage <;> simp

theorem walk_parent (h : walk mem root (i :: p) = some f) : ∃ t, walk mem root p = some t := by
  cases hp : walk mem root p with
  | none => simp [walk, hp] at h
  | some t => exact ⟨t, rfl⟩

/-- The frame is not a page map of the tree. -/
def NotTable (mem : Memory) (root g : Nat) : Prop := ∀ p : Path, p.length < 4 → walk mem root p ≠ some g

/-- No page map of the tree stands at two paths. -/
def WalkInj (mem : Memory) (root : Nat) : Prop :=
  ∀ {p q : Path} {t : Nat}, walk mem root p = some t → walk mem root q = some t → p.length < 4 → q.length < 4 → p = q

/-! ## Writing one entry -/

/-- `mem'` is `mem` but for one entry of a page map and frames that are no page maps. The entry leads where it led, or
it led nowhere and leads to an empty page map. -/
structure Write (mem mem' : Memory) (root : Nat) (p : Path) (t : Nat) (i : Fin 512) : Prop where
  table : walk mem root p = some t
  depth : p.length < 4
  other : ∀ {g j}, ¬ NotTable mem root g → ¬ (g = t ∧ j = i) → mem' g j = mem g j
  child : linkOf (i :: p) (mem' t i) = linkOf (i :: p) (mem t i) ∨
    linkOf (i :: p) (mem t i) = none ∧ ∀ {f}, linkOf (i :: p) (mem' t i) = some f → mem' f = fun _ => .zero

theorem not_notTable (h : walk mem root p = some t) (hp : p.length < 4) : ¬ NotTable mem root t :=
  fun hn => hn p hp h

/-- The entry at a path that is not the one written, given where the paths above lead. -/
theorem Write.view_of_walk (hw : Write mem mem' root p t i) (hinj : WalkInj mem root) (hq : q.length < 4)
    (hne : j :: q ≠ i :: p)
    (hwalk : walk mem' root q = if q = i :: p then linkOf (i :: p) (mem' t i) else walk mem root q) :
    view mem' root (j :: q) = view mem root (j :: q) := by
  -- a page map of before is changed in no entry but one
  have hkeep : ∀ {u}, walk mem root q = some u → mem' u j = mem u j := by
    intro u hu
    refine hw.other (not_notTable hu hq) ?_
    rintro ⟨rfl, rfl⟩
    exact hne (by rw [hinj hu hw.table hq hw.depth])
  by_cases hqr : q = i :: p
  · rw [if_pos hqr] at hwalk
    have hold : walk mem root q = linkOf (i :: p) (mem t i) := by rw [hqr, walk_cons, view_some hw.table]
    rcases hw.child with hsame | ⟨hnone, hzero⟩
    · rw [hsame, ← hold] at hwalk
      cases hu : walk mem root q with
      | none => rw [view_none hu, view_none (hwalk.trans hu)]
      | some u => rw [view_some hu, view_some (hwalk.trans hu), hkeep hu]
    · rw [view_none (hold.trans hnone)]
      cases hf : linkOf (i :: p) (mem' t i) with
      | none => exact view_none (hwalk.trans hf)
      | some f => rw [view_some (hwalk.trans hf), hzero hf]
  · rw [if_neg hqr] at hwalk
    cases hu : walk mem root q with
    | none => rw [view_none hu, view_none (hwalk.trans hu)]
    | some u => rw [view_some hu, view_some (hwalk.trans hu), hkeep hu]

theorem Write.walk_eq (hw : Write mem mem' root p t i) (hinj : WalkInj mem root) : ∀ {q : Path}, q.length ≤ 4 →
    walk mem' root q = if q = i :: p then linkOf (i :: p) (mem' t i) else walk mem root q
  | [], _ => by simp [walk]
  | j :: q, hlen => by
    have hq : q.length < 4 := hlen
    have ih := hw.walk_eq hinj (q := q) (Nat.le_of_lt hq)
    by_cases hjq : j :: q = i :: p
    · obtain ⟨rfl, rfl⟩ := List.cons.inj hjq
      have hne : q ≠ j :: q := fun h => absurd (congrArg List.length h) (by simp)
      rw [if_neg hne] at ih
      rw [if_pos rfl, walk_cons, view_some (ih.trans hw.table)]
    · rw [if_neg hjq, walk_cons, walk_cons, hw.view_of_walk hinj hq hjq ih]

/-- **One entry.** -/
theorem Write.view (hw : Write mem mem' root p t i) (hinj : WalkInj mem root) {r : Path} (hr : r.length ≤ 4) :
    Paging.view mem' root r = if r = i :: p then mem' t i else Paging.view mem root r := by
  cases r with
  | nil => rfl
  | cons j q =>
    have hq : q.length < 4 := hr
    by_cases hjq : j :: q = i :: p
    · obtain ⟨rfl, rfl⟩ := List.cons.inj hjq
      have hne : q ≠ j :: q := fun h => absurd (congrArg List.length h) (by simp)
      have hwalk := hw.walk_eq hinj (Nat.le_of_lt hq)
      rw [if_neg hne] at hwalk
      rw [if_pos rfl, view_some (hwalk.trans hw.table)]
    · rw [if_neg hjq, hw.view_of_walk hinj hq hjq (hw.walk_eq hinj (Nat.le_of_lt hq))]

end

/-! ## What a run may do -/

theorem BitmapMemoryManager.allocate_one_freeRun {m m' : BitmapMemoryManager} {f : Nat}
    (h : m.allocate 1 = (.ok f, m')) (g : Nat) : m'.FreeRun 1 g ↔ m.FreeRun 1 g ∧ g ≠ f := by
  obtain ⟨-, -, hend, hmarks⟩ := allocate_one h
  have hbegin : m'.rangeBegin = m.rangeBegin := by
    rcases m.allocate_spec (Nat.le_refl 1) with ⟨f', he, -⟩ | ⟨he, -⟩ <;> rw [he] at h <;> cases h
    exact (m.setBits_range true 1 f).1
  have hbit : ∀ {m : BitmapMemoryManager}, (∀ x, g ≤ x → x < g + 1 → m.getBit x = false) ↔ ¬ m.getBit g = true := by
    intro m
    rw [Bool.not_eq_true]
    refine ⟨fun h => h g (Nat.le_refl _) (Nat.lt_succ_self _), fun h x h1 h2 => ?_⟩
    have : x = g := by omega
    rw [this]
    exact h
  unfold FreeRun
  rw [hbit, hbit, hmarks, hbegin, hend, not_or]
  tauto

/-- The page maps under `root` form a tree of four levels, none of them in a frame that is free. -/
structure IsTree (root : Nat) (s : Machine) : Prop where
  inj : WalkInj s.mem root
  taken : ∀ {g}, s.mgr.FreeRun 1 g → NotTable s.mem root g
  range : s.mgr.rangeEnd ≤ kFrameCount

/-- The bits `SetupPageMap` leaves in an entry; `w` is its argument `writable`, for the last level. -/
structure SetUp (w : Bool) (r : Path) (e : PageMapEntry) : Prop where
  present : e.present = true
  user : e.user = true
  writable : e.writable = if r.length = 4 then w else true

/-- The entry was not present and is now. -/
structure Fresh (root : Nat) (s s' : Machine) (r : Path) : Prop where
  depth : r.length ≤ 4
  before : (view s.mem root r).present = false
  after : (view s'.mem root r).present = true

/-- **What a run of `SetupPageMaps` may do.** Only entries of `A` change, and they get the bits asked for. A present one
keeps its frame, and one made present gets a frame that was free, a frame for each. Frames that are neither page maps
nor free keep their contents. -/
structure Grown (w : Bool) (A : Path → Prop) (root : Nat) (s s' : Machine) : Prop where
  cr3 : s'.cr3 = s.cr3
  dpaging : s'.dpagingBegin = s.dpagingBegin ∧ s'.dpagingEnd = s.dpagingEnd
  tree : IsTree root s'
  kept : ∀ {r}, r.length ≤ 4 → (view s.mem root r).present = true →
    (view s'.mem root r).present = true ∧ (view s'.mem root r).pointer = (view s.mem root r).pointer
  huge : ∀ {r}, r.length ≤ 4 → (view s'.mem root r).hugePage = (view s.mem root r).hugePage
  same : ∀ {r}, r.length ≤ 4 → ¬ A r → view s'.mem root r = view s.mem root r
  bits : ∀ {r}, r.length ≤ 4 → view s'.mem root r = view s.mem root r ∨ SetUp w r (view s'.mem root r)
  fresh : ∀ {r}, Fresh root s s' r →
    s.mgr.FreeRun 1 (view s'.mem root r).pointer ∧ ¬ s'.mgr.FreeRun 1 (view s'.mem root r).pointer
  zero : ∀ {r}, Fresh root s s' r → r.length = 4 → s'.mem (view s'.mem root r).pointer = (fun _ => .zero) ∧
    NotTable s'.mem root (view s'.mem root r).pointer
  inj : ∀ {r q}, Fresh root s s' r → Fresh root s s' q → (view s'.mem root r).pointer = (view s'.mem root q).pointer →
    r = q
  free : ∀ {g}, s'.mgr.FreeRun 1 g → s.mgr.FreeRun 1 g
  used : ∀ {g}, s.mgr.FreeRun 1 g → s'.mgr.FreeRun 1 g ∨ ∃ r, Fresh root s s' r ∧ (view s'.mem root r).pointer = g
  frame : ∀ {g}, ¬ s.mgr.FreeRun 1 g → NotTable s.mem root g → s'.mem g = s.mem g ∧ NotTable s'.mem root g

section
variable {w : Bool} {A : Path → Prop} {root : Nat} {s s1 s' : Machine}

theorem Fresh.irrefl {r : Path} (h : Fresh root s s r) : False := by
  have := h.before
  rw [h.after] at this
  cases this

theorem Grown.refl (h : IsTree root s) : Grown w A root s s where
  cr3 := rfl
  dpaging := ⟨rfl, rfl⟩
  tree := h
  kept _ hp := ⟨hp, rfl⟩
  huge _ := rfl
  same _ _ := rfl
  bits _ := .inl rfl
  fresh hf := hf.irrefl.elim
  zero hf := hf.irrefl.elim
  inj hf := hf.irrefl.elim
  free := id
  used := .inl
  frame _ hn := ⟨rfl, hn⟩

/-- What is new in two runs is new in the first, and keeps its frame, or in the second. -/
theorem Fresh.cases (h2 : Grown w A root s1 s') {r : Path} (h : Fresh root s s' r) :
    Fresh root s s1 r ∧ (view s'.mem root r).pointer = (view s1.mem root r).pointer ∨ Fresh root s1 s' r := by
  cases hp : (view s1.mem root r).present with
  | true => exact .inl ⟨⟨h.depth, h.before, hp⟩, (h2.kept h.depth hp).2⟩
  | false => exact .inr ⟨h.depth, hp, h.after⟩

theorem Fresh.trans (h2 : Grown w A root s1 s') {r : Path} (h : Fresh root s s1 r) : Fresh root s s' r :=
  ⟨h.depth, h.before, (h2.kept h.depth h.after).1⟩

theorem Fresh.head (h1 : Grown w A root s s1) {r : Path} (h : Fresh root s1 s' r) : Fresh root s s' r := by
  refine ⟨h.depth, ?_, h.after⟩
  apply Bool.eq_false_iff.mpr
  intro hp
  have := (h1.kept h.depth hp).1
  rw [h.before] at this
  cases this

theorem SetUp.grown (h2 : Grown w A root s1 s') {r : Path} (hr : r.length ≤ 4) (h : SetUp w r (view s1.mem root r)) :
    SetUp w r (view s'.mem root r) := by
  rcases h2.bits hr with he | hs
  · rw [he]
    exact h
  · exact hs

theorem Grown.trans (h1 : Grown w A root s s1) (h2 : Grown w A root s1 s') : Grown w A root s s' where
  cr3 := h2.cr3.trans h1.cr3
  dpaging := ⟨h2.dpaging.1.trans h1.dpaging.1, h2.dpaging.2.trans h1.dpaging.2⟩
  tree := h2.tree
  kept hr hp := by
    obtain ⟨hp1, he1⟩ := h1.kept hr hp
    obtain ⟨hp2, he2⟩ := h2.kept hr hp1
    exact ⟨hp2, he2.trans he1⟩
  huge hr := (h2.huge hr).trans (h1.huge hr)
  same hr ha := (h2.same hr ha).trans (h1.same hr ha)
  bits hr := by
    rcases h2.bits hr with he | hs
    · rcases h1.bits hr with he1 | hs1
      · exact .inl (he.trans he1)
      · exact .inr (hs1.grown h2 hr)
    · exact .inr hs
  fresh hf := by
    rcases hf.cases h2 with ⟨hf1, he⟩ | hf2
    · rw [he]
      obtain ⟨hfree, hused⟩ := h1.fresh hf1
      exact ⟨hfree, fun h => hused (h2.free h)⟩
    · obtain ⟨hfree, hused⟩ := h2.fresh hf2
      exact ⟨h1.free hfree, hused⟩
  zero hf hr := by
    rcases hf.cases h2 with ⟨hf1, he⟩ | hf2
    · -- a page of the first run is left alone by the second
      rw [he]
      obtain ⟨hz, hn⟩ := h1.zero hf1 hr
      obtain ⟨hmem, hn'⟩ := h2.frame (h1.fresh hf1).2 hn
      exact ⟨hmem.trans hz, hn'⟩
    · exact h2.zero hf2 hr
  inj hr hq heq := by
    rcases hr.cases h2 with ⟨hr1, her⟩ | hr2 <;> rcases hq.cases h2 with ⟨hq1, heq'⟩ | hq2
    · rw [her, heq'] at heq
      exact h1.inj hr1 hq1 heq
    · rw [her] at heq
      exact absurd (heq ▸ (h2.fresh hq2).1) (h1.fresh hr1).2
    · rw [heq'] at heq
      exact absurd (heq ▸ (h2.fresh hr2).1) (h1.fresh hq1).2
    · exact h2.inj hr2 hq2 heq
  free hg := h1.free (h2.free hg)
  used hg := by
    rcases h1.used hg with hg1 | ⟨r, hr, he⟩
    · rcases h2.used hg1 with hg2 | ⟨r, hr, he⟩
      · exact .inl hg2
      · exact .inr ⟨r, hr.head h1, he⟩
    · exact .inr ⟨r, hr.trans h2, (h2.kept hr.depth hr.after).2.trans he⟩
  frame hg hn := by
    obtain ⟨hm1, hn1⟩ := h1.frame hg hn
    obtain ⟨hm2, hn2⟩ := h2.frame (fun h => hg (h1.free h)) hn1
    exact ⟨hm2.trans hm1, hn2⟩

/-! ## One write -/

section
variable {p : Path} {t f : Nat} {i : Fin 512} {e : PageMapEntry} {m : BitmapMemoryManager}

/-- An entry that is present gets the bits asked for. -/
theorem Grown.touch (h : IsTree root s) (ht : walk s.mem root p = some t) (hd : p.length < 4)
    (hpres : (s.mem t i).present = true) (hptr : e.pointer = (s.mem t i).pointer)
    (hhuge : e.hugePage = (s.mem t i).hugePage) (hset : SetUp w (i :: p) e) (hA : A (i :: p)) :
    Grown w A root s (s.setEntry t i e) := by
  have hself : (s.setEntry t i e).mem t i = e := Machine.mem_setEntry_self
  have hlink : linkOf (i :: p) e = linkOf (i :: p) (s.mem t i) := by
    unfold linkOf
    rw [hset.present, hpres, hhuge, hptr]
  have hw : Write s.mem (s.setEntry t i e).mem root p t i := by
    refine ⟨ht, hd, fun _ hg => Machine.mem_setEntry_of_ne hg, .inl ?_⟩
    rw [hself]
    exact hlink
  have hview : ∀ {r : Path}, r.length ≤ 4 →
      view (s.setEntry t i e).mem root r = if r = i :: p then e else view s.mem root r := by
    intro r hr
    rw [hw.view h.inj hr, hself]
  have hold : view s.mem root (i :: p) = s.mem t i := view_some ht
  have hwalk : ∀ {q : Path}, q.length ≤ 4 → walk (s.setEntry t i e).mem root q = walk s.mem root q := by
    intro q hq
    rw [hw.walk_eq h.inj hq, hself]
    by_cases hqr : q = i :: p
    · rw [if_pos hqr, hqr, walk_cons, hold, hlink]
    · rw [if_neg hqr]
  have hnot : ∀ {g}, NotTable s.mem root g → NotTable (s.setEntry t i e).mem root g := by
    intro g hg q hq
    rw [hwalk (Nat.le_of_lt hq)]
    exact hg q hq
  -- no entry becomes present
  have hfresh : ∀ {r}, ¬ Fresh root s (s.setEntry t i e) r := by
    rintro r ⟨hr, hb, ha⟩
    rw [hview hr] at ha
    by_cases hrr : r = i :: p
    · rw [hrr, hold, hpres] at hb
      cases hb
    · rw [if_neg hrr, hb] at ha
      cases ha
  refine ⟨rfl, ⟨rfl, rfl⟩, ⟨?_, fun hg => hnot (h.taken hg), h.range⟩, fun hr hp => ?_, fun hr => ?_, fun hr ha => ?_,
    fun hr => ?_, fun hf => (hfresh hf).elim, fun hf => (hfresh hf).elim, fun hf => (hfresh hf).elim, id, .inl,
    fun hg hn => ⟨?_, hnot hn⟩⟩
  · intro q q' u hq hq' hl hl'
    rw [hwalk (Nat.le_of_lt hl)] at hq
    rw [hwalk (Nat.le_of_lt hl')] at hq'
    exact h.inj hq hq' hl hl'
  · rw [hview hr]
    split
    · next hrr => rw [hrr, hold]; exact ⟨hset.present, hptr⟩
    · exact ⟨hp, rfl⟩
  · rw [hview hr]
    split
    · next hrr => rw [hrr, hold]; exact hhuge
    · rfl
  · rw [hview hr, if_neg]
    rintro rfl
    exact ha hA
  · rw [hview hr]
    split
    · next hrr => rw [hrr]; exact .inr hset
    · exact .inl rfl
  · funext j
    apply Machine.mem_setEntry_of_ne
    rintro ⟨rfl, -⟩
    exact hn p hd ht

/-- An entry that is not present gets a frame just allocated and cleared. -/
theorem Grown.link (h : IsTree root s) (ht : walk s.mem root p = some t) (hd : p.length < 4)
    (habs : (s.mem t i).present = false) (halloc : s.mgr.allocate 1 = (.ok f, m)) (hptr : e.pointer = f)
    (hhuge : e.hugePage = (s.mem t i).hugePage) (hset : SetUp w (i :: p) e) (hA : A (i :: p)) :
    Grown w A root s (({ s with mgr := m }.setFrame f fun _ => .zero).setEntry t i e) := by
  have hfree := BitmapMemoryManager.allocate_one_free halloc
  have hafter := BitmapMemoryManager.allocate_one_freeRun halloc
  have hnf : NotTable s.mem root f := h.taken hfree
  have hft : f ≠ t := by
    rintro rfl
    exact hnf p hd ht
  generalize hs' : ({ s with mgr := m }.setFrame f fun _ => .zero).setEntry t i e = s'
  have hmgr : s'.mgr = m := by rw [← hs']; rfl
  have hself : s'.mem t i = e := by
    rw [← hs']
    exact Machine.mem_setEntry_self
  have hzero : s'.mem f = fun _ => .zero := by
    rw [← hs']
    unfold Machine.setEntry
    rw [Machine.mem_setFrame_of_ne hft, Machine.mem_setFrame_self]
  have hother : ∀ {g j}, g ≠ f → ¬ (g = t ∧ j = i) → s'.mem g j = s.mem g j := by
    intro g j hg hgt
    rw [← hs', Machine.mem_setEntry_of_ne hgt, Machine.mem_setFrame_of_ne hg]
  have hnone : linkOf (i :: p) (s.mem t i) = none := by
    unfold linkOf
    rw [habs]
    rfl
  have hchild : ∀ {g}, linkOf (i :: p) e = some g → g = f := fun hg => (linkOf_eq_some.mp hg).2.2.symm.trans hptr
  have hw : Write s.mem s'.mem root p t i := by
    refine ⟨ht, hd, fun hg hgt => hother (fun he => hg (he ▸ hnf)) hgt, .inr ⟨hnone, fun hg => ?_⟩⟩
    rw [hself] at hg
    rw [hchild hg]
    exact hzero
  have hview : ∀ {r : Path}, r.length ≤ 4 → view s'.mem root r = if r = i :: p then e else view s.mem root r := by
    intro r hr
    rw [hw.view h.inj hr, hself]
  have hold : view s.mem root (i :: p) = s.mem t i := view_some ht
  have hnew : view s'.mem root (i :: p) = e := by rw [hview (r := i :: p) hd, if_pos rfl]
  have hwalk : ∀ {q : Path} {u}, q.length ≤ 4 → walk s'.mem root q = some u →
      q = i :: p ∧ u = f ∨ walk s.mem root q = some u := by
    intro q u hq hu
    rw [hw.walk_eq h.inj hq, hself] at hu
    split at hu
    · next hqr => exact .inl ⟨hqr, hchild hu⟩
    · exact .inr hu
  have hnot : ∀ {g}, NotTable s.mem root g → g ≠ f → NotTable s'.mem root g := by
    intro g hg hgf q hq hu
    rcases hwalk (Nat.le_of_lt hq) hu with ⟨-, he⟩ | hu
    · exact hgf he
    · exact hg q hq hu
  have hfresh : ∀ {r}, Fresh root s s' r → r = i :: p := by
    rintro r ⟨hr, hb, ha⟩
    by_contra hrr
    rw [hview hr, if_neg hrr, hb] at ha
    cases ha
  have hfr : Fresh root s s' (i :: p) := by
    refine ⟨hd, hold ▸ habs, ?_⟩
    rw [hnew]
    exact hset.present
  refine ⟨by rw [← hs']; rfl, by rw [← hs']; exact ⟨rfl, rfl⟩, ⟨?_, ?_, ?_⟩, fun hr hp => ?_, fun hr => ?_,
    fun hr ha => ?_, fun hr => ?_, fun hf => ?_, fun hf hr => ?_, fun hr hq _ => ?_, fun hg => ?_, fun {g} hg => ?_,
    fun {g} hg hn => ?_⟩
  · intro q q' u hq hq' hl hl'
    rcases hwalk (Nat.le_of_lt hl) hq with ⟨rfl, rfl⟩ | hq1 <;> rcases hwalk (Nat.le_of_lt hl') hq' with ⟨rfl, he⟩ | hq1'
    · rfl
    · exact absurd hq1' (hnf q' hl')
    · rw [he] at hq1
      exact absurd hq1 (hnf q hl)
    · exact h.inj hq1 hq1' hl hl'
  · intro g hg
    rw [hmgr, hafter] at hg
    exact hnot (h.taken hg.1) hg.2
  · obtain ⟨-, -, hend, -⟩ := BitmapMemoryManager.allocate_one halloc
    rw [hmgr, hend]
    exact h.range
  · rw [hview hr]
    split
    · next hrr => rw [hrr, hold, habs] at hp; cases hp
    · exact ⟨hp, rfl⟩
  · rw [hview hr]
    split
    · next hrr => rw [hrr, hold]; exact hhuge
    · rfl
  · rw [hview hr, if_neg]
    rintro rfl
    exact ha hA
  · rw [hview hr]
    split
    · next hrr => rw [hrr]; exact .inr hset
    · exact .inl rfl
  · rw [hfresh hf, hnew, hptr, hmgr, hafter]
    exact ⟨hfree, fun hc => hc.2 rfl⟩
  · rw [hfresh hf] at hr ⊢
    rw [hnew, hptr]
    refine ⟨hzero, fun q hq hu => ?_⟩
    rcases hwalk (Nat.le_of_lt hq) hu with ⟨rfl, -⟩ | hu
    · omega
    · exact hnf q hq hu
  · rw [hfresh hr, hfresh hq]
  · rw [hmgr, hafter] at hg
    exact hg.1
  · rw [hmgr, hafter]
    by_cases hgf : g = f
    · exact .inr ⟨i :: p, hfr, by rw [hnew, hptr, hgf]⟩
    · exact .inl ⟨hg, hgf⟩
  · have hgf : g ≠ f := by
      rintro rfl
      exact hg hfree
    refine ⟨funext fun j => hother hgf ?_, hnot hn hgf⟩
    rintro ⟨rfl, -⟩
    exact hn p hd ht

end

end

end KinOS.Paging
