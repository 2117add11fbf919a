import KinOS.Kernel.PageView

/-!
# `SetupPageMaps` maps the range asked for

The rule for the loops of `SetupPageMap` (`SetupRule`) over the view of a page-map tree: the entries on the way to the
pages are set up one by one, each by `Grown.touch` or `Grown.link` (`setupRule_grown`). What the rule says about paths
is then read as a statement about addresses.
-/

namespace KinOS.Paging

section
variable {w : Bool} {A : Path → Prop} {root : Nat} {s s' : Machine} {b : LinearAddress4Level}

/-! ## Translation -/

theorem walk_suffix {mem : Memory} {q : Path} : ∀ {r : Path} {f : Nat}, q <:+ r → walk mem root r = some f →
    ∃ u, walk mem root q = some u
  | [], f, hq, h => by
    rw [List.suffix_nil.mp hq]
    exact ⟨f, h⟩
  | i :: r, f, hq, h => by
    rcases List.suffix_cons_iff.mp hq with rfl | hq
    · exact ⟨f, h⟩
    · obtain ⟨t, ht⟩ := walk_parent h
      exact walk_suffix hq ht

/-- At each level the processor reads the entry of the path, and goes on unless it maps a huge page. -/
theorem translate_succ {mem : Memory} {level t : Nat} {p : Path} (hp : p.length + (level + 1) = 4)
    (ht : walk mem root p = some t) :
    translate mem b (level + 1) t =
      match walk mem root (b.part (level + 1) :: p) with
      | some u => translate mem b level u
      | none =>
        if (view mem root (b.part (level + 1) :: p)).present then
          some ((view mem root (b.part (level + 1) :: p)).pointer / 512 ^ level * 512 ^ level + b.pageIn level)
        else none := by
  rw [translate, walk_cons, view_some ht]
  unfold linkOf
  have hlevel : ((b.part (level + 1) :: p).length == 2 || (b.part (level + 1) :: p).length == 3) =
      (level + 1 == 2 || level + 1 == 3) := by
    rw [Bool.eq_iff_iff]
    simp only [List.length_cons, Bool.or_eq_true, beq_iff_eq]
    omega
  rw [hlevel]
  cases (mem t (b.part (level + 1))).present <;>
    cases (mem t (b.part (level + 1))).hugePage && (level + 1 == 2 || level + 1 == 3) <;> simp

/-- A path that is walked to its end is what the processor translates. -/
theorem translate_of_walk {mem : Memory} {f : Nat} : ∀ {level : Nat} {p : Path} {t : Nat}, p.length + level = 4 →
    walk mem root p = some t → walk mem root (b.low level ++ p) = some f → translate mem b level t = some f
  | 0, p, t, _, ht, hf => ht.symm.trans hf
  | level + 1, p, t, hp, ht, hf => by
    have hlow : b.low (level + 1) ++ p = b.low level ++ (b.part (level + 1) :: p) := by
      simp [LinearAddress4Level.low]
    rw [hlow] at hf
    obtain ⟨u, hu⟩ := walk_suffix (List.suffix_append _ _) hf
    rw [translate_succ hp ht, hu]
    exact translate_of_walk (by simp only [List.length_cons]; omega) hu hf

theorem LinearAddress4Level.low_four (b : LinearAddress4Level) : b.low 4 = b.path := rfl

theorem LinearAddress4Level.number_path (b : LinearAddress4Level) : b.path.number = b.pageIn 4 := b.number_low 4

theorem translate_of_walk_path {mem : Memory} {f : Nat} (h : walk mem root b.path = some f) :
    translate mem b 4 root = some f :=
  translate_of_walk (p := []) rfl rfl (by rw [List.append_nil, LinearAddress4Level.low_four]; exact h)

/-- The leaf of a page that is not mapped is not present. -/
theorem leaf_absent {mem : Memory} (h : translate mem b 4 root = none) : (view mem root b.path).present = false := by
  apply Bool.eq_false_iff.mpr
  intro hp
  have hw : walk mem root b.path = some (view mem root b.path).pointer := by
    change walk mem root (b.page :: _) = some (view mem root (b.page :: _)).pointer
    rw [walk_cons]
    exact linkOf_eq_some.mpr ⟨hp, fun _ => by simp, rfl⟩
  rw [translate_of_walk_path hw] at h
  cases h

/-- No path that leads somewhere is lost. -/
theorem Grown.walk_kept (h : Grown w A root s s') {p : Path} {t : Nat} (hp : p.length ≤ 4)
    (ht : walk s.mem root p = some t) : walk s'.mem root p = some t := by
  cases p with
  | nil => exact ht
  | cons i p =>
    rw [walk_cons] at ht ⊢
    obtain ⟨h1, h2, h3⟩ := linkOf_eq_some.mp ht
    obtain ⟨hpres, hptr⟩ := h.kept hp h1
    refine linkOf_eq_some.mpr ⟨hpres, fun hh => h2 ?_, hptr.trans h3⟩
    rw [← h.huge hp]
    exact hh

theorem Grown.translate_kept (h : Grown w A root s s') {f : Nat} : ∀ {level : Nat} {p : Path} {t : Nat},
    p.length + level = 4 → walk s.mem root p = some t → translate s.mem b level t = some f →
    translate s'.mem b level t = some f
  | 0, _, _, _, _, hf => hf
  | level + 1, p, t, hp, ht, hf => by
    have hlen : (b.part (level + 1) :: p).length ≤ 4 := by
      simp only [List.length_cons]
      omega
    rw [translate_succ hp ht] at hf
    rw [translate_succ hp (h.walk_kept (by omega) ht)]
    cases hw : walk s.mem root (b.part (level + 1) :: p) with
    | some u =>
      rw [hw] at hf
      rw [h.walk_kept hlen hw]
      exact h.translate_kept (by simp only [List.length_cons]; omega) hw hf
    | none =>
      rw [hw] at hf
      -- an entry that maps a huge page keeps its bits
      have hpres : (view s.mem root (b.part (level + 1) :: p)).present = true := by
        cases hp : (view s.mem root (b.part (level + 1) :: p)).present with
        | true => rfl
        | false =>
          simp only [hp, Bool.false_eq_true, if_false] at hf
          cases hf
      obtain ⟨hpres', hptr⟩ := h.kept hlen hpres
      have hnone : walk s'.mem root (b.part (level + 1) :: p) = none := by
        rw [walk_cons] at hw ⊢
        rw [← hw]
        unfold linkOf
        rw [hpres, hpres', h.huge hlen, hptr]
      rw [hnone]
      simp only [hpres, hpres', hptr] at hf ⊢
      exact hf

/-! ## The loops -/

/-- No entry of `A` of the levels 3 and 2 has the bit that would make it map a huge page. -/
def Small (A : Path → Prop) (root : Nat) (s : Machine) : Prop :=
  ∀ q, A q → q.length = 2 ∨ q.length = 3 → (view s.mem root q).hugePage = false

theorem Small.grown (hs : Small A root s) (h : Grown w A root s s') : Small A root s' := by
  intro q hq hlen
  rw [h.huge (by omega)]
  exact hs q hq hlen

/-- Why `SetupPageMaps` failed: no frame is free, and an entry on the way is not present. -/
def OutOfFrames (A : Path → Prop) (root : Nat) (e : Stop) (s : Machine) : Prop :=
  e = .error .kNoEnoughMemory ∧ (∀ f, ¬ s.mgr.FreeRun 1 f) ∧
    ∃ q, A q ∧ q.length ≤ 4 ∧ (view s.mem root q).present = false

/-- One round up to the recursive call. -/
theorem setNewPageMapIfNotPresent_grown {p : Path} {t : Nat} {i : Fin 512} (h : IsTree root s) (hsmall : Small A root s)
    (ht : walk s.mem root p = some t) (hd : p.length < 4) (hA : A (i :: p)) :
    After (setNewPageMapIfNotPresent t i) s
      (fun c s1 => ∃ s', s' = s1.setEntry t i { s1.mem t i with
          user := true, writable := if p.length = 3 then w else true } ∧
        Grown w A root s s' ∧ SetUp w (i :: p) (view s'.mem root (i :: p)) ∧
        (p.length < 3 → walk s'.mem root (i :: p) = some c))
      (fun e s1 => s1 = s ∧ OutOfFrames A root e s) := by
  have hold : view s.mem root (i :: p) = s.mem t i := view_some ht
  have hset : ∀ {e : PageMapEntry}, e.present = true → e.user = true →
      e.writable = (if p.length = 3 then w else true) → SetUp w (i :: p) e := by
    intro e h1 h2 h3
    refine ⟨h1, h2, ?_⟩
    rw [h3, List.length_cons]
    congr 1
    simp
  -- the entry written leads to the page map returned
  have hlink : ∀ {s'} {e : PageMapEntry}, Grown w A root s s' → s'.mem t i = e → e.present = true →
      view s'.mem root (i :: p) = e ∧ (p.length < 3 → walk s'.mem root (i :: p) = some e.pointer) := by
    intro s' e hg he hp
    have hv : view s'.mem root (i :: p) = e := (view_some (hg.walk_kept (Nat.le_of_lt hd) ht)).trans he
    refine ⟨hv, fun hlt => ?_⟩
    rw [walk_cons, hv]
    refine linkOf_eq_some.mpr ⟨hp, fun hh => ?_, rfl⟩
    rw [← hv, hg.huge (r := i :: p) hd] at hh
    constructor <;> intro hlen
    · rw [hsmall _ hA (.inl hlen)] at hh
      cases hh
    · rw [hsmall _ hA (.inr hlen)] at hh
      cases hh
  unfold setNewPageMapIfNotPresent
  refine .get_bind (.ite (fun hpres => .pure ⟨_, rfl, ?_⟩) fun habs => ?_)
  · have hg : Grown w A root s (s.setEntry t i { s.mem t i with
        user := true, writable := if p.length = 3 then w else true }) :=
      .touch h ht hd hpres rfl rfl (hset hpres rfl rfl) hA
    obtain ⟨hv, hwalk⟩ := hlink hg Machine.mem_setEntry_self hpres
    refine ⟨hg, ?_, hwalk⟩
    rw [hv]
    exact hset hpres rfl rfl
  · have habs : (s.mem t i).present = false := Bool.eq_false_iff.mpr habs
    unfold After
    rcases newPageMap_spec s with ⟨f, m, halloc, hrun⟩ | ⟨hno, hrun⟩
    · obtain ⟨-, hlt, -, -⟩ := BitmapMemoryManager.allocate_one halloc
      have hfree := BitmapMemoryManager.allocate_one_free halloc
      have hft : t ≠ f := by
        rintro rfl
        exact h.taken hfree p hd ht
      have hptr : ∀ e : PageMapEntry, (e.setPointer f).pointer = f := fun _ =>
        PageMapEntry.pointer_setPointer (Nat.lt_of_lt_of_le hlt h.range)
      simp only [bind, EStateM.bind, hrun]
      refine ⟨_, rfl, ?_⟩
      rw [Machine.setEntry_setEntry, Machine.mem_setEntry_self, Machine.mem_setFrame_of_ne hft]
      have hg : Grown w A root s (({ s with mgr := m }.setFrame f fun _ => .zero).setEntry t i
          { (s.mem t i).setPointer f with
            present := true, user := true, writable := if p.length = 3 then w else true }) :=
        .link h ht hd habs halloc (hptr (s.mem t i)) rfl (hset rfl rfl rfl) hA
      obtain ⟨hv, hwalk⟩ := hlink hg Machine.mem_setEntry_self rfl
      refine ⟨hg, ?_, fun hlt => (hwalk hlt).trans (congrArg some (hptr (s.mem t i)))⟩
      rw [hv]
      exact hset rfl rfl rfl
    · simp only [bind, EStateM.bind, hrun]
      exact ⟨trivial, rfl, hno, i :: p, hA, hd, hold ▸ habs⟩

/-- `SetupPageMap` follows the rule. -/
theorem setupRule_grown : SetupRule w A (fun s => IsTree root s ∧ Small A root s)
    (fun s p t => walk s.mem root p = some t) (fun s s' => Grown w A root s s' ∧ Small A root s')
    (fun s q => SetUp w q (view s.mem root q)) (OutOfFrames A root) where
  refl h := ⟨.refl h.1, h.2⟩
  good h := ⟨h.1.tree, h.2⟩
  trans h1 h2 := ⟨h1.1.trans h2.1, h2.2⟩
  at_kept h hp ht := h.1.walk_kept (Nat.le_of_lt hp) ht
  ok_kept h hp hs := hs.grown h.1 hp
  round := by
    rintro s p t i ⟨htree, hsmall⟩ ht hd hA
    refine (setNewPageMapIfNotPresent_grown (w := w) htree hsmall ht hd hA).imp ?_ ?_
    · rintro c s1 ⟨s', rfl, hg, hrest⟩
      exact ⟨_, rfl, ⟨hg, hsmall.grown hg⟩, hrest⟩
    · rintro e s1 ⟨rfl, he⟩
      exact ⟨⟨.refl htree, hsmall⟩, he⟩

/-- The entries on the way to the pages among the `n` from the address on. -/
def LinearAddress4Level.OnWay (a : LinearAddress4Level) (n : Nat) (q : Path) : Prop :=
  ∃ b : LinearAddress4Level, a.PagesFrom n b.path ∧ q <:+ b.path ∧ q ≠ []

theorem LinearAddress4Level.onWay_iff {a : LinearAddress4Level} {n : Nat} {q : Path} :
    a.OnWay n q ↔ SetupRule.Below a 4 n [] q := by
  constructor
  · rintro ⟨b, ⟨h1, h2⟩, hq, hne⟩
    refine ⟨b.path, rfl, a.number_path ▸ h1, a.number_path ▸ h2, ?_, List.length_pos_iff.mpr hne⟩
    rwa [List.append_nil]
  · rintro ⟨r, hr, h1, h2, hq, hlen⟩
    match r, hr with
    | [i1, i2, i3, i4], _ =>
      rw [List.append_nil] at hq
      refine ⟨⟨i1, i2, i3, i4⟩, ⟨?_, ?_⟩, hq, List.length_pos_iff.mp hlen⟩
      · rw [a.number_path]
        exact h1
      · rw [a.number_path]
        exact h2

/-- **`SetupPageMaps`** on a tree: every entry on the way to the pages is set up, or no frame is left for one of them. -/
theorem setupPageMaps_grown {a : LinearAddress4Level} {n : Nat} (h : IsTree s.cr3 s)
    (hsmall : Small (a.OnWay n) s.cr3 s) :
    After (setupPageMaps a n w) s
      (fun _ s' => Grown w (a.OnWay n) s.cr3 s s' ∧ ∀ q, a.OnWay n q → SetUp w q (view s'.mem s.cr3 q))
      (fun e s' => Grown w (a.OnWay n) s.cr3 s s' ∧ OutOfFrames (a.OnWay n) s.cr3 e s') := by
  have hrun := (setupRule_grown (w := w)).setupPageMap 4 (by decide) (p := []) ⟨h, hsmall⟩ rfl rfl fun q hq =>
    LinearAddress4Level.onWay_iff.mpr hq
  refine .get_bind (.bind (hrun.imp (fun _ _ => id) fun e s' ⟨hg, he⟩ => ⟨hg.1, he⟩) ?_)
  rintro n' s' ⟨⟨hg, -⟩, -, hset⟩
  exact .pure ⟨hg, fun q hq => hset q (LinearAddress4Level.onWay_iff.mp hq)⟩

/-! ## What it says about addresses -/

theorem LinearAddress4Level.path_inj {b c : LinearAddress4Level} (h : b.path = c.path) : b = c := by
  simp only [path, List.cons.injEq, and_true] at h
  obtain ⟨h1, h2, h3, h4⟩ := h
  cases b
  cases c
  simp_all

/-- A page that is not asked for is not on the way. -/
theorem LinearAddress4Level.not_onWay {a b : LinearAddress4Level} {n : Nat} (h : ¬ a.PagesFrom n b.path) :
    ¬ a.OnWay n b.path := by
  rintro ⟨c, hc, hq, -⟩
  have := hq.eq_of_length rfl
  exact h (this ▸ hc)

/-- What is kept whether or not the call succeeds: where the pages mapped before lead, and the leaf entry of every page
that is not among the `n`. -/
structure RangeKept (a : LinearAddress4Level) (n : Nat) (s s' : Machine) : Prop where
  kept : ∀ b f, translate s.mem b 4 s.cr3 = some f → translate s'.mem b 4 s'.cr3 = some f
  outside : ∀ b : LinearAddress4Level, ¬ a.PagesFrom n b.path →
    view s'.mem s'.cr3 b.path = view s.mem s.cr3 b.path

/-- Each of the `n` pages from `a` on is mapped by a present user leaf with the bit `writable` asked for; those not mapped
before have frames of their own, free before and now zero. -/
structure RangeMapped (w : Bool) (a : LinearAddress4Level) (n : Nat) (s s' : Machine) : Prop where
  leaf : ∀ b : LinearAddress4Level, a.PagesFrom n b.path →
    (view s'.mem s'.cr3 b.path).present = true ∧ (view s'.mem s'.cr3 b.path).user = true ∧
      (view s'.mem s'.cr3 b.path).writable = w
  mapped : ∀ b : LinearAddress4Level, a.PagesFrom n b.path →
    translate s'.mem b 4 s'.cr3 = some (view s'.mem s'.cr3 b.path).pointer
  user : ∀ b : LinearAddress4Level, a.PagesFrom n b.path → ∀ q, q ≠ [] → q <:+ b.path →
    (view s'.mem s'.cr3 q).user = true
  fresh : ∀ b : LinearAddress4Level, a.PagesFrom n b.path → translate s.mem b 4 s.cr3 = none →
    s.mgr.FreeRun 1 (view s'.mem s'.cr3 b.path).pointer ∧
      s'.mem (view s'.mem s'.cr3 b.path).pointer = fun _ => .zero
  distinct : ∀ b c : LinearAddress4Level, a.PagesFrom n b.path → a.PagesFrom n c.path →
    translate s.mem b 4 s.cr3 = none → translate s.mem c 4 s.cr3 = none →
    (view s'.mem s'.cr3 b.path).pointer = (view s'.mem s'.cr3 c.path).pointer → b = c

theorem Grown.rangeKept {a : LinearAddress4Level} {n : Nat} (h : Grown w (a.OnWay n) s.cr3 s s') : RangeKept a n s s' := by
  constructor
  · intro b f hf
    rw [h.cr3]
    exact h.translate_kept (p := []) rfl rfl hf
  · intro b hb
    rw [h.cr3]
    exact h.same (Nat.le_refl 4) (LinearAddress4Level.not_onWay hb)

theorem Grown.rangeMapped {a : LinearAddress4Level} {n : Nat} (h : Grown w (a.OnWay n) s.cr3 s s')
    (hset : ∀ q, a.OnWay n q → SetUp w q (view s'.mem s.cr3 q)) : RangeMapped w a n s s' := by
  have hleaf : ∀ {b : LinearAddress4Level}, a.PagesFrom n b.path → SetUp w b.path (view s'.mem s.cr3 b.path) :=
    fun {b} hb => hset _ ⟨b, hb, List.suffix_refl _, List.cons_ne_nil _ _⟩
  have hfresh : ∀ {b : LinearAddress4Level}, a.PagesFrom n b.path → translate s.mem b 4 s.cr3 = none →
      Fresh s.cr3 s s' b.path := fun hb hnone => ⟨Nat.le_refl 4, leaf_absent hnone, (hleaf hb).present⟩
  constructor <;> rw [h.cr3]
  · intro b hb
    obtain ⟨h1, h2, h3⟩ := hleaf hb
    exact ⟨h1, h2, h3⟩
  · intro b hb
    apply translate_of_walk_path
    change walk s'.mem s.cr3 (b.page :: _) = _
    rw [walk_cons]
    exact linkOf_eq_some.mpr ⟨(hleaf hb).present, fun _ => by simp, rfl⟩
  · intro b hb q hne hq
    exact (hset q ⟨b, hb, hq, hne⟩).user
  · intro b hb hnone
    exact ⟨(h.fresh (hfresh hb hnone)).1, (h.zero (hfresh hb hnone) rfl).1⟩
  · intro b c hb hc hbn hcn heq
    exact LinearAddress4Level.path_inj (h.inj (hfresh hb hbn) (hfresh hc hcn) heq)

/-- **`SetupPageMaps` maps exactly the range asked for.** -/
theorem setup_page_maps_range {a : LinearAddress4Level} {n : Nat} (h : IsTree s.cr3 s)
    (hsmall : Small (a.OnWay n) s.cr3 s) :
    After (setupPageMaps a n w) s (fun _ s' => RangeMapped w a n s s' ∧ RangeKept a n s s')
      (fun _ s' => RangeKept a n s s') :=
  (setupPageMaps_grown h hsmall).imp (fun _ _ ⟨hg, hset⟩ => ⟨hg.rangeMapped hset, hg.rangeKept⟩)
    fun _ _ ⟨hg, _⟩ => hg.rangeKept

end

/-- A machine whose memory is zero; frames 1 to 99 are free. -/
def zeroMachine : Machine where
  mem := fun _ _ => .zero
  mgr := BitmapMemoryManager.init.setMemoryRange 1 100
  cr3 := 0
  dpagingBegin := 0
  dpagingEnd := 0
  frees := []

theorem zeroMachine_view (root : Nat) : ∀ q : Path, view zeroMachine.mem root q = .zero
  | [] => rfl
  | i :: p => by
    rw [view]
    cases walk zeroMachine.mem root p <;> rfl

theorem zeroMachine_walk {root t : Nat} : ∀ {p : Path}, walk zeroMachine.mem root p = some t → p = [] ∧ t = root
  | [], h => ⟨rfl, (Option.some.inj h).symm⟩
  | i :: p, h => by
    rw [walk_cons, zeroMachine_view] at h
    cases h

theorem zeroMachine_tree : IsTree 0 zeroMachine where
  inj hp hq _ _ := (zeroMachine_walk hp).1.trans (zeroMachine_walk hq).1.symm
  taken hg p _ hp := by
    have h1 := hg.1
    rw [(zeroMachine_walk hp).2] at h1
    exact absurd h1 (by decide)
  range := by decide

/-- Two pages across a boundary of 2 MiB, in the zero machine. -/
theorem setup_page_maps_range_two : After (setupPageMaps ⟨511, 0, 0, 256⟩ 2 true) zeroMachine
    (fun _ s' => RangeMapped true ⟨511, 0, 0, 256⟩ 2 zeroMachine s' ∧ RangeKept ⟨511, 0, 0, 256⟩ 2 zeroMachine s')
    (fun _ s' => RangeKept ⟨511, 0, 0, 256⟩ 2 zeroMachine s') :=
  setup_page_maps_range zeroMachine_tree fun q _ _ => by rw [zeroMachine_view]; rfl

end KinOS.Paging
