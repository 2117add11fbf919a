import KinOS.Kernel.Elf

/-!
# The upper half as a byte memory

`UserSpace W s`: the entries present in the upper half are those at the paths of `W`, each as `SetupPageMaps` leaves it, and
the pages are frames of their own. `readByte` is then a byte memory that is defined on the pages of `W`. `SetupPageMaps`
defines more of it, with zeros, and takes a frame for each path that is new (`UserSpace.setup`); a store changes one byte
or faults (`UserSpace.write`).
-/

namespace KinOS.Paging

section
variable {mem mem' : Memory} {root f : Nat} {b : LinearAddress4Level} {a v n : Nat}

/-! ## Addresses of the upper half -/

theorem pageIn_ofValue (a : Nat) : (LinearAddress4Level.ofValue a).pageIn 4 = a / 4096 % 2 ^ 36 := by
  simp only [LinearAddress4Level.pageIn, LinearAddress4Level.part, LinearAddress4Level.ofValue, Fin.ofNat]
  omega

/-- An address of the upper half. -/
def InUpper (a : Nat) : Prop := upper ≤ a ∧ a < 2 ^ 64

theorem number_ofValue (a : Nat) : (LinearAddress4Level.ofValue a).path.number = a / 4096 % 2 ^ 36 := by
  rw [LinearAddress4Level.number_path, pageIn_ofValue]

theorem top_upper_iff : Top Upper b.path ↔ 2 ^ 35 ≤ b.pageIn 4 := by
  have h3 := b.pageIn_lt 3
  simp only [LinearAddress4Level.path, Top, Upper, LinearAddress4Level.pageIn, LinearAddress4Level.part] at h3 ⊢
  omega

theorem InUpper.top (h : InUpper a) : Top Upper (LinearAddress4Level.ofValue a).path := by
  rw [top_upper_iff, pageIn_ofValue]
  simp only [InUpper, upper] at h
  omega

theorem pagesFrom_ofValue (hv : InUpper v) (ha : InUpper a) :
    (LinearAddress4Level.ofValue v).PagesFrom n (LinearAddress4Level.ofValue a).path ↔
      v / 4096 ≤ a / 4096 ∧ a / 4096 < v / 4096 + n := by
  rw [LinearAddress4Level.PagesFrom, number_ofValue, number_ofValue]
  simp only [InUpper, upper] at hv ha
  omega

theorem path_ofValue_eq (hv : InUpper v) (ha : InUpper a)
    (h : (LinearAddress4Level.ofValue v).path = (LinearAddress4Level.ofValue a).path) : v / 4096 = a / 4096 := by
  have hn := congrArg Path.number h
  rw [number_ofValue, number_ofValue] at hn
  simp only [InUpper, upper] at hv ha
  omega

/-- The entries on the way to pages of the upper half are entries of the upper half. -/
theorem onWay_upper (hv : InUpper v) {q : Path} (h : (LinearAddress4Level.ofValue v).OnWay n q) :
    q ≠ [] ∧ q.length ≤ 4 ∧ Top Upper q := by
  obtain ⟨c, hc, hq, hne⟩ := h
  refine ⟨hne, hq.length_le, Top.suffix hq (top_upper_iff.mpr ?_)⟩
  have h1 := hc.1
  rw [number_ofValue, LinearAddress4Level.number_path] at h1
  simp only [InUpper, upper] at hv
  omega

theorem onWay_path {c : LinearAddress4Level} : c.OnWay n b.path ↔ c.PagesFrom n b.path :=
  ⟨fun h => by
    by_contra hn
    exact LinearAddress4Level.not_onWay hn h, fun h => ⟨b, h, List.suffix_refl _, List.cons_ne_nil _ _⟩⟩

/-! ## Translation without huge pages -/

theorem translate_eq_none (hsmall : ∀ q, q <:+ b.path → q.length = 2 ∨ q.length = 3 → (view mem root q).hugePage = false) :
    ∀ {level : Nat} {p : Path} {t : Nat}, p.length + level = 4 → b.low level ++ p = b.path → walk mem root p = some t →
      walk mem root b.path = none → translate mem b level t = none
  | 0, p, t, _, hp, ht, hnone => by
    rw [← hp] at hnone
    rw [LinearAddress4Level.low, List.nil_append, ht] at hnone
    cases hnone
  | level + 1, p, t, hlen, hp, ht, hnone => by
    have hp' : b.low level ++ (b.part (level + 1) :: p) = b.path := by
      rw [← hp]
      simp [LinearAddress4Level.low]
    rw [translate_succ hlen ht]
    cases hw : walk mem root (b.part (level + 1) :: p) with
    | some u => exact translate_eq_none hsmall (by simp only [List.length_cons]; omega) hp' hw hnone
    | none =>
      -- the entry is not present, as it maps no huge page
      have habs : (view mem root (b.part (level + 1) :: p)).present = false := by
        apply Bool.eq_false_iff.mpr
        intro hpres
        have hs := hsmall (b.part (level + 1) :: p) (hp' ▸ List.suffix_append _ _)
        have hlink : linkOf (b.part (level + 1) :: p) (view mem root (b.part (level + 1) :: p)) =
            some (view mem root (b.part (level + 1) :: p)).pointer := by
          refine linkOf_eq_some.mpr ⟨hpres, fun hh => ?_, rfl⟩
          constructor
          · intro h2
            rw [hs (.inl h2)] at hh
            cases hh
          · intro h3
            rw [hs (.inr h3)] at hh
            cases hh
        rw [walk_cons, hlink] at hw
        cases hw
      simp [habs]

theorem translate_eq_walk
    (hsmall : ∀ q, q <:+ b.path → q.length = 2 ∨ q.length = 3 → (view mem root q).hugePage = false) :
    translate mem b 4 root = walk mem root b.path := by
  cases hw : walk mem root b.path with
  | some f => exact translate_of_walk_path hw
  | none => exact translate_eq_none hsmall (p := []) rfl (List.append_nil _) rfl hw

/-! ## Frames that are no page maps -/

/-- What is written into a frame that is no page map is not seen by a walk. -/
theorem walk_congr (hf : NotTable mem root f) (hmem : ∀ g, g ≠ f → mem' g = mem g) : ∀ {p : Path}, p.length ≤ 4 →
    walk mem' root p = walk mem root p ∧ view mem' root p = view mem root p
  | [], _ => ⟨rfl, rfl⟩
  | i :: p, hlen => by
    have hp : p.length < 4 := hlen
    have ih := (walk_congr hf hmem (Nat.le_of_lt hp)).1
    have hview : view mem' root (i :: p) = view mem root (i :: p) := by
      cases hw : walk mem root p with
      | none => rw [view_none hw, view_none (ih.trans hw)]
      | some t =>
        rw [view_some hw, view_some (ih.trans hw), hmem t]
        rintro rfl
        exact hf p hp hw
    rw [walk_cons, walk_cons, hview]
    exact ⟨rfl, rfl⟩

end

/-! ## The space -/

def readByte (s : Machine) (a : Nat) : Option UInt8 :=
  (translate s.mem (.ofValue a) 4 s.cr3).map fun f => s.byteAt f (a % 4096)

def freeFrames (s : Machine) : Set Nat := { f | s.mgr.FreeRun 1 f }

structure UserSpace (W : Set Path) (s : Machine) : Prop where
  tree : IsTree s.cr3 s
  within : ∀ q ∈ W, q ≠ [] ∧ q.length ≤ 4 ∧ Top Upper q
  setUp : ∀ q ∈ W, SetUp false q (view s.mem s.cr3 q)
  only : ∀ q : Path, q.length ≤ 4 → Top Upper q → (view s.mem s.cr3 q).present = true → q ∈ W
  small : ∀ q : Path, q.length ≤ 4 → Top Upper q → (view s.mem s.cr3 q).hugePage = false
  page : ∀ q ∈ W, q.length = 4 → NotTable s.mem s.cr3 (view s.mem s.cr3 q).pointer ∧
    ¬ s.mgr.FreeRun 1 (view s.mem s.cr3 q).pointer
  inj : ∀ q ∈ W, ∀ r ∈ W, q.length = 4 → r.length = 4 →
    (view s.mem s.cr3 q).pointer = (view s.mem s.cr3 r).pointer → q = r

section
variable {W : Set Path} {s s' : Machine} {a v n : Nat}

open Classical in
/-- Where a byte of the upper half is. -/
theorem UserSpace.readByte_eq (h : UserSpace W s) (ha : InUpper a) : readByte s a =
    if (LinearAddress4Level.ofValue a).path ∈ W then
      some (s.byteAt (view s.mem s.cr3 (LinearAddress4Level.ofValue a).path).pointer (a % 4096)) else none := by
  have htr := translate_eq_walk (b := .ofValue a) fun q hq hlen =>
    h.small q (by omega) (Top.suffix hq ha.top)
  have hwalk : walk s.mem s.cr3 (LinearAddress4Level.ofValue a).path =
      linkOf (LinearAddress4Level.ofValue a).path (view s.mem s.cr3 (LinearAddress4Level.ofValue a).path) := walk_cons
  rw [readByte, htr, hwalk]
  split
  · next hW =>
    rw [linkOf_eq_some.mpr ⟨(h.setUp _ hW).present, fun _ => by simp [LinearAddress4Level.path], rfl⟩]
    rfl
  · next hW =>
    have habs : (view s.mem s.cr3 (LinearAddress4Level.ofValue a).path).present = false :=
      Bool.eq_false_iff.mpr fun hp => hW (h.only _ (Nat.le_refl 4) ha.top hp)
    rw [linkOf, habs]
    rfl

/-! ## Stores -/

/-- A change of the contents of a frame that is no page map. -/
theorem UserSpace.congr (h : UserSpace W s) {f : Nat} (hf : NotTable s.mem s.cr3 f) (hcr3 : s'.cr3 = s.cr3)
    (hmgr : s'.mgr = s.mgr) (hmem : ∀ g, g ≠ f → s'.mem g = s.mem g) : UserSpace W s' := by
  have hwalk : ∀ {p : Path}, p.length ≤ 4 → walk s'.mem s'.cr3 p = walk s.mem s.cr3 p := fun hp => by
    rw [hcr3]
    exact (walk_congr hf hmem hp).1
  have hview : ∀ {p : Path}, p.length ≤ 4 → view s'.mem s'.cr3 p = view s.mem s.cr3 p := fun hp => by
    rw [hcr3]
    exact (walk_congr hf hmem hp).2
  have hnot : ∀ {g}, NotTable s.mem s.cr3 g → NotTable s'.mem s'.cr3 g := fun hg p hp => by
    rw [hwalk (Nat.le_of_lt hp)]
    exact hg p hp
  constructor
  · constructor
    · intro p q t hp hq hpl hql
      rw [hwalk (Nat.le_of_lt hpl)] at hp
      rw [hwalk (Nat.le_of_lt hql)] at hq
      exact h.tree.inj hp hq hpl hql
    · intro g hg
      rw [hmgr] at hg
      exact hnot (h.tree.taken hg)
    · rw [hmgr]
      exact h.tree.range
  · exact h.within
  · intro q hq
    rw [hview (h.within q hq).2.1]
    exact h.setUp q hq
  · intro q hlen htop hp
    rw [hview hlen] at hp
    exact h.only q hlen htop hp
  · intro q hlen htop
    rw [hview hlen]
    exact h.small q hlen htop
  · intro q hq hlen
    rw [hview (Nat.le_of_eq hlen), hmgr]
    exact ⟨hnot (h.page q hq hlen).1, (h.page q hq hlen).2⟩
  · intro q hq r hr hql hrl heq
    rw [hview (Nat.le_of_eq hql), hview (Nat.le_of_eq hrl)] at heq
    exact h.inj q hq r hr hql hrl heq

theorem byteAt_setByteAt {f g off i : Nat} {c : UInt8} (hoff : off < 4096) (hi : i < 4096) :
    (s.setByteAt f off c).byteAt g i = if g = f ∧ i = off then c else s.byteAt g i := by
  have hword : wordOf i = wordOf off ↔ i / 8 = off / 8 := by
    simp only [wordOf, Fin.ext_iff, Fin.ofNat]
    omega
  unfold Machine.byteAt Machine.setByteAt
  by_cases hg : g = f ∧ wordOf i = wordOf off
  · obtain ⟨rfl, hw⟩ := hg
    rw [hw, Machine.mem_setEntry_self, PageMapEntry.byte_setByte _ (Nat.mod_lt _ (by decide)) (Nat.mod_lt _ (by decide))]
    have hdiv := hword.mp hw
    have hiff : i % 8 = off % 8 ↔ i = off := by omega
    simp only [true_and, hiff]
  · rw [Machine.mem_setEntry_of_ne hg, if_neg]
    rintro ⟨rfl, rfl⟩
    exact hg ⟨rfl, rfl⟩

/-- **A store to a page of the space.** -/
theorem UserSpace.write (h : UserSpace W s) (ha : InUpper a) (hW : (LinearAddress4Level.ofValue a).path ∈ W) (c : UInt8) :
    ∃ s', writeByte a c s = .ok ⟨⟩ s' ∧ UserSpace W s' ∧ freeFrames s' = freeFrames s ∧
      ∀ b, InUpper b → readByte s' b = if b = a then some c else readByte s b := by
  obtain ⟨f, hf⟩ : ∃ f, f = (view s.mem s.cr3 (LinearAddress4Level.ofValue a).path).pointer := ⟨_, rfl⟩
  have hpage := h.page _ hW rfl
  rw [← hf] at hpage
  have htr : translate s.mem (.ofValue a) 4 s.cr3 = some f := by
    have hread := h.readByte_eq ha
    rw [if_pos hW, readByte, ← hf] at hread
    have hwalk := translate_eq_walk (b := .ofValue a) fun q hq hlen => h.small q (by omega) (Top.suffix hq ha.top)
    rw [hwalk]
    change walk s.mem s.cr3 ((LinearAddress4Level.ofValue a).page :: _) = some f
    rw [walk_cons]
    exact linkOf_eq_some.mpr ⟨(h.setUp _ hW).present, fun _ => by simp, hf.symm⟩
  have hcanon : Canonical a := .inr ha.1
  have hspace : UserSpace W (s.setByteAt f (a % 4096) c) :=
    h.congr hpage.1 rfl rfl fun g hg => Machine.mem_setFrame_of_ne hg
  refine ⟨s.setByteAt f (a % 4096) c, ?_, hspace, rfl, fun b hb => ?_⟩
  · simp [writeByte, hcanon, htr, bind, EStateM.bind, get, getThe, MonadStateOf.get, EStateM.get, modify, modifyGet,
      MonadStateOf.modifyGet, EStateM.modifyGet]
  · rw [hspace.readByte_eq hb, h.readByte_eq hb]
    have hview : view (s.setByteAt f (a % 4096) c).mem (s.setByteAt f (a % 4096) c).cr3
      (LinearAddress4Level.ofValue b).path =
        view s.mem s.cr3 (LinearAddress4Level.ofValue b).path :=
      (walk_congr hpage.1 (fun g hg => Machine.mem_setFrame_of_ne hg) (Nat.le_of_eq rfl)).2
    rw [hview]
    by_cases hbW : (LinearAddress4Level.ofValue b).path ∈ W
    · rw [if_pos hbW, if_pos hbW, byteAt_setByteAt (Nat.mod_lt _ (by decide)) (Nat.mod_lt _ (by decide))]
      have hiff : ((view s.mem s.cr3 (LinearAddress4Level.ofValue b).path).pointer = f ∧ b % 4096 = a % 4096) ↔ b = a := by
        constructor
        · rintro ⟨hptr, hmod⟩
          have hdiv := path_ofValue_eq hb ha (h.inj _ hbW _ hW rfl rfl (hptr.trans hf))
          omega
        · rintro rfl
          exact ⟨hf.symm, rfl⟩
      simp only [hiff]
      split
      · rfl
      · rfl
    · have hne : b ≠ a := by
        rintro rfl
        exact hbW hW
      rw [if_neg hbW, if_neg hbW, if_neg hne]

theorem UserSpace.write_fault (h : UserSpace W s) (ha : InUpper a) (hW : (LinearAddress4Level.ofValue a).path ∉ W)
    (c : UInt8) : writeByte a c s = .error .fault s := by
  have hread := h.readByte_eq ha
  rw [if_neg hW, readByte, Option.map_eq_none_iff] at hread
  have hcanon : Canonical a := .inr ha.1
  simp [writeByte, hcanon, hread, bind, EStateM.bind, get, getThe, MonadStateOf.get, EStateM.get, throw, throwThe,
    MonadExceptOf.throw, EStateM.throw]

/-- **The stores of a loop**: all of its bytes, or it gets to one that is not mapped. -/
theorem UserSpace.store (h : UserSpace W s) {dst : Nat} {src : Nat → UInt8} : ∀ {n i : Nat},
    (n = 0 ∨ upper ≤ dst ∧ dst + (i + n) ≤ 2 ^ 64) → After (store dst src n i) s
      (fun _ s' => UserSpace W s' ∧ freeFrames s' = freeFrames s ∧
        (∀ k, i ≤ k → k < i + n → (LinearAddress4Level.ofValue (dst + k)).path ∈ W) ∧
        ∀ b, InUpper b → readByte s' b = if dst + i ≤ b ∧ b < dst + (i + n) then some (src (b - dst)) else readByte s b)
      (fun e _ => e = .fault ∧ ∃ k, i ≤ k ∧ k < i + n ∧ (LinearAddress4Level.ofValue (dst + k)).path ∉ W) := by
  intro n
  induction n generalizing s with
  | zero =>
    intro i _
    refine .pure ⟨h, rfl, fun k h1 h2 => absurd h2 (Nat.not_lt.mpr h1), fun b _ => ?_⟩
    rw [if_neg (by omega)]
  | succ n ih =>
    intro i hrange
    obtain ⟨hdst, hend⟩ := hrange.resolve_left (Nat.succ_ne_zero n)
    have ha : InUpper (dst + i) := ⟨by omega, by omega⟩
    rw [Paging.store, Nat.mod_eq_of_lt ha.2]
    by_cases hW : (LinearAddress4Level.ofValue (dst + i)).path ∈ W
    · obtain ⟨s1, hrun, h1, hfree, hread⟩ := h.write ha hW (src i)
      rw [After.bind_of_ok hrun]
      refine (ih h1 (.inr ⟨hdst, by omega⟩)).imp ?_ ?_
      · rintro _ s' ⟨h', hfree', hall, hread'⟩
        refine ⟨h', hfree'.trans hfree, fun k hk1 hk2 => ?_, fun b hb => ?_⟩
        · by_cases hki : k = i
          · exact hki ▸ hW
          · exact hall k (by omega) (by omega)
        · rw [hread' b hb, hread b hb]
          by_cases hbi : b = dst + i
          · rw [if_neg (by omega), if_pos hbi, if_pos (by omega), hbi, Nat.add_sub_cancel_left]
          · rw [if_neg hbi]
            by_cases hin : dst + (i + 1) ≤ b ∧ b < dst + (i + 1 + n)
            · rw [if_pos hin, if_pos (by omega)]
            · rw [if_neg hin, if_neg (by omega)]
      · rintro e s' ⟨he, k, hk1, hk2, hk⟩
        exact ⟨he, k, by omega, by omega, hk⟩
    · rw [After.bind_of_error (h.write_fault ha hW (src i))]
      exact ⟨rfl, i, Nat.le_refl i, by omega, hW⟩

/-- Nothing but an access that is not mapped stops the stores. -/
theorem store_error {dst : Nat} {src : Nat → UInt8} : ∀ (n i : Nat) (s : Machine),
    After (store dst src n i) s (fun _ _ => True) (fun e _ => e = .fault)
  | 0, _, _ => .pure trivial
  | n + 1, i, s => by
    refine .bind (Q := fun _ _ => True) ?_ fun _ s' _ => store_error n (i + 1) s'
    unfold writeByte
    refine .get_bind (.ite (fun _ => ?_) fun _ => .throw rfl)
    cases translate s.mem (.ofValue ((dst + i) % 2 ^ 64)) 4 s.cr3 with
    | none => exact .throw rfl
    | some f => exact .modify trivial

/-! ## `SetupPageMaps` -/

theorem freeFrames_finite (s : Machine) : (freeFrames s).Finite := by
  refine (Set.finite_lt_nat s.mgr.rangeEnd).subset fun f hf => ?_
  have := hf.2.1
  simp only [Set.mem_ofPred_eq]
  omega

theorem finite_paths {P : Path → Prop} (h : ∀ q, P q → q.length ≤ 4) : { q | P q }.Finite :=
  (List.finite_length_le (Fin 512) 4).subset h

/-- A frame for each entry made present. -/
theorem Grown.frames {w : Bool} {A : Path → Prop} {root : Nat} (h : Grown w A root s s') :
    (freeFrames s).ncard = (freeFrames s').ncard + { r | Fresh root s s' r }.ncard := by
  have hsplit : freeFrames s = freeFrames s' ∪ (fun r => (view s'.mem root r).pointer) '' { r | Fresh root s s' r } := by
    ext g
    constructor
    · intro hg
      rcases h.used hg with hg' | ⟨r, hr, he⟩
      · exact .inl hg'
      · exact .inr ⟨r, hr, he⟩
    · rintro (hg | ⟨r, hr, rfl⟩)
      · exact h.free hg
      · exact (h.fresh hr).1
  have hdisj : Disjoint (freeFrames s') ((fun r => (view s'.mem root r).pointer) '' { r | Fresh root s s' r }) := by
    rw [Set.disjoint_right]
    rintro g ⟨r, hr, rfl⟩
    exact (h.fresh hr).2
  have hfin : { r | Fresh root s s' r }.Finite := finite_paths fun r hr => hr.depth
  rw [hsplit, Set.ncard_union_eq hdisj (freeFrames_finite s') (hfin.image _), Set.InjOn.ncard_image]
  intro r hr q hq heq
  exact h.inj hr hq heq

/-- The entries on the way to the `n` pages from `v` on. -/
def wayTo (v n : Nat) : Set Path := { q | (LinearAddress4Level.ofValue v).OnWay n q }

theorem wayTo_upper (hv : InUpper v) {q : Path} (hq : q ∈ wayTo v n) : q ≠ [] ∧ q.length ≤ 4 ∧ Top Upper q :=
  onWay_upper hv hq

theorem UserSpace.finite (h : UserSpace W s) : W.Finite := finite_paths fun q hq => (h.within q hq).2.1

theorem UserSpace.cases_grown (h : UserSpace W s) (hv : InUpper v)
    (hset : ∀ q ∈ wayTo v n, SetUp false q (view s'.mem s.cr3 q)) {q : Path} (hq : q ∈ W ∪ wayTo v n) :
    Fresh s.cr3 s s' q ∨ q ∈ W := by
  rcases hq with hq | hq
  · exact .inr hq
  · obtain ⟨-, hlen, htop⟩ := wayTo_upper hv hq
    cases hp : (view s.mem s.cr3 q).present with
    | true => exact .inr (h.only q hlen htop hp)
    | false => exact .inl ⟨hlen, hp, (hset q hq).present⟩

section
variable (h : UserSpace W s) (hg : Grown false ((LinearAddress4Level.ofValue v).OnWay n) s.cr3 s s')
include h hg

/-- What becomes present is new, and on the way. -/
theorem UserSpace.fresh {r : Path} (hr : Fresh s.cr3 s s' r) : r ∈ wayTo v n ∧ r ∉ W := by
  constructor
  · by_contra hn
    have hafter := hr.after
    rw [hg.same hr.depth hn, hr.before] at hafter
    cases hafter
  · intro hW
    have hbefore := (h.setUp r hW).present
    rw [hr.before] at hbefore
    cases hbefore

theorem UserSpace.kept {q : Path} (hq : q ∈ W) : (view s'.mem s.cr3 q).present = true ∧
    (view s'.mem s.cr3 q).pointer = (view s.mem s.cr3 q).pointer :=
  hg.kept (h.within q hq).2.1 (h.setUp q hq).present

theorem UserSpace.ncard_fresh : (W ∪ { r | Fresh s.cr3 s s' r }).ncard + (freeFrames s').ncard =
    W.ncard + (freeFrames s).ncard := by
  have hdisj : Disjoint W { r | Fresh s.cr3 s s' r } := Set.disjoint_right.mpr fun r hr => (h.fresh hg hr).2
  rw [hg.frames, Set.ncard_union_eq hdisj h.finite (finite_paths fun r hr => hr.depth)]
  omega

variable (hv : InUpper v) (hset : ∀ q ∈ wayTo v n, SetUp false q (view s'.mem s.cr3 q))
include hv hset

/-- A range more. -/
theorem UserSpace.grown : UserSpace (W ∪ wayTo v n) s' := by
  have hcases : ∀ {q}, q ∈ W ∪ wayTo v n → Fresh s.cr3 s s' q ∨ q ∈ W := h.cases_grown hv hset
  constructor
  · rw [hg.cr3]
    exact hg.tree
  · rintro q (hq | hq)
    · exact h.within q hq
    · exact wayTo_upper hv hq
  · rw [hg.cr3]
    rintro q (hq | hq)
    · exact (h.setUp q hq).grown hg (h.within q hq).2.1
    · exact hset q hq
  · rw [hg.cr3]
    intro q hlen htop hp
    by_cases hq : q ∈ wayTo v n
    · exact .inr hq
    · rw [hg.same hlen hq] at hp
      exact .inl (h.only q hlen htop hp)
  · rw [hg.cr3]
    intro q hlen htop
    rw [hg.huge hlen]
    exact h.small q hlen htop
  · rw [hg.cr3]
    intro q hq hlen
    rcases hcases hq with hf | hW
    · exact ⟨(hg.zero hf hlen).2, (hg.fresh hf).2⟩
    · obtain ⟨hnot, hfree⟩ := h.page q hW hlen
      rw [(h.kept hg hW).2]
      exact ⟨(hg.frame hfree hnot).2, fun hf => hfree (hg.free hf)⟩
  · rw [hg.cr3]
    intro q hq r hr hql hrl heq
    -- a frame just taken was free, and the older pages' frames were not
    rcases hcases hq with hqf | hqW <;> rcases hcases hr with hrf | hrW
    · exact hg.inj hqf hrf heq
    · rw [(h.kept hg hrW).2] at heq
      exact absurd (heq ▸ (hg.fresh hqf).1) (h.page r hrW hrl).2
    · rw [(h.kept hg hqW).2] at heq
      exact absurd (heq ▸ (hg.fresh hrf).1) (h.page q hqW hql).2
    · rw [(h.kept hg hqW).2, (h.kept hg hrW).2] at heq
      exact h.inj q hqW r hrW hql hrl heq

open Classical in
theorem UserSpace.readByte_grown (ha : InUpper a) : readByte s' a =
    (readByte s a).or (if (LinearAddress4Level.ofValue a).path ∈ wayTo v n then some 0 else none) := by
  rw [(h.grown hg hv hset).readByte_eq ha, h.readByte_eq ha, hg.cr3]
  by_cases hW : (LinearAddress4Level.ofValue a).path ∈ W
  · obtain ⟨hnot, hfree⟩ := h.page _ hW rfl
    rw [if_pos (.inl hW), if_pos hW, (h.kept hg hW).2, Machine.byteAt, (hg.frame hfree hnot).1]
    rfl
  · rw [if_neg hW, Option.none_or]
    by_cases hq : (LinearAddress4Level.ofValue a).path ∈ wayTo v n
    · have hf := (h.cases_grown hv hset (.inr hq)).resolve_right hW
      rw [if_pos (.inr hq), if_pos hq, Machine.byteAt, (hg.zero hf rfl).1, PageMapEntry.byte_zero]
    · rw [if_neg (fun h => h.elim hW hq), if_neg hq]

end

open Classical in
/-- **`SetupPageMaps` on a range of the upper half**: the pages not mapped before are zero, and a frame is taken for every
entry that is new; or there are not enough. -/
theorem UserSpace.setup (h : UserSpace W s) (hv : InUpper v) : After (setupPageMaps (.ofValue v) n false) s
    (fun _ s' => UserSpace (W ∪ wayTo v n) s' ∧
      (W ∪ wayTo v n).ncard + (freeFrames s').ncard = W.ncard + (freeFrames s).ncard ∧
      ∀ a, InUpper a → readByte s' a =
        (readByte s a).or (if (LinearAddress4Level.ofValue a).path ∈ wayTo v n then some 0 else none))
    (fun e _ => e = .error .kNoEnoughMemory ∧ W.ncard + (freeFrames s).ncard < (W ∪ wayTo v n).ncard) := by
  have hsmall : Small ((LinearAddress4Level.ofValue v).OnWay n) s.cr3 s := fun q hq hlen =>
    h.small q (by omega) (wayTo_upper hv hq).2.2
  refine (setupPageMaps_grown (w := false) h.tree hsmall).imp ?_ ?_
  · rintro _ s' ⟨hg, hset⟩
    have hunion : W ∪ wayTo v n = W ∪ { r | Fresh s.cr3 s s' r } := by
      ext q
      constructor
      · intro hq
        exact (h.cases_grown hv hset hq).symm
      · rintro (hq | hq)
        · exact .inl hq
        · exact .inr (h.fresh hg hq).1
    refine ⟨h.grown hg hv hset, ?_, fun a ha => h.readByte_grown hg hv hset ha⟩
    rw [hunion]
    exact h.ncard_fresh hg
  · rintro e s' ⟨hg, he, hno, q, hq, hlen, habs⟩
    refine ⟨he, ?_⟩
    have hempty : (freeFrames s').ncard = 0 := by
      rw [Set.ncard_eq_zero (freeFrames_finite s')]
      exact Set.eq_empty_of_forall_notMem hno
    rw [← h.ncard_fresh hg, hempty, Nat.add_zero]
    -- every frame that was free is in use, and one entry more is on the way
    have hfin : (W ∪ wayTo v n).Finite := h.finite.union (finite_paths fun r hr => (wayTo_upper hv hr).2.1)
    refine Set.ncard_lt_ncard ?_ hfin
    rw [Set.ssubset_iff_of_subset]
    · refine ⟨q, .inr hq, ?_⟩
      rintro (hW | hf)
      · rw [(h.kept hg hW).1] at habs
        cases habs
      · rw [hf.after] at habs
        cases habs
    · rintro r (hr | hr)
      · exact .inl hr
      · exact .inr (h.fresh hg hr).1

/-! ## `SetupPML4` -/

/-- The new PML4 leads where the old one led, but for the upper half. -/
theorem walk_pml4 {root f : Nat} {mem mem' : Memory} (hf : NotTable mem root f) (hmem : ∀ g, g ≠ f → mem' g = mem g)
    (hpml4 : mem' f = fun i => if i.val < 256 then mem root i else .zero) : ∀ {i : Fin 512} {p : Path}, p.length < 4 →
    (Top Upper (i :: p) → walk mem' f (i :: p) = none ∧ view mem' f (i :: p) = .zero) ∧
      (¬ Top Upper (i :: p) → walk mem' f (i :: p) = walk mem root (i :: p))
  | i, [], _ => by
    have hview : view mem' f [i] = if i.val < 256 then mem root i else .zero := (view_some rfl).trans (congrFun hpml4 i)
    constructor
    · intro htop
      have hge : ¬ i.val < 256 := Nat.not_lt.mpr htop
      rw [if_neg hge] at hview
      rw [walk_cons, hview]
      exact ⟨rfl, rfl⟩
    · intro htop
      have hlt : i.val < 256 := Nat.not_le.mp htop
      rw [if_pos hlt] at hview
      rw [walk_cons, hview, walk_cons]
      rfl
  | i, j :: p, hlen => by
    have ih := walk_pml4 hf hmem hpml4 (i := j) (p := p) (by simp only [List.length_cons] at hlen; omega)
    constructor
    · intro htop
      have hnone := (ih.1 htop).1
      rw [walk_cons, view_none hnone]
      exact ⟨rfl, rfl⟩
    · intro htop
      have hsame := ih.2 htop
      change (walk mem' f (j :: p)).bind _ = (walk mem root (j :: p)).bind _
      rw [hsame]
      cases ht : walk mem root (j :: p) with
      | none => rfl
      | some t =>
        rw [Option.bind_some, Option.bind_some, hmem t]
        rintro rfl
        exact hf (j :: p) hlen ht

/-- A PML4 just allocated, with the lower half of the old one. -/
theorem pml4_space (h : IsTree s.cr3 s) {f : Nat} {m : BitmapMemoryManager} (halloc : s.mgr.allocate 1 = (.ok f, m))
    (hcr3 : s'.cr3 = f) (hmgr : s'.mgr = m) (hmem : ∀ g, g ≠ f → s'.mem g = s.mem g)
    (hpml4 : s'.mem f = fun i => if i.val < 256 then s.mem s.cr3 i else .zero) : UserSpace ∅ s' := by
  have hiff := BitmapMemoryManager.allocate_one_freeRun halloc
  have hf := h.taken (BitmapMemoryManager.allocate_one_free halloc)
  have hold : ∀ {p t}, p.length < 4 → p ≠ [] → walk s'.mem f p = some t → walk s.mem s.cr3 p = some t := by
    intro p t hp hne ht
    cases p with
    | nil => exact absurd rfl hne
    | cons i p =>
      have hwalk := walk_pml4 hf hmem hpml4 (i := i) (p := p) (by simp only [List.length_cons] at hp; omega)
      by_cases htop : Top Upper (i :: p)
      · rw [(hwalk.1 htop).1] at ht
        cases ht
      · rwa [hwalk.2 htop] at ht
  have hview : ∀ q : Path, q.length ≤ 4 → Top Upper q → view s'.mem f q = .zero
    | [], _, _ => rfl
    | i :: p, hlen, htop => ((walk_pml4 hf hmem hpml4 (show p.length < 4 from hlen)).1 htop).2
  constructor
  · rw [hcr3]
    constructor
    · intro p q t hp hq hpl hql
      by_cases hpn : p = [] <;> by_cases hqn : q = []
      · rw [hpn, hqn]
      · rw [hpn] at hp
        exact absurd (hold hql hqn hq) (Option.some.inj hp ▸ hf q hql)
      · rw [hqn] at hq
        exact absurd (hold hpl hpn hp) (Option.some.inj hq ▸ hf p hpl)
      · exact h.inj (hold hpl hpn hp) (hold hql hqn hq) hpl hql
    · intro g hg p hp ht
      rw [hmgr, hiff] at hg
      by_cases hpn : p = []
      · rw [hpn] at ht
        exact hg.2 (Option.some.inj ht).symm
      · exact h.taken hg.1 p hp (hold hp hpn ht)
    · rw [hmgr, (BitmapMemoryManager.allocate_one halloc).2.2.1]
      exact h.range
  · exact fun q hq => hq.elim
  · exact fun q hq => hq.elim
  · intro q hlen htop hp
    rw [hcr3, hview q hlen htop] at hp
    cases hp
  · intro q hlen htop
    rw [hcr3, hview q hlen htop]
    rfl
  · exact fun q hq => hq.elim
  · exact fun q hq => hq.elim

/-- **`SetupPML4`**: an empty upper half, for a frame. -/
theorem setupPML4_space (h : IsTree s.cr3 s) : After setupPML4 s
    (fun _ s' => UserSpace ∅ s' ∧ (freeFrames s').ncard + 1 = (freeFrames s).ncard)
    (fun e _ => e = .error .kNoEnoughMemory ∧ (freeFrames s).ncard = 0) := by
  have hnew : After newPageMap s
      (fun f s1 => ∃ m, s.mgr.allocate 1 = (.ok f, m) ∧ s1 = { s with mgr := m }.setFrame f fun _ => .zero)
      (fun e _ => e = .error .kNoEnoughMemory ∧ (freeFrames s).ncard = 0) := by
    unfold After
    rcases newPageMap_spec s with ⟨f, m, halloc, hrun⟩ | ⟨hno, hrun⟩ <;> rw [hrun]
    · exact ⟨m, halloc, rfl⟩
    · refine ⟨rfl, ?_⟩
      rw [Set.ncard_eq_zero (freeFrames_finite s)]
      exact Set.eq_empty_of_forall_notMem hno
  refine hnew.bind ?_
  rintro f s1 ⟨m, halloc, rfl⟩
  have hne : s.cr3 ≠ f := fun he =>
    h.taken (BitmapMemoryManager.allocate_one_free halloc) [] (by decide) (congrArg some he)
  refine .modify_bind (.modify_bind (.pure ⟨pml4_space h halloc rfl rfl ?_ ?_, ?_⟩))
  · intro g hg
    simp only [Machine.mem_setFrame_of_ne hg]
  · simp only [Machine.mem_setFrame_self, Machine.cr3_setFrame, Machine.mem_setFrame_of_ne hne]
  · -- the frame taken was free
    have hfree : freeFrames s = insert f { g | m.FreeRun 1 g } := by
      ext g
      have hiff := BitmapMemoryManager.allocate_one_freeRun halloc g
      have hf := BitmapMemoryManager.allocate_one_free halloc
      simp only [freeFrames, Set.mem_insert_iff, Set.mem_ofPred_eq, hiff]
      by_cases hg : g = f
      · simp [hg, hf]
      · simp [hg]
    have hnot : f ∉ { g | m.FreeRun 1 g } := fun hf =>
      ((BitmapMemoryManager.allocate_one_freeRun halloc f).mp hf).2 rfl
    have hfin : { g | m.FreeRun 1 g }.Finite := (freeFrames_finite s).subset fun g hg => hfree ▸ .inr hg
    rw [hfree, Set.ncard_insert_of_notMem hnot hfin]
    rfl

end

end KinOS.Paging
