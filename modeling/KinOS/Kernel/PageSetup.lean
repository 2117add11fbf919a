import KinOS.Kernel.PageTree

/-!
# What `SetupPageMaps` does to an address space

`SetupPageMaps` is a run of two kinds of writes (`Extend`): an entry on the way that is there already gets its user bit,
and one that is not gets a frame just allocated. The last level is reached for the pages asked for only
(`setupPageMap_spec`).
-/

namespace KinOS.Paging

namespace Machine

variable {s : Machine} {t g f : Nat} {i j : Fin 512} {e e' : PageMapEntry} {page : Fin 512 → PageMapEntry}

@[simp] theorem mem_setFrame_self : (s.setFrame f page).mem f = page := by simp [setFrame]

theorem mem_setFrame_of_ne (h : g ≠ f) : (s.setFrame f page).mem g = s.mem g := by simp [setFrame, h]

@[simp] theorem mem_setEntry_self : (s.setEntry t i e).mem t i = e := by simp [setEntry]

theorem mem_setEntry_of_ne (h : ¬ (g = t ∧ j = i)) : (s.setEntry t i e).mem g j = s.mem g j := by
  unfold setEntry
  by_cases hg : g = t
  · subst hg
    have hj : j ≠ i := fun hj => h ⟨rfl, hj⟩
    simp [hj]
  · rw [mem_setFrame_of_ne hg]

@[simp] theorem setEntry_setEntry : (s.setEntry t i e).setEntry t i e' = s.setEntry t i e' := by
  simp [setEntry, setFrame]

@[simp] theorem mgr_setFrame : (s.setFrame f page).mgr = s.mgr := rfl

@[simp] theorem mgr_setEntry : (s.setEntry t i e).mgr = s.mgr := rfl

@[simp] theorem cr3_setFrame : (s.setFrame f page).cr3 = s.cr3 := rfl

@[simp] theorem cr3_setEntry : (s.setEntry t i e).cr3 = s.cr3 := rfl

end Machine

/-- `NewPageMap`: a frame just allocated and cleared, or no change. -/
theorem newPageMap_spec (s : Machine) :
    (∃ f m, s.mgr.allocate 1 = (.ok f, m) ∧ newPageMap s = .ok f ({ s with mgr := m }.setFrame f fun _ => .zero)) ∨
    (∀ f, ¬ s.mgr.FreeRun 1 f) ∧ newPageMap s = .error (.error .kNoEnoughMemory) s := by
  unfold newPageMap
  rcases h : s.mgr.allocate 1 with ⟨_ | f, m⟩
  · obtain ⟨rfl, rfl, hno⟩ := BitmapMemoryManager.allocate_one_error h
    exact .inr ⟨hno, rfl⟩
  · exact .inl ⟨f, m, rfl, rfl⟩

theorem newPageMap_after (s : Machine) : After newPageMap s
    (fun f s1 => ∃ m, s.mgr.allocate 1 = (.ok f, m) ∧ s1 = { s with mgr := m }.setFrame f fun _ => .zero)
    (fun e s1 => s1 = s ∧ e = .error .kNoEnoughMemory) := by
  unfold After
  rcases newPageMap_spec s with ⟨f, m, halloc, hrun⟩ | ⟨-, hrun⟩ <;> rw [hrun]
  · exact ⟨m, halloc, rfl⟩
  · exact ⟨rfl, rfl⟩

/-! ## Extending an address space -/

/-- One write of `SetupPageMaps` on the PML4 `root`; `pages` are those asked for and `w` is its argument `writable`. -/
inductive Extend (w : Bool) (pages : Path → Prop) (root : Nat) : Machine → Machine → Prop
  | touch {s : Machine} {p : Path} {t : Nat} {i : Fin 512} : Slot s.mem root Upper 4 p t i →
      (s.mem t i).present = true →
      Extend w pages root s (s.setEntry t i { s.mem t i with user := true })
  | link {s : Machine} {p : Path} {t f : Nat} {i : Fin 512} {m : BitmapMemoryManager} {e : PageMapEntry} :
      Slot s.mem root Upper 4 p t i → (s.mem t i).present = false → s.mgr.allocate 1 = (.ok f, m) →
      e.present = true → e.pointer = f → (p.length < 3 → e.writable = true) →
      (p.length = 3 → e.writable = w ∧ pages (i :: p)) → e.hugePage = (s.mem t i).hugePage →
      Extend w pages root s (({ s with mgr := m }.setFrame f fun _ => .zero).setEntry t i e)

abbrev Extends (w : Bool) (pages : Path → Prop) (root : Nat) := Relation.ReflTransGen (Extend w pages root)

section
variable {base : Nat → Prop} {w : Bool} {pages : Path → Prop} {root : Nat} {s s' : Machine}

theorem Space.table_ne (h : Space base root s) {p : Path} {t f : Nat} {i : Fin 512}
    (hs : Slot s.mem root Upper 4 p t i) (hf : s.mgr.getBit f = false) : t ≠ f := by
  rintro rfl
  rw [h.marked hs.table hs.top.tail hs.depth] at hf
  cases hf

/-- Some part of the marked frames is what the tree owns. -/
def IsSpace (root : Nat) (s : Machine) : Prop := ∃ base, Space base root s

/-- The entry `i` of the page map `t` was not present and points to a frame just allocated and cleared. -/
structure Linked (root : Nat) (s s' : Machine) (p : Path) (t : Nat) (i : Fin 512) (f : Nat) : Prop where
  rewrite : Rewrite s.mem s'.mem root Upper 4 p t i (· = f)
  absent : (s.mem t i).present = false
  alloc : s.mgr.allocate 1 = (.ok f, s'.mgr)
  present : (s'.mem t i).present = true
  pointer : (s'.mem t i).pointer = f
  zero : s'.mem f = fun _ => .zero

theorem IsSpace.linked (h : IsSpace root s) {p : Path} {t f : Nat} {i : Fin 512} {m : BitmapMemoryManager}
    {e : PageMapEntry} (hslot : Slot s.mem root Upper 4 p t i) (habs : (s.mem t i).present = false)
    (halloc : s.mgr.allocate 1 = (.ok f, m)) (hp : e.present = true) (hptr : e.pointer = f) :
    Linked root s (({ s with mgr := m }.setFrame f fun _ => .zero).setEntry t i e) p t i f := by
  obtain ⟨base, h⟩ := h
  obtain ⟨hfree, -, -, -⟩ := BitmapMemoryManager.allocate_one halloc
  have htf := h.table_ne hslot hfree
  refine ⟨h.rewrite hslot hfree fun g j hg hj => ?_, habs, halloc, ?_, ?_, ?_⟩
  · rw [Machine.mem_setEntry_of_ne hj, Machine.mem_setFrame_of_ne hg]
  · rwa [Machine.mem_setEntry_self]
  · rwa [Machine.mem_setEntry_self]
  · unfold Machine.setEntry
    rw [Machine.mem_setFrame_of_ne htf.symm, Machine.mem_setFrame_self]

theorem same_user {t : Nat} {i : Fin 512} (hp : (s.mem t i).present = true) :
    Same root s (s.setEntry t i { s.mem t i with user := true }) := by
  refine ⟨rfl, fun {_ g j} _ => ?_, fun {_ g j} _ => ?_, fun {_ g j} _ habs => ?_⟩ <;> by_cases hg : g = t ∧ j = i
  · obtain ⟨rfl, rfl⟩ := hg
    simp only [Machine.mem_setEntry_self, PageMapEntry.pointer, and_self]
  · rw [Machine.mem_setEntry_of_ne hg]
    exact ⟨rfl, rfl, rfl⟩
  · obtain ⟨rfl, rfl⟩ := hg
    rw [Machine.mem_setEntry_self]
  · rw [Machine.mem_setEntry_of_ne hg]
  · obtain ⟨rfl, rfl⟩ := hg
    rw [habs] at hp
    cases hp
  · rw [Machine.mem_setEntry_of_ne hg]

/-- **What one write can do.** -/
theorem Extend.inv (hstep : Extend w pages root s s') (h : IsSpace root s) :
    Same root s s' ∨ ∃ p t i f, Linked root s s' p t i f ∧ (p.length < 3 → (s'.mem t i).writable = true) ∧
      (p.length = 3 → (s'.mem t i).writable = w ∧ pages (i :: p)) ∧ (s'.mem t i).hugePage = (s.mem t i).hugePage := by
  cases hstep with
  | touch hslot hpres => exact .inl (same_user hpres)
  | @link p t f i m e hslot habs halloc hp hptr hin hleaf hhuge =>
    refine .inr ⟨p, t, i, f, h.linked hslot habs halloc hp hptr, ?_, ?_, ?_⟩ <;> rw [Machine.mem_setEntry_self]
    · exact hin
    · exact hleaf
    · exact hhuge

theorem Linked.slot_iff {p : Path} {t f : Nat} {i : Fin 512} (h : Linked root s s' p t i f) (hs : Space base root s)
    {q : Path} {u : Nat} {j : Fin 512} : Slot s'.mem root Upper 4 q u j ↔
      Slot s.mem root Upper 4 q u j ∨ p.length + 1 < 4 ∧ q = i :: p ∧ u = f :=
  h.rewrite.slot_iff hs.tree h.present h.pointer fun _ => ⟨h.absent, h.zero⟩

theorem Linked.present_cases {p : Path} {t f : Nat} {i : Fin 512} (h : Linked root s s' p t i f)
    (hs : Space base root s) {q : Path} {u : Nat} {j : Fin 512} (hslot : Slot s'.mem root Upper 4 q u j)
    (hp : (s'.mem u j).present = true) :
    q = p ∧ u = t ∧ j = i ∨ Slot s.mem root Upper 4 q u j ∧ s'.mem u j = s.mem u j :=
  h.rewrite.present_cases hs.tree h.present h.pointer (fun _ => ⟨h.absent, h.zero⟩) hslot hp

/-- An entry that was present is not the one written. -/
theorem Linked.entry_eq {p : Path} {t f : Nat} {i : Fin 512} (h : Linked root s s' p t i f) (hs : Space base root s)
    {q : Path} {u : Nat} {j : Fin 512} (hslot : Slot s.mem root Upper 4 q u j) (hp : (s.mem u j).present = true) :
    s'.mem u j = s.mem u j := by
  refine h.rewrite.entry_eq hs.tree hslot fun hc => ?_
  obtain ⟨rfl, rfl⟩ := List.cons.inj hc
  obtain rfl := Option.some.inj (hslot.table.symm.trans h.rewrite.slot.table)
  rw [h.absent] at hp
  cases hp

/-- A page mapped read-only leaves its frame to `base`. -/
theorem Space.extend (h : Space base root s) (hstep : Extend w pages root s s') :
    ∃ base', (∀ f, base f → base' f) ∧ (w = true → base' = base) ∧ Space base' root s' := by
  rcases hstep.inv ⟨base, h⟩ with hsame | ⟨p, t, i, f, hl, hin, hleaf, hhuge⟩
  · exact ⟨base, fun _ => id, fun _ => rfl, h.touch hsame⟩
  · cases hw : (s'.mem t i).writable with
    | true =>
      refine ⟨base, fun _ => id, fun _ => rfl, h.acquire hl.rewrite.slot hl.alloc hl.rewrite.other
        (fun ho => Bool.eq_false_iff.mp hl.absent ho.1) ⟨hl.present, hw⟩ hl.pointer (fun _ => ⟨hl.absent, hl.zero⟩)
        fun hd => hhuge.trans (h.small hl.rewrite.slot hd)⟩
    | false =>
      have hd : p.length = 3 := by
        have h1 := hl.rewrite.slot.depth
        have h2 : ¬ p.length < 3 := fun hlt => by simp [hin hlt] at hw
        omega
      obtain ⟨hfree, -, -, -⟩ := BitmapMemoryManager.allocate_one hl.alloc
      -- the frame is allocated to `base`, then shared
      have hmem : ∀ {q u j}, Slot s.mem root Upper 4 q u j →
          ({ s with mgr := s'.mgr }.setFrame f (s'.mem f)).mem u j = s.mem u j := fun hs => by
        rw [Machine.mem_setFrame_of_ne (hl.rewrite.unused hs.table hs.top.tail hs.depth)]
      have h1 : Space (fun g => base g ∨ g = f) root ({ s with mgr := s'.mgr }.setFrame f (s'.mem f)) :=
        h.adopt hl.alloc fun g hg => Machine.mem_setFrame_of_ne hg
      refine ⟨_, fun g => .inl, fun hwt => ?_, h1.borrow ((slot_congr hmem).mpr hl.rewrite.slot) hd rfl
        (fun g j hj => ?_) ?_ hw hl.present (.inr hl.pointer)⟩
      · rw [(hleaf hd).1, hwt] at hw
        cases hw
      · by_cases hg : g = f
        · rw [hg, Machine.mem_setFrame_self]
        · rw [Machine.mem_setFrame_of_ne hg, hl.rewrite.other g j hg hj]
      · rw [hmem hl.rewrite.slot]
        exact hl.absent

theorem IsSpace.extend (h : IsSpace root s) (hstep : Extend w pages root s s') : IsSpace root s' := by
  obtain ⟨base, h⟩ := h
  obtain ⟨base', -, -, h'⟩ := h.extend hstep
  exact ⟨base', h'⟩

/-- No entry is lost, and one that is present keeps its frame and its bits `present` and `writable`. -/
theorem Extend.keeps (hstep : Extend w pages root s s') (h : IsSpace root s) {q : Path} {u : Nat} {j : Fin 512}
    (hs : Slot s.mem root Upper 4 q u j) :
    Slot s'.mem root Upper 4 q u j ∧ ((s.mem u j).present = true →
      (s'.mem u j).present = true ∧ (s'.mem u j).writable = (s.mem u j).writable ∧
        (s'.mem u j).pointer = (s.mem u j).pointer) := by
  rcases hstep.inv h with hsame | ⟨p, t, i, f, hl, -⟩
  · exact ⟨hsame.slot_iff.mpr hs, fun hp => ⟨(hsame.entry hs).1.trans hp, (hsame.entry hs).2⟩⟩
  · obtain ⟨base, h⟩ := h
    refine ⟨(hl.slot_iff h).mpr (.inl hs), fun hp => ?_⟩
    rw [hl.entry_eq h hs hp]
    exact ⟨hp, rfl, rfl⟩

/-- The pages asked for that are there already are mapped with the same `writable` bit. -/
def PagesOk (w : Bool) (pages : Path → Prop) (root : Nat) (s : Machine) : Prop :=
  ∀ {p t i}, Slot s.mem root Upper 4 p t i → p.length = 3 → pages (i :: p) → (s.mem t i).present = true →
    (s.mem t i).writable = w

theorem PagesOk.extend (h : PagesOk w pages root s) (hs : IsSpace root s) (hstep : Extend w pages root s s') :
    PagesOk w pages root s' := by
  intro q u j hslot hlen hpage hpres
  rcases hstep.inv hs with hsame | ⟨p, t, i, f, hl, -, hleaf, -⟩
  · have hs := hsame.slot_iff.mp hslot
    rw [(hsame.entry hs).2.1]
    exact h hs hlen hpage ((hsame.entry hs).1 ▸ hpres)
  · obtain ⟨base, hs⟩ := hs
    rcases hl.present_cases hs hslot hpres with ⟨rfl, rfl, rfl⟩ | ⟨hold, he⟩
    · exact (hleaf hlen).1
    · rw [he] at hpres ⊢
      exact h hold hlen hpage hpres

end

/-! ## The loop of `SetupPageMap` -/

/-- The number of the page within what the page map at the start of the path covers. -/
def Path.number : Path → Nat
  | [] => 0
  | i :: p => Path.number p * 512 + i.val

theorem Path.number_concat (k : Fin 512) : ∀ r : Path,
    Path.number (r ++ [k]) = k.val * 512 ^ r.length + Path.number r
  | [] => by simp [Path.number]
  | i :: r => by
    rw [List.cons_append, Path.number, Path.number_concat k r, Path.number, List.length_cons, Nat.pow_succ]
    ring

theorem Path.number_lt : ∀ r : Path, Path.number r < 512 ^ r.length
  | [] => by simp [Path.number]
  | i :: r => by
    have := Path.number_lt r
    rw [Path.number, List.length_cons, Nat.pow_succ]
    omega

theorem Path.number_inj : ∀ {p q : Path}, p.length = q.length → p.number = q.number → p = q
  | [], [], _, _ => rfl
  | i :: p, j :: q, hlen, hnum => by
    rw [Path.number, Path.number] at hnum
    have hi : i = j := Fin.ext (by omega)
    rw [hi, Path.number_inj (Nat.succ.inj hlen) (by omega)]

namespace LinearAddress4Level

theorem pageIn_lt (a : LinearAddress4Level) : ∀ level, a.pageIn level < 512 ^ level
  | 0 => by simp [pageIn]
  | level + 1 => by
    have h1 := a.pageIn_lt level
    have h2 : (a.part (level + 1)).val * 512 ^ level ≤ 511 * 512 ^ level := Nat.mul_le_mul_right _ (by omega)
    rw [pageIn, Nat.pow_succ]
    omega

/-- The step to the next entry. -/
theorem next_part (a : LinearAddress4Level) {level : Nat} (h1 : 1 ≤ level) (h4 : level ≤ 4) (v : Fin 512) :
    ((a.setPart level v).clearParts (level - 1)).part level = v ∧
      ((a.setPart level v).clearParts (level - 1)).pageIn (level - 1) = 0 := by
  obtain rfl | rfl | rfl | rfl : level = 1 ∨ level = 2 ∨ level = 3 ∨ level = 4 := by omega
  all_goals simp [setPart, clearParts, part, pageIn]

end LinearAddress4Level

/-- The lowest indices of the address: its page within what a page map of the level covers. -/
def LinearAddress4Level.low (a : LinearAddress4Level) : Nat → Path
  | 0 => []
  | level + 1 => a.low level ++ [a.part (level + 1)]

theorem LinearAddress4Level.length_low (a : LinearAddress4Level) : ∀ level, (a.low level).length = level
  | 0 => rfl
  | level + 1 => by simp [low, a.length_low level]

theorem LinearAddress4Level.number_low (a : LinearAddress4Level) : ∀ level, (a.low level).number = a.pageIn level
  | 0 => rfl
  | level + 1 => by rw [low, Path.number_concat, a.length_low, a.number_low level, pageIn]

/-- The rule for the loops of `SetupPageMap`. `round` is what one round does up to its recursive call, on an entry of `A`
of a page map that `At` finds. `R` relates the machine before and after any part of the run, and an entry that is `Ok`
after its round stays so. -/
structure SetupRule (w : Bool) (A : Path → Prop) (Good : Machine → Prop) (At : Machine → Path → Nat → Prop)
    (R : Machine → Machine → Prop) (Ok : Machine → Path → Prop) (E : Stop → Machine → Prop) : Prop where
  refl : ∀ {s}, Good s → R s s
  good : ∀ {s s'}, R s s' → Good s'
  trans : ∀ {s s1 s'}, R s s1 → R s1 s' → R s s'
  at_kept : ∀ {s s' p t}, R s s' → p.length < 4 → At s p t → At s' p t
  ok_kept : ∀ {s s' p}, R s s' → p.length ≤ 4 → Ok s p → Ok s' p
  round : ∀ {s p t i}, Good s → At s p t → p.length < 4 → A (i :: p) →
    After (setNewPageMapIfNotPresent t i) s
      (fun c s1 => ∃ s', s' = s1.setEntry t i { s1.mem t i with
          user := true, writable := if p.length = 3 then w else true } ∧
        R s s' ∧ Ok s' (i :: p) ∧ (p.length < 3 → At s' (i :: p) c))
      (fun e s1 => R s s1 ∧ E e s1)

namespace SetupRule

variable {w : Bool} {A : Path → Prop} {Good : Machine → Prop} {At : Machine → Path → Nat → Prop}
  {R : Machine → Machine → Prop} {Ok : Machine → Path → Prop} {E : Stop → Machine → Prop}

/-- The entries below `p` on the way to the pages among the `n` from `addr` on. -/
def Below (addr : LinearAddress4Level) (level n : Nat) (p q : Path) : Prop :=
  ∃ r : Path, r.length = level ∧ addr.pageIn level ≤ r.number ∧ r.number < addr.pageIn level + n ∧
    q <:+ r ++ p ∧ p.length < q.length

/-- What `SetupPageMap` does on a page map of the level: every entry on the way to the pages is set up, and it returns
how many pages are left for the page maps after this one. -/
def Spec (A : Path → Prop) (Good : Machine → Prop) (At : Machine → Path → Nat → Prop)
    (R : Machine → Machine → Prop) (Ok : Machine → Path → Prop) (E : Stop → Machine → Prop) (level : Nat)
    (run : Nat → LinearAddress4Level → Nat → KernelM Nat) : Prop :=
  ∀ {p t n addr s}, Good s → At s p t → p.length + level = 4 → (∀ q, Below addr level n p q → A q) →
    After (run t addr n) s
      (fun n' s' => R s s' ∧ n' = n - (512 ^ level - addr.pageIn level) ∧ ∀ q, Below addr level n p q → Ok s' q)
      (fun e s' => R s s' ∧ E e s')

theorem below_entry {addr : LinearAddress4Level} {level n : Nat} {p : Path} (hn : n ≠ 0) :
    Below addr (level + 1) n p (addr.part (level + 1) :: p) := by
  refine ⟨addr.low (level + 1), addr.length_low _, ?_, ?_, ⟨addr.low level, ?_⟩, ?_⟩
  · rw [addr.number_low]
  · rw [addr.number_low]
    omega
  · simp [LinearAddress4Level.low]
  · simp

/-- What lies below the first entry is the entry itself, or lies below its page map. -/
theorem below_first {addr : LinearAddress4Level} {level n : Nat} {p q r : Path} (hr : r.length = level)
    (h1 : addr.pageIn level ≤ r.number) (h2 : r.number < addr.pageIn level + n)
    (hq : q <:+ r ++ addr.part (level + 1) :: p) (hlen : p.length < q.length) :
    q = addr.part (level + 1) :: p ∨ Below addr level n (addr.part (level + 1) :: p) q := by
  by_cases hle : q.length ≤ p.length + 1
  · have hs : addr.part (level + 1) :: p <:+ r ++ addr.part (level + 1) :: p := List.suffix_append _ _
    have := List.suffix_of_suffix_length_le hq hs (by simpa using hle)
    exact .inl (this.eq_of_length (by simp; omega))
  · exact .inr ⟨r, hr, h1, h2, hq, by simp; omega⟩

theorem below_of_first {addr : LinearAddress4Level} {level n : Nat} {p q : Path}
    (h : Below addr level n (addr.part (level + 1) :: p) q) : Below addr (level + 1) n p q := by
  obtain ⟨r, hr, h1, h2, hq, hlen⟩ := h
  have hnum := Path.number_concat (addr.part (level + 1)) r
  rw [hr] at hnum
  refine ⟨r ++ [addr.part (level + 1)], by simp [hr], ?_, ?_, by simpa using hq, by simp at hlen; omega⟩ <;>
    rw [hnum, LinearAddress4Level.pageIn] <;> omega

theorem setupEntry (h : SetupRule w A Good At R Ok E) {level : Nat}
    {child : Nat → LinearAddress4Level → Nat → KernelM Nat} (hchild : 1 ≤ level → Spec A Good At R Ok E level child)
    {p : Path} {t n : Nat} {addr : LinearAddress4Level} {s : Machine} (hn : n ≠ 0) (hs : Good s) (ht : At s p t)
    (hd : p.length + (level + 1) = 4) (hA : ∀ q, Below addr (level + 1) n p q → A q) :
    After (Paging.setupEntry child t (level + 1) w addr n) s
      (fun n' s' => R s s' ∧ n' = n - (512 ^ level - addr.pageIn level) ∧ Ok s' (addr.part (level + 1) :: p) ∧
        ∀ q, Below addr level n (addr.part (level + 1) :: p) q → Ok s' q)
      (fun e s' => R s s' ∧ E e s') := by
  have hround := h.round hs ht (by omega) (hA _ (below_entry hn))
  unfold Paging.setupEntry
  refine .bind hround ?_
  rintro c s1 ⟨s', rfl, hR, hok, hat⟩
  refine .modify_bind (.ite (fun hl => .modify_bind (.pure ?_)) fun hl => .modify_bind ?_) <;>
    simp only [Machine.mem_setEntry_self, Machine.setEntry_setEntry]
  · -- the last level: nothing lies below
    obtain rfl : level = 0 := by omega
    rw [if_pos (by omega)] at hR hok
    refine ⟨hR, by simp [LinearAddress4Level.pageIn], hok, ?_⟩
    rintro q ⟨r, hr, -, -, hq, hlen⟩
    rw [List.length_eq_zero_iff.mp hr, List.nil_append] at hq
    have := hq.length_le
    omega
  · rw [if_neg (by omega)] at hR hok hat
    refine (hchild (by omega) (h.good hR) (hat (by omega)) (by simp; omega) fun q hq => hA q (below_of_first hq)).imp
      ?_ fun e s' ⟨hR', he⟩ => ⟨h.trans hR hR', he⟩
    rintro n' s' ⟨hR', hn', hbelow⟩
    exact ⟨h.trans hR hR', hn', h.ok_kept hR' (by simp; omega) hok, hbelow⟩

theorem setupEntries (h : SetupRule w A Good At R Ok E) {level : Nat}
    {child : Nat → LinearAddress4Level → Nat → KernelM Nat} (hchild : 1 ≤ level → Spec A Good At R Ok E level child) :
    ∀ rounds, ∀ {p : Path} {t n : Nat} {addr : LinearAddress4Level} {s : Machine},
    512 ≤ rounds + (addr.part (level + 1)).val → Good s → At s p t → p.length + (level + 1) = 4 →
    (∀ q, Below addr (level + 1) n p q → A q) →
    After (Paging.setupEntries child t (level + 1) w rounds addr n) s
      (fun n' s' => R s s' ∧ n' = n - (512 ^ (level + 1) - addr.pageIn (level + 1)) ∧
        ∀ q, Below addr (level + 1) n p q → Ok s' q)
      (fun e s' => R s s' ∧ E e s')
  | 0, _, _, _, _, _, hr, _, _, _, _ => by omega
  | rounds + 1, p, t, n, addr, s, hr, hs, ht, hd, hA => by
    rw [Paging.setupEntries]
    refine .ite (fun hn => .pure ⟨h.refl hs, by omega, ?_⟩) fun hn => ?_
    · rintro q ⟨r, -, h1, h2, -⟩
      omega
    refine .bind (h.setupEntry hchild hn hs ht hd hA) ?_
    rintro n1 s1 ⟨hR, hn1, hentry, hfirst⟩
    have ha := addr.pageIn_lt level
    have hpow : 512 ^ (level + 1) = 512 ^ level * 512 := Nat.pow_succ ..
    have hthis : addr.pageIn (level + 1) = (addr.part (level + 1)).val * 512 ^ level + addr.pageIn level := rfl
    have hstep : ((addr.part (level + 1)).val + 1) * 512 ^ level =
        (addr.part (level + 1)).val * 512 ^ level + 512 ^ level := Nat.succ_mul ..
    -- a page is below this entry or below a later one
    have hsplit : ∀ {r : Path}, r.length = level + 1 → addr.pageIn (level + 1) ≤ r.number →
        r.number < addr.pageIn (level + 1) + n →
        (∃ r0 : Path, r = r0 ++ [addr.part (level + 1)] ∧ r0.length = level ∧ addr.pageIn level ≤ r0.number ∧
          r0.number < addr.pageIn level + n) ∨
        addr.part (level + 1) ≠ 511 ∧ ((addr.part (level + 1)).val + 1) * 512 ^ level ≤ r.number := by
      intro r hlen h1 h2
      obtain rfl | ⟨r0, k, rfl⟩ := List.eq_nil_or_concat r
      · simp at hlen
      rw [List.concat_eq_append] at h1 h2 hlen ⊢
      have hl0 : r0.length = level := by simpa using hlen
      have hlt := Path.number_lt r0
      rw [Path.number_concat, hl0] at h1 h2
      rw [hl0] at hlt
      have hk : k.val * 512 ^ level ≤ (addr.part (level + 1)).val * 512 ^ level → k.val ≤ (addr.part (level + 1)).val :=
        fun hle => Nat.le_of_mul_le_mul_right hle (Nat.pow_pos (by decide))
      rcases Nat.lt_trichotomy k.val (addr.part (level + 1)).val with hlt' | heq | hgt
      · have := Nat.mul_le_mul_right (512 ^ level) (Nat.succ_le_of_lt hlt')
        rw [Nat.succ_mul] at this
        omega
      · rw [heq] at h1 h2
        exact .inl ⟨r0, by rw [Fin.ext heq], hl0, by omega, by omega⟩
      · refine .inr ⟨fun h511 => ?_, ?_⟩
        · rw [h511] at hgt
          have : (511 : Fin 512).val = 511 := rfl
          omega
        · have := Nat.mul_le_mul_right (512 ^ level) (Nat.succ_le_of_lt hgt)
          rw [Path.number_concat, hl0]
          exact Nat.le_trans this (Nat.le_add_right ..)
    have hthisEntry : ∀ {s' : Machine}, R s1 s' → ∀ {q r0 : Path}, r0.length = level → addr.pageIn level ≤ r0.number →
        r0.number < addr.pageIn level + n → q <:+ r0 ++ [addr.part (level + 1)] ++ p → p.length < q.length →
        Ok s' q := by
      intro s' hR' q r0 hl0 h1 h2 hq hlen
      have hle := hq.length_le
      simp only [List.length_append, List.length_singleton] at hle
      rw [List.append_assoc, List.singleton_append] at hq
      rcases below_first hl0 h1 h2 hq hlen with rfl | hb
      · exact h.ok_kept hR' (by omega) hentry
      · exact h.ok_kept hR' (by omega) (hfirst q hb)
    refine .ite (fun hi => .pure ⟨hR, ?_, ?_⟩) fun hi => ?_
    · rw [hi] at hthis
      have : (511 : Fin 512).val = 511 := rfl
      omega
    · rintro q ⟨r, hlen, h1, h2, hq, hlq⟩
      rcases hsplit hlen h1 h2 with ⟨r0, rfl, hl0, h1, h2⟩ | ⟨hne, -⟩
      · exact hthisEntry (h.refl (h.good hR)) hl0 h1 h2 hq hlq
      · exact absurd hi hne
    · -- the next entry starts where this one ends
      have hi1 : (addr.part (level + 1) + 1).val = (addr.part (level + 1)).val + 1 := by
        apply Fin.val_add_one_of_lt'
        have := Fin.val_ne_of_ne hi
        have h511 : (511 : Fin 512).val = 511 := rfl
        omega
      obtain ⟨hpart, hlow⟩ := @addr.next_part (level + 1) (by omega) (by omega) (addr.part (level + 1) + 1)
      rw [Nat.add_sub_cancel] at hpart hlow
      have hnext : ((addr.setPart (level + 1) (addr.part (level + 1) + 1)).clearParts level).pageIn (level + 1) =
          ((addr.part (level + 1)).val + 1) * 512 ^ level := by
        rw [LinearAddress4Level.pageIn, hpart, hlow, hi1, Nat.add_zero]
      rw [Nat.add_sub_cancel]
      generalize (addr.setPart (level + 1) (addr.part (level + 1) + 1)).clearParts level = addr1 at hpart hnext
      have hnextBelow : ∀ {q}, Below addr1 (level + 1) n1 p q → Below addr (level + 1) n p q := by
        rintro q ⟨r, hlen, h1, h2, hq, hlq⟩
        rw [hnext] at h1 h2
        exact ⟨r, hlen, by omega, by omega, hq, hlq⟩
      have hrounds : 512 ≤ rounds + (addr1.part (level + 1)).val := by
        rw [hpart, hi1]
        omega
      refine (h.setupEntries hchild rounds hrounds (h.good hR) (h.at_kept hR (by omega) ht) hd
        fun q hq => hA q (hnextBelow hq)).imp ?_ fun e s' ⟨hR', he⟩ => ⟨h.trans hR hR', he⟩
      rintro n2 s2 ⟨hR', hn2, hrest⟩
      rw [hnext] at hn2
      have htop := Nat.mul_le_mul_right (512 ^ level) (show (addr.part (level + 1)).val + 1 ≤ 511 by omega)
      refine ⟨h.trans hR hR', by omega, ?_⟩
      rintro q ⟨r, hlen, h1, h2, hq, hlq⟩
      rcases hsplit hlen h1 h2 with ⟨r0, rfl, hl0, h1, h2⟩ | ⟨-, hge⟩
      · exact hthisEntry hR' hl0 h1 h2 hq hlq
      · exact hrest q ⟨r, hlen, by omega, by omega, hq, hlq⟩

theorem setupPageMap (h : SetupRule w A Good At R Ok E) : ∀ level, 1 ≤ level →
    Spec A Good At R Ok E level (Paging.setupPageMap w level)
  | 0, hl => absurd hl (by decide)
  | level + 1, _ => fun hs ht hd hA =>
    h.setupEntries (h.setupPageMap level) 512 (Nat.le_add_right ..) hs ht hd hA

end SetupRule

section
variable {w : Bool} {pages : Path → Prop} {root : Nat} {s s' : Machine}

/-- One round up to the recursive call: the entry is there, with the bits asked for. -/
theorem setNewPageMapIfNotPresent_spec {p : Path} {t : Nat} {i : Fin 512} {x : Bool} (h : IsSpace root s)
    (hok : PagesOk w pages root s) (hslot : Slot s.mem root Upper 4 p t i) (hin : p.length < 3 → x = true)
    (hleaf : p.length = 3 → x = w ∧ pages (i :: p)) :
    After (setNewPageMapIfNotPresent t i) s
      (fun c s1 => ∃ s', s' = s1.setEntry t i { s1.mem t i with user := true, writable := x } ∧
        Extend w pages root s s' ∧ (p.length < 3 → Slot s'.mem root Upper 4 (i :: p) c 0))
      (fun e s1 => s1 = s ∧ e = .error .kNoEnoughMemory) := by
  unfold setNewPageMapIfNotPresent
  refine .get_bind ?_
  refine .ite (fun hpres => ?_) fun hpres => ?_
  · have hx : (s.mem t i).writable = x := by
      obtain ⟨base, hsp⟩ := h
      rcases Nat.lt_or_ge p.length 3 with hlt | hge
      · rw [hin hlt]
        exact hsp.tree.inner hslot (by omega) hpres
      · have hd : p.length = 3 := by
          have := hslot.depth
          omega
        rw [(hleaf hd).1]
        exact hok hslot hd (hleaf hd).2 hpres
    have he : { s.mem t i with user := true, writable := x } = { s.mem t i with user := true } := by
      rw [← hx]
    refine .pure ⟨_, rfl, ?_⟩
    rw [he]
    have hstep : Extend w pages root s (s.setEntry t i { s.mem t i with user := true }) := .touch hslot hpres
    refine ⟨hstep, fun hlt => (hstep.keeps h ⟨tableAt_cons.mpr ⟨t, hslot.table, hpres, rfl⟩, hslot.top, ?_⟩).1⟩
    rw [List.length_cons]
    omega
  · have hpres : (s.mem t i).present = false := Bool.eq_false_iff.mpr hpres
    unfold After
    rcases newPageMap_spec s with ⟨f, m, halloc, hrun⟩ | ⟨-, hrun⟩
    · obtain ⟨base, hsp⟩ := id h
      obtain ⟨hfree, hlt, -, -⟩ := BitmapMemoryManager.allocate_one halloc
      have htf := hsp.table_ne hslot hfree
      have hcnt : f < kFrameCount := Nat.lt_of_lt_of_le hlt hsp.range
      simp only [bind, EStateM.bind, hrun]
      refine ⟨_, rfl, ?_⟩
      rw [Machine.setEntry_setEntry, Machine.mem_setEntry_self, Machine.mem_setFrame_of_ne htf]
      have hp : ({ (s.mem t i).setPointer f with present := true, user := true, writable := x } :
        PageMapEntry).pointer = f :=
        PageMapEntry.pointer_setPointer (e := s.mem t i) hcnt
      have hstep : Extend w pages root s _ := .link hslot hpres halloc rfl hp hin hleaf rfl
      have hl := h.linked hslot hpres halloc rfl hp
      refine ⟨hstep, fun hlt => (hl.slot_iff hsp).mpr (.inr ⟨by omega, rfl, rfl⟩)⟩
    · simp only [bind, EStateM.bind, hrun, and_self]

/-- The run is one of `Extend`, and an address space all along. -/
structure Grows (w : Bool) (pages : Path → Prop) (root : Nat) (s s' : Machine) : Prop where
  run : Extends w pages root s s'
  space : IsSpace root s'
  pages : PagesOk w pages root s'

theorem Grows.refl (h : IsSpace root s) (hok : PagesOk w pages root s) : Grows w pages root s s := ⟨.refl, h, hok⟩

theorem Grows.head {s1 : Machine} (hstep : Extend w pages root s s1) (h : Grows w pages root s1 s') :
    Grows w pages root s s' := ⟨.head hstep h.run, h.space, h.pages⟩

theorem Grows.trans {s1 : Machine} (h1 : Grows w pages root s s1) (h2 : Grows w pages root s1 s') :
    Grows w pages root s s' := ⟨h1.run.trans h2.run, h2.space, h2.pages⟩

/-- Along a run no entry is lost, and one that is present keeps its frame and its bits. -/
theorem Extends.keeps (hrun : Extends w pages root s s') (h : IsSpace root s) {q : Path} {u : Nat} {j : Fin 512}
    (hs : Slot s.mem root Upper 4 q u j) :
    IsSpace root s' ∧ Slot s'.mem root Upper 4 q u j ∧ ((s.mem u j).present = true →
      (s'.mem u j).present = true ∧ (s'.mem u j).writable = (s.mem u j).writable ∧
        (s'.mem u j).pointer = (s.mem u j).pointer) := by
  induction hrun with
  | refl => exact ⟨h, hs, fun hp => ⟨hp, rfl, rfl⟩⟩
  | tail _ hstep ih =>
    obtain ⟨h1, hs1, he1⟩ := ih
    obtain ⟨hs2, he2⟩ := hstep.keeps h1 hs1
    refine ⟨h1.extend hstep, hs2, fun hp => ?_⟩
    obtain ⟨hp1, hw1, hf1⟩ := he1 hp
    obtain ⟨hp2, hw2, hf2⟩ := he2 hp1
    exact ⟨hp2, hw2.trans hw1, hf2.trans hf1⟩

theorem Top.mono {i j : Fin 512} (hij : i.val ≤ j.val) : ∀ {p : Path}, Top Upper (i :: p) → Top Upper (j :: p)
  | [], h => Nat.le_trans h hij
  | _ :: _, h => h

/-- What `SetupPageMap` on a page map of level `level` does, wherever in the tree the page map is: it maps pages among
the `n` from `addr` on, and returns how many are left for the page maps after this one. -/
def SetupSpec (w : Bool) (pages : Path → Prop) (root level : Nat)
    (run : Nat → LinearAddress4Level → Nat → KernelM Nat) : Prop :=
  ∀ {p : Path} {t n : Nat} {addr : LinearAddress4Level} {s : Machine}, IsSpace root s → PagesOk w pages root s →
    tableAt s.mem root p = some t → p.length + level = 4 → Top Upper (addr.part level :: p) →
    (∀ r : Path, r.length = level → addr.pageIn level ≤ r.number → r.number < addr.pageIn level + n → pages (r ++ p)) →
    After (run t addr n) s
      (fun n' s' => Grows w pages root s s' ∧ n' ≤ n - (512 ^ level - addr.pageIn level))
      (fun e s' => Grows w pages root s s' ∧ e = .error .kNoEnoughMemory)

theorem setupEntry_spec {level : Nat} {child : Nat → LinearAddress4Level → Nat → KernelM Nat}
    (hchild : 1 ≤ level → SetupSpec w pages root level child) {p : Path} {t n : Nat} {addr : LinearAddress4Level}
    (hn : n ≠ 0) (h : IsSpace root s) (hok : PagesOk w pages root s) (htab : tableAt s.mem root p = some t)
    (hd : p.length + (level + 1) = 4) (htop : Top Upper (addr.part (level + 1) :: p))
    (hpages : ∀ r : Path, r.length = level + 1 → addr.pageIn (level + 1) ≤ r.number →
      r.number < addr.pageIn (level + 1) + n → pages (r ++ p)) :
    After (setupEntry child t (level + 1) w addr n) s
      (fun n' s' => Grows w pages root s s' ∧ n' ≤ n - (512 ^ level - addr.pageIn level))
      (fun e s' => Grows w pages root s s' ∧ e = .error .kNoEnoughMemory) := by
  have hslot : Slot s.mem root Upper 4 p t (addr.part (level + 1)) := ⟨htab, htop, by omega⟩
  unfold setupEntry
  by_cases hl : level = 0
  · -- the last level: the page of `addr` is the first of the `n`
    subst hl
    have hthis : pages (addr.part 1 :: p) := by
      refine hpages [addr.part 1] rfl ?_ ?_ <;> simp [LinearAddress4Level.pageIn, Path.number]
      omega
    refine .bind ((setNewPageMapIfNotPresent_spec h hok hslot (x := w) (by omega) fun _ => ⟨rfl, hthis⟩).imp
      (fun _ _ => id) ?_) ?_
    · rintro e s1 ⟨rfl, rfl⟩
      exact ⟨.refl h hok, rfl⟩
    · rintro c s1 ⟨s', rfl, hstep, -⟩
      refine .modify_bind (.ite (fun _ => .modify_bind (.pure ?_)) fun hc => absurd rfl hc)
      simp only [Machine.mem_setEntry_self, Machine.setEntry_setEntry]
      refine ⟨.head hstep (.refl (h.extend hstep) (hok.extend h hstep)), ?_⟩
      simp [LinearAddress4Level.pageIn]
  · refine .bind ((setNewPageMapIfNotPresent_spec h hok hslot (x := true) (fun _ => rfl) fun h3 => by omega).imp
      (fun _ _ => id) ?_) ?_
    · rintro e s1 ⟨rfl, rfl⟩
      exact ⟨.refl h hok, rfl⟩
    · rintro c s1 ⟨s', rfl, hstep, htab'⟩
      refine .modify_bind (.ite (fun hc => absurd hc (by omega)) fun _ => .modify_bind ?_)
      simp only [Machine.mem_setEntry_self, Machine.setEntry_setEntry]
      have hgrow : Grows w pages root s _ := .head hstep (.refl (h.extend hstep) (hok.extend h hstep))
      refine (hchild (by omega) hgrow.space hgrow.pages (htab' (by omega)).table (by simp; omega) htop
        fun r hr h1 h2 => ?_).imp (fun _ _ ⟨hg, hle⟩ => ⟨hgrow.trans hg, hle⟩) fun _ _ ⟨hg, he⟩ => ⟨hgrow.trans hg, he⟩
      have hnum := Path.number_concat (addr.part (level + 1)) r
      have := hpages (r ++ [addr.part (level + 1)]) (by simp [hr])
        (by rw [hnum, hr, LinearAddress4Level.pageIn]; omega) (by rw [hnum, hr, LinearAddress4Level.pageIn]; omega)
      simpa using this

theorem setupEntries_spec {level : Nat} {child : Nat → LinearAddress4Level → Nat → KernelM Nat}
    (hchild : 1 ≤ level → SetupSpec w pages root level child) : ∀ rounds, ∀ {p : Path} {t n : Nat}
    {addr : LinearAddress4Level} {s : Machine}, 512 ≤ rounds + (addr.part (level + 1)).val → IsSpace root s →
    PagesOk w pages root s → tableAt s.mem root p = some t → p.length + (level + 1) = 4 →
    Top Upper (addr.part (level + 1) :: p) →
    (∀ r : Path, r.length = level + 1 → addr.pageIn (level + 1) ≤ r.number →
      r.number < addr.pageIn (level + 1) + n → pages (r ++ p)) →
    After (setupEntries child t (level + 1) w rounds addr n) s
      (fun n' s' => Grows w pages root s s' ∧ n' ≤ n - (512 ^ (level + 1) - addr.pageIn (level + 1)))
      (fun e s' => Grows w pages root s s' ∧ e = .error .kNoEnoughMemory)
  | 0, _, _, _, _, _, hr, _, _, _, _, _, _ => by omega
  | rounds + 1, p, t, n, addr, s, hr, h, hok, htab, hd, htop, hpages => by
    rw [setupEntries]
    refine .ite (fun _ => .pure ⟨.refl h hok, Nat.zero_le _⟩) fun hn => ?_
    refine .bind (setupEntry_spec hchild hn h hok htab hd htop hpages) ?_
    rintro n1 s1 ⟨hg, hn1⟩
    have ha := addr.pageIn_lt level
    have hpow : 512 ^ (level + 1) = 512 ^ level * 512 := Nat.pow_succ ..
    refine .ite (fun hi => .pure ⟨hg, ?_⟩) fun hi => ?_
    · rw [LinearAddress4Level.pageIn, hi, hpow]
      have : (511 : Fin 512).val = 511 := rfl
      omega
    · -- the next entry starts where this one ends
      have hi1 : (addr.part (level + 1) + 1).val = (addr.part (level + 1)).val + 1 := by
        apply Fin.val_add_one_of_lt'
        have := Fin.val_ne_of_ne hi
        have h511 : (511 : Fin 512).val = 511 := rfl
        omega
      obtain ⟨hpart, hlow⟩ := @addr.next_part (level + 1) (by omega) (by omega) (addr.part (level + 1) + 1)
      rw [Nat.add_sub_cancel] at hpart hlow
      have hnext : ((addr.setPart (level + 1) (addr.part (level + 1) + 1)).clearParts level).pageIn (level + 1) =
          ((addr.part (level + 1)).val + 1) * 512 ^ level := by
        rw [LinearAddress4Level.pageIn, hpart, hlow, hi1, Nat.add_zero]
      have hthis : addr.pageIn (level + 1) = (addr.part (level + 1)).val * 512 ^ level + addr.pageIn level := rfl
      have hstep : ((addr.part (level + 1)).val + 1) * 512 ^ level =
          (addr.part (level + 1)).val * 512 ^ level + 512 ^ level := Nat.succ_mul ..
      have htab1 : tableAt s1.mem root p = some t := by
        obtain ⟨-, hs1, -⟩ := hg.run.keeps h (q := p) (u := t) (j := addr.part (level + 1)) ⟨htab, htop, by omega⟩
        exact hs1.table
      refine (setupEntries_spec hchild rounds (p := p) ?_ hg.space hg.pages htab1 hd ?_ fun r hlen h1 h2 => ?_).imp
        (fun n2 s2 ⟨hg2, hn2⟩ => ⟨hg.trans hg2, ?_⟩) fun _ _ ⟨hg2, he⟩ => ⟨hg.trans hg2, he⟩
      · rw [Nat.add_sub_cancel, hpart, hi1]
        omega
      · rw [Nat.add_sub_cancel, hpart]
        exact htop.mono (by omega)
      · rw [Nat.add_sub_cancel, hnext] at h1 h2
        exact hpages r hlen (by omega) (by omega)
      · rw [Nat.add_sub_cancel, hnext] at hn2
        omega

theorem setupPageMap_spec : ∀ level, 1 ≤ level → SetupSpec w pages root level (setupPageMap w level)
  | 0, h => absurd h (by decide)
  | level + 1, _ => fun h hok htab hd htop hpages =>
    setupEntries_spec (setupPageMap_spec level) 512 (Nat.le_add_right ..) h hok htab hd htop hpages

end

/-- The page of the address, from the PML4 down. -/
def LinearAddress4Level.path (a : LinearAddress4Level) : Path := [a.page, a.dir, a.pdp, a.pml4]

/-- The pages from the address on. -/
def LinearAddress4Level.PagesFrom (a : LinearAddress4Level) (n : Nat) (q : Path) : Prop :=
  a.path.number ≤ q.number ∧ q.number < a.path.number + n

/-- **`SetupPageMaps`** on the upper half: a run of `Extend` over the pages asked for. -/
theorem setupPageMaps_spec {w : Bool} {addr : LinearAddress4Level} {n : Nat} {s : Machine} (h : IsSpace s.cr3 s)
    (hok : PagesOk w (addr.PagesFrom n) s.cr3 s) (hup : Upper addr.pml4) :
    After (setupPageMaps addr n w) s (fun _ s' => Grows w (addr.PagesFrom n) s.cr3 s s')
      (fun e s' => Grows w (addr.PagesFrom n) s.cr3 s s' ∧ e = .error .kNoEnoughMemory) := by
  have hnum : addr.path.number = addr.pageIn 4 := by
    simp [LinearAddress4Level.path, Path.number, LinearAddress4Level.pageIn, LinearAddress4Level.part]
    omega
  refine .get_bind (.bind (setupPageMap_spec 4 (by decide) (p := []) h hok rfl rfl hup fun r _ h1 h2 => ?_) ?_)
  · rw [List.append_nil]
    unfold LinearAddress4Level.PagesFrom
    omega
  · rintro n' s' ⟨hg, -⟩
    exact .pure hg

end KinOS.Paging
