import KinOS.Kernel.PageSetup

/-!
# Page faults

What `HandlePageFault` may change, and when it changes more: a write fault on a page of the kernel half is not refused.
`CopyOnePage` allocates a frame, and `SetPageContent` follows the 2 MiB entry as if it led to a page map and rewrites a
word of the memory there. The processor reports in bit 0 of the error code whether the page was present (`Raised`).
-/

namespace KinOS.Paging

section
variable {base : Nat → Prop} {root : Nat} {s s' : Machine} {a : LinearAddress4Level}

/-! ## Translation -/

/-- In the upper half the processor follows the page maps down to the last level. -/
theorem Space.translate_eq (h : Space base root s) (hup : Upper a.pml4) :
    translate s.mem a 4 root = tableAt s.mem root a.path := by
  have hlevel : ∀ {p : Path} {t : Nat} {i : Fin 512}, tableAt s.mem root p = some t → Top Upper (i :: p) →
      p.length < 3 → (s.mem t i).hugePage = false := fun ht htop hlen => h.small ⟨ht, htop, by omega⟩ hlen
  simp only [LinearAddress4Level.path, tableAt, translate, LinearAddress4Level.part, Option.bind_some]
  cases h4 : (s.mem root a.pml4).present with
  | false => simp
  | true =>
    have t3 : tableAt s.mem root [a.pml4] = some (s.mem root a.pml4).pointer := tableAt_cons.mpr ⟨root, rfl, h4, rfl⟩
    have hh3 := hlevel (i := a.pdp) t3 hup (by simp)
    cases h3 : (s.mem (s.mem root a.pml4).pointer a.pdp).present with
    | false => simp [h3]
    | true =>
      have t2 := tableAt_cons.mpr ⟨_, t3, h3, rfl⟩
      have hh2 := hlevel (i := a.dir) t2 hup (by simp)
      cases h2 : (s.mem (s.mem (s.mem root a.pml4).pointer a.pdp).pointer a.dir).present with
      | false => simp [h3, h2, hh3]
      | true =>
        cases h1 : (s.mem (s.mem (s.mem (s.mem root a.pml4).pointer a.pdp).pointer a.dir).pointer a.page).present <;>
          simp [h3, h2, h1, hh3, hh2]

/-- The entry of a page that is mapped. -/
theorem slot_of_mapped (hup : Upper a.pml4) {g : Nat} (h : tableAt s.mem root a.path = some g) :
    ∃ t, Slot s.mem root Upper 4 [a.dir, a.pdp, a.pml4] t a.page ∧ (s.mem t a.page).present = true ∧
      (s.mem t a.page).pointer = g := by
  obtain ⟨t, ht, hp, hg⟩ := tableAt_cons.mp h
  exact ⟨t, ⟨ht, hup, by simp⟩, hp, hg⟩

/-- The frame behind a mapped page is marked. -/
theorem Space.mapped_marked (h : Space base root s) (hup : Upper a.pml4) {g : Nat}
    (hg : tableAt s.mem root a.path = some g) : s.mgr.getBit g = true := by
  obtain ⟨t, hslot, hp, rfl⟩ := slot_of_mapped hup hg
  rw [h.marks]
  by_cases ho : (s.mem t a.page).Owns
  · exact .inr ⟨_, t, a.page, hslot, ho, rfl⟩
  · exact .inl (h.share hslot hp ho)

/-- `SetPageContent` rewrites one entry of what it takes for the last page map. -/
theorem setPageContent_run (a : LinearAddress4Level) (content root : Nat) (s : Machine) :
    ∃ t, t = (s.mem (s.mem (s.mem root a.pml4).pointer a.pdp).pointer a.dir).pointer ∧
      setPageContent a content 4 root s =
        .ok ⟨⟩ (s.setEntry t a.page { (s.mem t a.page).setPointer content with writable := true }) :=
  ⟨_, rfl, rfl⟩

theorem last_table {mem : Memory} {t : Nat} (h : tableAt mem root [a.dir, a.pdp, a.pml4] = some t) :
    (mem (mem (mem root a.pml4).pointer a.pdp).pointer a.dir).pointer = t := by
  obtain ⟨t2, h2, -, rfl⟩ := tableAt_cons.mp h
  obtain ⟨t3, h3, -, rfl⟩ := tableAt_cons.mp h2
  obtain ⟨t4, h4, -, rfl⟩ := tableAt_cons.mp h3
  cases h4
  rfl

/-- **`CopyOnePage`** on a page of the upper half: the entry points to a copy, in a frame just allocated. -/
theorem copyOnePage_spec (h : Space base s.cr3 s) (hup : Upper a.pml4) {g : Nat}
    (hg : tableAt s.mem s.cr3 a.path = some g) :
    (∃ f m t, s.mgr.allocate 1 = (.ok f, m) ∧ Slot s.mem s.cr3 Upper 4 [a.dir, a.pdp, a.pml4] t a.page ∧
      (s.mem t a.page).present = true ∧ (s.mem t a.page).pointer = g ∧
      copyOnePage a s = .ok ⟨⟩ (({ s with mgr := m }.setFrame f (s.mem g)).setEntry t a.page
        { (s.mem t a.page).setPointer f with writable := true })) ∨
    (∀ f, ¬ s.mgr.FreeRun 1 f) ∧ copyOnePage a s = .error (.error .kNoEnoughMemory) s := by
  obtain ⟨t, hslot, hp, hptr⟩ := slot_of_mapped hup hg
  rcases newPageMap_spec s with ⟨f, m, halloc, hrun⟩ | ⟨hno, hrun⟩
  · refine .inl ⟨f, m, t, halloc, hslot, hp, hptr, ?_⟩
    obtain ⟨hfree, -, -, -⟩ := BitmapMemoryManager.allocate_one halloc
    have hgf : g ≠ f := fun he => by
      rw [← he, h.mapped_marked hup hg] at hfree
      cases hfree
    -- the new frame is no page map of the tree, whatever it is filled with
    have hmem : ∀ {page : Fin 512 → PageMapEntry} {q u j}, Slot s.mem s.cr3 Upper 4 q u j →
        ({ s with mgr := m }.setFrame f page).mem u j = s.mem u j := by
      intro page q u j hs
      rw [Machine.mem_setFrame_of_ne (h.table_ne hs hfree)]
    have hslot' : ∀ page, Slot ({ s with mgr := m }.setFrame f page).mem s.cr3 Upper 4 [a.dir, a.pdp, a.pml4] t a.page :=
      fun page => (slot_congr hmem).mpr hslot
    have hentry : ∀ page, ({ s with mgr := m }.setFrame f page).mem t a.page = s.mem t a.page := fun _ => hmem hslot
    have htr : translate ({ s with mgr := m }.setFrame f fun _ => .zero).mem a 4 s.cr3 = some g := by
      have h1 := @Space.adopt _ _ _ ({ s with mgr := m }.setFrame f fun _ => .zero) h _ halloc fun g hg =>
        Machine.mem_setFrame_of_ne hg
      rw [h1.translate_eq hup]
      refine tableAt_cons.mpr ⟨t, (hslot' _).table, ?_, ?_⟩ <;> rw [hentry]
      · exact hp
      · exact hptr
    obtain ⟨t', ht', hset⟩ := setPageContent_run a f s.cr3 ({ s with mgr := m }.setFrame f (s.mem g))
    rw [last_table (hslot' (s.mem g)).table] at ht'
    rw [ht', hentry] at hset
    have hframe : (({ s with mgr := m }.setFrame f fun _ => .zero).setFrame f
        (({ s with mgr := m }.setFrame f fun _ => .zero).mem g)) = { s with mgr := m }.setFrame f (s.mem g) := by
      rw [Machine.mem_setFrame_of_ne hgf]
      simp [Machine.setFrame]
    unfold copyOnePage
    simp only [bind, EStateM.bind, hrun, get, getThe, MonadStateOf.get, EStateM.get]
    rw [Machine.cr3_setFrame, htr]
    simp only [modify, modifyGet, MonadStateOf.modifyGet, EStateM.modifyGet, EStateM.bind]
    rw [hframe, hset]
  · refine .inr ⟨hno, ?_⟩
    unfold copyOnePage
    simp only [bind, EStateM.bind, hrun]

end

/-! ## What may change -/

/-- Nothing changes but entries reached through the upper half of the current PML4 and the contents of frames allocated
on the way. -/
structure Confined (s s' : Machine) : Prop where
  mem : ∀ g j, s'.mem g j = s.mem g j ∨ (∃ p, Slot s.mem s.cr3 Upper 4 p g j) ∨
    s.mgr.getBit g = false ∧ s'.mgr.getBit g = true
  marks : ∀ g, s.mgr.getBit g = true → s'.mgr.getBit g = true
  cr3 : s'.cr3 = s.cr3
  dpagingBegin : s'.dpagingBegin = s.dpagingBegin
  dpagingEnd : s'.dpagingEnd = s.dpagingEnd

theorem Confined.refl (s : Machine) : Confined s s := ⟨fun _ _ => .inl rfl, fun _ => id, rfl, rfl, rfl⟩

section
variable {w : Bool} {pages : Path → Prop} {s s' : Machine}

/-- The run writes entries of before and entries of new page maps. -/
theorem Extends.confined (hrun : Extends w pages s.cr3 s s') (h : IsSpace s.cr3 s) :
    Confined s s' ∧ IsSpace s.cr3 s' ∧ ∀ {q u j}, Slot s'.mem s.cr3 Upper 4 q u j →
      Slot s.mem s.cr3 Upper 4 q u j ∨ s.mgr.getBit u = false := by
  induction hrun with
  | refl => exact ⟨.refl s, h, .inl⟩
  | @tail s1 s2 _ hstep ih =>
    obtain ⟨hc, h1, hslots⟩ := ih
    obtain ⟨base, hsp⟩ := id h1
    refine ⟨?_, h1.extend hstep, ?_⟩
    · -- an entry written now belongs to a page map of before or to a new one
      have hwritten : ∀ {p t i}, Slot s1.mem s.cr3 Upper 4 p t i → s2.mgr.getBit t = true →
          (∃ p, Slot s.mem s.cr3 Upper 4 p t i) ∨ s.mgr.getBit t = false ∧ s2.mgr.getBit t = true := by
        intro p t i hs hm
        exact (hslots hs).imp (fun h => ⟨p, h⟩) fun h => ⟨h, hm⟩
      cases hstep with
      | @touch p t i hslot hpres =>
        refine ⟨fun g j => ?_, hc.marks, hc.cr3, hc.dpagingBegin, hc.dpagingEnd⟩
        by_cases hg : g = t ∧ j = i
        · obtain ⟨rfl, rfl⟩ := hg
          exact .inr (hwritten hslot (hsp.marked hslot.table hslot.top.tail hslot.depth))
        · rw [Machine.mem_setEntry_of_ne hg]
          exact hc.mem g j
      | @link p t f i m e hslot habs halloc hp hptr hin hleaf hhuge =>
        obtain ⟨hfree, -, -, hmarks⟩ := BitmapMemoryManager.allocate_one halloc
        refine ⟨fun g j => ?_, fun g hg => (hmarks g).mpr (.inl (hc.marks g hg)), hc.cr3, hc.dpagingBegin,
          hc.dpagingEnd⟩
        by_cases hg : g = t ∧ j = i
        · obtain ⟨rfl, rfl⟩ := hg
          exact .inr (hwritten hslot ((hmarks _).mpr (.inl (hsp.marked hslot.table hslot.top.tail hslot.depth))))
        · rw [Machine.mem_setEntry_of_ne hg]
          by_cases hgf : g = f
          · refine .inr (.inr ⟨?_, (hmarks g).mpr (.inr hgf)⟩)
            rw [hgf]
            exact Bool.eq_false_iff.mpr fun hm => Bool.eq_false_iff.mp hfree (hc.marks f hm)
          · rw [Machine.mem_setFrame_of_ne hgf]
            exact (hc.mem g j).imp_right (Or.imp_right fun ⟨h0, h1⟩ => ⟨h0, (hmarks g).mpr (.inl h1)⟩)
    · intro q u j hs
      rcases hstep.inv h1 with hsame | ⟨p, t, i, f, hl, -⟩
      · exact hslots (hsame.slot_iff.mp hs)
      · rcases (hl.slot_iff hsp).mp hs with hold | ⟨-, -, rfl⟩
        · exact hslots hold
        · obtain ⟨hfree, -, -, -⟩ := BitmapMemoryManager.allocate_one hl.alloc
          exact .inr (Bool.eq_false_iff.mpr fun hm => Bool.eq_false_iff.mp hfree (hc.marks u hm))

end

/-! ## `SetupPageMaps` on any address -/

/-- The bits `present` and `user` are never cleared in a frame that is marked. -/
def BitsGrow (s s' : Machine) : Prop :=
  ∀ g, s.mgr.getBit g = true → s'.mgr.getBit g = true ∧ ∀ j, ((s.mem g j).present = true → (s'.mem g j).present = true) ∧
    ((s.mem g j).user = true → (s'.mem g j).user = true)

theorem BitsGrow.refl (s : Machine) : BitsGrow s s := fun _ hg => ⟨hg, fun _ => ⟨id, id⟩⟩

theorem BitsGrow.trans {s s1 s2 : Machine} (h1 : BitsGrow s s1) (h2 : BitsGrow s1 s2) : BitsGrow s s2 := by
  intro g hg
  obtain ⟨hg1, hb1⟩ := h1 g hg
  obtain ⟨hg2, hb2⟩ := h2 g hg1
  exact ⟨hg2, fun j => ⟨(hb2 j).1 ∘ (hb1 j).1, (hb2 j).2 ∘ (hb1 j).2⟩⟩

theorem BitsGrow.setEntry {s : Machine} {t : Nat} {i : Fin 512} {e : PageMapEntry}
    (hp : (s.mem t i).present = true → e.present = true) (hu : (s.mem t i).user = true → e.user = true) :
    BitsGrow s (s.setEntry t i e) := by
  refine fun g hg => ⟨hg, fun j => ?_⟩
  by_cases hj : g = t ∧ j = i
  · obtain ⟨rfl, rfl⟩ := hj
    rw [Machine.mem_setEntry_self]
    exact ⟨hp, hu⟩
  · rw [Machine.mem_setEntry_of_ne hj]
    exact ⟨id, id⟩

/-- `SetNewPageMapIfNotPresent` leaves a present entry. -/
theorem setNewPageMapIfNotPresent_grow (s : Machine) (t : Nat) (i : Fin 512) :
    After (setNewPageMapIfNotPresent t i) s
      (fun _ s' => BitsGrow s s' ∧ (s'.mem t i).present = true ∧
        ((s.mem t i).present = true ∨ ∃ f, s.mgr.FreeRun 1 f))
      (fun e s' => s' = s ∧ e = .error .kNoEnoughMemory ∧ (s.mem t i).present = false ∧ ∀ f, ¬ s.mgr.FreeRun 1 f) := by
  refine .get_bind (.ite (fun hp => .pure ⟨.refl s, hp, .inl hp⟩) fun hp => ?_)
  unfold After
  rcases newPageMap_spec s with ⟨f, m, halloc, hrun⟩ | ⟨hno, hrun⟩
  · obtain ⟨hfree, -, -, hmarks⟩ := BitmapMemoryManager.allocate_one halloc
    simp only [bind, EStateM.bind, hrun]
    have hnew : BitsGrow s ({ s with mgr := m }.setFrame f fun _ => .zero) := by
      refine fun g hg => ⟨(hmarks g).mpr (.inl hg), fun j => ?_⟩
      rw [Machine.mem_setFrame_of_ne fun he => by rw [← he, hg] at hfree; cases hfree]
      exact ⟨id, id⟩
    refine ⟨hnew.trans (.setEntry (fun _ => rfl) id), ?_, .inr ⟨f, BitmapMemoryManager.allocate_one_free halloc⟩⟩
    exact congrArg PageMapEntry.present Machine.mem_setEntry_self
  · simp only [bind, EStateM.bind, hrun]
    exact ⟨trivial, trivial, Bool.eq_false_iff.mpr hp, hno⟩

/-- The entry is present and open to the user, which takes a free frame unless it was there before, and nothing was
closed. -/
def Opened (t : Nat) (i : Fin 512) (s s' : Machine) : Prop :=
  BitsGrow s s' ∧ (s.mgr.getBit t = true → (s'.mem t i).present = true ∧ (s'.mem t i).user = true) ∧
    ((s.mem t i).present = true ∨ ∃ f, s.mgr.FreeRun 1 f)

theorem Opened.trans {t : Nat} {i : Fin 512} {s s1 s' : Machine} (h : Opened t i s s1) (hg : BitsGrow s1 s') :
    Opened t i s s' := by
  refine ⟨h.1.trans hg, fun ht => ?_, h.2.2⟩
  obtain ⟨hp, hu⟩ := h.2.1 ht
  have hj := (hg t (h.1 t ht).1).2 i
  exact ⟨hj.1 hp, hj.2 hu⟩

/-- A round opens its entry, or fails before its first write. -/
theorem setupEntry_opens {child : Nat → LinearAddress4Level → Nat → KernelM Nat} {t level n : Nat} {w : Bool}
    {addr : LinearAddress4Level} {s : Machine}
    (hchild : ∀ t addr n s, After (child t addr n) s (fun _ s' => BitsGrow s s') (fun _ s' => BitsGrow s s')) :
    After (setupEntry child t level w addr n) s (fun _ s' => Opened t (addr.part level) s s')
      (fun e s' => (s' = s ∧ e = .error .kNoEnoughMemory ∧ (s.mem t (addr.part level)).present = false ∧
        ∀ f, ¬ s.mgr.FreeRun 1 f) ∨ Opened t (addr.part level) s s') := by
  refine .bind ((setNewPageMapIfNotPresent_grow s t (addr.part level)).imp (fun _ _ => id) fun _ _ h => .inl h) ?_
  rintro c s1 ⟨h1, hp, hfree⟩
  have hopen : Opened t (addr.part level) s
      (s1.setEntry t (addr.part level) { s1.mem t (addr.part level) with user := true }) := by
    refine ⟨h1.trans (.setEntry id fun _ => rfl), fun _ => ?_, hfree⟩
    rw [Machine.mem_setEntry_self]
    exact ⟨hp, rfl⟩
  have hwr : ∀ (s2 : Machine) (x : Bool),
      BitsGrow s2 (s2.setEntry t (addr.part level) { s2.mem t (addr.part level) with writable := x }) :=
    fun s2 x => .setEntry id id
  refine .modify_bind (.ite (fun _ => .modify_bind (.pure (hopen.trans (hwr _ _)))) fun _ => .modify_bind ?_)
  exact (hchild _ _ _ _).imp (fun _ s' h => (hopen.trans (hwr _ _)).trans h) fun _ s' h =>
    .inr ((hopen.trans (hwr _ _)).trans h)

theorem setupEntries_grow {child : Nat → LinearAddress4Level → Nat → KernelM Nat} {t level : Nat} {w : Bool}
    (hchild : ∀ t addr n s, After (child t addr n) s (fun _ s' => BitsGrow s s') (fun _ s' => BitsGrow s s')) :
    ∀ rounds addr n s, After (setupEntries child t level w rounds addr n) s (fun _ s' => BitsGrow s s')
      (fun _ s' => BitsGrow s s')
  | 0, _, _, s => .refl s
  | rounds + 1, addr, n, s => by
    rw [setupEntries]
    refine .ite (fun _ => .pure (.refl s)) fun _ => .bind ((setupEntry_opens hchild).imp (fun _ _ h => h.1) ?_) ?_
    · rintro e s' (⟨rfl, -⟩ | h)
      · exact .refl _
      · exact h.1
    · intro n1 s1 h1
      exact .ite (fun _ => .pure h1) fun _ => (setupEntries_grow hchild rounds _ _ _).imp (fun _ _ h => h1.trans h)
        fun _ _ h => h1.trans h

theorem setupPageMap_grow {w : Bool} : ∀ level t addr n s, After (setupPageMap w level t addr n) s
    (fun _ s' => BitsGrow s s') (fun _ s' => BitsGrow s s')
  | 0, _, _, _, s => .refl s
  | level + 1, _, addr, n, s => setupEntries_grow (setupPageMap_grow level) 512 addr n s

/-- **`SetupPageMaps`** of a page opens the entry of the PML4, or fails for want of a frame and changes nothing. -/
theorem setupPageMaps_opens {w : Bool} (a : LinearAddress4Level) (s : Machine) :
    After (setupPageMaps a 1 w) s (fun _ s' => Opened s.cr3 a.pml4 s s')
      (fun e s' => (s' = s ∧ e = .error .kNoEnoughMemory ∧ (s.mem s.cr3 a.pml4).present = false ∧
        ∀ f, ¬ s.mgr.FreeRun 1 f) ∨ Opened s.cr3 a.pml4 s s') := by
  refine .get_bind (.bind (Q := fun _ s' => Opened s.cr3 a.pml4 s s') ?_ fun _ _ h => .pure h)
  change After (setupEntries (setupPageMap w 3) s.cr3 4 w 512 a 1) s _ _
  rw [setupEntries]
  refine .ite (fun h => absurd h (by decide)) fun _ => .bind (setupEntry_opens (setupPageMap_grow 3)) fun n1 s1 h1 => ?_
  exact .ite (fun _ => .pure h1) fun _ => (setupEntries_grow (setupPageMap_grow 3) 511 _ _ _).imp
    (fun _ _ h => h1.trans h) fun _ _ h => .inr (h1.trans h)

/-! ## `HandlePageFault` -/

/-- The error code of a write by the user to a page that is present. -/
def WriteFault (errorCode : Nat) : Prop :=
  errorCode.testBit 0 = true ∧ errorCode.testBit 1 = true ∧ errorCode.testBit 2 = true

instance (errorCode : Nat) : Decidable (WriteFault errorCode) := by
  unfold WriteFault
  infer_instance

/-- What the processor reports in bit 0: the page is present. -/
def Raised (s : Machine) (errorCode causalAddr : Nat) : Prop :=
  errorCode.testBit 0 = (translate s.mem (.ofValue causalAddr) 4 s.cr3).isSome

section
variable {s : Machine} {errorCode causalAddr : Nat}

theorem handlePageFault_write (h : WriteFault errorCode) :
    handlePageFault errorCode causalAddr s = copyOnePage (.ofValue causalAddr) s := by
  obtain ⟨h0, h1, h2⟩ := h
  unfold handlePageFault
  rw [h0, h1, h2]
  rfl

theorem handlePageFault_present (h0 : errorCode.testBit 0 = true) (h : ¬ WriteFault errorCode) :
    handlePageFault errorCode causalAddr s = .error (.error .kAlreadyAllocated) s := by
  unfold handlePageFault
  have h12 : ¬ (errorCode.testBit 1 = true ∧ errorCode.testBit 2 = true) := fun h' => h ⟨h0, h'⟩
  rw [h0]
  cases h1 : errorCode.testBit 1 <;> cases h2 : errorCode.testBit 2 <;> simp only [h1, h2] at h12
  · rfl
  · rfl
  · rfl
  · simp at h12

theorem handlePageFault_demand (h0 : errorCode.testBit 0 = false)
    (hin : s.dpagingBegin ≤ causalAddr ∧ causalAddr < s.dpagingEnd) :
    handlePageFault errorCode causalAddr s = setupPageMaps (.ofValue causalAddr) 1 true s := by
  unfold handlePageFault
  simp only [bind, EStateM.bind, get, getThe, MonadStateOf.get, EStateM.get, h0, Bool.false_and, Bool.false_eq_true,
    if_false]
  rw [if_pos (by simpa using hin)]

theorem handlePageFault_outside (h0 : errorCode.testBit 0 = false)
    (hout : ¬ (s.dpagingBegin ≤ causalAddr ∧ causalAddr < s.dpagingEnd)) :
    handlePageFault errorCode causalAddr s = .error (.error .kIndexOutOfRange) s := by
  unfold handlePageFault
  simp only [bind, EStateM.bind, get, getThe, MonadStateOf.get, EStateM.get, h0, Bool.false_and, Bool.false_eq_true,
    if_false]
  rw [if_neg (by simpa using hout)]
  rfl

/-- A page that is not mapped can be set up. -/
theorem pagesOk_of_unmapped {root : Nat} {a : LinearAddress4Level} {w : Bool} (h : tableAt s.mem root a.path = none) :
    PagesOk w (a.PagesFrom 1) root s := by
  rintro p t i hslot hlen ⟨h1, h2⟩ hp
  have hpath : i :: p = a.path := by
    refine Path.number_inj ?_ (by omega)
    rw [List.length_cons, hlen]
    rfl
  rw [← hpath, tableAt, hslot.table] at h
  simp [hp] at h

end

/-- The kernel half as `SetupIdentityPageTable` (`paging.cpp:21-34`) leaves it and `SetupPML4` copies it: 64 GiB in
pages of 2 MiB, closed to the user. -/
structure IdentityMap (s : Machine) (pdp : Nat) (pd : Nat → Nat) : Prop where
  pml4 : (s.mem s.cr3 0).present = true ∧ (s.mem s.cr3 0).user = false ∧ (s.mem s.cr3 0).pointer = pdp
  empty : ∀ i : Fin 512, 0 < i.val → i.val < 256 → (s.mem s.cr3 i).present = false
  dirs : ∀ i : Fin 512, i.val < 64 →
    (s.mem pdp i).present = true ∧ (s.mem pdp i).hugePage = false ∧ (s.mem pdp i).pointer = pd i.val
  noDirs : ∀ i : Fin 512, 64 ≤ i.val → (s.mem pdp i).present = false
  pages : ∀ i < 64, ∀ j : Fin 512, (s.mem (pd i) j).present = true ∧ (s.mem (pd i) j).hugePage = true ∧
    (s.mem (pd i) j).pointer = i * 2 ^ 18 + j.val * 512
  marked : s.mgr.getBit s.cr3 = true ∧ s.mgr.getBit pdp = true ∧ ∀ i < 64, s.mgr.getBit (pd i) = true

section
variable {s : Machine} {pdp : Nat} {pd : Nat → Nat} {a : LinearAddress4Level}

/-- Which addresses of the kernel half are mapped. -/
theorem IdentityMap.translate_isSome (h : IdentityMap s pdp pd) (hlow : ¬ Upper a.pml4) :
    (translate s.mem a 4 s.cr3).isSome = true ↔ a.pml4 = 0 ∧ a.pdp.val < 64 := by
  have h256 : a.pml4.val < 256 := Nat.lt_of_not_le hlow
  by_cases h0 : a.pml4 = 0
  · obtain ⟨hp, -, hptr⟩ := h.pml4
    by_cases h64 : a.pdp.val < 64
    · obtain ⟨hp3, hh3, hptr3⟩ := h.dirs a.pdp h64
      obtain ⟨hp2, hh2, -⟩ := h.pages _ h64 a.dir
      simp [translate, LinearAddress4Level.part, h0, hp, hptr, hp3, hh3, hptr3, hp2, hh2, h64]
    · have hp3 := h.noDirs a.pdp (by omega)
      simp [translate, LinearAddress4Level.part, h0, hp, hptr, hp3, h64]
  · have hp := h.empty a.pml4 (Nat.pos_of_ne_zero fun he => h0 (Fin.ext he)) h256
    simp [translate, LinearAddress4Level.part, h0, hp]

theorem IdentityMap.allocate (h : IdentityMap s pdp pd) {f : Nat} {m : BitmapMemoryManager}
    (halloc : s.mgr.allocate 1 = (.ok f, m)) (page : Fin 512 → PageMapEntry) :
    IdentityMap ({ s with mgr := m }.setFrame f page) pdp pd := by
  obtain ⟨hfree, -, -, hmarks⟩ := BitmapMemoryManager.allocate_one halloc
  have hmem : ∀ {g}, s.mgr.getBit g = true → ({ s with mgr := m }.setFrame f page).mem g = s.mem g := by
    intro g hg
    refine Machine.mem_setFrame_of_ne fun he => ?_
    rw [← he, hg] at hfree
    cases hfree
  obtain ⟨hm4, hm3, hm2⟩ := h.marked
  refine ⟨?_, ?_, ?_, ?_, ?_, (hmarks _).mpr (.inl hm4), (hmarks _).mpr (.inl hm3), fun i hi =>
    (hmarks _).mpr (.inl (hm2 i hi))⟩
  · rw [Machine.cr3_setFrame, hmem hm4]
    exact h.pml4
  · rw [Machine.cr3_setFrame, hmem hm4]
    exact h.empty
  · rw [hmem hm3]
    exact h.dirs
  · rw [hmem hm3]
    exact h.noDirs
  · intro i hi
    rw [hmem (hm2 i hi)]
    exact h.pages i hi

/-- A write to a page of the kernel half is not refused. -/
theorem copyOnePage_lower (h : IdentityMap s pdp pd) (hlow : ¬ Upper a.pml4)
    (hmap : (translate s.mem a 4 s.cr3).isSome = true) :
    (∃ f s', s.mgr.FreeRun 1 f ∧ copyOnePage a s = .ok ⟨⟩ s') ∨
    (∀ f, ¬ s.mgr.FreeRun 1 f) ∧ copyOnePage a s = .error (.error .kNoEnoughMemory) s := by
  rcases newPageMap_spec s with ⟨f, m, halloc, hrun⟩ | ⟨hno, hrun⟩
  · left
    have h1 := h.allocate halloc fun _ => .zero
    have hsome := (h1.translate_isSome hlow).mpr ((h.translate_isSome hlow).mp hmap)
    obtain ⟨g, hg⟩ := Option.isSome_iff_exists.mp hsome
    obtain ⟨t, -, hset⟩ := setPageContent_run a f s.cr3 (({ s with mgr := m }.setFrame f fun _ => .zero).setFrame f
      (({ s with mgr := m }.setFrame f fun _ => .zero).mem g))
    unfold copyOnePage
    simp only [bind, EStateM.bind, hrun, get, getThe, MonadStateOf.get, EStateM.get]
    rw [hg]
    simp only [modify, modifyGet, MonadStateOf.modifyGet, EStateM.modifyGet, EStateM.bind]
    rw [Machine.cr3_setFrame, hset]
    exact ⟨f, _, BitmapMemoryManager.allocate_one_free halloc, rfl⟩
  · refine .inr ⟨hno, ?_⟩
    unfold copyOnePage
    simp only [bind, EStateM.bind, hrun]

/-- A write to a mapped page of the upper half changes its entry and the new frame. -/
theorem copyOnePage_confined (h : IsSpace s.cr3 s) (hup : Upper a.pml4)
    (hmap : (translate s.mem a 4 s.cr3).isSome = true) :
    After (copyOnePage a) s (fun _ s' => Confined s s') (fun e s' => s' = s ∧ e = .error .kNoEnoughMemory) := by
  obtain ⟨base, h⟩ := h
  rw [h.translate_eq hup] at hmap
  obtain ⟨g, hg⟩ := Option.isSome_iff_exists.mp hmap
  unfold After
  rcases copyOnePage_spec h hup hg with ⟨f, m, t, halloc, hslot, -, -, hrun⟩ | ⟨-, hrun⟩ <;> rw [hrun]
  · obtain ⟨hfree, -, -, hmarks⟩ := BitmapMemoryManager.allocate_one halloc
    refine ⟨fun u j => ?_, fun u hu => (hmarks u).mpr (.inl hu), rfl, rfl, rfl⟩
    by_cases hu : u = t ∧ j = a.page
    · obtain ⟨rfl, rfl⟩ := hu
      exact .inr (.inl ⟨_, hslot⟩)
    · rw [Machine.mem_setEntry_of_ne hu]
      by_cases huf : u = f
      · subst huf
        exact .inr (.inr ⟨hfree, (hmarks u).mpr (.inr rfl)⟩)
      · rw [Machine.mem_setFrame_of_ne huf]
        exact .inl rfl
  · exact ⟨rfl, rfl⟩

end

/-- What is asked of a page fault: it changes nothing but entries of the upper half and new frames, and a write to the
kernel half is an error that changes nothing at all. -/
def FaultConfined (s : Machine) (errorCode causalAddr : Nat) : Prop :=
  After (handlePageFault errorCode causalAddr) s
    (fun _ s' => Confined s s' ∧ ¬ (WriteFault errorCode ∧ ¬ Upper (LinearAddress4Level.ofValue causalAddr).pml4))
    (fun e s' => Confined s s' ∧ e ≠ .fault ∧
      (WriteFault errorCode ∧ ¬ Upper (LinearAddress4Level.ofValue causalAddr).pml4 → s' = s))

/-- The fault does not reach the page tables; or it is one of the upper half; or there is no free frame, and `SetupPageMaps`
meets a slot of the PML4 that it would have to fill first. -/
def FaultSafe (s : Machine) (errorCode causalAddr : Nat) : Prop :=
  (errorCode.testBit 0 = true ∧ ¬ WriteFault errorCode) ∨
  (errorCode.testBit 0 = false ∧ ¬ (s.dpagingBegin ≤ causalAddr ∧ causalAddr < s.dpagingEnd)) ∨
  Upper (LinearAddress4Level.ofValue causalAddr).pml4 ∨
  ((∀ f, ¬ s.mgr.FreeRun 1 f) ∧ (errorCode.testBit 0 = true ∨ (LinearAddress4Level.ofValue causalAddr).pml4 ≠ 0))

section
variable {s : Machine} {pdp : Nat} {pd : Nat → Nat} {errorCode causalAddr : Nat}

/-- The slots of the kernel half are not reached through the upper half. -/
theorem IsSpace.not_slot (h : IsSpace s.cr3 s) {p : Path} {i : Fin 512} (hi : ¬ Upper i) :
    ¬ Slot s.mem s.cr3 Upper 4 p s.cr3 i := by
  obtain ⟨base, h⟩ := h
  intro hs
  have hp : p = [] := h.tree.table_inj hs.table rfl hs.top.tail trivial hs.depth (by decide)
  subst hp
  exact hi hs.top

/-- A demand page in the kernel half opens a slot of the PML4 that is not one of the upper half. -/
theorem not_confined_of_opened (h : IsSpace s.cr3 s) (hk : IdentityMap s pdp pd) {a : LinearAddress4Level}
    (hlow : ¬ Upper a.pml4) {s' : Machine} (ho : Opened s.cr3 a.pml4 s s') : ¬ Confined s s' := by
  intro hc
  obtain ⟨hp, hu⟩ := ho.2.1 hk.marked.1
  rcases hc.mem s.cr3 a.pml4 with he | ⟨p, hs⟩ | ⟨hm, -⟩
  · rw [he] at hp hu
    by_cases h0 : a.pml4 = 0
    · rw [h0, hk.pml4.2.1] at hu
      cases hu
    · rw [hk.empty a.pml4 (Nat.pos_of_ne_zero fun he => h0 (Fin.ext he)) (Nat.lt_of_not_le hlow)] at hp
      cases hp
  · exact h.not_slot hlow hs
  · rw [hk.marked.1] at hm
    cases hm

/-- A fault that is refused at once is confined. -/
theorem confined_of_refused {e : Error} (h : handlePageFault errorCode causalAddr s = .error (.error e) s) :
    FaultConfined s errorCode causalAddr := by
  unfold FaultConfined After
  rw [h]
  exact ⟨.refl s, by simp, fun _ => rfl⟩

theorem write_fault_confined_iff (h : IsSpace s.cr3 s) (hk : IdentityMap s pdp pd) (hw : WriteFault errorCode)
    (hr : Raised s errorCode causalAddr) : FaultConfined s errorCode causalAddr ↔
      Upper (LinearAddress4Level.ofValue causalAddr).pml4 ∨ ∀ f, ¬ s.mgr.FreeRun 1 f := by
  have hmap : (translate s.mem (.ofValue causalAddr) 4 s.cr3).isSome = true := hr.symm.trans hw.1
  have hrun := @handlePageFault_write s _ causalAddr hw
  by_cases hup : Upper (LinearAddress4Level.ofValue causalAddr).pml4
  · refine iff_of_true ?_ (.inl hup)
    have hcopy := copyOnePage_confined h hup hmap
    unfold FaultConfined After
    unfold After at hcopy
    rw [hrun]
    cases hc : copyOnePage (.ofValue causalAddr) s with
    | ok a s' =>
      rw [hc] at hcopy
      exact ⟨hcopy, fun hl => hl.2 hup⟩
    | error e s' =>
      rw [hc] at hcopy
      obtain ⟨rfl, rfl⟩ := hcopy
      exact ⟨.refl _, by simp, fun _ => rfl⟩
  · rcases copyOnePage_lower hk hup hmap with ⟨f, s', hfree, hcopy⟩ | ⟨hno, hcopy⟩ <;> rw [hcopy] at hrun
    · -- it succeeds, and should not
      refine iff_of_false (fun hc => ?_) (not_or.mpr ⟨hup, fun hno => hno f hfree⟩)
      exact (hc.ok hrun).2 ⟨hw, hup⟩
    · exact iff_of_true (confined_of_refused hrun) (.inr hno)

theorem demand_fault_confined_iff (h : IsSpace s.cr3 s) (hk : IdentityMap s pdp pd)
    (h0 : errorCode.testBit 0 = false) (hin : s.dpagingBegin ≤ causalAddr ∧ causalAddr < s.dpagingEnd)
    (hr : Raised s errorCode causalAddr) : FaultConfined s errorCode causalAddr ↔
      Upper (LinearAddress4Level.ofValue causalAddr).pml4 ∨
        (∀ f, ¬ s.mgr.FreeRun 1 f) ∧ (LinearAddress4Level.ofValue causalAddr).pml4 ≠ 0 := by
  have hrun := handlePageFault_demand h0 hin
  have hnw : ¬ WriteFault errorCode := fun hw => by
    rw [hw.1] at h0
    cases h0
  have hnone : translate s.mem (.ofValue causalAddr) 4 s.cr3 = none := by
    unfold Raised at hr
    rw [h0] at hr
    exact Option.isNone_iff_eq_none.mp (by simpa using hr.symm)
  by_cases hup : Upper (LinearAddress4Level.ofValue causalAddr).pml4
  · refine iff_of_true ?_ (.inl hup)
    obtain ⟨base, hsp⟩ := id h
    rw [hsp.translate_eq hup] at hnone
    unfold FaultConfined After
    rw [hrun]
    refine (setupPageMaps_spec h (pagesOk_of_unmapped hnone) hup).imp ?_ ?_
    · exact fun _ s' hg => ⟨(hg.run.confined h).1, fun hl => hnw hl.1⟩
    · rintro e s' ⟨hg, rfl⟩
      exact ⟨(hg.run.confined h).1, by simp, fun hl => absurd hl.1 hnw⟩
  · have hopen := setupPageMaps_opens (w := true) (.ofValue causalAddr) s
    -- a slot of the PML4 that is not present takes a frame
    have htakes : ∀ s', Opened s.cr3 (LinearAddress4Level.ofValue causalAddr).pml4 s s' →
        ¬ (Upper (LinearAddress4Level.ofValue causalAddr).pml4 ∨
          (∀ f, ¬ s.mgr.FreeRun 1 f) ∧ (LinearAddress4Level.ofValue causalAddr).pml4 ≠ 0) := by
      rintro s' ⟨-, -, hfree⟩ (hu | ⟨hno, hne⟩)
      · exact hup hu
      · rcases hfree with hp | ⟨f, hf⟩
        · rw [hk.empty _ (Nat.pos_of_ne_zero fun he => hne (Fin.ext he)) (Nat.lt_of_not_le hup)] at hp
          cases hp
        · exact hno f hf
    cases hc : setupPageMaps (.ofValue causalAddr) 1 true s with
    | ok a s' =>
      have ho := hopen.ok hc
      rw [hc] at hrun
      exact iff_of_false (fun hf => not_confined_of_opened h hk hup ho (hf.ok hrun).1) (htakes s' ho)
    | error e s' =>
      rw [hc] at hrun
      rcases hopen.error hc with ⟨rfl, rfl, hp, hno⟩ | ho
      · refine iff_of_true (confined_of_refused hrun) (.inr ⟨hno, fun hz => ?_⟩)
        rw [hz, hk.pml4.1] at hp
        cases hp
      · exact iff_of_false (fun hf => not_confined_of_opened h hk hup ho (hf.error hrun).1) (htakes s' ho)

/-- **When a page fault is confined.** -/
theorem page_fault_confined_iff (h : IsSpace s.cr3 s) (hk : IdentityMap s pdp pd) (hr : Raised s errorCode causalAddr) :
    FaultConfined s errorCode causalAddr ↔ FaultSafe s errorCode causalAddr := by
  unfold FaultSafe
  by_cases hw : WriteFault errorCode
  · rw [write_fault_confined_iff h hk hw hr]
    simp [hw, hw.1]
  · cases h0 : errorCode.testBit 0 with
    | true => exact iff_of_true (confined_of_refused (handlePageFault_present h0 hw)) (.inl ⟨rfl, hw⟩)
    | false =>
      by_cases hin : s.dpagingBegin ≤ causalAddr ∧ causalAddr < s.dpagingEnd
      · rw [demand_fault_confined_iff h hk h0 hin hr]
        simp [hin]
      · exact iff_of_true (confined_of_refused (handlePageFault_outside h0 hin)) (.inr (.inl ⟨rfl, hin⟩))

end

/-! ## A small machine -/

/-- An entry that leads to a page map, closed to the user. -/
def tableEntry (frame : Nat) : PageMapEntry := { PageMapEntry.zero.setPointer frame with present := true, writable := true }

/-- The tables of the identity map in frames 1 to 66: the PML4, the page directory pointers, the page directories. -/
def bootMem : Memory := fun g j =>
  if g = 1 then if j.val = 0 then tableEntry 2 else .zero
  else if g = 2 then if j.val < 64 then tableEntry (3 + j.val) else .zero
  else if 3 ≤ g ∧ g < 67 then { tableEntry ((g - 3) * 2 ^ 18 + j.val * 512) with hugePage := true }
  else .zero

/-- Frames 0 to 66 are taken and those up to 99 are free. -/
def bootMachine : Machine where
  mem := bootMem
  mgr := (BitmapMemoryManager.init.setMemoryRange 1 100).markAllocated 0 67
  cr3 := 1
  dpagingBegin := 0
  dpagingEnd := 0
  frees := []

theorem bootMachine_getBit (f : Nat) : bootMachine.mgr.getBit f = true ↔ f < 67 := by
  change (BitmapMemoryManager.setBits _ true 0 67).getBit f = true ↔ f < 67
  rw [BitmapMemoryManager.getBit_setBits]
  by_cases hf : f < 67
  · rw [if_pos (by omega)]
    simp [hf]
  · rw [if_neg (by omega)]
    have : (BitmapMemoryManager.init.setMemoryRange 1 100).getBit f = false := getBit_init f
    simp [hf, this]

theorem bootMachine_identity : IdentityMap bootMachine 2 (3 + ·) where
  pml4 := by decide
  empty i h0 _ := by
    have : i.val ≠ 0 := by omega
    simp [bootMachine, bootMem, this, PageMapEntry.zero]
  dirs i hi := by
    have : i.val + 3 < 2 ^ 40 := by omega
    simp [bootMachine, bootMem, hi, tableEntry, PageMapEntry.zero, PageMapEntry.pointer, PageMapEntry.setPointer]
    omega
  noDirs i hi := by
    have : ¬ i.val < 64 := by omega
    simp [bootMachine, bootMem, this, PageMapEntry.zero]
  pages i hi j := by
    have h1 : 3 + i ≠ 1 := by omega
    have h2 : 3 + i ≠ 2 := by omega
    have h3 : 3 ≤ 3 + i ∧ 3 + i < 67 := by omega
    have hj := j.isLt
    simp [bootMachine, bootMem, h1, h2, h3, tableEntry, PageMapEntry.zero, PageMapEntry.pointer, PageMapEntry.setPointer]
    omega
  marked := by
    simp only [bootMachine_getBit]
    exact ⟨by decide, by decide, fun i hi => by omega⟩

theorem bootMachine_space : IsSpace bootMachine.cr3 bootMachine := by
  refine ⟨_, .of_empty (fun i hi => ?_) ((bootMachine_getBit _).mpr (by decide)) ?_⟩
  · have : i.val ≠ 0 := by
      unfold Upper at hi
      omega
    simp [bootMachine, bootMem, this]
  · have := (BitmapMemoryManager.setBits_range true 67 (BitmapMemoryManager.init.setMemoryRange 1 100) 0).2
    change (BitmapMemoryManager.setBits _ true 0 67).rangeEnd ≤ kFrameCount
    rw [this]
    decide

/-- The same machine with one page of the upper half to be given on demand. -/
def heapMachine : Machine := { bootMachine with dpagingBegin := 0xffff800000000000, dpagingEnd := 0xffff800000001000 }

theorem heapMachine_identity : IdentityMap heapMachine 2 (3 + ·) :=
  ⟨bootMachine_identity.pml4, bootMachine_identity.empty, bootMachine_identity.dirs, bootMachine_identity.noDirs,
    bootMachine_identity.pages, bootMachine_identity.marked⟩

theorem heapMachine_space : IsSpace heapMachine.cr3 heapMachine := by
  obtain ⟨base, h⟩ := bootMachine_space
  exact ⟨base, h.tree, h.rootBase, h.own, h.marks, h.share, h.absent, h.small, h.range⟩

/-- The user writes to an address of that page: four frames are taken, and the address is mapped. -/
theorem page_fault_demand : ∃ s', handlePageFault 6 0xffff800000000123 heapMachine = .ok ⟨⟩ s' ∧ Confined heapMachine s' ∧
    (translate s'.mem (.ofValue 0xffff800000000123) 4 s'.cr3).isSome = true := by
  have hmapped : (match handlePageFault 6 0xffff800000000123 heapMachine with
      | .ok _ s' => (translate s'.mem (.ofValue 0xffff800000000123) 4 s'.cr3).isSome
      | .error _ _ => false) = true := by decide +kernel
  have hraised : Raised heapMachine 6 0xffff800000000123 := by
    unfold Raised
    decide
  have hupper : Upper (LinearAddress4Level.ofValue 0xffff800000000123).pml4 := by
    unfold Upper
    decide
  have hconfined := (page_fault_confined_iff heapMachine_space heapMachine_identity hraised).mpr (.inr (.inr (.inl hupper)))
  unfold FaultConfined After at hconfined
  cases hrun : handlePageFault 6 0xffff800000000123 heapMachine with
  | ok u s' =>
    rw [hrun] at hconfined hmapped
    exact ⟨s', rfl, hconfined.1, hmapped⟩
  | error e s' =>
    rw [hrun] at hmapped
    cases hmapped

/-- **The program that writes to address 0x100** (`apps/fault/fault.cpp:15-17`) is not stopped. -/
theorem write_kernel_not_confined : (IsSpace bootMachine.cr3 bootMachine ∧ IdentityMap bootMachine 2 (3 + ·) ∧
    Raised bootMachine 7 0x100) ∧ ¬ FaultConfined bootMachine 7 0x100 := by
  have hr : Raised bootMachine 7 0x100 := by
    unfold Raised
    decide
  refine ⟨⟨bootMachine_space, bootMachine_identity, hr⟩, ?_⟩
  rw [write_fault_confined_iff bootMachine_space bootMachine_identity (by decide) hr]
  rintro (hu | hno)
  · exact absurd hu (by unfold Upper; decide)
  · refine hno 67 ⟨by decide, by decide, fun f h1 h2 => ?_⟩
    rw [Bool.eq_false_iff, Ne, bootMachine_getBit]
    omega

end KinOS.Paging
