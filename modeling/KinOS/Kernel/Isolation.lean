import KinOS.Kernel.PageCopy

/-!
# Isolation of an address space from its image

What a program can do to the address space `CopyPageMaps` built for it: page faults, `SetupPageMaps` calls on pages
the image does not have, changes of the demand-paging range, and stores to pages mapped for writing (`Op`). Whatever the
order, the image stays as it was and no page mapped for writing is one of its frames.
-/

namespace KinOS.Paging

/-- The frame behind a page and whether the page is mapped for writing. -/
def mapping (mem : Memory) (root : Nat) : Path → Option (Nat × Bool)
  | [] => none
  | i :: p => (tableAt mem root p).bind fun t =>
    if (mem t i).present then some ((mem t i).pointer, (mem t i).writable) else none

/-- The machine after a call, whether it succeeded or not. -/
def exec {α : Type} (x : KernelM α) (s : Machine) : Machine :=
  match x s with
  | .ok _ s' => s'
  | .error _ s' => s'

/-- What happens to the address space of `s0.cr3`, a copy of the image `src`, while the program runs. -/
inductive Op (s0 : Machine) (src : Nat) : Machine → Machine → Prop
  | setup {s : Machine} {addr : LinearAddress4Level} {n : Nat} : Upper addr.pml4 →
      (∀ q : Path, q.length = 4 → addr.PagesFrom n q → tableAt s0.mem src q = none) →
      Op s0 src s (exec (setupPageMaps addr n true) s)
  | writeFault {s : Machine} {errorCode causalAddr g : Nat} : WriteFault errorCode →
      Upper (LinearAddress4Level.ofValue causalAddr).pml4 →
      mapping s.mem s.cr3 (LinearAddress4Level.ofValue causalAddr).path = some (g, false) →
      Op s0 src s (exec (handlePageFault errorCode causalAddr) s)
  | demandFault {s : Machine} {errorCode causalAddr : Nat} : errorCode.testBit 0 = false →
      Upper (LinearAddress4Level.ofValue causalAddr).pml4 →
      s.dpagingBegin ≤ causalAddr ∧ causalAddr < s.dpagingEnd →
      mapping s.mem s.cr3 (LinearAddress4Level.ofValue causalAddr).path = none →
      Op s0 src s (exec (handlePageFault errorCode causalAddr) s)
  | dpaging {s : Machine} {dpagingBegin dpagingEnd : Nat} : Op s0 src s { s with dpagingBegin, dpagingEnd }
  | store {s : Machine} {q : Path} {f : Nat} {page : Fin 512 → PageMapEntry} : q.length = 4 → Top Upper q →
      mapping s.mem s.cr3 q = some (f, true) → Op s0 src s (s.setFrame f page)

theorem mapping_eq_some {mem : Memory} {root f : Nat} {w : Bool} {i : Fin 512} {p : Path} :
    mapping mem root (i :: p) = some (f, w) ↔ ∃ t, tableAt mem root p = some t ∧ (mem t i).present = true ∧
      (mem t i).pointer = f ∧ (mem t i).writable = w := by
  rw [mapping, Option.bind_eq_some_iff]
  refine exists_congr fun t => and_congr_right fun _ => ?_
  split
  · next h => simp [h]
  · next h => simp [h]

theorem mapping_none {mem : Memory} {root : Nat} : ∀ {q : Path}, q ≠ [] →
    (mapping mem root q = none ↔ tableAt mem root q = none)
  | [], h => absurd rfl h
  | i :: p, _ => by
    rw [mapping, tableAt]
    cases tableAt mem root p with
    | none => simp
    | some t => cases h : (mem t i).present <;> simp [h]

theorem tableAt_of_mapping {mem : Memory} {root f : Nat} {w : Bool} : ∀ {q : Path}, mapping mem root q = some (f, w) →
    tableAt mem root q = some f
  | i :: p, h => by
    obtain ⟨t, ht, hp, hf, -⟩ := mapping_eq_some.mp h
    exact tableAt_cons.mpr ⟨t, ht, hp, hf⟩

section
variable {s0 s s' : Machine} {src : Nat} {w : Bool} {pages : Path → Prop} {root : Nat}

theorem exec_of_after {α : Type} {x : KernelM α} {P : Machine → Prop} {Q : α → Machine → Prop}
    {E : Stop → Machine → Prop} (h : After x s Q E) (hQ : ∀ a s', Q a s' → P s') (hE : ∀ e s', E e s' → P s') :
    P (exec x s) := by
  unfold exec
  unfold After at h
  cases hx : x s with
  | ok a s' =>
    rw [hx] at h
    exact hQ a s' h
  | error e s' =>
    rw [hx] at h
    exact hE e s' h

/-! ## Translations -/

/-- A write of `SetupPageMaps` changes the mapping of no page that is mapped or not asked for. -/
theorem Extend.mapping_eq (hstep : Extend w pages root s s') (h : IsSpace root s) {q : Path} (hlen : q.length = 4)
    (htop : Top Upper q) (hq : ¬ pages q ∨ (mapping s.mem root q).isSome = true) :
    mapping s'.mem root q = mapping s.mem root q := by
  obtain ⟨base, hsp⟩ := id h
  cases q with
  | nil => cases hlen
  | cons i p =>
    have hd : p.length < 4 := by
      rw [List.length_cons] at hlen
      omega
    refine Option.ext fun x => ?_
    obtain ⟨f, b⟩ := x
    rw [mapping_eq_some, mapping_eq_some]
    constructor
    · rintro ⟨t, ht, hp, hf, hb⟩
      have hs : Slot s'.mem root Upper 4 p t i := ⟨ht, htop, hd⟩
      rcases hstep.inv h with hsame | ⟨p', t', i', f', hl, -, hleaf, -⟩
      · have hs0 := hsame.slot_iff.mp hs
        obtain ⟨h1, h2, h3⟩ := hsame.entry hs0
        exact ⟨t, hs0.table, h1 ▸ hp, h3 ▸ hf, h2 ▸ hb⟩
      · rcases hl.present_cases hsp hs hp with ⟨rfl, rfl, rfl⟩ | ⟨hs0, he⟩
        · -- the page was not mapped and is one of those asked for
          exfalso
          rcases hq with hnp | hsome
          · exact hnp (hleaf (by rw [List.length_cons] at hlen; omega)).2
          · obtain ⟨⟨g, b'⟩, hg⟩ := Option.isSome_iff_exists.mp hsome
            obtain ⟨t0, ht0, hp0, -⟩ := mapping_eq_some.mp hg
            obtain rfl := Option.some.inj (ht0.symm.trans hl.rewrite.slot.table)
            rw [hl.absent] at hp0
            cases hp0
        · rw [he] at hp hf hb
          exact ⟨t, hs0.table, hp, hf, hb⟩
    · rintro ⟨t, ht, hp, hf, hb⟩
      obtain ⟨hs, he⟩ := hstep.keeps h ⟨ht, htop, hd⟩
      obtain ⟨h1, h2, h3⟩ := he hp
      exact ⟨t, hs.table, h1, h3.trans hf, h2.trans hb⟩

theorem Extends.mapping_eq (hrun : Extends w pages root s s') (h : IsSpace root s) {q : Path} (hlen : q.length = 4)
    (htop : Top Upper q) (hq : ¬ pages q ∨ (mapping s.mem root q).isSome = true) :
    mapping s'.mem root q = mapping s.mem root q := by
  have key : IsSpace root s' ∧ mapping s'.mem root q = mapping s.mem root q := by
    induction hrun with
    | refl => exact ⟨h, rfl⟩
    | tail _ hstep ih =>
      obtain ⟨h1, he⟩ := ih
      exact ⟨h1.extend hstep, (hstep.mapping_eq h1 hlen htop (he.symm ▸ hq)).trans he⟩
  exact key.2

/-! ## The steps keep the clone -/

/-- The pages of a range that the image does not have are mapped for writing, if at all. -/
theorem Cloned.pagesOk (h : Cloned s0 src s) {addr : LinearAddress4Level} {n : Nat}
    (hun : ∀ q : Path, q.length = 4 → addr.PagesFrom n q → tableAt s0.mem src q = none) :
    PagesOk true (addr.PagesFrom n) s0.cr3 s := by
  intro p t i hslot hlen hpage hp
  by_contra hw
  have := h.leaf hslot hlen hp (Bool.eq_false_iff.mpr hw)
  rw [hun (i :: p) (by simp [hlen]) hpage] at this
  cases this

/-- `SetupPageMaps` keeps the clone, and the mapping of pages not asked for or mapped before. -/
theorem Cloned.setup (h : Cloned s0 src s) {addr : LinearAddress4Level} {n : Nat} (hup : Upper addr.pml4)
    (hok : PagesOk true (addr.PagesFrom n) s0.cr3 s) :
    Cloned s0 src (exec (setupPageMaps addr n true) s) ∧ ∀ q : Path, q.length = 4 → Top Upper q →
      (¬ addr.PagesFrom n q ∨ (mapping s.mem s0.cr3 q).isSome = true) →
      mapping (exec (setupPageMaps addr n true) s).mem s0.cr3 q = mapping s.mem s0.cr3 q := by
  have hsp : IsSpace s0.cr3 s := ⟨_, h.space⟩
  have hgrow : ∀ s', Grows true (addr.PagesFrom n) s0.cr3 s s' → Cloned s0 src s' ∧ ∀ q : Path, q.length = 4 →
      Top Upper q → (¬ addr.PagesFrom n q ∨ (mapping s.mem s0.cr3 q).isSome = true) →
      mapping s'.mem s0.cr3 q = mapping s.mem s0.cr3 q := fun s' hg =>
    ⟨h.extends hg.run, fun q hlen htop hq => hg.run.mapping_eq hsp hlen htop hq⟩
  have hrun := @setupPageMaps_spec true addr n s
  rw [h.cr3] at hrun
  exact exec_of_after (hrun hsp hok hup) (fun _ s' hg => hgrow s' hg) fun _ s' hg => hgrow s' hg.1

/-- **A write fault** on a page mapped read-only: the page gets a copy in a frame just allocated, or there is none. -/
theorem Cloned.write_fault (h : Cloned s0 src s) {errorCode causalAddr g : Nat} (hw : WriteFault errorCode)
    (hup : Upper (LinearAddress4Level.ofValue causalAddr).pml4)
    (hmap : mapping s.mem s0.cr3 (LinearAddress4Level.ofValue causalAddr).path = some (g, false)) :
    After (handlePageFault errorCode causalAddr) s
      (fun _ s' => Cloned s0 src s' ∧ ∃ f, s.mgr.getBit f = false ∧
        mapping s'.mem s0.cr3 (LinearAddress4Level.ofValue causalAddr).path = some (f, true) ∧ s'.mem f = s.mem g ∧
        ∀ q : Path, q.length = 4 → Top Upper q → q ≠ (LinearAddress4Level.ofValue causalAddr).path →
          mapping s'.mem s0.cr3 q = mapping s.mem s0.cr3 q)
      (fun _ s' => s' = s) := by
  unfold After
  rw [handlePageFault_write hw]
  generalize LinearAddress4Level.ofValue causalAddr = a at hup hmap ⊢
  have hg : tableAt s.mem s.cr3 a.path = some g := by
    rw [h.cr3]
    exact tableAt_of_mapping hmap
  rcases copyOnePage_spec (by rw [h.cr3]; exact h.space) hup hg with
    ⟨f, m, t, halloc, hslot, hp, hptr, hrun⟩ | ⟨-, hrun⟩ <;> rw [hrun]
  rw [h.cr3] at hslot
  obtain ⟨hfree, hlt, -, -⟩ := BitmapMemoryManager.allocate_one halloc
  have hwr : (s.mem t a.page).writable = false := by
    obtain ⟨t', ht', -, -, hw'⟩ := mapping_eq_some.mp hmap
    obtain rfl := Option.some.inj (ht'.symm.trans hslot.table)
    exact hw'
  have htf := h.space.table_ne hslot hfree
  obtain ⟨s', hs'⟩ : ∃ s', s' = ({ s with mgr := m }.setFrame f (s.mem g)).setEntry t a.page
    { (s.mem t a.page).setPointer f with writable := true } := ⟨_, rfl⟩
  rw [← hs']
  have hself : s'.mem t a.page = { (s.mem t a.page).setPointer f with writable := true } := by
    rw [hs']
    exact Machine.mem_setEntry_self
  have hother : ∀ g' j, g' ≠ f → ¬ (g' = t ∧ j = a.page) → s'.mem g' j = s.mem g' j := fun g' j hg' hj => by
    rw [hs', Machine.mem_setEntry_of_ne hj, Machine.mem_setFrame_of_ne hg']
  have hptr' : (s'.mem t a.page).pointer = f := by
    rw [hself]
    exact PageMapEntry.pointer_setPointer (e := s.mem t a.page) (Nat.lt_of_lt_of_le hlt h.space.range)
  have hpres' : (s'.mem t a.page).present = true := by
    rw [hself]
    exact hp
  have hR := h.space.rewrite hslot hfree hother
  have hslots := fun {q u j} => hR.slot_iff_leaf h.space.tree (by simp) (q := q) (u := u) (j := j)
  have hcl : Cloned s0 src s' := by
    refine h.acquire hslot (by rw [hs']; exact halloc) hother (fun ho => Bool.eq_false_iff.mp hwr ho.2)
      ⟨hpres', by rw [hself]⟩ hptr' (fun hd => absurd hd (by simp)) (fun hd => absurd hd (by simp))
        ?_ ?_ <;> rw [hs'] <;> rfl
  refine ⟨hcl, f, hfree, mapping_eq_some.mpr ⟨t, (hslots.mpr hslot).table, hpres', hptr', by rw [hself]⟩, ?_, ?_⟩
  · rw [hs']
    unfold Machine.setEntry
    rw [Machine.mem_setFrame_of_ne htf.symm, Machine.mem_setFrame_self]
  · intro q hlen htop hne
    cases q with
    | nil => cases hlen
    | cons i p =>
      have hd : p.length < 4 := by
        rw [List.length_cons] at hlen
        omega
      have hsame : ∀ u, tableAt s.mem s0.cr3 p = some u → s'.mem u i = s.mem u i := fun u hu =>
        hR.entry_eq h.space.tree ⟨hu, htop, hd⟩ fun hc => hne hc
      have htab : tableAt s'.mem s0.cr3 p = tableAt s.mem s0.cr3 p :=
        hR.tableAt_eq h.space.tree htop.tail hd fun hs => absurd hs.length_le (by simp at hlen ⊢; omega)
      rw [mapping, mapping, htab]
      cases hu : tableAt s.mem s0.cr3 p with
      | none => rfl
      | some u => simp only [Option.bind_some, hsame u hu]

/-- A store to a page mapped for writing. -/
theorem Cloned.store (h : Cloned s0 src s) {q : Path} {f : Nat} {page : Fin 512 → PageMapEntry} (hlen : q.length = 4)
    (htop : Top Upper q) (hmap : mapping s.mem s0.cr3 q = some (f, true)) : Cloned s0 src (s.setFrame f page) := by
  cases q with
  | nil => cases hlen
  | cons i p =>
    obtain ⟨t, ht, hp, rfl, hw⟩ := mapping_eq_some.mp hmap
    have hslot : Slot s.mem s0.cr3 Upper 4 p t i := ⟨ht, htop, by rw [List.length_cons] at hlen; omega⟩
    have hbase := h.space.own hslot ⟨hp, hw⟩
    -- the frame of a page is no page map
    have hentry : ∀ {q u j}, Slot s.mem s0.cr3 Upper 4 q u j →
        (s.setFrame (s.mem t i).pointer page).mem u j = s.mem u j := by
      intro q u j hs
      rw [Machine.mem_setFrame_of_ne]
      rintro rfl
      cases q with
      | nil => exact hbase (Option.some.inj hs.table ▸ h.space.rootBase)
      | cons k q =>
        obtain ⟨u, hs', ho', he⟩ := h.space.tree.table hs.table hs.top.tail hs.depth
        have hc := h.space.tree.inj hs' hslot ho' ⟨hp, hw⟩ he
        have := hs.depth
        rw [hc, List.length_cons] at this
        rw [List.length_cons] at hlen
        omega
    have hsame : Same s0.cr3 s (s.setFrame (s.mem t i).pointer page) := by
      refine ⟨rfl, fun hs => ?_, fun hs => ?_, fun hs _ => hentry hs⟩ <;> rw [hentry hs]
      exact ⟨rfl, rfl, rfl⟩
    refine ⟨h.space.touch hsame, fun g hg hne => ?_, fun j hj => ?_, fun hs hl hp hw => h.leaf_same hsame hs hl hp hw, h.cr3,
      h.frees⟩
    · have hgf : g ≠ (s.mem t i).pointer := fun he => hbase (he ▸ hg)
      rw [Machine.mem_setFrame_of_ne hgf]
      exact h.frame g hg hne
    · have hgf : s0.cr3 ≠ (s.mem t i).pointer := fun he => hbase (he ▸ h.space.rootBase)
      rw [Machine.mem_setFrame_of_ne hgf]
      exact h.lower j hj

theorem Cloned.op (h : Cloned s0 src s) (hop : Op s0 src s s') : Cloned s0 src s' := by
  cases hop with
  | setup hup hun => exact (h.setup hup (h.pagesOk hun)).1
  | writeFault hw hup hmap =>
    rw [h.cr3] at hmap
    exact exec_of_after (h.write_fault hw hup hmap) (fun _ _ hq => hq.1) fun _ _ he => he ▸ h
  | demandFault h0 hup hin hmap =>
    rw [h.cr3, mapping_none (by simp [LinearAddress4Level.path])] at hmap
    unfold exec
    rw [handlePageFault_demand h0 hin]
    exact (h.setup hup (pagesOk_of_unmapped hmap)).1
  | dpaging => exact ⟨h.space.touch ⟨rfl, fun _ => ⟨rfl, rfl, rfl⟩, fun _ => rfl, fun _ _ => rfl⟩, h.frame, h.lower, h.leaf,
      h.cr3, h.frees⟩
  | store hlen htop hmap =>
    rw [h.cr3] at hmap
    exact h.store hlen htop hmap

theorem Cloned.ops (h : Cloned s0 src s) (hrun : Relation.ReflTransGen (Op s0 src) s s') : Cloned s0 src s' :=
  TransitionSystem.invariant h (fun _ _ h hop => h.op hop) hrun

/-- What `CopyPageMaps(dest, src, 4, 256)` leaves on success. -/
theorem copied {s1 : Machine} (hsrc : Image src s0) (hzero : ∀ i, Upper i → s0.mem s0.cr3 i = .zero)
    (hroot : s0.mgr.getBit s0.cr3 = true) (hrange : s0.mgr.rangeEnd ≤ kFrameCount)
    (hcopy : copyPageMaps 4 s0.cr3 src 256 s0 = .ok ⟨⟩ s1) :
    Cloned s0 src s1 ∧ Pristine s0.cr3 s1 ∧ ∀ q : Path, q.length = 4 → Top Upper q → ∀ f,
      tableAt s0.mem src q = some f → tableAt s1.mem s0.cr3 q = some f := by
  have hstart : Cloned s0 src s0 := .start hzero hroot hrange
  obtain ⟨start, hle, hrun⟩ : ∃ start : Fin 512, (∀ i, start ≤ i ↔ Upper i) ∧
      copyPageMaps 4 s0.cr3 src start s0 = .ok ⟨⟩ s1 := ⟨256, fun i => Fin.le_def, hcopy⟩
  have hpr : Pristine s0.cr3 s0 := by
    intro p t i hs hlen
    rw [(slot_of_empty hzero hs).1] at hlen
    cases hlen
  have hspec := copyPageMaps_spec hsrc 3 [] s0.cr3 src start s0 hstart hpr rfl rfl rfl (fun i hi => (hle i).mp hi)
    fun i hi => by rw [hzero i ((hle i).mp hi)]; rfl
  obtain ⟨h1, hpr1, -, hcov⟩ := hspec.ok hrun
  refine ⟨h1, hpr1, fun q hlen htop f hf => ?_⟩
  rcases List.eq_nil_or_concat q with rfl | ⟨r, i, rfl⟩
  · cases hlen
  · rw [List.concat_eq_append] at hlen htop hf ⊢
    have hup : Upper i := htop.suffix ⟨r, rfl⟩
    exact hcov i ((hle i).mpr hup) r (by simpa using hlen) f hf

/-- **Copy-on-write isolation.** After the copy every page of the image is mapped to the same frame and read-only, no
other page is mapped, and the two trees share no page map. While the program runs, the image does not change and no page
mapped for writing is one of its frames; a write fault that is resolved gives the page a copy in a new frame and leaves
the other pages alone, and `SetupPageMaps` and demand paging leave all other pages alone. -/
theorem copy_on_write_isolation {s1 : Machine} (hsrc : Image src s0)
    (hzero : ∀ i, Upper i → s0.mem s0.cr3 i = .zero) (hroot : s0.mgr.getBit s0.cr3 = true)
    (hrange : s0.mgr.rangeEnd ≤ kFrameCount) (hcopy : copyPageMaps 4 s0.cr3 src 256 s0 = .ok ⟨⟩ s1) :
    (∀ q : Path, q.length = 4 → Top Upper q → mapping s1.mem s0.cr3 q = (tableAt s0.mem src q).map (·, false)) ∧
    (∀ f, Image.Frame src s0 f → s1.mem f = s0.mem f) ∧
    (∀ q r : Path, q.length < 4 → r.length < 4 → Top Upper q → Top Upper r → ∀ t,
      tableAt s1.mem s0.cr3 q = some t → tableAt s1.mem src r ≠ some t) ∧
    ∀ s, Relation.ReflTransGen (Op s0 src) s1 s →
      (∀ f, Image.Frame src s0 f → s.mem f = s0.mem f) ∧
      (∀ (q : Path) (f : Nat), q.length = 4 → Top Upper q → mapping s.mem s0.cr3 q = some (f, true) →
        ¬ Image.Frame src s0 f) ∧
      (∀ errorCode causalAddr g s', WriteFault errorCode → Upper (LinearAddress4Level.ofValue causalAddr).pml4 →
        mapping s.mem s0.cr3 (LinearAddress4Level.ofValue causalAddr).path = some (g, false) →
        handlePageFault errorCode causalAddr s = .ok ⟨⟩ s' →
        ∃ f, s.mgr.getBit f = false ∧
          mapping s'.mem s0.cr3 (LinearAddress4Level.ofValue causalAddr).path = some (f, true) ∧ s'.mem f = s.mem g ∧
          ∀ q : Path, q.length = 4 → Top Upper q → q ≠ (LinearAddress4Level.ofValue causalAddr).path →
            mapping s'.mem s0.cr3 q = mapping s.mem s0.cr3 q) ∧
      (∀ errorCode causalAddr, errorCode.testBit 0 = false → Upper (LinearAddress4Level.ofValue causalAddr).pml4 →
        mapping s.mem s0.cr3 (LinearAddress4Level.ofValue causalAddr).path = none →
        ∀ q : Path, q.length = 4 → Top Upper q → q ≠ (LinearAddress4Level.ofValue causalAddr).path →
          mapping (exec (handlePageFault errorCode causalAddr) s).mem s0.cr3 q = mapping s.mem s0.cr3 q) ∧
      (∀ (addr : LinearAddress4Level) n, Upper addr.pml4 →
        (∀ q : Path, q.length = 4 → addr.PagesFrom n q → tableAt s0.mem src q = none) →
        ∀ q : Path, q.length = 4 → Top Upper q → (¬ addr.PagesFrom n q ∨ (mapping s.mem s0.cr3 q).isSome = true) →
          mapping (exec (setupPageMaps addr n true) s).mem s0.cr3 q = mapping s.mem s0.cr3 q) := by
  obtain ⟨h1, hpr1, hcov⟩ := copied hsrc hzero hroot hrange hcopy
  have hframe : ∀ {f}, Image.Frame src s0 f → s0.mgr.getBit f = true := by
    rintro f ⟨q, hlen, htop, hq⟩
    exact (hsrc.frame_of_table hq htop hlen).1
  refine ⟨fun q hlen htop => ?_, fun f hf => h1.image hsrc hf, fun q r hq hr hqt hrt t htq htr => ?_, fun s hrun => ?_⟩
  · cases q with
    | nil => cases hlen
    | cons i p =>
      have hd : p.length = 3 := by simpa using hlen
      apply Option.ext
      rintro ⟨f, w⟩
      rw [mapping_eq_some]
      constructor
      · rintro ⟨t, ht, hp, rfl, rfl⟩
        have hslot : Slot s1.mem s0.cr3 Upper 4 p t i := ⟨ht, htop, by omega⟩
        have hw := hpr1 hslot hd hp
        rw [h1.leaf hslot hd hp hw, hw]
        rfl
      · intro h
        obtain ⟨f', hf', he⟩ := Option.map_eq_some_iff.mp h
        cases he
        obtain ⟨t, ht, hp, hf⟩ := tableAt_cons.mp (hcov (i :: p) hlen htop f hf')
        exact ⟨t, ht, hp, hf, hpr1 ⟨ht, htop, by omega⟩ hd hp⟩
  · -- a page map of the clone is its PML4 or was not marked before
    have hsame : tableAt s1.mem src r = tableAt s0.mem src r := tableAt_congr fun p' t' j ht' hs => by
      have hl := hs.length_le
      rw [List.length_cons] at hl
      rw [h1.image_table hsrc ht' (hrt.suffix hs).tail (by omega)]
      exact ⟨rfl, rfl⟩
    obtain ⟨hm, hne⟩ := hsrc.frame_of_table (hsame ▸ htr) hrt (by omega)
    cases q with
    | nil => exact hne (Option.some.inj htq).symm
    | cons j q =>
      obtain ⟨u, hs, ho, rfl⟩ := h1.space.tree.table htq hqt hq
      exact h1.space.own hs ho hm
  · have h := h1.ops hrun
    refine ⟨fun f hf => h.image hsrc hf, ?_, ?_, ?_, ?_⟩
    · intro q f hlen htop hmap hf
      cases q with
      | nil => cases hlen
      | cons i p =>
        obtain ⟨t, ht, hp, rfl, hw⟩ := mapping_eq_some.mp hmap
        exact h.space.own ⟨ht, htop, by rw [List.length_cons] at hlen; omega⟩ ⟨hp, hw⟩ (hframe hf)
    · intro errorCode causalAddr g s' hw hup hmap hrun
      exact ((h.write_fault hw hup hmap).ok hrun).2
    · intro errorCode causalAddr h0 hup hmap q hlen htop hne
      unfold exec
      by_cases hin : s.dpagingBegin ≤ causalAddr ∧ causalAddr < s.dpagingEnd
      · rw [handlePageFault_demand h0 hin]
        have hmap' := (mapping_none (by simp [LinearAddress4Level.path])).mp hmap
        refine (h.setup hup (pagesOk_of_unmapped hmap')).2 q hlen htop (.inl ?_)
        rintro ⟨h1, h2⟩
        exact hne (Path.number_inj (hlen.trans rfl) (by omega))
      · rw [handlePageFault_outside h0 hin]
    · intro addr n hup hun q hlen htop hq
      exact (h.setup hup (h.pagesOk hun)).2 q hlen htop hq

end

/-! ## An image of one page -/

/-- The last page of the address space in frame 74, under page maps in frames 70 to 73. -/
def pageMem : Memory := fun g j =>
  if (70 ≤ g ∧ g ≤ 73) ∧ j = 511 then { tableEntry (g + 1) with user := true, writable := decide (g < 73) }
  else bootMem g j

/-- Frames up to 75 are taken, and the PML4 in frame 75 is empty. -/
def pageMachine : Machine :=
  { bootMachine with mem := pageMem, cr3 := 75, mgr := (BitmapMemoryManager.init.setMemoryRange 1 100).markAllocated 0 76 }

theorem pageMachine_getBit {f : Nat} (hf : f < 76) : pageMachine.mgr.getBit f = true := by
  change (BitmapMemoryManager.setBits _ true 0 76).getBit f = true
  rw [BitmapMemoryManager.getBit_setBits, if_pos (by omega)]

theorem pageMem_entry {g : Nat} {j : Fin 512} (h1 : 70 ≤ g) (h2 : g ≤ 74) (hp : (pageMem g j).present = true) :
    g ≤ 73 ∧ (pageMem g j).pointer = g + 1 ∧ ((pageMem g j).writable = true ↔ g < 73) ∧
      (pageMem g j).hugePage = false := by
  unfold pageMem at hp ⊢
  by_cases hg : (70 ≤ g ∧ g ≤ 73) ∧ j = 511
  · simp only [if_pos hg]
    have : g + 1 < 2 ^ 40 := by omega
    refine ⟨hg.1.2, ?_, by simp, rfl⟩
    simp [tableEntry, PageMapEntry.pointer, PageMapEntry.setPointer]
    omega
  · exfalso
    rw [if_neg hg] at hp
    have h3 : g ≠ 1 := by omega
    have h4 : g ≠ 2 := by omega
    have h5 : ¬ (3 ≤ g ∧ g < 67) := by omega
    simp [bootMem, h3, h4, h5, PageMapEntry.zero] at hp

theorem pageMem_table : ∀ {q : Path} {t : Nat}, q.length ≤ 4 → tableAt pageMem 70 q = some t → t = 70 + q.length
  | [], t, _, h => (Option.some.inj h).symm
  | i :: q, t, hlen, h => by
    rw [List.length_cons] at hlen
    obtain ⟨u, hu, hp, rfl⟩ := tableAt_cons.mp h
    have hu := pageMem_table (by omega) hu
    obtain ⟨-, hptr, -⟩ := pageMem_entry (by omega) (by omega) hp
    rw [hptr, hu, List.length_cons]
    omega

theorem pageMachine_image : Image 70 pageMachine where
  root := ⟨pageMachine_getBit (by decide), by decide⟩
  inner {p t i} hs hlen hp := by
    have ht := pageMem_table (by omega) hs.table
    exact (pageMem_entry (by omega) (by omega) hp).2.2.1.mpr (by omega)
  small {p t i} hs hlen hp := by
    have ht := pageMem_table (by omega) hs.table
    exact (pageMem_entry (by omega) (by omega) hp).2.2.2
  frames {p t i} hs hp := by
    have hd := hs.depth
    have ht := pageMem_table (by omega) hs.table
    have hptr := (pageMem_entry (by omega) (by omega) hp).2.1
    change pageMachine.mgr.getBit (pageMem t i).pointer = true ∧ (pageMem t i).pointer ≠ 75
    rw [hptr]
    exact ⟨pageMachine_getBit (by omega), by omega⟩

theorem pageMachine_zero (i : Fin 512) (_ : Upper i) : pageMachine.mem pageMachine.cr3 i = .zero := by
  change pageMem 75 i = .zero
  unfold pageMem bootMem
  simp

theorem pageMachine_range : pageMachine.mgr.rangeEnd ≤ kFrameCount := by
  have := (BitmapMemoryManager.setBits_range true 76 (BitmapMemoryManager.init.setMemoryRange 1 100) 0).2
  change (BitmapMemoryManager.setBits _ true 0 76).rangeEnd ≤ kFrameCount
  rw [this]
  decide

theorem pageMachine_copy : ∃ s1, copyPageMaps 4 75 70 256 pageMachine = .ok ⟨⟩ s1 := by
  have h : (match copyPageMaps 4 75 70 256 pageMachine with
    | .ok _ _ => true
    | .error _ _ => false) = true := by decide +kernel
  cases hc : copyPageMaps 4 75 70 256 pageMachine with
  | ok _ s1 => exact ⟨s1, rfl⟩
  | error _ _ =>
    rw [hc] at h
    cases h

/-- The copy is made, a page of stack is set up below the page of the image, and that page is written to. -/
theorem pageMachine_run : ∃ s1 s2 s3, copyPageMaps 4 75 70 256 pageMachine = .ok ⟨⟩ s1 ∧
    setupPageMaps (.ofValue 0xffffffffffffe000) 1 true s1 = .ok ⟨⟩ s2 ∧
    mapping s2.mem s2.cr3 [511, 511, 511, 511] = some (74, false) ∧ s2.cr3 = 75 ∧
    handlePageFault 7 0xfffffffffffff123 s2 = .ok ⟨⟩ s3 := by
  have h : (match copyPageMaps 4 75 70 256 pageMachine with
    | .ok _ s1 => match setupPageMaps (.ofValue 0xffffffffffffe000) 1 true s1 with
      | .ok _ s2 => (mapping s2.mem s2.cr3 [511, 511, 511, 511] == some (74, false) && s2.cr3 == 75) &&
        match handlePageFault 7 0xfffffffffffff123 s2 with
        | .ok _ _ => true
        | .error _ _ => false
      | .error _ _ => false
    | .error _ _ => false) = true := by decide +kernel
  cases hcopy : copyPageMaps 4 75 70 256 pageMachine with
  | error _ _ => simp only [hcopy, Bool.false_eq_true] at h
  | ok _ s1 =>
    cases hsetup : setupPageMaps (.ofValue 0xffffffffffffe000) 1 true s1 with
    | error _ _ => simp only [hcopy, hsetup, Bool.false_eq_true] at h
    | ok _ s2 =>
      cases hfault : handlePageFault 7 0xfffffffffffff123 s2 with
      | error _ _ => simp only [hcopy, hsetup, hfault, Bool.and_false, Bool.false_eq_true] at h
      | ok _ s3 =>
        simp only [hcopy, hsetup, hfault, Bool.and_true, Bool.and_eq_true, beq_iff_eq] at h
        exact ⟨s1, s2, s3, rfl, hsetup, h.1, h.2, hfault⟩

/-- The page of stack is none of the image. -/
theorem pageMachine_below {q : Path} (hlen : q.length = 4)
    (hq : (LinearAddress4Level.ofValue 0xffffffffffffe000).PagesFrom 1 q) : tableAt pageMachine.mem 70 q = none := by
  have hpath : Path.number (LinearAddress4Level.ofValue 0xffffffffffffe000).path = Path.number [510, 511, 511, 511] := by
    decide
  obtain ⟨h1, h2⟩ := hq
  obtain rfl : q = [510, 511, 511, 511] := Path.number_inj hlen (by omega)
  decide +kernel

/-- The one page is shared read-only until it is written to. Then the program has a copy in a frame that was free, and the
image is as before. -/
theorem copy_on_write_one_page : ∃ s1 s2 s3, copyPageMaps 4 75 70 256 pageMachine = .ok ⟨⟩ s1 ∧
    mapping s1.mem 75 [511, 511, 511, 511] = some (74, false) ∧
    setupPageMaps (.ofValue 0xffffffffffffe000) 1 true s1 = .ok ⟨⟩ s2 ∧ handlePageFault 7 0xfffffffffffff123 s2 = .ok ⟨⟩ s3 ∧
    (∃ f, s2.mgr.getBit f = false ∧ mapping s3.mem 75 [511, 511, 511, 511] = some (f, true) ∧ s3.mem f = s2.mem 74) ∧
    mapping s3.mem 75 [510, 511, 511, 511] = mapping s2.mem 75 [510, 511, 511, 511] ∧ s3.mem 74 = pageMem 74 := by
  obtain ⟨s1, s2, s3, hcopy, hsetup, hmap, hcr3, hfault⟩ := pageMachine_run
  obtain ⟨hpages, -, -, hrun⟩ := copy_on_write_isolation pageMachine_image pageMachine_zero (pageMachine_getBit (by decide))
    pageMachine_range hcopy
  have hupper : Upper 511 := by
    unfold Upper
    decide
  have hstack := @Op.setup pageMachine 70 s1 (.ofValue 0xffffffffffffe000) 1 hupper fun q => pageMachine_below
  rw [exec, hsetup] at hstack
  have hshared : mapping s2.mem 75 [511, 511, 511, 511] = some (74, false) := hcr3 ▸ hmap
  have hwrite := @Op.writeFault pageMachine 70 s2 7 0xfffffffffffff123 74 (by decide) hupper hmap
  rw [exec, hfault] at hwrite
  obtain ⟨f, hfree, hcopied, hsame, hothers⟩ := (hrun s2 (.single hstack)).2.2.1 7 0xfffffffffffff123 74 s3 (by decide) hupper
    hshared hfault
  have himage := (hrun s3 (.tail (.single hstack) hwrite)).1 74 ⟨[511, 511, 511, 511], by decide, hupper, by decide +kernel⟩
  exact ⟨s1, s2, s3, hcopy, (hpages [511, 511, 511, 511] rfl hupper).trans (by decide +kernel), hsetup, hfault,
    ⟨f, hfree, hcopied, hsame⟩, hothers [510, 511, 511, 511] rfl hupper (by decide), himage⟩

end KinOS.Paging
