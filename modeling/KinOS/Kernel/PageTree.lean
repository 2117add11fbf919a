import KinOS.Kernel.Paging

/-!
# Page maps as trees

A page map is the root of a tree of page maps, and an entry of it is named by the indices that lead to it. The frames
a tree owns are marked in the tree itself: an entry that is present and writable owns the frame it points to. `Space`
says that this marking is exact for the upper half of a PML4, and the three ways in which the kernel writes an entry
(`Space.touch`, `Space.own`, `Space.share`) keep it.
-/

namespace KinOS.Paging

/-- Indices from a page map down, the deepest first. -/
abbrev Path := List (Fin 512)

/-- The frame the path leads to. -/
def tableAt (mem : Memory) (root : Nat) : Path → Option Nat
  | [] => some root
  | i :: p => (tableAt mem root p).bind fun t => if (mem t i).present then some (mem t i).pointer else none

/-- The first index taken satisfies `P`. -/
def Top (P : Fin 512 → Prop) : Path → Prop
  | [] => True
  | [i] => P i
  | _ :: j :: p => Top P (j :: p)

theorem Top.tail {P : Fin 512 → Prop} {i : Fin 512} : ∀ {p : Path}, Top P (i :: p) → Top P p
  | [], _ => trivial
  | _ :: _, h => h

theorem Top.suffix {P : Fin 512 → Prop} {q' : Path} : ∀ {q : Path}, q' <:+ q → Top P q → Top P q'
  | [], hs, _ => by
    rw [List.suffix_nil.mp hs]
    trivial
  | _ :: _, hs, ht => by
    rcases List.suffix_cons_iff.mp hs with rfl | hs
    · exact ht
    · exact Top.suffix hs ht.tail

theorem Top.append {P : Fin 512 → Prop} {i : Fin 512} {p : Path} (h : Top P (i :: p)) : ∀ r : Path, Top P (r ++ i :: p)
  | [] => h
  | [_] => h
  | _ :: k :: r => Top.append h (k :: r)

/-- `i` is an entry of the page map `t`, which the path leads to. -/
structure Slot (mem : Memory) (root : Nat) (P : Fin 512 → Prop) (d : Nat) (p : Path) (t : Nat) (i : Fin 512) :
    Prop where
  table : tableAt mem root p = some t
  top : Top P (i :: p)
  depth : p.length < d

/-- The entry owns the frame it points to: `CleanPageMap` frees it. -/
def PageMapEntry.Owns (e : PageMapEntry) : Prop := e.present = true ∧ e.writable = true

theorem tableAt_cons {mem : Memory} {root u : Nat} {i : Fin 512} {p : Path} :
    tableAt mem root (i :: p) = some u ↔
      ∃ t, tableAt mem root p = some t ∧ (mem t i).present = true ∧ (mem t i).pointer = u := by
  rw [tableAt, Option.bind_eq_some_iff]
  refine exists_congr fun t => and_congr_right fun _ => ?_
  split
  · next h => simp [h]
  · next h => simp [h]

/-- Every page map of the tree but the root is owned by the entry that leads to it, and no frame is owned twice. -/
structure Tree (mem : Memory) (root : Nat) (P : Fin 512 → Prop) (d : Nat) : Prop where
  inner : ∀ {p t i}, Slot mem root P d p t i → p.length + 1 < d → (mem t i).present = true →
    (mem t i).writable = true
  inj : ∀ {p t i q u j}, Slot mem root P d p t i → Slot mem root P d q u j → (mem t i).Owns → (mem u j).Owns →
    (mem t i).pointer = (mem u j).pointer → i :: p = j :: q
  root : ∀ {p t i}, Slot mem root P d p t i → (mem t i).Owns → (mem t i).pointer ≠ root

section
variable {mem : Memory} {root : Nat} {P : Fin 512 → Prop} {d : Nat}

theorem Tree.table {p : Path} {u : Nat} {i : Fin 512} (h : Tree mem root P d) (htab : tableAt mem root (i :: p) = some u)
    (htop : Top P (i :: p)) (hd : p.length + 1 < d) :
    ∃ t, Slot mem root P d p t i ∧ (mem t i).Owns ∧ (mem t i).pointer = u := by
  obtain ⟨t, ht, hpres, hptr⟩ := tableAt_cons.mp htab
  have hslot : Slot mem root P d p t i := ⟨ht, htop, by omega⟩
  exact ⟨t, hslot, ⟨hpres, h.inner hslot hd hpres⟩, hptr⟩

/-- No two paths lead to one page map. -/
theorem Tree.table_inj (h : Tree mem root P d) {t : Nat} : ∀ {p q : Path}, tableAt mem root p = some t →
    tableAt mem root q = some t → Top P p → Top P q → p.length < d → q.length < d → p = q
  | [], [], _, _, _, _, _, _ => rfl
  | [], j :: q, hp, hq, _, hqt, _, hqd => by
    obtain ⟨u, hs, ho, hptr⟩ := h.table hq hqt hqd
    exact absurd (hptr.trans (Option.some.inj hp).symm) (h.root hs ho)
  | i :: p, [], hp, hq, hpt, _, hpd, _ => by
    obtain ⟨u, hs, ho, hptr⟩ := h.table hp hpt hpd
    exact absurd (hptr.trans (Option.some.inj hq).symm) (h.root hs ho)
  | i :: p, j :: q, hp, hq, hpt, hqt, hpd, hqd => by
    obtain ⟨u, hs, ho, hptr⟩ := h.table hp hpt hpd
    obtain ⟨v, hs', ho', hptr'⟩ := h.table hq hqt hqd
    exact h.inj hs hs' ho ho' (hptr.trans hptr'.symm)

theorem Tree.slot_inj (h : Tree mem root P d) {p q : Path} {t : Nat} {i j : Fin 512} (hp : Slot mem root P d p t i)
    (hq : Slot mem root P d q t j) : p = q :=
  h.table_inj hp.table hq.table hp.top.tail hq.top.tail hp.depth hq.depth

end

/-! ## Writing an entry -/

section
variable {mem mem' : Memory} {root : Nat} {P : Fin 512 → Prop} {d : Nat}

/-- The paths are read off the entries' `present` and `pointer`. -/
theorem tableAt_congr : ∀ {q : Path}, (∀ p t i, tableAt mem root p = some t → i :: p <:+ q →
    (mem' t i).present = (mem t i).present ∧ (mem' t i).pointer = (mem t i).pointer) →
    tableAt mem' root q = tableAt mem root q
  | [], _ => rfl
  | i :: p, h => by
    have ih := tableAt_congr (q := p) fun p' t j ht hs => h p' t j ht (List.suffix_cons_iff.mpr (.inr hs))
    rw [tableAt, tableAt, ih]
    cases ht : tableAt mem root p with
    | none => rfl
    | some t =>
      obtain ⟨h1, h2⟩ := h p t i ht (List.suffix_refl _)
      simp only [Option.bind_some, h1, h2]

/-- The entries of a tree are read off its entries. -/
theorem slot_congr (h : ∀ {q u j}, Slot mem root P d q u j → mem' u j = mem u j) {q : Path} {u : Nat} {j : Fin 512} :
    Slot mem' root P d q u j ↔ Slot mem root P d q u j := by
  have htab : Top P q → q.length < d → tableAt mem' root q = tableAt mem root q := fun htop hlen =>
    tableAt_congr fun p t i ht hs => by
      have hl := hs.length_le
      rw [List.length_cons] at hl
      rw [h ⟨ht, htop.suffix hs, by omega⟩]
      exact ⟨rfl, rfl⟩
  constructor
  · rintro ⟨h1, h2, h3⟩
    exact ⟨(htab h2.tail h3).symm.trans h1, h2, h3⟩
  · rintro ⟨h1, h2, h3⟩
    exact ⟨(htab h2.tail h3).trans h1, h2, h3⟩

/-- One entry of a tree is rewritten, and the contents of frames `F` that no path leads to. -/
structure Rewrite (mem mem' : Memory) (root : Nat) (P : Fin 512 → Prop) (d : Nat) (p : Path) (t : Nat) (i : Fin 512)
    (F : Nat → Prop) : Prop where
  slot : Slot mem root P d p t i
  other : ∀ g j, ¬ F g → ¬ (g = t ∧ j = i) → mem' g j = mem g j
  unused : ∀ {q u}, tableAt mem root q = some u → Top P q → q.length < d → ¬ F u

variable {p : Path} {t : Nat} {i : Fin 512} {f : Nat} {F : Nat → Prop}

/-- Paths that do not pass the entry lead where they led. -/
theorem Rewrite.tableAt_eq (h : Rewrite mem mem' root P d p t i F) (htree : Tree mem root P d) {q : Path}
    (htop : Top P q) (hlen : q.length < d) (hq : ¬ i :: p <:+ q) : tableAt mem' root q = tableAt mem root q := by
  refine tableAt_congr fun p' t' j ht' hs => ?_
  have hpre := htop.suffix hs
  have hlen' : (j :: p').length ≤ q.length := hs.length_le
  rw [List.length_cons] at hlen'
  have heq : mem' t' j = mem t' j := by
    refine h.other t' j (h.unused ht' hpre.tail (by omega)) fun ⟨he, hj⟩ => ?_
    subst he hj
    have hp := htree.table_inj ht' h.slot.table hpre.tail h.slot.top.tail (by omega) h.slot.depth
    rw [← hp] at hq
    exact hq hs
  rw [heq]
  exact ⟨rfl, rfl⟩

/-- An entry of another page map, or another entry of this one. -/
theorem Rewrite.entry_eq (h : Rewrite mem mem' root P d p t i F) (htree : Tree mem root P d) {q : Path} {u : Nat}
    {j : Fin 512} (hs : Slot mem root P d q u j) (hne : j :: q ≠ i :: p) : mem' u j = mem u j := by
  refine h.other u j (h.unused hs.table hs.top.tail hs.depth) fun ⟨he, hj⟩ => ?_
  subst he hj
  exact hne (by rw [htree.slot_inj hs h.slot])

/-- A path through an entry that is not present leads nowhere. -/
theorem tableAt_none {q' : Path} (h : tableAt mem root q' = none) : ∀ {q : Path}, q' <:+ q → tableAt mem root q = none
  | [], hs => by rwa [List.suffix_nil.mp hs] at h
  | j :: q, hs => by
    rcases List.suffix_cons_iff.mp hs with rfl | hs
    · exact h
    · rw [tableAt, tableAt_none h hs]
      rfl

/-- The entries of the tree once the entry points to the frame `f`: those of before and, if the entry leads to a page
map, those of the new page map. -/
theorem Rewrite.slot_iff (h : Rewrite mem mem' root P d p t i F) (htree : Tree mem root P d)
    (hpres : (mem' t i).present = true) (hptr : (mem' t i).pointer = f)
    (hinner : p.length + 1 < d → (mem t i).present = false ∧ mem' f = fun _ => .zero) {q : Path} {u : Nat}
    {j : Fin 512} :
    Slot mem' root P d q u j ↔ Slot mem root P d q u j ∨ p.length + 1 < d ∧ q = i :: p ∧ u = f := by
  have hp : tableAt mem' root p = some t := by
    rw [h.tableAt_eq htree h.slot.top.tail h.slot.depth fun hs => absurd hs.length_le (by simp), h.slot.table]
  by_cases hs : i :: p <:+ q
  · constructor
    · rintro ⟨htab, htop, hlen⟩
      have hd : p.length + 1 < d := Nat.lt_of_le_of_lt hs.length_le hlen
      obtain ⟨hold, hzero⟩ := hinner hd
      rcases Decidable.eq_or_ne q (i :: p) with rfl | hne
      · obtain ⟨t', ht', -, hu⟩ := tableAt_cons.mp htab
        obtain rfl : t = t' := Option.some.inj (hp.symm.trans ht')
        exact .inr ⟨hd, rfl, hu.symm.trans hptr⟩
      · -- below the new page map, which is empty
        exfalso
        obtain ⟨r, rfl⟩ := hs
        rcases List.eq_nil_or_concat r with rfl | ⟨r, k, rfl⟩
        · exact hne rfl
        · have hnone : tableAt mem' root (k :: i :: p) = none := by
            rw [tableAt, tableAt, hp]
            simp only [Option.bind_some, hpres, if_true, hptr, hzero]
            rfl
          have := tableAt_none hnone (q := r.concat k ++ i :: p) ⟨r, by simp⟩
          rw [this] at htab
          cases htab
    · rintro (⟨htab, htop, hlen⟩ | ⟨hd, rfl, rfl⟩)
      · have hd : p.length + 1 < d := Nat.lt_of_le_of_lt hs.length_le hlen
        have hnone : tableAt mem root (i :: p) = none := by
          rw [tableAt, h.slot.table]
          simp [(hinner hd).1]
        rw [tableAt_none hnone hs] at htab
        cases htab
      · refine ⟨?_, h.slot.top, hd⟩
        rw [tableAt, hp]
        simp [hpres, hptr]
  · have heq : Top P q → q.length < d → tableAt mem' root q = tableAt mem root q := fun ht hl => h.tableAt_eq htree ht hl hs
    constructor
    · rintro ⟨htab, htop, hlen⟩
      exact .inl ⟨(heq htop.tail hlen).symm.trans htab, htop, hlen⟩
    · rintro (⟨htab, htop, hlen⟩ | ⟨-, rfl, -⟩)
      · exact ⟨(heq htop.tail hlen).trans htab, htop, hlen⟩
      · exact absurd (List.suffix_refl _) hs

/-- An entry of the last level leads to no page map. -/
theorem Rewrite.slot_iff_leaf (h : Rewrite mem mem' root P d p t i F) (htree : Tree mem root P d)
    (hleaf : d ≤ p.length + 1) {q : Path} {u : Nat} {j : Fin 512} :
    Slot mem' root P d q u j ↔ Slot mem root P d q u j := by
  have heq : Top P q → q.length < d → tableAt mem' root q = tableAt mem root q := fun ht hl =>
    h.tableAt_eq htree ht hl fun hs => by
      have := hs.length_le
      rw [List.length_cons] at this
      omega
  constructor
  · rintro ⟨htab, htop, hlen⟩
    exact ⟨(heq htop.tail hlen).symm.trans htab, htop, hlen⟩
  · rintro ⟨htab, htop, hlen⟩
    exact ⟨(heq htop.tail hlen).trans htab, htop, hlen⟩

/-- An entry of the new tree is the one rewritten, or as it was, or in the new page map. -/
theorem Rewrite.cases (h : Rewrite mem mem' root P d p t i F) (htree : Tree mem root P d)
    (hpres : (mem' t i).present = true) (hptr : (mem' t i).pointer = f)
    (hinner : p.length + 1 < d → (mem t i).present = false ∧ mem' f = fun _ => .zero) {q : Path} {u : Nat}
    {j : Fin 512} (hs : Slot mem' root P d q u j) :
    q = p ∧ u = t ∧ j = i ∨ (Slot mem root P d q u j ∧ mem' u j = mem u j) ∨ p.length + 1 < d ∧ u = f := by
  rcases (h.slot_iff htree hpres hptr hinner).mp hs with hold | ⟨hd, rfl, rfl⟩
  · by_cases he : j :: q = i :: p
    · obtain ⟨rfl, rfl⟩ := List.cons.inj he
      exact .inl ⟨rfl, Option.some.inj (hold.table.symm.trans h.slot.table), rfl⟩
    · exact .inr (.inl ⟨hold, h.entry_eq htree hold he⟩)
  · exact .inr (.inr ⟨hd, rfl⟩)

/-- A present entry is not in the new page map, which is empty. -/
theorem Rewrite.present_cases (h : Rewrite mem mem' root P d p t i F) (htree : Tree mem root P d)
    (hpres : (mem' t i).present = true) (hptr : (mem' t i).pointer = f)
    (hinner : p.length + 1 < d → (mem t i).present = false ∧ mem' f = fun _ => .zero) {q : Path} {u : Nat}
    {j : Fin 512} (hs : Slot mem' root P d q u j) (hj : (mem' u j).present = true) :
    q = p ∧ u = t ∧ j = i ∨ Slot mem root P d q u j ∧ mem' u j = mem u j := by
  rcases h.cases htree hpres hptr hinner hs with hself | hold | ⟨hd, rfl⟩
  · exact .inl hself
  · exact .inr hold
  · rw [(hinner hd).2] at hj
    cases hj

end

/-! ## Address spaces -/

/-- The upper half of a PML4. -/
def Upper (i : Fin 512) : Prop := 256 ≤ i.val

/-- **An address space.** The upper half of the PML4 `root` is a tree that owns exactly the marked frames that are not
in `base`, and shares only frames of `base`. -/
structure Space (base : Nat → Prop) (root : Nat) (s : Machine) : Prop where
  tree : Tree s.mem root Upper 4
  rootBase : base root
  own : ∀ {p t i}, Slot s.mem root Upper 4 p t i → (s.mem t i).Owns → ¬ base (s.mem t i).pointer
  marks : ∀ f, s.mgr.getBit f = true ↔
    base f ∨ ∃ p t i, Slot s.mem root Upper 4 p t i ∧ (s.mem t i).Owns ∧ (s.mem t i).pointer = f
  share : ∀ {p t i}, Slot s.mem root Upper 4 p t i → (s.mem t i).present = true → ¬ (s.mem t i).Owns →
    base (s.mem t i).pointer
  absent : ∀ {p t i}, Slot s.mem root Upper 4 p t i → (s.mem t i).present = false → s.mem t i = .zero
  small : ∀ {p t i}, Slot s.mem root Upper 4 p t i → p.length < 3 → (s.mem t i).hugePage = false
  range : s.mgr.rangeEnd ≤ kFrameCount

theorem BitmapMemoryManager.allocate_one {m m' : BitmapMemoryManager} {f : Nat} (h : m.allocate 1 = (.ok f, m')) :
    m.getBit f = false ∧ f < m.rangeEnd ∧ m'.rangeEnd = m.rangeEnd ∧
      ∀ g, m'.getBit g = true ↔ m.getBit g = true ∨ g = f := by
  rcases m.allocate_spec (Nat.le_refl 1) with ⟨f', he, ⟨-, hend, hfree⟩, -⟩ | ⟨he, -⟩ <;> rw [he] at h <;> cases h
  refine ⟨hfree f (Nat.le_refl _) (by omega), by omega, (m.setBits_range true 1 f).2, fun g => ?_⟩
  rw [markAllocated, getBit_setBits]
  by_cases hg : g = f
  · rw [if_pos (by omega)]
    simp [hg]
  · rw [if_neg (by omega)]
    simp [hg]

theorem BitmapMemoryManager.allocate_one_free {m m' : BitmapMemoryManager} {f : Nat}
    (h : m.allocate 1 = (.ok f, m')) : m.FreeRun 1 f := by
  rcases m.allocate_spec (Nat.le_refl 1) with ⟨f', he, hrun, -⟩ | ⟨he, -⟩ <;> rw [he] at h <;> cases h
  exact hrun

theorem BitmapMemoryManager.allocate_one_error {m m' : BitmapMemoryManager} {e : Error}
    (h : m.allocate 1 = (.error e, m')) : m' = m ∧ e = .kNoEnoughMemory ∧ ∀ f, ¬ m.FreeRun 1 f := by
  rcases m.allocate_spec (Nat.le_refl 1) with ⟨f', he, -⟩ | ⟨he, hno⟩ <;> rw [he] at h <;> cases h
  exact ⟨rfl, rfl, hno⟩

/-- The two machines differ in no entry's frame or bits `present`, `writable` and `hugePage`. -/
structure Same (root : Nat) (s s' : Machine) : Prop where
  mgr : s'.mgr = s.mgr
  entry : ∀ {p t i}, Slot s.mem root Upper 4 p t i → (s'.mem t i).present = (s.mem t i).present ∧
    (s'.mem t i).writable = (s.mem t i).writable ∧ (s'.mem t i).pointer = (s.mem t i).pointer
  huge : ∀ {p t i}, Slot s.mem root Upper 4 p t i → (s'.mem t i).hugePage = (s.mem t i).hugePage
  absent : ∀ {p t i}, Slot s.mem root Upper 4 p t i → (s.mem t i).present = false → s'.mem t i = s.mem t i

theorem Same.slot_iff {root : Nat} {s s' : Machine} (h : Same root s s') {q : Path} {u : Nat} {j : Fin 512} :
    Slot s'.mem root Upper 4 q u j ↔ Slot s.mem root Upper 4 q u j := by
  have htab : Top Upper q → q.length < 4 → tableAt s'.mem root q = tableAt s.mem root q := fun htop hlen =>
    tableAt_congr fun p t i ht hs => by
      have hl := hs.length_le
      rw [List.length_cons] at hl
      have he := h.entry ⟨ht, htop.suffix hs, by omega⟩
      exact ⟨he.1, he.2.2⟩
  constructor
  · rintro ⟨h1, h2, h3⟩
    exact ⟨(htab h2.tail h3).symm.trans h1, h2, h3⟩
  · rintro ⟨h1, h2, h3⟩
    exact ⟨(htab h2.tail h3).trans h1, h2, h3⟩

/-- An empty upper half has no entries but those of the PML4. -/
theorem slot_of_empty {mem : Memory} {root : Nat} (hzero : ∀ i, Upper i → mem root i = .zero) {p : Path} {t : Nat}
    {i : Fin 512} (hs : Slot mem root Upper 4 p t i) : p = [] ∧ mem t i = .zero := by
  have hnone : ∀ {p : Path}, p ≠ [] → Top Upper p → tableAt mem root p = none := by
    intro p
    induction p with
    | nil => exact fun h => absurd rfl h
    | cons j p ih =>
      intro _ htop
      cases p with
      | nil =>
        rw [tableAt, tableAt, Option.bind_some, hzero j htop]
        rfl
      | cons k p =>
        rw [tableAt, ih (by simp) htop]
        rfl
  rcases Decidable.eq_or_ne p [] with rfl | hne
  · rw [← Option.some.inj hs.table]
    exact ⟨rfl, hzero i hs.top⟩
  · have := hs.table
    rw [hnone hne hs.top.tail] at this
    cases this

namespace Space

variable {base : Nat → Prop} {root : Nat} {s s' : Machine} {p : Path} {t : Nat} {i : Fin 512}

theorem marked (h : Space base root s) : ∀ {q : Path} {u : Nat}, tableAt s.mem root q = some u → Top Upper q →
    q.length < 4 → s.mgr.getBit u = true
  | [], u, hq, _, _ => by
    rw [← Option.some.inj hq, h.marks]
    exact .inl h.rootBase
  | j :: q, u, hq, htop, hlen => by
    obtain ⟨t, hs, ho, rfl⟩ := h.tree.table hq htop hlen
    rw [h.marks]
    exact .inr ⟨q, t, j, hs, ho, rfl⟩

/-- Entries are rewritten with the same frames and the same bits `present`, `writable` and `hugePage`. -/
theorem touch (h : Space base root s) (hsame : Same root s s') : Space base root s' := by
  have hsl := fun {q u j} => hsame.slot_iff (q := q) (u := u) (j := j)
  have hown : ∀ {q u j}, Slot s.mem root Upper 4 q u j → ((s'.mem u j).Owns ↔ (s.mem u j).Owns) := fun hs => by
    unfold PageMapEntry.Owns
    rw [(hsame.entry hs).1, (hsame.entry hs).2.1]
  refine ⟨⟨?_, ?_, ?_⟩, h.rootBase, ?_, fun f => ?_, ?_, ?_, ?_, ?_⟩
  · intro q u j hs hd hp
    have hs := hsl.mp hs
    rw [(hsame.entry hs).1] at hp
    rw [(hsame.entry hs).2.1]
    exact h.tree.inner hs hd hp
  · intro q u j q' u' j' hs hs' ho ho' he
    have hs := hsl.mp hs
    have hs' := hsl.mp hs'
    rw [(hsame.entry hs).2.2, (hsame.entry hs').2.2] at he
    exact h.tree.inj hs hs' ((hown hs).mp ho) ((hown hs').mp ho') he
  · intro q u j hs ho
    have hs := hsl.mp hs
    rw [(hsame.entry hs).2.2]
    exact h.tree.root hs ((hown hs).mp ho)
  · intro q u j hs ho
    have hs := hsl.mp hs
    rw [(hsame.entry hs).2.2]
    exact h.own hs ((hown hs).mp ho)
  · rw [hsame.mgr, h.marks]
    refine or_congr_right (exists_congr fun q => exists_congr fun u => exists_congr fun j => ?_)
    rw [hsl]
    refine and_congr_right fun hs => ?_
    rw [hown hs, (hsame.entry hs).2.2]
  · intro q u j hs hp ho
    have hs := hsl.mp hs
    rw [(hsame.entry hs).1] at hp
    rw [(hsame.entry hs).2.2]
    exact h.share hs hp fun ho' => ho ((hown hs).mpr ho')
  · intro q u j hs hp
    have hs := hsl.mp hs
    rw [(hsame.entry hs).1] at hp
    rw [hsame.absent hs hp]
    exact h.absent hs hp
  · intro q u j hs hd
    have hs := hsl.mp hs
    rw [hsame.huge hs]
    exact h.small hs hd
  · rw [hsame.mgr]
    exact h.range

theorem rewrite (h : Space base root s) (hslot : Slot s.mem root Upper 4 p t i) {f : Nat}
    (hfree : s.mgr.getBit f = false) (hother : ∀ g j, g ≠ f → ¬ (g = t ∧ j = i) → s'.mem g j = s.mem g j) :
    Rewrite s.mem s'.mem root Upper 4 p t i (· = f) where
  slot := hslot
  other := hother
  unused hq htop hlen he := by
    rw [← he, h.marked hq htop hlen] at hfree
    cases hfree

/-- An entry that owns nothing is made to own a frame just allocated. -/
theorem acquire (h : Space base root s) (hslot : Slot s.mem root Upper 4 p t i) {f : Nat}
    (halloc : s.mgr.allocate 1 = (.ok f, s'.mgr))
    (hother : ∀ g j, g ≠ f → ¬ (g = t ∧ j = i) → s'.mem g j = s.mem g j)
    (hold : ¬ (s.mem t i).Owns) (hnew : (s'.mem t i).Owns) (hptr : (s'.mem t i).pointer = f)
    (hinner : p.length + 1 < 4 → (s.mem t i).present = false ∧ s'.mem f = fun _ => .zero)
    (hsmall : p.length < 3 → (s'.mem t i).hugePage = false) : Space base root s' := by
  obtain ⟨hfree, hlt, hrange, hmarks⟩ := BitmapMemoryManager.allocate_one halloc
  have hR := h.rewrite hslot hfree hother
  have hcases := fun {q u j} => hR.present_cases h.tree hnew.1 hptr hinner (q := q) (u := u) (j := j)
  have hentries := fun {q u j} => hR.cases h.tree hnew.1 hptr hinner (q := q) (u := u) (j := j)
  have hslots := fun {q u j} => hR.slot_iff h.tree hnew.1 hptr hinner (q := q) (u := u) (j := j)
  have hbase : ¬ base f := fun hb => by
    rw [(h.marks f).mpr (.inl hb)] at hfree
    cases hfree
  -- no entry of before points to the new frame as its own
  have hfresh : ∀ {q u j}, Slot s.mem root Upper 4 q u j → (s.mem u j).Owns → (s.mem u j).pointer ≠ f := by
    intro q u j hs ho he
    rw [(h.marks f).mpr (.inr ⟨q, u, j, hs, ho, he⟩)] at hfree
    cases hfree
  refine ⟨⟨?_, ?_, ?_⟩, h.rootBase, ?_, fun g => ?_, ?_, ?_, ?_, ?_⟩
  · intro q u j hs hd hp
    rcases hcases hs hp with ⟨rfl, rfl, rfl⟩ | ⟨hs, he⟩
    · exact hnew.2
    · rw [he] at hp ⊢
      exact h.tree.inner hs hd hp
  · intro q u j q' u' j' hs hs' ho ho' heq
    rcases hcases hs ho.1 with ⟨rfl, rfl, rfl⟩ | ⟨hs, he⟩ <;> rcases hcases hs' ho'.1 with ⟨rfl, rfl, rfl⟩ | ⟨hs', he'⟩
    · rfl
    · rw [he'] at ho' heq
      exact absurd (heq.symm.trans hptr) (hfresh hs' ho')
    · rw [he] at ho heq
      exact absurd (heq.trans hptr) (hfresh hs ho)
    · rw [he] at ho heq
      rw [he'] at ho' heq
      exact h.tree.inj hs hs' ho ho' heq
  · intro q u j hs ho
    rcases hcases hs ho.1 with ⟨rfl, rfl, rfl⟩ | ⟨hs, he⟩
    · rw [hptr]
      exact fun he => hbase (he ▸ h.rootBase)
    · rw [he] at ho ⊢
      exact h.tree.root hs ho
  · intro q u j hs ho
    rcases hcases hs ho.1 with ⟨rfl, rfl, rfl⟩ | ⟨hs, he⟩
    · rwa [hptr]
    · rw [he] at ho ⊢
      exact h.own hs ho
  · rw [hmarks, h.marks, or_assoc]
    refine or_congr_right ⟨?_, ?_⟩
    · rintro (⟨q, u, j, hs, ho, he⟩ | rfl)
      · have hne : j :: q ≠ i :: p := fun hc => by
          obtain ⟨rfl, rfl⟩ := List.cons.inj hc
          obtain rfl := Option.some.inj (hs.table.symm.trans hslot.table)
          exact hold ho
        have hsame := hR.entry_eq h.tree hs hne
        exact ⟨q, u, j, hslots.mpr (.inl hs), hsame ▸ ho, hsame ▸ he⟩
      · exact ⟨p, t, i, hslots.mpr (.inl hslot), hnew, hptr⟩
    · rintro ⟨q, u, j, hs, ho, he⟩
      rcases hcases hs ho.1 with ⟨rfl, rfl, rfl⟩ | ⟨hs, hsame⟩
      · exact .inr (he.symm.trans hptr)
      · rw [hsame] at ho he
        exact .inl ⟨q, u, j, hs, ho, he⟩
  · intro q u j hs hp ho
    rcases hcases hs hp with ⟨rfl, rfl, rfl⟩ | ⟨hs, he⟩
    · exact absurd hnew ho
    · rw [he] at hp ho ⊢
      exact h.share hs hp ho
  · intro q u j hs hp
    rcases hentries hs with ⟨rfl, rfl, rfl⟩ | ⟨hs, he⟩ | ⟨hd, rfl⟩
    · rw [hnew.1] at hp
      cases hp
    · rw [he] at hp ⊢
      exact h.absent hs hp
    · rw [(hinner hd).2]
  · intro q u j hs hlen
    rcases hentries hs with ⟨rfl, rfl, rfl⟩ | ⟨hs, he⟩ | ⟨hd, rfl⟩
    · exact hsmall hlen
    · rw [he]
      exact h.small hs hlen
    · rw [(hinner hd).2]
      rfl
  · rw [hrange]
    exact h.range

/-- Another frame is allocated and filled. -/
theorem adopt (h : Space base root s) {f : Nat} (halloc : s.mgr.allocate 1 = (.ok f, s'.mgr))
    (hother : ∀ g, g ≠ f → s'.mem g = s.mem g) : Space (fun g => base g ∨ g = f) root s' := by
  obtain ⟨hfree, hlt, hrange, hmarks⟩ := BitmapMemoryManager.allocate_one halloc
  have hentry : ∀ {q u j}, Slot s.mem root Upper 4 q u j → s'.mem u j = s.mem u j := by
    intro q u j hs
    rw [hother u fun he => ?_]
    rw [← he, h.marked hs.table hs.top.tail hs.depth] at hfree
    cases hfree
  have hslots : ∀ {q u j}, Slot s'.mem root Upper 4 q u j ↔ Slot s.mem root Upper 4 q u j := slot_congr hentry
  refine ⟨⟨?_, ?_, ?_⟩, .inl h.rootBase, ?_, fun g => ?_, ?_, ?_, ?_, ?_⟩
  · intro q u j hs hd hp
    have hs := hslots.mp hs
    rw [hentry hs] at hp ⊢
    exact h.tree.inner hs hd hp
  · intro q u j q' u' j' hs hs' ho ho' heq
    have hs := hslots.mp hs
    have hs' := hslots.mp hs'
    rw [hentry hs] at ho heq
    rw [hentry hs'] at ho' heq
    exact h.tree.inj hs hs' ho ho' heq
  · intro q u j hs ho
    have hs := hslots.mp hs
    rw [hentry hs] at ho ⊢
    exact h.tree.root hs ho
  · rintro q u j hs ho (hb | he)
    · have hs := hslots.mp hs
      rw [hentry hs] at ho hb
      exact h.own hs ho hb
    · have hs := hslots.mp hs
      rw [hentry hs] at ho he
      rw [(h.marks f).mpr (.inr ⟨q, u, j, hs, ho, he⟩)] at hfree
      cases hfree
  · rw [hmarks, h.marks, or_right_comm]
    refine or_congr_right (exists_congr fun q => exists_congr fun u => exists_congr fun j => ?_)
    rw [hslots]
    refine and_congr_right fun hs => ?_
    rw [hentry hs]
  · intro q u j hs hp ho
    have hs := hslots.mp hs
    rw [hentry hs] at hp ho ⊢
    exact .inl (h.share hs hp ho)
  · intro q u j hs hp
    have hs := hslots.mp hs
    rw [hentry hs] at hp ⊢
    exact h.absent hs hp
  · intro q u j hs hlen
    have hs := hslots.mp hs
    rw [hentry hs]
    exact h.small hs hlen
  · rw [hrange]
    exact h.range

/-- An entry of the last level, not present, is made to share a frame of `base`. -/
theorem borrow (h : Space base root s) (hslot : Slot s.mem root Upper 4 p t i) (hleaf : p.length = 3)
    (hmgr : s'.mgr = s.mgr) (hother : ∀ g j, ¬ (g = t ∧ j = i) → s'.mem g j = s.mem g j)
    (hold : (s.mem t i).present = false) (hw : (s'.mem t i).writable = false)
    (hpres : (s'.mem t i).present = true)
    (hbase : base (s'.mem t i).pointer) : Space base root s' := by
  have hR : Rewrite s.mem s'.mem root Upper 4 p t i fun _ => False := ⟨hslot, fun g j _ => hother g j, fun _ _ _ => id⟩
  have hslots : ∀ {q u j}, Slot s'.mem root Upper 4 q u j ↔ Slot s.mem root Upper 4 q u j :=
    hR.slot_iff_leaf h.tree (by omega)
  have hcases : ∀ {q u j}, Slot s'.mem root Upper 4 q u j → j :: q = i :: p ∧ u = t ∨
      Slot s.mem root Upper 4 q u j ∧ s'.mem u j = s.mem u j := by
    intro q u j hs
    by_cases he : j :: q = i :: p
    · obtain ⟨rfl, rfl⟩ := List.cons.inj he
      exact .inl ⟨rfl, Option.some.inj ((hslots.mp hs).table.symm.trans hslot.table)⟩
    · exact .inr ⟨hslots.mp hs, hR.entry_eq h.tree (hslots.mp hs) he⟩
  have hnot : ¬ (s'.mem t i).Owns := fun ho => Bool.eq_false_iff.mp hw ho.2
  -- so the entries that own a frame are those of before
  have howned : ∀ {q u j}, Slot s'.mem root Upper 4 q u j → (s'.mem u j).Owns →
      Slot s.mem root Upper 4 q u j ∧ s'.mem u j = s.mem u j := by
    intro q u j hs ho
    rcases hcases hs with ⟨he, rfl⟩ | h
    · obtain ⟨rfl, rfl⟩ := List.cons.inj he
      exact absurd ho hnot
    · exact h
  refine ⟨⟨?_, ?_, ?_⟩, h.rootBase, ?_, fun g => ?_, ?_, ?_, ?_, ?_⟩
  · intro q u j hs hd hp
    rcases hcases hs with ⟨he, rfl⟩ | ⟨hs, he⟩
    · obtain ⟨rfl, rfl⟩ := List.cons.inj he
      omega
    · rw [he] at hp ⊢
      exact h.tree.inner hs hd hp
  · intro q u j q' u' j' hs hs' ho ho' heq
    obtain ⟨hs, he⟩ := howned hs ho
    obtain ⟨hs', he'⟩ := howned hs' ho'
    rw [he] at ho heq
    rw [he'] at ho' heq
    exact h.tree.inj hs hs' ho ho' heq
  · intro q u j hs ho
    obtain ⟨hs, he⟩ := howned hs ho
    rw [he] at ho ⊢
    exact h.tree.root hs ho
  · intro q u j hs ho
    obtain ⟨hs, he⟩ := howned hs ho
    rw [he] at ho ⊢
    exact h.own hs ho
  · rw [hmgr, h.marks]
    refine or_congr_right ⟨?_, ?_⟩
    · rintro ⟨q, u, j, hs, ho, he⟩
      have hne : j :: q ≠ i :: p := fun hc => by
        obtain ⟨rfl, rfl⟩ := List.cons.inj hc
        obtain rfl := Option.some.inj (hs.table.symm.trans hslot.table)
        exact Bool.eq_false_iff.mp hold ho.1
      have hsame := hR.entry_eq h.tree hs hne
      exact ⟨q, u, j, hslots.mpr hs, hsame ▸ ho, hsame ▸ he⟩
    · rintro ⟨q, u, j, hs, ho, he⟩
      obtain ⟨hs, hsame⟩ := howned hs ho
      rw [hsame] at ho he
      exact ⟨q, u, j, hs, ho, he⟩
  · intro q u j hs hp ho
    rcases hcases hs with ⟨he, rfl⟩ | ⟨hs, he⟩
    · obtain ⟨rfl, rfl⟩ := List.cons.inj he
      exact hbase
    · rw [he] at hp ho ⊢
      exact h.share hs hp ho
  · intro q u j hs hp
    rcases hcases hs with ⟨he, rfl⟩ | ⟨hs, he⟩
    · obtain ⟨rfl, rfl⟩ := List.cons.inj he
      rw [hpres] at hp
      cases hp
    · rw [he] at hp ⊢
      exact h.absent hs hp
  · intro q u j hs hlen
    rcases hcases hs with ⟨he, rfl⟩ | ⟨hs, he⟩
    · obtain ⟨rfl, rfl⟩ := List.cons.inj he
      omega
    · rw [he]
      exact h.small hs hlen
  · rw [hmgr]
    exact h.range

/-- A PML4 whose upper half is empty, with all that is marked as `base`. -/
theorem of_empty (hzero : ∀ i, Upper i → s.mem root i = .zero) (hroot : s.mgr.getBit root = true)
    (hrange : s.mgr.rangeEnd ≤ kFrameCount) : Space (fun f => s.mgr.getBit f = true) root s := by
  have hentry := fun {p t i} => slot_of_empty hzero (p := p) (t := t) (i := i)
  have hpres : ∀ {p t i}, Slot s.mem root Upper 4 p t i → (s.mem t i).present = false := fun hs => by
    rw [(hentry hs).2]
    rfl
  have hown : ∀ {p t i}, Slot s.mem root Upper 4 p t i → ¬ (s.mem t i).Owns := fun hs ho =>
    Bool.eq_false_iff.mp (hpres hs) ho.1
  refine ⟨⟨fun hs _ hp => ?_, fun hs _ ho => absurd ho (hown hs), fun hs ho => absurd ho (hown hs)⟩, hroot,
    fun hs ho => absurd ho (hown hs), fun f => ⟨.inl, ?_⟩, fun hs hp => ?_, fun hs _ => (hentry hs).2, fun hs _ => ?_,
      hrange⟩
  · rw [hpres hs] at hp
    cases hp
  · rintro (hm | ⟨p, t, i, hs, ho, -⟩)
    · exact hm
    · exact absurd ho (hown hs)
  · rw [hpres hs] at hp
    cases hp
  · rw [(hentry hs).2]
    rfl

end Space

end KinOS.Paging
