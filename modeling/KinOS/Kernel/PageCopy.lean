import KinOS.Kernel.PageFault

/-!
# Copy on write

`CopyPageMaps` builds an address space that shares every page of an image and owns every page map of its own
(`copyPageMaps_spec`). `Cloned` is what stays true from then on, whatever page faults and `SetupPageMaps` calls follow:
the image is as it was, and a page still shared is mapped as the image maps it.
-/

namespace KinOS.Paging

/-- An image as `SetupPageMaps(…, writable = false)` builds it under the PML4 `src`, in frames that are marked and are
not the PML4 the machine runs on. -/
structure Image (src : Nat) (s : Machine) : Prop where
  root : s.mgr.getBit src = true ∧ src ≠ s.cr3
  inner : ∀ {p t i}, Slot s.mem src Upper 4 p t i → p.length < 3 → (s.mem t i).present = true →
    (s.mem t i).writable = true
  small : ∀ {p t i}, Slot s.mem src Upper 4 p t i → p.length < 3 → (s.mem t i).present = true →
    (s.mem t i).hugePage = false
  frames : ∀ {p t i}, Slot s.mem src Upper 4 p t i → (s.mem t i).present = true →
    s.mgr.getBit (s.mem t i).pointer = true ∧ (s.mem t i).pointer ≠ s.cr3

/-- A frame of the image: one of its page maps or a page. -/
def Image.Frame (src : Nat) (s : Machine) (f : Nat) : Prop :=
  ∃ q : Path, q.length ≤ 4 ∧ Top Upper q ∧ tableAt s.mem src q = some f

/-- The current PML4 of `s0` was empty in the upper half, and `s` is what the kernel has made of it since. -/
structure Cloned (s0 : Machine) (src : Nat) (s : Machine) : Prop where
  space : Space (fun f => s0.mgr.getBit f = true) s0.cr3 s
  frame : ∀ g, s0.mgr.getBit g = true → g ≠ s0.cr3 → s.mem g = s0.mem g
  lower : ∀ i, ¬ Upper i → s.mem s0.cr3 i = s0.mem s0.cr3 i
  leaf : ∀ {p t i}, Slot s.mem s0.cr3 Upper 4 p t i → p.length = 3 → (s.mem t i).present = true →
    (s.mem t i).writable = false → tableAt s0.mem src (i :: p) = some (s.mem t i).pointer
  cr3 : s.cr3 = s0.cr3
  frees : s.frees = s0.frees

section
variable {s0 s s' : Machine} {src : Nat} {p : Path} {t : Nat} {i : Fin 512}

theorem Image.frame_of_table (h : Image src s) : ∀ {q : Path} {u : Nat}, tableAt s.mem src q = some u → Top Upper q →
    q.length ≤ 4 → s.mgr.getBit u = true ∧ u ≠ s.cr3
  | [], u, hq, _, _ => by
    rw [← Option.some.inj hq]
    exact h.root
  | j :: q, u, hq, htop, hlen => by
    obtain ⟨t, ht, hp, rfl⟩ := tableAt_cons.mp hq
    exact h.frames ⟨ht, htop, hlen⟩ hp

/-- Frames of the image are left alone. -/
theorem Cloned.image (h : Cloned s0 src s) (hsrc : Image src s0) {f : Nat} (hf : Image.Frame src s0 f) :
    s.mem f = s0.mem f := by
  obtain ⟨q, hlen, htop, hq⟩ := hf
  obtain ⟨hm, hne⟩ := hsrc.frame_of_table hq htop hlen
  exact h.frame f hm hne

/-- The page maps of the image are read as they were. -/
theorem Cloned.image_table (h : Cloned s0 src s) (hsrc : Image src s0) {q : Path} {u : Nat}
    (hq : tableAt s0.mem src q = some u) (htop : Top Upper q) (hlen : q.length < 4) : s.mem u = s0.mem u :=
  h.image hsrc ⟨q, Nat.le_of_lt hlen, htop, hq⟩

/-- A page map of the clone is its PML4 or none of the frames of before. -/
theorem Cloned.table_cases (h : Cloned s0 src s) (hslot : Slot s.mem s0.cr3 Upper 4 p t i) :
    p = [] ∧ t = s0.cr3 ∧ Upper i ∨ s0.mgr.getBit t = false := by
  cases p with
  | nil => exact .inl ⟨rfl, (Option.some.inj hslot.table).symm, hslot.top⟩
  | cons j p =>
    obtain ⟨u, hs, ho, rfl⟩ := h.space.tree.table hslot.table hslot.top.tail hslot.depth
    exact .inr (Bool.eq_false_iff.mpr (h.space.own hs ho))

/-- Writes to an entry of the clone and to frames that were not marked leave the rest alone. -/
theorem Cloned.written (h : Cloned s0 src s) (hslot : Slot s.mem s0.cr3 Upper 4 p t i) {F : Nat → Prop}
    (hF : ∀ g, F g → s0.mgr.getBit g = false)
    (hother : ∀ g j, ¬ F g → ¬ (g = t ∧ j = i) → s'.mem g j = s.mem g j) :
    (∀ g, s0.mgr.getBit g = true → g ≠ s0.cr3 → s'.mem g = s0.mem g) ∧
      (s0.mgr.getBit s0.cr3 = true → ∀ j, ¬ Upper j → s'.mem s0.cr3 j = s0.mem s0.cr3 j) := by
  have hnF : ∀ {g}, s0.mgr.getBit g = true → ¬ F g := fun hg hf => by
    rw [hF _ hf] at hg
    cases hg
  refine ⟨fun g hg hne => ?_, fun hroot j hj => ?_⟩
  · rw [← h.frame g hg hne]
    funext j
    refine hother g j (hnF hg) fun ⟨he, _⟩ => ?_
    rcases h.table_cases hslot with ⟨-, ht, -⟩ | ht
    · exact hne (he.trans ht)
    · rw [← he, hg] at ht
      cases ht
  · rw [← h.lower j hj]
    refine hother _ j (hnF hroot) fun ⟨he, hij⟩ => ?_
    rcases h.table_cases hslot with ⟨-, -, hi⟩ | ht
    · exact hj (hij ▸ hi)
    · rw [← he, hroot] at ht
      cases ht

theorem Cloned.rootMarked (h : Cloned s0 src s) : s0.mgr.getBit s0.cr3 = true := h.space.rootBase

/-- A frame just allocated was not marked before. -/
theorem Cloned.fresh (h : Cloned s0 src s) {f : Nat} (hf : s.mgr.getBit f = false) : s0.mgr.getBit f = false :=
  Bool.eq_false_iff.mpr fun hm => Bool.eq_false_iff.mp hf ((h.space.marks f).mpr (.inl hm))

/-- The machine before the copy. -/
theorem Cloned.start (hzero : ∀ i, Upper i → s0.mem s0.cr3 i = .zero) (hroot : s0.mgr.getBit s0.cr3 = true)
    (hrange : s0.mgr.rangeEnd ≤ kFrameCount) : Cloned s0 src s0 := by
  have hsp := Space.of_empty hzero hroot hrange
  refine ⟨hsp, fun _ _ _ => rfl, fun _ _ => rfl, fun hs hlen _ _ => ?_, rfl, rfl⟩
  rw [(slot_of_empty hzero hs).1] at hlen
  cases hlen

/-- An entry that owned nothing is given a frame just allocated. -/
theorem Cloned.acquire (h : Cloned s0 src s) (hslot : Slot s.mem s0.cr3 Upper 4 p t i) {f : Nat}
    (halloc : s.mgr.allocate 1 = (.ok f, s'.mgr))
    (hother : ∀ g j, g ≠ f → ¬ (g = t ∧ j = i) → s'.mem g j = s.mem g j)
    (hold : ¬ (s.mem t i).Owns) (hnew : (s'.mem t i).Owns) (hptr : (s'.mem t i).pointer = f)
    (hinner : p.length + 1 < 4 → (s.mem t i).present = false ∧ s'.mem f = fun _ => .zero)
    (hsmall : p.length < 3 → (s'.mem t i).hugePage = false) (hcr3 : s'.cr3 = s.cr3) (hfrees : s'.frees = s.frees) :
    Cloned s0 src s' := by
  obtain ⟨hfree, -, -, -⟩ := BitmapMemoryManager.allocate_one halloc
  have hR := h.space.rewrite hslot hfree hother
  obtain ⟨hframe, hlower⟩ := h.written hslot (F := (· = f)) (fun g hg => hg ▸ h.fresh hfree) hother
  refine ⟨h.space.acquire hslot halloc hother hold hnew hptr hinner hsmall, hframe, hlower h.rootMarked, ?_,
    hcr3.trans h.cr3, hfrees.trans h.frees⟩
  intro q u j hs hlen hp hw
  rcases hR.present_cases h.space.tree hnew.1 hptr hinner hs hp with ⟨rfl, rfl, rfl⟩ | ⟨hs, he⟩
  · rw [hnew.2] at hw
    cases hw
  · rw [he] at hp hw ⊢
    exact h.leaf hs hlen hp hw

/-- An entry of the last level is given a page of the image, read-only. -/
theorem Cloned.borrow (h : Cloned s0 src s) (hsrc : Image src s0) (hslot : Slot s.mem s0.cr3 Upper 4 p t i)
    (hleaf : p.length = 3) (hmgr : s'.mgr = s.mgr) (hother : ∀ g j, ¬ (g = t ∧ j = i) → s'.mem g j = s.mem g j)
    (hold : (s.mem t i).present = false) (hw : (s'.mem t i).writable = false) (hpres : (s'.mem t i).present = true)
    (hpage : tableAt s0.mem src (i :: p) = some (s'.mem t i).pointer) (hcr3 : s'.cr3 = s.cr3)
    (hfrees : s'.frees = s.frees) : Cloned s0 src s' := by
  have hR : Rewrite s.mem s'.mem s0.cr3 Upper 4 p t i fun _ => False :=
    ⟨hslot, fun g j _ => hother g j, fun _ _ _ => id⟩
  obtain ⟨hframe, hlower⟩ := h.written hslot (F := fun _ => False) (fun _ hf => hf.elim) fun g j _ => hother g j
  have hbase : s0.mgr.getBit (s'.mem t i).pointer = true :=
    (hsrc.frame_of_table hpage hslot.top (by simp [hleaf])).1
  refine ⟨h.space.borrow hslot hleaf hmgr hother hold hw hpres hbase, hframe, hlower h.rootMarked, ?_,
    hcr3.trans h.cr3, hfrees.trans h.frees⟩
  intro q u j hs hlen hp hw'
  have hs' := (hR.slot_iff_leaf h.space.tree (by omega)).mp hs
  by_cases he : j :: q = i :: p
  · obtain ⟨rfl, rfl⟩ := List.cons.inj he
    obtain rfl := Option.some.inj (hs'.table.symm.trans hslot.table)
    exact hpage
  · rw [hR.entry_eq h.space.tree hs' he] at hp hw' ⊢
    exact h.leaf hs' hlen hp hw'

theorem Cloned.leaf_same (h : Cloned s0 src s) (hsame : Same s0.cr3 s s') (hslot : Slot s'.mem s0.cr3 Upper 4 p t i)
    (hlen : p.length = 3) (hp : (s'.mem t i).present = true) (hw : (s'.mem t i).writable = false) :
    tableAt s0.mem src (i :: p) = some (s'.mem t i).pointer := by
  have hs := hsame.slot_iff.mp hslot
  obtain ⟨h1, h2, h3⟩ := hsame.entry hs
  rw [h1] at hp
  rw [h2] at hw
  rw [h3]
  exact h.leaf hs hlen hp hw

/-- `SetupPageMaps` for writing. -/
theorem Cloned.extend {pages : Path → Prop} (h : Cloned s0 src s) (hstep : Extend true pages s0.cr3 s s') :
    Cloned s0 src s' := by
  cases hstep with
  | @touch p t i hslot hpres =>
    have hsame := @same_user s0.cr3 _ _ i hpres
    obtain ⟨hframe, hlower⟩ := h.written hslot
      (F := fun _ => False) (fun _ hf => hf.elim) fun g j _ hj => Machine.mem_setEntry_of_ne hj
    refine ⟨h.space.touch hsame, hframe, hlower h.rootMarked, fun {q u j} hs hlen hp hw => ?_, h.cr3, h.frees⟩
    exact h.leaf_same hsame hs hlen hp hw
  | @link p t f i m e hslot habs halloc hp hptr hin hleaf hhuge =>
    have hl := IsSpace.linked ⟨_, h.space⟩ hslot habs halloc hp hptr
    have hw : e.writable = true := by
      rcases Nat.lt_or_ge p.length 3 with hlt | hge
      · exact hin hlt
      · have := hslot.depth
        exact (hleaf (by omega)).1
    refine h.acquire hslot hl.alloc hl.rewrite.other (fun ho => Bool.eq_false_iff.mp habs ho.1) ?_ hl.pointer
      (fun _ => ⟨habs, hl.zero⟩) (fun hd => ?_) rfl rfl <;> rw [Machine.mem_setEntry_self]
    · exact ⟨hp, hw⟩
    · exact hhuge.trans (h.space.small hslot hd)

theorem Cloned.extends {pages : Path → Prop} (h : Cloned s0 src s) (hrun : Extends true pages s0.cr3 s s') :
    Cloned s0 src s' :=
  TransitionSystem.invariant h (fun _ _ h hstep => h.extend hstep) hrun

end

/-! ## `CopyPageMaps` -/

section
variable {s0 s s' s1 : Machine} {src : Nat} {p : Path}

/-- What the copy of the page map at `p` leaves alone: entries that are present, and all that is not below `p`. -/
structure Keeps (root : Nat) (p : Path) (s s' : Machine) : Prop where
  slot : ∀ {q u j}, Slot s.mem root Upper 4 q u j → Slot s'.mem root Upper 4 q u j
  present : ∀ {q u j}, Slot s.mem root Upper 4 q u j → (s.mem u j).present = true → s'.mem u j = s.mem u j
  other : ∀ {q u j}, Slot s.mem root Upper 4 q u j → ¬ p <:+ q → s'.mem u j = s.mem u j

theorem Keeps.refl (root : Nat) (p : Path) (s : Machine) : Keeps root p s s := ⟨id, fun _ _ => rfl, fun _ _ => rfl⟩

theorem Keeps.trans {root : Nat} (h1 : Keeps root p s s1) (h2 : Keeps root p s1 s') : Keeps root p s s' := by
  refine ⟨fun hs => h2.slot (h1.slot hs), fun hs hp => ?_, fun hs hq => ?_⟩
  · have he := h1.present hs hp
    rw [h2.present (h1.slot hs) (he ▸ hp), he]
  · rw [h2.other (h1.slot hs) hq, h1.other hs hq]

theorem Keeps.up {root : Nat} {i : Fin 512} (h : Keeps root (i :: p) s s') : Keeps root p s s' :=
  ⟨h.slot, h.present, fun hs hq => h.other hs fun hs' => hq ((List.suffix_cons i p).trans hs')⟩

/-- A path to a page or a page map that is there stays. -/
theorem Keeps.tableAt {root : Nat} (h : Keeps root p s s') {q : Path} {u : Nat} (hq : tableAt s.mem root q = some u)
    (htop : Top Upper q) (hlen : q.length ≤ 4) : tableAt s'.mem root q = some u := by
  cases q with
  | nil => exact hq
  | cons j q =>
    obtain ⟨t, ht, hp, rfl⟩ := tableAt_cons.mp hq
    have hs : Slot s.mem root Upper 4 q t j := ⟨ht, htop, hlen⟩
    have he := h.present hs hp
    exact tableAt_cons.mpr ⟨t, (h.slot hs).table, he ▸ hp, he ▸ rfl⟩

/-- No page is mapped for writing. -/
def Pristine (root : Nat) (s : Machine) : Prop :=
  ∀ {p t i}, Slot s.mem root Upper 4 p t i → p.length = 3 → (s.mem t i).present = true → (s.mem t i).writable = false

theorem mem_indicesFrom {start i : Fin 512} : i ∈ indicesFrom start ↔ start ≤ i := by
  unfold indicesFrom
  rw [List.mem_drop_iff_getElem]
  constructor
  · rintro ⟨k, hk, rfl⟩
    rw [List.getElem_finRange]
    exact Fin.le_def.mpr (by simp)
  · intro h
    have hi := i.isLt
    have h' := Fin.le_def.mp h
    refine ⟨i.val - start.val, ?_, ?_⟩
    · rw [List.length_finRange]
      omega
    · rw [List.getElem_finRange]
      exact Fin.ext (by simp; omega)

theorem nodup_indicesFrom (start : Fin 512) : (indicesFrom start).Nodup :=
  (List.nodup_finRange 512).sublist (List.drop_sublist ..)

/-- Copying an entry of the last level. -/
theorem Cloned.share_entry (h : Cloned s0 src s) (hsrc : Image src s0) (hpr : Pristine s0.cr3 s) {td ts : Nat}
    {i : Fin 512} (hslot : Slot s.mem s0.cr3 Upper 4 p td i) (hleaf : p.length = 3)
    (hts : tableAt s0.mem src p = some ts) (habs : (s.mem td i).present = false)
    (hpres : (s0.mem ts i).present = true)
    (hs' : s' = s.setEntry td i { s0.mem ts i with writable := false }) :
    Cloned s0 src s' ∧ Pristine s0.cr3 s' ∧ Keeps s0.cr3 p s s' ∧
      tableAt s'.mem s0.cr3 (i :: p) = some (s0.mem ts i).pointer ∧ ∀ j, j ≠ i → s'.mem td j = s.mem td j := by
  have hself : s'.mem td i = { s0.mem ts i with writable := false } := by
    rw [hs']
    exact Machine.mem_setEntry_self
  have hother : ∀ g j, ¬ (g = td ∧ j = i) → s'.mem g j = s.mem g j := fun g j hj => by
    rw [hs']
    exact Machine.mem_setEntry_of_ne hj
  have hR : Rewrite s.mem s'.mem s0.cr3 Upper 4 p td i fun _ => False :=
    ⟨hslot, fun g j _ => hother g j, fun _ _ _ => id⟩
  have hslots := fun {q u j} => hR.slot_iff_leaf h.space.tree (by omega) (q := q) (u := u) (j := j)
  have hcl : Cloned s0 src s' := by
    refine h.borrow hsrc hslot hleaf ?_ hother habs ?_ ?_ ?_ ?_ ?_
    · rw [hs']
      rfl
    · rw [hself]
    · rw [hself]
      exact hpres
    · rw [hself]
      exact tableAt_cons.mpr ⟨ts, hts, hpres, rfl⟩
    · rw [hs']
      rfl
    · rw [hs']
      rfl
  -- the entry was not present
  have hne : ∀ {q u j}, Slot s.mem s0.cr3 Upper 4 q u j → (s.mem u j).present = true → j :: q ≠ i :: p := by
    intro q u j hs hp hc
    obtain ⟨rfl, rfl⟩ := List.cons.inj hc
    obtain rfl := Option.some.inj (hs.table.symm.trans hslot.table)
    rw [habs] at hp
    cases hp
  refine ⟨hcl, ?_, ⟨hslots.mpr, fun hs hp => hR.entry_eq h.space.tree hs (hne hs hp), fun hs hq => ?_⟩, ?_, ?_⟩
  · intro q u j hs hlen hp
    have hs1 := hslots.mp hs
    by_cases he : j :: q = i :: p
    · obtain ⟨rfl, rfl⟩ := List.cons.inj he
      obtain rfl := Option.some.inj (hs1.table.symm.trans hslot.table)
      rw [hself]
    · rw [hR.entry_eq h.space.tree hs1 he] at hp ⊢
      exact hpr hs1 hlen hp
  · refine hR.entry_eq h.space.tree hs fun hc => hq ?_
    simp only [(List.cons.inj hc).2, List.suffix_refl]
  · refine tableAt_cons.mpr ⟨td, (hslots.mpr hslot).table, ?_, ?_⟩ <;> rw [hself]
    · exact hpres
    · rfl
  · exact fun j hj => hother td j fun hc => hj hc.2

/-- Copying an entry that leads to a page map, up to the copy of that page map. -/
theorem Cloned.link_entry (h : Cloned s0 src s) (hsrc : Image src s0) (hpr : Pristine s0.cr3 s) {td ts f : Nat}
    {i : Fin 512} {m : BitmapMemoryManager} (hslot : Slot s.mem s0.cr3 Upper 4 p td i) (hlen : p.length < 3)
    (hts : tableAt s0.mem src p = some ts) (habs : (s.mem td i).present = false)
    (hpres : (s0.mem ts i).present = true) (halloc : s.mgr.allocate 1 = (.ok f, m))
    (hs' : s' = ({ s with mgr := m }.setFrame f fun _ => .zero).setEntry td i ((s0.mem ts i).setPointer f)) :
    Cloned s0 src s' ∧ Pristine s0.cr3 s' ∧ Keeps s0.cr3 p s s' ∧ tableAt s'.mem s0.cr3 (i :: p) = some f ∧
      (∀ j, s'.mem f j = .zero) ∧ ∀ j, j ≠ i → s'.mem td j = s.mem td j := by
  subst hs'
  have hsp : IsSpace s0.cr3 s := ⟨_, h.space⟩
  have hsslot : Slot s0.mem src Upper 4 p ts i := ⟨hts, hslot.top, hslot.depth⟩
  obtain ⟨hfree, hlt, -, -⟩ := BitmapMemoryManager.allocate_one halloc
  have hl := hsp.linked hslot habs halloc (e := (s0.mem ts i).setPointer f) hpres
    (PageMapEntry.pointer_setPointer (Nat.lt_of_lt_of_le hlt h.space.range))
  have hself := Machine.mem_setEntry_self (s := { s with mgr := m }.setFrame f fun _ => .zero) (t := td) (i := i)
    (e := (s0.mem ts i).setPointer f)
  have hslots := fun {q u j} => hl.slot_iff h.space (q := q) (u := u) (j := j)
  refine ⟨?_, ?_, ⟨fun hs => hslots.mpr (.inl hs), fun hs hp => hl.entry_eq h.space hs hp, fun hs hq => ?_⟩, ?_, ?_, ?_⟩
  · refine h.acquire hslot hl.alloc hl.rewrite.other (fun ho => Bool.eq_false_iff.mp habs ho.1) ?_ hl.pointer
      (fun _ => ⟨habs, hl.zero⟩) (fun _ => ?_) rfl rfl <;> rw [hself]
    · exact ⟨hpres, hsrc.inner hsslot hlen hpres⟩
    · exact hsrc.small hsslot hlen hpres
  · intro q u j hs hd hp
    rcases hl.present_cases h.space hs hp with ⟨rfl, -, -⟩ | ⟨hs, he⟩
    · omega
    · rw [he] at hp ⊢
      exact hpr hs hd hp
  · refine hl.rewrite.entry_eq h.space.tree hs fun hc => hq ?_
    simp only [(List.cons.inj hc).2, List.suffix_refl]
  · exact (hslots.mpr (.inr ⟨by omega, rfl, rfl⟩) : Slot _ s0.cr3 Upper 4 (i :: p) f 0).table
  · exact fun j => congrFun hl.zero j
  · exact fun j hj => hl.rewrite.other td j (h.space.table_ne hslot hfree) fun hc => hj hc.2

/-- The pages of the image below the entry `i` of the page map at `p` are mapped as the image maps them. -/
def Covered (s0 : Machine) (src level : Nat) (p : Path) (s : Machine) (i : Fin 512) : Prop :=
  ∀ r : Path, r.length = level → ∀ f, tableAt s0.mem src (r ++ i :: p) = some f →
    tableAt s.mem s0.cr3 (r ++ i :: p) = some f

/-- What a copy of a page map of level `level + 1` does, wherever in the tree the page map is. -/
def CopySpec (s0 : Machine) (src level : Nat) (run : Nat → Nat → Fin 512 → KernelM Unit) : Prop :=
  ∀ (p : Path) (td ts : Nat) (start : Fin 512) (s : Machine), Cloned s0 src s → Pristine s0.cr3 s →
    tableAt s.mem s0.cr3 p = some td → tableAt s0.mem src p = some ts → p.length + (level + 1) = 4 →
    (∀ i, start ≤ i → Top Upper (i :: p)) → (∀ i, start ≤ i → (s.mem td i).present = false) →
    After (run td ts start) s
      (fun _ s' => Cloned s0 src s' ∧ Pristine s0.cr3 s' ∧ Keeps s0.cr3 p s s' ∧
        ∀ i, start ≤ i → Covered s0 src level p s' i)
      (fun e s' => Cloned s0 src s' ∧ e = .error .kNoEnoughMemory)

/-- The loops of `CopyPageMaps` have one round for each entry: it is copied, and the others are left alone. -/
theorem copy_loop {level td : Nat} {start : Fin 512} {round : Fin 512 → KernelM Unit}
    (hround : ∀ {s i}, start ≤ i → Cloned s0 src s → Pristine s0.cr3 s → tableAt s.mem s0.cr3 p = some td →
      (s.mem td i).present = false →
      After (round i) s (fun _ s' => Cloned s0 src s' ∧ Pristine s0.cr3 s' ∧ Keeps s0.cr3 p s s' ∧
        Covered s0 src level p s' i ∧ ∀ j, start ≤ j → j ≠ i → s'.mem td j = s.mem td j)
        (fun e s' => Cloned s0 src s' ∧ e = .error .kNoEnoughMemory))
    (htop : ∀ i, start ≤ i → Top Upper (i :: p)) (hlen : p.length + (level + 1) = 4)
    (h : Cloned s0 src s) (hpr : Pristine s0.cr3 s) (htab : tableAt s.mem s0.cr3 p = some td)
    (habs : ∀ i, start ≤ i → (s.mem td i).present = false) :
    After ((indicesFrom start).forM round) s
      (fun _ s' => Cloned s0 src s' ∧ Pristine s0.cr3 s' ∧ Keeps s0.cr3 p s s' ∧
        ∀ i, start ≤ i → Covered s0 src level p s' i)
      (fun e s' => Cloned s0 src s' ∧ e = .error .kNoEnoughMemory) := by
  let I : List (Fin 512) → Machine → Prop := fun l s' => ∃ done, indicesFrom start = done ++ l ∧ Cloned s0 src s' ∧
    Pristine s0.cr3 s' ∧ Keeps s0.cr3 p s s' ∧ tableAt s'.mem s0.cr3 p = some td ∧
    (∀ i ∈ l, (s'.mem td i).present = false) ∧ ∀ i ∈ done, Covered s0 src level p s' i
  have hpt : Top Upper p := (htop start (Fin.le_refl _)).tail
  refine (After.forM (I := I) ?_ ⟨[], rfl, h, hpr, .refl .., htab, fun i hi => habs i (mem_indicesFrom.mp hi),
    by simp⟩).imp ?_ fun _ _ => id
  · rintro i l s1 ⟨done, hl, h1, hpr1, hk1, htab1, habs1, hcov1⟩
    have hmem : ∀ j ∈ done ++ i :: l, start ≤ j := fun j hj => mem_indicesFrom.mp (hl ▸ hj)
    have hnd : (done ++ i :: l).Nodup := hl ▸ nodup_indicesFrom start
    obtain ⟨-, hnd', -⟩ := List.nodup_append.mp hnd
    obtain ⟨hil, -⟩ := List.nodup_cons.mp hnd'
    refine (hround (hmem i (by simp)) h1 hpr1 htab1 (habs1 i (by simp))).imp ?_ fun _ _ => id
    rintro _ s2 ⟨h2, hpr2, hk2, hcov2, hother⟩
    refine ⟨done ++ [i], by simp [hl], h2, hpr2, hk1.trans hk2, hk2.tableAt htab1 hpt (by omega),
      fun j hj => ?_, fun j hj => ?_⟩
    · rw [hother j (hmem j (by simp [hj])) fun he => hil (he ▸ hj)]
      exact habs1 j (by simp [hj])
    · rcases List.mem_append.mp hj with hj | hj
      · intro r hr f hf
        have hjt : Top Upper (j :: p) := htop j (hmem j (by simp [hj]))
        exact hk2.tableAt (hcov1 j hj r hr f hf) (hjt.append r) (by simp; omega)
      · rw [List.mem_singleton.mp hj]
        exact hcov2
  · rintro _ s' ⟨done, hl, h', hpr', hk', -, -, hcov⟩
    rw [List.append_nil] at hl
    exact ⟨h', hpr', hk', fun i hi => hcov i (hl ▸ mem_indicesFrom.mpr hi)⟩

/-- **`CopyPageMaps`**: every page of the image below the page map is shared, unless there are too few frames. -/
theorem copyPageMaps_spec (hsrc : Image src s0) : ∀ level, CopySpec s0 src level (copyPageMaps (level + 1))
  | 0 => fun p td ts start s h hpr htab hts hlen htop habs => by
    refine copy_loop ?_ htop hlen h hpr htab habs
    intro s i hi h hpr htab habs
    have hslot : Slot s.mem s0.cr3 Upper 4 p td i := ⟨htab, htop i hi, by omega⟩
    have hmem : s.mem ts = s0.mem ts := h.image_table hsrc hts hslot.top.tail hslot.depth
    refine .get_bind (.ite (fun hp => .modify ?_) fun hp => .pure ⟨h, hpr, .refl .., ?_, fun _ _ _ => rfl⟩)
    · simp only [hmem] at hp ⊢
      obtain ⟨h', hpr', hk', hpage, hother⟩ := h.share_entry hsrc hpr hslot (by omega) hts habs hp rfl
      refine ⟨h', hpr', hk', fun r hr f hf => ?_, fun j _ => hother j⟩
      obtain rfl := List.eq_nil_of_length_eq_zero hr
      rw [List.nil_append] at hf ⊢
      obtain ⟨t, ht, -, rfl⟩ := tableAt_cons.mp hf
      obtain rfl := Option.some.inj (hts.symm.trans ht)
      exact hpage
    · intro r hr f hf
      obtain rfl := List.eq_nil_of_length_eq_zero hr
      obtain ⟨t, ht, hp', -⟩ := tableAt_cons.mp hf
      obtain rfl := Option.some.inj (hts.symm.trans ht)
      simp only [hmem] at hp
      exact absurd hp' hp
  | level + 1 => fun p td ts start s h hpr htab hts hlen htop habs => by
    refine copy_loop ?_ htop hlen h hpr htab habs
    intro s i hi h hpr htab habs
    have hslot : Slot s.mem s0.cr3 Upper 4 p td i := ⟨htab, htop i hi, by omega⟩
    have hmem : s.mem ts = s0.mem ts := h.image_table hsrc hts hslot.top.tail hslot.depth
    refine .get_bind (.ite (fun hp => ?_) fun hp => .pure ⟨h, hpr, .refl .., ?_, fun _ _ _ => rfl⟩)
    · simp only [hmem] at hp
      refine .bind ((newPageMap_after s).imp (fun _ _ => id) fun e s1 he => ⟨he.1 ▸ h, he.2⟩) ?_
      rintro f s1 ⟨m, halloc, hs1⟩
      obtain ⟨hfree, -, -, -⟩ := BitmapMemoryManager.allocate_one halloc
      have hsf : ts ≠ f := fun he => by
        have hm := (hsrc.frame_of_table hts hslot.top.tail (by omega)).1
        rw [he, h.fresh hfree] at hm
        cases hm
      have hmem1 : s1.mem ts = s0.mem ts := by
        rw [hs1, Machine.mem_setFrame_of_ne hsf, hmem]
      refine .modify_bind (.get_bind ?_)
      obtain ⟨s2, hs2⟩ : ∃ s2, s2 = s1.setEntry td i ((s1.mem ts i).setPointer f) := ⟨_, rfl⟩
      rw [← hs2]
      rw [hmem1, hs1] at hs2
      obtain ⟨h2, hpr2, hk2, htab2, hzero, hother⟩ := h.link_entry hsrc hpr hslot (by omega) hts habs hp halloc hs2
      have hmem2 : s2.mem ts = s0.mem ts := h2.image_table hsrc hts hslot.top.tail hslot.depth
      rw [hmem2]
      have hts2 := tableAt_cons.mpr ⟨ts, hts, hp, rfl⟩
      refine (copyPageMaps_spec hsrc level _ _ _ _ _ h2 hpr2 htab2 hts2 (by simp; omega) (fun _ _ => hslot.top)
        fun j _ => by rw [hzero]; rfl).imp ?_ fun _ _ => id
      rintro _ s3 ⟨h3, hpr3, hk3, hcov⟩
      refine ⟨h3, hpr3, hk2.trans hk3.up, fun r hr g hg => ?_, fun j hj hne => ?_⟩
      · obtain ⟨r, k, rfl⟩ := List.eq_nil_or_concat r |>.resolve_left (by rintro rfl; cases hr)
        simp only [List.concat_eq_append, List.append_assoc, List.cons_append, List.nil_append] at hg ⊢
        exact hcov k (Fin.zero_le _) r (by simpa using hr) g hg
      · rw [hk3.other (hk2.slot ⟨htab, htop j hj, hslot.depth⟩) fun hs => absurd hs.length_le (by simp), hother j hne]
    · -- the image has nothing below an entry that is not present
      intro r hr f hf
      simp only [hmem] at hp
      have hnone : tableAt s0.mem src (i :: p) = none := by
        rw [tableAt, hts]
        simp [hp]
      rw [tableAt_none hnone ⟨r, rfl⟩] at hf
      cases hf

end

end KinOS.Paging
