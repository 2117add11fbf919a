import KinOS.Kernel.UserMemory

/-!
# One segment

A segment is mapped and then written (`copySegment_spec`). Mapping it takes a frame for every entry on the way to its pages
that no segment before it has had (`setup_spec`); writing it gets through when each of its bytes lies in a page of one of
them (`copyBytes_spec`). The number of its pages is made from its size alone.
-/

namespace KinOS.Loader

open Bytes Paging

structure Segment where
  vaddr : Nat
  offset : Nat
  filesz : Nat
  memsz : Nat
deriving DecidableEq

/-- The part of the log before `as`. -/
def LoadState.noted (st : LoadState) (as : List Access) : LoadState := { st with log := st.log ++ as }

@[simp] theorem LoadState.log_noted (st : LoadState) (as : List Access) : (st.noted as).log = st.log ++ as := rfl

@[simp] theorem LoadState.noted_noted (st : LoadState) (as bs : List Access) :
    (st.noted as).noted bs = st.noted (as ++ bs) := by
  simp [noted]

namespace Elf

theorem field_lt (elf : Elf) (w off : Nat) : elf.field w off < 256 ^ w := by
  unfold field
  exact load_lt ..

def segment (elf : Elf) (i : Nat) : Segment := ⟨elf.pVaddr i, elf.pOffset i, elf.pFilesz i, elf.pMemsz i⟩

/-- The segments of the program headers `is`. -/
def loads (elf : Elf) (is : List Nat) : List Segment := (is.filter (elf.pType · = ptLoad)).map elf.segment

theorem segment_lt (elf : Elf) (i : Nat) : (elf.segment i).vaddr < 2 ^ 64 ∧ (elf.segment i).offset < 2 ^ 64 ∧
    (elf.segment i).filesz < 2 ^ 64 ∧ (elf.segment i).memsz < 2 ^ 64 :=
  ⟨elf.field_lt 8 _, elf.field_lt 8 _, elf.field_lt 8 _, elf.field_lt 8 _⟩

end Elf

/-! ## Rules for the loader -/

section
variable {α β : Type} {st : LoadState} {Q : α → LoadState → Prop} {R : β → LoadState → Prop} {E : Stop → LoadState → Prop}
  {elf : Elf}

theorem after_kernel {x : KernelM α} {P : α → Machine → Prop} {F : Stop → Machine → Prop} (hx : After x st.machine P F)
    (hQ : ∀ a m, P a m → Q a { st with machine := m }) (hE : ∀ e m, F e m → E e { st with machine := m }) :
    After (kernel x) st Q E := by
  unfold After kernel
  unfold After at hx
  cases hrun : x st.machine with
  | ok a m =>
    rw [hrun] at hx
    exact hQ a m hx
  | error e m =>
    rw [hrun] at hx
    exact hE e m hx

theorem after_kernel_bind {x : KernelM α} {f : α → LoaderM β} {P : α → Machine → Prop} {F : Stop → Machine → Prop}
    (hx : After x st.machine P F) (hE : ∀ e m, F e m → E e { st with machine := m })
    (hf : ∀ a m, P a m → After (f a) { st with machine := m } R E) : After (kernel x >>= f) st R E :=
  .bind (Q := fun a st' => ∃ m, P a m ∧ st' = { st with machine := m }) (after_kernel hx (fun _ m hP => ⟨m, hP, rfl⟩) hE)
    fun a _ ⟨m, hP, hst⟩ => hst ▸ hf a m hP

theorem after_readField {w off : Nat} {f : Nat → LoaderM β} : After (elf.readField w off >>= f) st R E ↔
    After (f (elf.field w off)) (st.noted [.read (off % 2 ^ 64) w]) R E := Iff.rfl

theorem after_note {a : Access} {f : PUnit → LoaderM β} : After (note a >>= f) st R E ↔ After (f ⟨⟩) (st.noted [a]) R E :=
  Iff.rfl

end

/-! ## The pages of a segment -/

/-- The entries on the way to the pages a segment is given. -/
def Segment.way (g : Segment) : Set Path := wayTo g.vaddr (num4kPages g.memsz)

def ways (l : List Segment) : Set Path := { q | ∃ g ∈ l, q ∈ g.way }

theorem ways_nil : ways [] = ∅ := by
  ext q
  simp [ways]

theorem ways_append (l : List Segment) (g : Segment) : ways (l ++ [g]) = ways l ∪ g.way := by
  ext q
  simp only [ways, List.mem_append, List.mem_singleton, Set.mem_ofPred_eq, Set.mem_union]
  constructor
  · rintro ⟨g', hg' | rfl, hq⟩
    · exact .inl ⟨g', hg', hq⟩
    · exact .inr hq
  · rintro (⟨g', hg', hq⟩ | hq)
    · exact ⟨g', .inl hg', hq⟩
    · exact ⟨g, .inr rfl, hq⟩

/-- `SetupPageMaps` is asked for pages of the upper half only. -/
def Segment.MapsUpper (g : Segment) : Prop := num4kPages g.memsz = 0 ∨ upper ≤ g.vaddr

/-- Its bytes are where they may be: in the upper half, no more in the file than in memory. -/
structure Segment.Placed (g : Segment) : Prop where
  filesz : g.filesz ≤ g.memsz
  range : g.memsz = 0 ∨ upper ≤ g.vaddr ∧ g.vaddr + g.memsz ≤ 2 ^ 64

theorem Segment.Placed.mapsUpper {g : Segment} (h : g.Placed) : g.MapsUpper := by
  rcases h.range with h0 | h0
  · refine .inl ?_
    rw [h0]
    rfl
  · exact .inr h0.1

/-- The byte at `a` belongs to the segment. -/
def Segment.Has (g : Segment) (a : Nat) : Prop := g.vaddr ≤ a ∧ a < g.vaddr + g.memsz

instance (g : Segment) (a : Nat) : Decidable (g.Has a) := inferInstanceAs (Decidable (_ ∧ _))

/-- It lies in one of the pages made for the segment. -/
def Segment.OnPages (g : Segment) (a : Nat) : Prop :=
  g.vaddr / 4096 ≤ a / 4096 ∧ a / 4096 < g.vaddr / 4096 + num4kPages g.memsz

instance (g : Segment) (a : Nat) : Decidable (g.OnPages a) := inferInstanceAs (Decidable (_ ∧ _))

/-- Every byte of `g` lies in a page made for one of the segments `l`. -/
def Covered (l : List Segment) (g : Segment) : Prop := ∀ a, g.Has a → ∃ g' ∈ l, g'.OnPages a

/-- There are frames for the pages of the segments. -/
def Enough (frames : Nat) (l : List Segment) : Prop := (ways l).ncard ≤ frames

/-- The pages of the segments are mapped, and nothing else in the upper half. -/
structure Filled (frames : Nat) (l : List Segment) (s : Machine) : Prop where
  space : UserSpace (ways l) s
  count : (ways l).ncard + (freeFrames s).ncard = frames

section
variable {l : List Segment} {g : Segment} {s : Machine} {a : Nat}

theorem path_mem_way (hm : g.MapsUpper) (hlt : g.vaddr < 2 ^ 64) (ha : InUpper a) :
    (LinearAddress4Level.ofValue a).path ∈ g.way ↔ g.OnPages a := by
  rw [Segment.OnPages, Segment.way, wayTo, Set.mem_ofPred_eq, onWay_path]
  rcases hm with h0 | hv
  · rw [h0, LinearAddress4Level.PagesFrom]
    omega
  · exact pagesFrom_ofValue ⟨hv, hlt⟩ ha

theorem path_mem_ways (hl : ∀ g ∈ l, g.MapsUpper ∧ g.vaddr < 2 ^ 64) (ha : InUpper a) :
    (LinearAddress4Level.ofValue a).path ∈ ways l ↔ ∃ g ∈ l, g.OnPages a := by
  refine exists_congr fun g => and_congr_right fun hg => ?_
  exact path_mem_way (hl g hg).1 (hl g hg).2 ha

theorem Segment.Placed.inUpper (h : g.Placed) (ha : g.Has a) : InUpper a := by
  obtain ⟨h1, h2⟩ := ha
  obtain ⟨hv, hend⟩ := h.range.resolve_left (by omega)
  exact ⟨by omega, by omega⟩

theorem setupPageMaps_zero (addr : LinearAddress4Level) (w : Bool) : setupPageMaps addr 0 w s = .ok ⟨⟩ s := rfl

theorem Filled.enough {frames : Nat} (h : Filled frames l s) : Enough frames l := by
  have := h.count
  unfold Enough
  omega

theorem Filled.start (h : UserSpace ∅ s) : Filled (freeFrames s).ncard [] s := by
  constructor
  · rw [ways_nil]
    exact h
  · rw [ways_nil, Set.ncard_empty, Nat.zero_add]

/-- **The pages of a segment.** -/
theorem setup_spec {frames : Nat} (h : Filled frames l s) (hm : g.MapsUpper) (hlt : g.vaddr < 2 ^ 64) :
    After (setupPageMaps (.ofValue g.vaddr) (num4kPages g.memsz) false) s
      (fun _ s' => Filled frames (l ++ [g]) s' ∧ ∀ a, InUpper a → readByte s' a =
        (readByte s a).or (if g.OnPages a then some 0 else none))
      (fun e _ => e = .error .kNoEnoughMemory ∧ ¬ Enough frames (l ++ [g])) := by
  have hcount := h.count
  rcases hm with h0 | hv
  · have hway : g.way = ∅ := by
      ext q
      simp only [Segment.way, wayTo, h0, Set.mem_ofPred_eq, Set.mem_empty_iff_false, iff_false]
      rintro ⟨b, hb, -⟩
      rw [LinearAddress4Level.PagesFrom] at hb
      omega
    have hnone : ∀ a, ¬ g.OnPages a := fun a ha => by
      rw [Segment.OnPages] at ha
      omega
    unfold After
    rw [h0, setupPageMaps_zero]
    refine ⟨⟨?_, ?_⟩, fun a _ => by simp [hnone a]⟩
    · rw [ways_append, hway, Set.union_empty]
      exact h.space
    · rw [ways_append, hway, Set.union_empty]
      exact hcount
  · refine (h.space.setup ⟨hv, hlt⟩).imp ?_ ?_
    · rintro _ s' ⟨hspace, hcount', hbyte⟩
      refine ⟨⟨?_, ?_⟩, fun a ha => ?_⟩
      · rw [ways_append]
        exact hspace
      · rw [ways_append]
        exact hcount'.trans hcount
      · have hpath : (LinearAddress4Level.ofValue a).path ∈ wayTo g.vaddr (num4kPages g.memsz) ↔ g.OnPages a :=
          path_mem_way (.inr hv) hlt ha
        rw [hbyte a ha]
        simp only [hpath]
    · rintro e s' ⟨he, hlt'⟩
      rw [hcount] at hlt'
      refine ⟨he, ?_⟩
      rw [Enough, ways_append]
      exact Nat.not_le.mpr hlt'

end

/-! ## The bytes of a segment -/

/-- The byte of the segment at `a`. -/
def Segment.content (elf : Elf) (g : Segment) (a : Nat) : UInt8 :=
  if a < g.vaddr + g.filesz then elf.byte (g.offset + (a - g.vaddr)) else 0

/-- What is logged up to `SetupPageMaps`, up to `memcpy` and at `memset`. -/
def mapLog (elf : Elf) (i : Nat) : List Access :=
  [.read ((elf.phdr i + 16) % 2 ^ 64) 8, .read ((elf.phdr i + 40) % 2 ^ 64) 8,
    .map (elf.pVaddr i) (num4kPages (elf.pMemsz i))]

def copyLog (elf : Elf) (i : Nat) : List Access :=
  [.read ((elf.phdr i + 8) % 2 ^ 64) 8, .read ((elf.phdr i + 32) % 2 ^ 64) 8,
    .copy (elf.pVaddr i) (elf.pOffset i) (elf.pFilesz i)]

def fillLog (elf : Elf) (i : Nat) : List Access :=
  [.fill ((elf.pVaddr i + elf.pFilesz i) % 2 ^ 64) (fillLen (elf.pMemsz i) (elf.pFilesz i)) (elf.pMemsz i)
    (elf.pFilesz i)]

section
variable {W : Set Path} {st : LoadState} {elf : Elf} {i : Nat} {R : Unit → LoadState → Prop} {E : Stop → LoadState → Prop}

/-- The two calls, with what is logged before each. -/
theorem after_copyBytes : After (copyBytes elf (elf.phdr i) (elf.pVaddr i) (elf.pMemsz i)) st R E ↔
    After (do
      kernel (memcpy (elf.pVaddr i) (fun k => elf.byte (elf.pOffset i + k)) (elf.pFilesz i))
      note (.fill ((elf.pVaddr i + elf.pFilesz i) % 2 ^ 64) (fillLen (elf.pMemsz i) (elf.pFilesz i))
        (elf.pMemsz i) (elf.pFilesz i))
      kernel (memset (elf.pVaddr i + elf.pFilesz i) 0 (fillLen (elf.pMemsz i) (elf.pFilesz i))))
      (st.noted (copyLog elf i)) R E := by
  unfold copyBytes
  rw [after_readField, after_readField, after_note, LoadState.noted_noted, LoadState.noted_noted]
  rfl

/-- The two calls on a range of the upper half: all is written, or one of the bytes is not mapped. -/
theorem copyFill_spec (h : UserSpace W st.machine) {v fsz msz : Nat} {src : Nat → UInt8} {c : Access} (hle : fsz ≤ msz)
    (hm : msz < 2 ^ 64) (hrange : msz = 0 ∨ upper ≤ v ∧ v + msz ≤ 2 ^ 64) :
    After (do kernel (memcpy v src fsz); note c; kernel (memset (v + fsz) 0 (fillLen msz fsz))) st
      (fun _ st' => st'.log = st.log ++ [c] ∧ UserSpace W st'.machine ∧ freeFrames st'.machine = freeFrames st.machine ∧
        (∀ a, v ≤ a → a < v + msz → (LinearAddress4Level.ofValue a).path ∈ W) ∧
        ∀ b, InUpper b → readByte st'.machine b =
          if v ≤ b ∧ b < v + msz then some (if b < v + fsz then src (b - v) else 0) else readByte st.machine b)
      (fun e st' => e = .fault ∧ (st'.log = st.log ∨ st'.log = st.log ++ [c]) ∧
        ∃ a, v ≤ a ∧ a < v + msz ∧ (LinearAddress4Level.ofValue a).path ∉ W) := by
  have hlen : fillLen msz fsz = msz - fsz := by
    rw [fillLen]
    omega
  have hcopyRange : fsz = 0 ∨ upper ≤ v ∧ v + (0 + fsz) ≤ 2 ^ 64 := by omega
  have hfillRange : msz - fsz = 0 ∨ upper ≤ v + fsz ∧ v + fsz + (0 + (msz - fsz)) ≤ 2 ^ 64 := by omega
  rw [hlen]
  refine after_kernel_bind (h.store hcopyRange) ?_ ?_
  · rintro e s' ⟨he, k, -, hk, hW⟩
    exact ⟨he, .inl rfl, v + k, by omega, by omega, hW⟩
  · rintro _ m ⟨h1, hfree, hall, hread⟩
    rw [after_note]
    refine after_kernel (h1.store hfillRange) ?_ ?_
    · rintro _ m' ⟨h2, hfree', hall', hread'⟩
      refine ⟨rfl, h2, hfree'.trans hfree, fun a ha1 ha2 => ?_, fun b hb => ?_⟩
      · by_cases hin : a < v + fsz
        · have hW := hall (a - v) (by omega) (by omega)
          rwa [Nat.add_sub_cancel' ha1] at hW
        · have hW := hall' (a - (v + fsz)) (by omega) (by omega)
          rwa [Nat.add_sub_cancel' (Nat.not_lt.mp hin)] at hW
      · change readByte m' b = _
        rw [hread' b hb, hread b hb]
        by_cases hin : v ≤ b ∧ b < v + msz
        · rw [if_pos hin]
          by_cases hfile : b < v + fsz
          · rw [if_neg (by omega), if_pos (by omega), if_pos hfile]
          · rw [if_pos (by omega), if_neg hfile]
        · rw [if_neg hin, if_neg (by omega), if_neg (by omega)]
    · rintro e s' ⟨he, k, -, hk, hW⟩
      exact ⟨he, .inr rfl, v + fsz + k, by omega, by omega, hW⟩

/-- **The bytes of a segment** that is placed: all are written, or one of them is not mapped. -/
theorem copyBytes_spec (h : UserSpace W st.machine) (hg : (elf.segment i).Placed) :
    After (copyBytes elf (elf.phdr i) (elf.pVaddr i) (elf.pMemsz i)) st
      (fun _ st' => st'.log = st.log ++ copyLog elf i ++ fillLog elf i ∧ UserSpace W st'.machine ∧
        freeFrames st'.machine = freeFrames st.machine ∧
        (∀ a, (elf.segment i).Has a → (LinearAddress4Level.ofValue a).path ∈ W) ∧
        ∀ b, InUpper b → readByte st'.machine b =
          if (elf.segment i).Has b then some ((elf.segment i).content elf b) else readByte st.machine b)
      (fun e st' => e = .fault ∧
        (st'.log = st.log ++ copyLog elf i ∨ st'.log = st.log ++ copyLog elf i ++ fillLog elf i) ∧
        ∃ a, (elf.segment i).Has a ∧ (LinearAddress4Level.ofValue a).path ∉ W) := by
  have hle : elf.pFilesz i ≤ elf.pMemsz i := hg.filesz
  have hm : elf.pMemsz i < 2 ^ 64 := (elf.segment_lt i).2.2.2
  have hrange : elf.pMemsz i = 0 ∨ upper ≤ elf.pVaddr i ∧ elf.pVaddr i + elf.pMemsz i ≤ 2 ^ 64 := hg.range
  have h1 : UserSpace W (st.noted (copyLog elf i)).machine := h
  rw [after_copyBytes]
  refine (copyFill_spec h1 hle hm hrange).imp ?_ ?_
  · rintro _ st' ⟨hlog, h', hfree, hall, hread⟩
    exact ⟨hlog, h', hfree, fun a ha => hall a ha.1 ha.2, hread⟩
  · rintro e st' ⟨he, hlog, a, ha1, ha2, hW⟩
    exact ⟨he, hlog, a, ⟨ha1, ha2⟩, hW⟩

/-! ## One program header -/

/-- What is mapped before the segment and what it writes. -/
def Segment.over (elf : Elf) (m : Nat → Option UInt8) (g : Segment) (a : Nat) : Option UInt8 :=
  if g.Has a then some (g.content elf a) else (m a).or (if g.OnPages a then some 0 else none)

theorem after_copySegment {last : Nat} {R : Nat → LoadState → Prop} :
    After (copySegment elf (elf.phdr i) last) st R E ↔
      After (do
        kernel (setupPageMaps (.ofValue (elf.pVaddr i)) (num4kPages (elf.pMemsz i)) false)
        copyBytes elf (elf.phdr i) (elf.pVaddr i) (elf.pMemsz i)
        return max last ((elf.pVaddr i + elf.pMemsz i) % 2 ^ 64)) (st.noted (mapLog elf i)) R E := by
  unfold copySegment
  rw [after_readField, after_readField, after_note, LoadState.noted_noted, LoadState.noted_noted]
  rfl

/-- **A program header of type `PT_LOAD`**, if its segment is placed. -/
theorem copySegment_spec {frames last : Nat} {l : List Segment} (h : Filled frames l st.machine)
    (hl : ∀ g ∈ l, g.Placed ∧ g.vaddr < 2 ^ 64) (hg : (elf.segment i).Placed) :
    After (copySegment elf (elf.phdr i) last) st
      (fun r st' => r = max last ((elf.pVaddr i + elf.pMemsz i) % 2 ^ 64) ∧
        st'.log = st.log ++ mapLog elf i ++ copyLog elf i ++ fillLog elf i ∧
        Filled frames (l ++ [elf.segment i]) st'.machine ∧ Covered (l ++ [elf.segment i]) (elf.segment i) ∧
        ∀ a, InUpper a → readByte st'.machine a = (elf.segment i).over elf (readByte st.machine) a)
      (fun e st' => (e = .error .kNoEnoughMemory ∧ ¬ Enough frames (l ++ [elf.segment i]) ∧
        st'.log = st.log ++ mapLog elf i) ∨
        (e = .fault ∧ Enough frames (l ++ [elf.segment i]) ∧ ¬ Covered (l ++ [elf.segment i]) (elf.segment i) ∧
          (st'.log = st.log ++ mapLog elf i ++ copyLog elf i ∨
            st'.log = st.log ++ mapLog elf i ++ copyLog elf i ++ fillLog elf i))) := by
  have hv : (elf.segment i).vaddr < 2 ^ 64 := (elf.segment_lt i).1
  have hupper : ∀ g ∈ l ++ [elf.segment i], g.MapsUpper ∧ g.vaddr < 2 ^ 64 := by
    intro g hmem
    rcases List.mem_append.mp hmem with hgl | hgi
    · exact ⟨(hl g hgl).1.mapsUpper, (hl g hgl).2⟩
    · rw [List.mem_singleton.mp hgi]
      exact ⟨hg.mapsUpper, hv⟩
  have hset := setup_spec h hg.mapsUpper hv
  rw [after_copySegment]
  refine after_kernel_bind hset ?_ ?_
  · rintro e s' ⟨he, hno⟩
    exact .inl ⟨he, hno, rfl⟩
  · rintro _ m ⟨hfill, hbyte⟩
    refine .bind ((copyBytes_spec hfill.space hg).imp (fun _ _ h => h) ?_) ?_
    · rintro e st' ⟨he, hlog, a, ha, hW⟩
      refine .inr ⟨he, hfill.enough, fun hcov => hW ?_, hlog⟩
      exact (path_mem_ways hupper (hg.inUpper ha)).mpr (hcov a ha)
    · rintro _ st' ⟨hlog, hspace, hfree, hall, hbyte'⟩
      refine .pure ⟨rfl, hlog, ⟨hspace, ?_⟩, fun a ha => ?_, fun a ha => ?_⟩
      · rw [hfree]
        exact hfill.count
      · exact (path_mem_ways hupper (hg.inUpper ha)).mp (hall a ha)
      · rw [hbyte' a ha, Segment.over, hbyte a ha]

end

end KinOS.Loader
