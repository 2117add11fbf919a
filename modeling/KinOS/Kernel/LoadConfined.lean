import KinOS.Kernel.LoadElf

/-!
# What the loader touches

`LoadELF` compares one address with the upper half, that of the first segment. `Confines` says of a program that all it
reads, maps and writes is where it may be, and that nothing but a file that is good in every header makes it fault. For the
loop this comes down to the headers it gets to (`confines_copySegments`): they are good, or the frames run out in time.
-/

namespace KinOS.Loader

open Bytes Paging

/-! ## Confined accesses -/

/-- Reads in the file; maps and writes in the upper half; fills what is left of the segment. -/
def Access.Confined (size : Nat) : Access → Prop
  | .read off len => off + len ≤ size
  | .map addr num4kPages => num4kPages = 0 ∨ upper ≤ addr
  | .copy dst src len => len = 0 ∨ upper ≤ dst ∧ dst + len ≤ 2 ^ 64 ∧ src + len ≤ size
  | .fill dst len memsz filesz => len + filesz = memsz ∧ (len = 0 ∨ upper ≤ dst ∧ dst + len ≤ 2 ^ 64)

def Confined (size : Nat) (log : List Access) : Prop := ∀ a ∈ log, a.Confined size

/-- `good` is what excuses a fault. -/
def Confines {α : Type} (size : Nat) (good : Prop) (x : LoaderM α) (st : LoadState) : Prop :=
  After x st (fun _ st' => Confined size st'.log) (fun e st' => Confined size st'.log ∧ (e = .fault → good))

/-- The log only gets longer. -/
def Grows {α : Type} (x : LoaderM α) : Prop :=
  ∀ st, After x st (fun _ st' => st.log <+: st'.log) (fun _ st' => st.log <+: st'.log)

namespace Grows

variable {α β : Type} {x : LoaderM α}

theorem pure {a : α} : Grows (pure a : LoaderM α) := fun st => .pure (List.prefix_refl st.log)

theorem throw {e : Stop} : Grows (throw e : LoaderM α) := fun st => .throw (List.prefix_refl st.log)

theorem note {a : Access} : Grows (note a) := fun st => .modify (List.prefix_append st.log [a])

theorem kernel {x : KernelM α} : Grows (kernel x) := fun st => by
  unfold After Loader.kernel
  cases x st.machine with
  | ok a m => exact List.prefix_refl st.log
  | error e m => exact List.prefix_refl st.log

theorem bind {f : α → LoaderM β} (hx : Grows x) (hf : ∀ a, Grows (f a)) : Grows (x >>= f) := fun st =>
  .bind (hx st) fun a st' hpre => (hf a st').imp (fun _ _ h => hpre.trans h) fun _ _ h => hpre.trans h

theorem ite {c : Prop} [Decidable c] {y : LoaderM α} (hx : Grows x) (hy : Grows y) : Grows (if c then x else y) := by
  split
  · exact hx
  · exact hy

theorem readField {elf : Elf} {w off : Nat} : Grows (elf.readField w off) := note.bind fun _ => pure

theorem copyBytes {elf : Elf} {phdr vaddr memsz : Nat} : Grows (copyBytes elf phdr vaddr memsz) :=
  readField.bind fun _ => readField.bind fun _ => note.bind fun _ => kernel.bind fun _ => note.bind fun _ => kernel

theorem copySegment {elf : Elf} {phdr lastAddr : Nat} : Grows (copySegment elf phdr lastAddr) :=
  readField.bind fun _ => readField.bind fun _ => note.bind fun _ => kernel.bind fun _ => copyBytes.bind fun _ => pure

theorem copySegments {elf : Elf} {phoff : Nat} : ∀ {is : List Nat} {lastAddr : Nat},
    Grows (copySegments elf phoff is lastAddr)
  | [], _ => pure
  | _ :: _, _ => readField.bind fun _ => ite copySegments (copySegment.bind fun _ => copySegments)

theorem firstLoad {elf : Elf} {phoff : Nat} : ∀ {is : List Nat}, Grows (firstLoad elf phoff is)
  | [] => pure
  | _ :: _ => readField.bind fun _ => ite firstLoad readField

theorem loadELF {elf : Elf} : Grows (loadELF elf) :=
  readField.bind fun _ => ite throw <| .bind (readField.bind fun _ => readField.bind fun _ => firstLoad) fun _ =>
    ite throw (readField.bind fun _ => readField.bind fun _ => copySegments)

end Grows

section
variable {α β : Type} {size : Nat} {good : Prop} {x : LoaderM α} {f : α → LoaderM β} {st : LoadState}

theorem confined_append {as bs : List Access} : Confined size (as ++ bs) ↔ Confined size as ∧ Confined size bs :=
  List.forall_mem_append

theorem Confines.log (h : Confines size good x st) (hx : Grows x) : Confined size st.log := by
  have hpre := hx st
  unfold Confines at h
  unfold After at h hpre
  cases hrun : x st with
  | ok a st' =>
    rw [hrun] at h hpre
    exact fun a ha => h a (hpre.subset ha)
  | error e st' =>
    rw [hrun] at h hpre
    exact fun a ha => h.1 a (hpre.subset ha)

/-- A first part that does what it must not. -/
theorem not_confines (hx : After x st (fun _ st' => ¬ Confined size st'.log)
    (fun e st' => ¬ Confined size st'.log ∨ e = .fault)) (hf : ∀ a, Grows (f a)) (hgood : ¬ good) :
    ¬ Confines size good (x >>= f) st := by
  intro h
  unfold After at hx
  unfold Confines at h
  cases hrun : x st with
  | ok a st' =>
    rw [hrun] at hx
    rw [After.bind_of_ok hrun] at h
    exact hx (Confines.log h (hf a))
  | error e st' =>
    rw [hrun] at hx
    rw [After.bind_of_error hrun] at h
    exact hx.elim (fun hn => hn h.1) fun he => hgood (h.2 he)

/-- A part of the kernel that has no fault of its own. -/
theorem confines_kernel {y : KernelM α} (hy : ∀ s, After y s (fun _ _ => True) (fun e _ => e ≠ .fault))
    (hlog : Confined size st.log) (hf : ∀ a m, Confines size good (f a) { st with machine := m }) :
    Confines size good (kernel y >>= f) st :=
  after_kernel_bind (hy st.machine) (fun _ _ he => ⟨hlog, fun hf => absurd hf he⟩) fun a m _ => hf a m

/-- A rest that does nothing wrong. -/
theorem confines_bind (hf : ∀ a st', Confined size st'.log → Confines size good (f a) st') (hg : ∀ a, Grows (f a)) :
    Confines size good (x >>= f) st ↔ Confines size good x st := by
  unfold Confines
  cases hrun : x st with
  | ok a st' =>
    rw [After.bind_of_ok hrun]
    constructor
    · intro h
      unfold After
      rw [hrun]
      exact Confines.log h (hg a)
    · exact fun h => hf a st' (h.ok hrun)
  | error e st' =>
    rw [After.bind_of_error hrun]
    constructor
    · intro h
      unfold After
      rw [hrun]
      exact h
    · exact fun h => h.error hrun

end

/-! ## One program header -/

namespace Elf

/-- `w` bytes at `off` are in the file. -/
def Inside (elf : Elf) (off w : Nat) : Prop := off % 2 ^ 64 + w ≤ elf.size

instance (elf : Elf) (off w : Nat) : Decidable (elf.Inside off w) := inferInstanceAs (Decidable (_ ≤ _))

/-- What is looked at up to `SetupPageMaps`. -/
structure Mappable (elf : Elf) (i : Nat) : Prop where
  vaddr : elf.Inside (elf.phdr i + 16) 8
  memsz : elf.Inside (elf.phdr i + 40) 8
  upper : (elf.segment i).MapsUpper

/-- A program header of type `PT_LOAD` that keeps to the file and to the upper half. -/
structure Good (elf : Elf) (i : Nat) : Prop extends elf.Mappable i, (elf.segment i).Placed where
  offset : elf.Inside (elf.phdr i + 8) 8
  fileszField : elf.Inside (elf.phdr i + 32) 8
  file : elf.pFilesz i = 0 ∨ elf.pOffset i + elf.pFilesz i ≤ elf.size

theorem mappable_iff {elf : Elf} {i : Nat} : Confined elf.size (mapLog elf i) ↔ elf.Mappable i := by
  simp only [Confined, mapLog, List.forall_mem_cons, Access.Confined]
  exact ⟨fun h => ⟨h.1, h.2.1, h.2.2.1⟩, fun h => ⟨h.vaddr, h.memsz, h.upper, List.forall_mem_nil _⟩⟩

theorem ranges_iff {v off fsz msz size : Nat} (hv : v < 2 ^ 64) (hf : fsz < 2 ^ 64) (hm : msz < 2 ^ 64) :
    (Access.copy v off fsz).Confined size ∧ (Access.fill ((v + fsz) % 2 ^ 64) (fillLen msz fsz) msz fsz).Confined size ↔
      fsz ≤ msz ∧ (msz = 0 ∨ Paging.upper ≤ v ∧ v + msz ≤ 2 ^ 64) ∧ (fsz = 0 ∨ off + fsz ≤ size) := by
  simp only [Access.Confined, fillLen, Paging.upper]
  omega

theorem good_iff {elf : Elf} {i : Nat} (h : elf.Mappable i) :
    Confined elf.size (copyLog elf i) ∧ Confined elf.size (fillLog elf i) ↔ elf.Good i := by
  have hv : elf.pVaddr i < 2 ^ 64 := (elf.segment_lt i).1
  have hf : elf.pFilesz i < 2 ^ 64 := (elf.segment_lt i).2.2.1
  have hm : elf.pMemsz i < 2 ^ 64 := (elf.segment_lt i).2.2.2
  simp only [Confined, copyLog, fillLog, List.forall_mem_cons, List.not_mem_nil, false_implies, implies_true, and_true,
    Access.Confined]
  constructor
  · rintro ⟨⟨hoff, hfsz, hcopy⟩, hfill⟩
    obtain ⟨hle, hrange, hfile⟩ := (ranges_iff hv hf hm).mp ⟨hcopy, hfill⟩
    exact ⟨h, ⟨hle, hrange⟩, hoff, hfsz, hfile⟩
  · intro hg
    obtain ⟨hcopy, hfill⟩ := (ranges_iff hv hf hm).mpr ⟨hg.filesz, hg.range, hg.file⟩
    exact ⟨⟨hg.offset, hg.fileszField, hcopy⟩, hfill⟩

end Elf

section
variable {elf : Elf} {frames i last : Nat} {l : List Segment} {st : LoadState} {good : Prop}

/-- What is logged of the bytes of any segment. -/
theorem copyBytes_log : After (copyBytes elf (elf.phdr i) (elf.pVaddr i) (elf.pMemsz i)) st
    (fun _ st' => st'.log = st.log ++ copyLog elf i ++ fillLog elf i) (fun e _ => e = .fault) := by
  rw [after_copyBytes]
  refine after_kernel_bind (store_error _ _ _) (fun _ _ he => he) fun _ m _ => ?_
  rw [after_note]
  exact after_kernel (store_error _ _ _) (fun _ _ _ => rfl) fun _ _ he => he

theorem not_mappable (h : ¬ elf.Mappable i) : After (copySegment elf (elf.phdr i) last) st
    (fun _ st' => ¬ Confined elf.size st'.log) (fun e st' => ¬ Confined elf.size st'.log ∨ e = .fault) := by
  have hlog : ∀ st' : LoadState, (st.noted (mapLog elf i)).log <+: st'.log → ¬ Confined elf.size st'.log :=
    fun st' hpre hconf => h (Elf.mappable_iff.mp fun a ha => hconf a (hpre.subset (List.mem_append_right st.log ha)))
  rw [after_copySegment]
  refine ((Grows.kernel.bind fun _ => Grows.copyBytes.bind fun _ => Grows.pure) _).imp ?_ ?_
  · exact fun _ st' hpre => hlog st' hpre
  · exact fun _ st' hpre => .inl (hlog st' hpre)

/-- What is logged of a segment with pages in the upper half. -/
theorem copySegment_log (h : Filled frames l st.machine) (hmap : elf.Mappable i) :
    After (copySegment elf (elf.phdr i) last) st
      (fun _ st' => Enough frames (l ++ [elf.segment i]) ∧
        st'.log = st.log ++ mapLog elf i ++ copyLog elf i ++ fillLog elf i)
      (fun e st' => (e = .error .kNoEnoughMemory ∧ ¬ Enough frames (l ++ [elf.segment i]) ∧
        st'.log = st.log ++ mapLog elf i) ∨ (e = .fault ∧ Enough frames (l ++ [elf.segment i]))) := by
  have hset := setup_spec h hmap.upper (elf.segment_lt i).1
  rw [after_copySegment]
  refine after_kernel_bind hset (fun e s' ⟨he, hno⟩ => .inl ⟨he, hno, rfl⟩) fun _ m ⟨hfill, _⟩ => ?_
  refine .bind (copyBytes_log.imp (fun _ _ h => h) fun e _ he => .inr ⟨he, hfill.enough⟩) fun _ st' hlog => ?_
  exact .pure ⟨hfill.enough, hlog⟩

/-- **One header**, with what is to hold of the rest if it gets there. -/
theorem confines_copySegment {f : Nat → LoaderM Nat} {N : Prop} (h : Filled frames l st.machine)
    (hl : ∀ g ∈ l, g.Placed ∧ g.vaddr < 2 ^ 64) (hlog : Confined elf.size st.log) (hf : ∀ r, Grows (f r))
    (hgood : good → elf.Good i)
    (hnext : elf.Good i → ∀ r st', Filled frames (l ++ [elf.segment i]) st'.machine → Confined elf.size st'.log →
      (Confines elf.size good (f r) st' ↔ N)) :
    Confines elf.size good (copySegment elf (elf.phdr i) last >>= f) st ↔
      elf.Mappable i ∧ (Enough frames (l ++ [elf.segment i]) → elf.Good i ∧
        (Covered (l ++ [elf.segment i]) (elf.segment i) → N) ∧
        (¬ Covered (l ++ [elf.segment i]) (elf.segment i) → good)) := by
  by_cases hmap : elf.Mappable i
  · have hmapLog : Confined elf.size (st.log ++ mapLog elf i) := confined_append.mpr ⟨hlog, Elf.mappable_iff.mpr hmap⟩
    simp only [hmap, true_and]
    by_cases hframes : Enough frames (l ++ [elf.segment i])
    · simp only [hframes, forall_const]
      by_cases hg : elf.Good i
      · have hcopy := (Elf.good_iff hmap).mpr hg
        have hcopyLog := confined_append.mpr ⟨hmapLog, hcopy.1⟩
        have hfillLog := confined_append.mpr ⟨hcopyLog, hcopy.2⟩
        have hspec := @copySegment_spec st elf i frames last l h hl hg.toPlaced
        unfold After at hspec
        simp only [hg, true_and]
        cases hrun : copySegment elf (elf.phdr i) last st with
        | ok r st' =>
          rw [hrun] at hspec
          obtain ⟨-, hlog', hfill, hcov, -⟩ := hspec
          rw [Confines, After.bind_of_ok hrun, ← Confines, hnext hg r st' hfill (hlog' ▸ hfillLog)]
          exact ⟨fun hN => ⟨fun _ => hN, fun hno => absurd hcov hno⟩, fun h => h.1 hcov⟩
        | error e st' =>
          rw [hrun] at hspec
          rw [Confines, After.bind_of_error hrun]
          rcases hspec with ⟨-, hno, -⟩ | ⟨rfl, -, hcov, hlog'⟩
          · exact absurd hframes hno
          · have hconf : Confined elf.size st'.log := by
              rcases hlog' with hlog' | hlog' <;> rw [hlog']
              · exact hcopyLog
              · exact hfillLog
            exact ⟨fun h => ⟨fun hyes => absurd hyes hcov, fun _ => h.2 rfl⟩, fun h => ⟨hconf, fun _ => h.2 hcov⟩⟩
      · refine iff_of_false (not_confines ((copySegment_log h hmap).imp ?_ ?_) hf fun hgood' => hg (hgood hgood'))
          fun h => hg h.1
        · rintro r st' ⟨-, hlog'⟩ hconf
          rw [hlog', confined_append, confined_append] at hconf
          exact hg ((Elf.good_iff hmap).mp ⟨hconf.1.2, hconf.2⟩)
        · rintro e st' (⟨-, hno, -⟩ | ⟨he, -⟩)
          · exact absurd hframes hno
          · exact .inr he
    · -- the frames run out in `SetupPageMaps`
      refine iff_of_true ?_ fun hyes => absurd hyes hframes
      have hspec := @copySegment_log elf frames i last l st h hmap
      unfold After at hspec
      cases hrun : copySegment elf (elf.phdr i) last st with
      | ok r st' =>
        rw [hrun] at hspec
        exact absurd hspec.1 hframes
      | error e st' =>
        rw [hrun] at hspec
        rw [Confines, After.bind_of_error hrun]
        rcases hspec with ⟨rfl, -, hlog'⟩ | ⟨-, hyes⟩
        · exact ⟨hlog' ▸ hmapLog, nofun⟩
        · exact absurd hyes hframes
  · exact iff_of_false (not_confines (not_mappable hmap) hf fun hg => hmap (hgood hg).toMappable) fun h => hmap h.1

/-! ## The loop -/

/-- The headers are in the file, and those of segments keep to it and to the upper half. -/
def Elf.GoodHeaders (elf : Elf) (is : List Nat) : Prop :=
  ∀ i ∈ is, elf.Inside (elf.phdr i) 4 ∧ (elf.pType i = ptLoad → elf.Good i)

/-- The frames run out, at a header that is mappable, and up to it every header is good and every segment lies in pages made
by then. -/
def StopsShort (elf : Elf) (frames : Nat) : List Segment → List Nat → Prop
  | _, [] => False
  | l, i :: is => elf.Inside (elf.phdr i) 4 ∧
    if elf.pType i ≠ ptLoad then StopsShort elf frames l is
    else elf.Mappable i ∧ (Enough frames (l ++ [elf.segment i]) →
      elf.Good i ∧ Covered (l ++ [elf.segment i]) (elf.segment i) ∧ StopsShort elf frames (l ++ [elf.segment i]) is)

theorem Elf.goodHeaders_cons {is : List Nat} : elf.GoodHeaders (i :: is) ↔
    (elf.Inside (elf.phdr i) 4 ∧ (elf.pType i = ptLoad → elf.Good i)) ∧ elf.GoodHeaders is :=
  List.forall_mem_cons

/-- **The loop**, by induction on the headers still to come. -/
theorem confines_copySegments {is : List Nat} (h : Filled frames l st.machine) (hl : ∀ g ∈ l, g.Placed ∧ g.vaddr < 2 ^ 64)
    (hlog : Confined elf.size st.log) (hgood : good ↔ elf.GoodHeaders is) :
    Confines elf.size good (copySegments elf elf.ePhoff is last) st ↔ elf.GoodHeaders is ∨ StopsShort elf frames l is := by
  induction is generalizing l st last with
  | nil => exact iff_of_true (After.pure hlog) (.inl fun _ hi => (List.not_mem_nil hi).elim)
  | cons i is ih =>
    have h1 : Filled frames l (st.noted [.read (elf.phdr i % 2 ^ 64) 4]).machine := h
    rw [Confines, after_copySegments_cons, ← Confines]
    by_cases hin : elf.Inside (elf.phdr i) 4
    · have hlog1 : Confined elf.size (st.noted [.read (elf.phdr i % 2 ^ 64) 4]).log :=
        confined_append.mpr ⟨hlog, List.forall_mem_singleton.mpr hin⟩
      rw [Elf.goodHeaders_cons] at hgood ⊢
      by_cases ht : elf.pType i = ptLoad
      · have hnot : ¬ elf.pType i ≠ ptLoad := fun hn => hn ht
        simp only [hin, ht, true_and, forall_const] at hgood
        have hnext : elf.Good i → ∀ r st', Filled frames (l ++ [elf.segment i]) st'.machine → Confined elf.size st'.log →
            (Confines elf.size good (copySegments elf elf.ePhoff is r) st' ↔
              elf.GoodHeaders is ∨ StopsShort elf frames (l ++ [elf.segment i]) is) := by
          intro hg r st' hfill hlog'
          refine ih hfill ?_ hlog' (hgood.trans (and_iff_right hg))
          intro g hmem
          rcases List.mem_append.mp hmem with hgl | hgi
          · exact hl g hgl
          · rw [List.mem_singleton.mp hgi]
            exact ⟨hg.toPlaced, (elf.segment_lt i).1⟩
        rw [if_neg hnot, confines_copySegment h1 hl hlog1 (fun _ => Grows.copySegments) (fun hg => (hgood.mp hg).1) hnext,
          StopsShort, if_neg hnot]
        have hmap : elf.Good i → elf.Mappable i := Elf.Good.toMappable
        simp only [hin, ht, true_and, forall_const, hgood]
        tauto
      · change Confines elf.size good (if elf.pType i ≠ ptLoad then copySegments elf elf.ePhoff is last
          else copySegment elf (elf.phdr i) last >>= copySegments elf elf.ePhoff is) _ ↔ _
        simp only [hin, ht, true_and, false_implies] at hgood
        rw [if_pos ht, ih h1 hl hlog1 hgood, StopsShort, if_pos ht]
        simp only [hin, ht, true_and, false_implies]
    · refine iff_of_false (fun hc => hin ?_) ?_
      · have hconf := hc.log (.ite .copySegments (Grows.copySegment.bind fun _ => .copySegments))
        exact hconf _ (List.mem_append_right _ (List.mem_singleton_self _))
      · rintro (hall | hshort)
        · exact hin (hall i List.mem_cons_self).1
        · exact hin hshort.1

end

/-! ## `LoadELF` -/

section
variable {elf : Elf} {st : LoadState} {good : Prop}

theorem Elf.GoodHeaders.firstLog : ∀ {is : List Nat}, elf.GoodHeaders is → Confined elf.size (firstLog elf is)
  | [], _ => List.forall_mem_nil _
  | i :: is, h => by
    rw [Elf.goodHeaders_cons] at h
    refine List.forall_mem_cons.mpr ⟨h.1.1, ?_⟩
    by_cases ht : elf.pType i = ptLoad
    · rw [if_neg (fun hn => hn ht)]
      exact List.forall_mem_singleton.mpr (h.1.2 ht).vaddr
    · rw [if_pos ht]
      exact firstLog h.2

theorem confined_tableLog : Confined elf.size tableLog ↔ 58 ≤ elf.size := by
  simp only [Confined, tableLog, List.forall_mem_cons, Access.Confined]
  exact ⟨fun h => h.2.1, fun h => ⟨by omega, h, List.forall_mem_nil _⟩⟩

theorem confined_headLog : Confined elf.size (headLog elf) ↔
    18 ≤ elf.size ∧ 58 ≤ elf.size ∧ Confined elf.size (firstLog elf (List.range elf.ePhnum)) := by
  rw [headLog, List.cons_append, Confined, List.forall_mem_cons, ← Confined, confined_append, confined_tableLog]
  rfl

/-- A good file. -/
def Elf.GoodFile (elf : Elf) : Prop := 58 ≤ elf.size ∧ elf.GoodHeaders (List.range elf.ePhnum)

/-- What `LoadELF` refuses, with `frames` frames free, and before anything it reads, maps or writes is not confined. -/
def Elf.Refused (elf : Elf) (frames : Nat) : Prop :=
  18 ≤ elf.size ∧ (elf.eType ≠ etExec ∨
    58 ≤ elf.size ∧ Confined elf.size (firstLog elf (List.range elf.ePhnum)) ∧
      (elf.firstVaddr (List.range elf.ePhnum) < upper ∨ StopsShort elf frames [] (List.range elf.ePhnum)))

theorem confines_loadELF {α : Type} {f : Nat → LoaderM α} (h : UserSpace ∅ st.machine) (hlog : Confined elf.size st.log)
    (hf : 58 ≤ elf.size → ∀ r st', Confined elf.size st'.log → Confines elf.size elf.GoodFile (f r) st')
    (hg : ∀ r, Grows (f r)) :
    Confines elf.size elf.GoodFile (loadELF elf >>= f) st ↔ elf.GoodFile ∨ elf.Refused (freeFrames st.machine).ncard := by
  have hrun : loadELF elf st = _ := loadELF_eq st
  by_cases hexec : elf.eType = etExec
  · have hnot : ¬ elf.eType ≠ etExec := fun hn => hn hexec
    rw [if_neg hnot] at hrun
    by_cases hfirst : elf.firstVaddr (List.range elf.ePhnum) < upper
    · rw [if_pos hfirst] at hrun
      rw [Confines, After.bind_of_error hrun, LoadState.log_noted, confined_append, confined_headLog]
      constructor
      · rintro ⟨⟨-, h18, h58, hlog'⟩, -⟩
        exact .inr ⟨h18, .inr ⟨h58, hlog', .inl hfirst⟩⟩
      · rintro (⟨h58, hall⟩ | ⟨h18, hne | ⟨h58, hlog', -⟩⟩)
        · exact ⟨⟨hlog, by omega, h58, hall.firstLog⟩, nofun⟩
        · exact absurd hexec hne
        · exact ⟨⟨hlog, h18, h58, hlog'⟩, nofun⟩
    · rw [if_neg hfirst] at hrun
      rw [Confines, After.bind_congr hrun, ← Confines]
      by_cases hhead : Confined elf.size (headLog elf)
      · obtain ⟨h18, h58, hlog'⟩ := confined_headLog.mp hhead
        have hlog1 : Confined elf.size (st.noted (headLog elf ++ tableLog)).log :=
          confined_append.mpr ⟨hlog, confined_append.mpr ⟨hhead, confined_tableLog.mpr h58⟩⟩
        have hstart : Filled (freeFrames st.machine).ncard [] (st.noted (headLog elf ++ tableLog)).machine := .start h
        have hgood : elf.GoodFile ↔ elf.GoodHeaders (List.range elf.ePhnum) := and_iff_right h58
        rw [confines_bind (hf h58) hg,
          confines_copySegments hstart (fun g hg => (List.not_mem_nil hg).elim) hlog1 hgood]
        constructor
        · rintro (hall | hshort)
          · exact .inl ⟨h58, hall⟩
          · exact .inr ⟨h18, .inr ⟨h58, hlog', .inr hshort⟩⟩
        · rintro (⟨-, hall⟩ | ⟨-, hne | ⟨-, -, hlt | hshort⟩⟩)
          · exact .inl hall
          · exact absurd hexec hne
          · exact absurd hlt hfirst
          · exact .inr hshort
      · refine iff_of_false (fun hc => hhead ?_) ?_
        · have hconf := hc.log (Grows.copySegments.bind hg)
          exact (confined_append.mp (confined_append.mp hconf).2).1
        · rw [confined_headLog] at hhead
          rintro (⟨h58, hall⟩ | ⟨h18, hne | ⟨h58, hlog', -⟩⟩)
          · exact hhead ⟨by omega, h58, hall.firstLog⟩
          · exact absurd hexec hne
          · exact hhead ⟨h18, h58, hlog'⟩
  · rw [if_pos hexec] at hrun
    rw [Confines, After.bind_of_error hrun, LoadState.log_noted, confined_append]
    constructor
    · rintro ⟨⟨-, hread⟩, -⟩
      exact .inr ⟨hread _ (List.mem_singleton_self _), .inl hexec⟩
    · intro hor
      have h18 : 18 ≤ elf.size := by
        rcases hor with ⟨h58, -⟩ | ⟨h18, -⟩
        · omega
        · exact h18
      exact ⟨⟨hlog, List.forall_mem_singleton.mpr h18⟩, nofun⟩

end

/-! ## `LoadApp` -/

/-- No page map is got: an error, never a fault. -/
theorem newPageMap_error (s : Machine) : After newPageMap s (fun _ _ => True) (fun e _ => e ≠ .fault) := by
  unfold After
  rcases newPageMap_spec s with ⟨f, m, -, hrun⟩ | ⟨-, hrun⟩ <;> rw [hrun]
  · trivial
  · nofun

theorem setupPML4_error (s : Machine) : After setupPML4 s (fun _ _ => True) (fun e _ => e ≠ .fault) :=
  (newPageMap_error s).bind fun _ _ _ => .modify_bind (.modify_bind (.pure trivial))

theorem copyPageMaps_error : ∀ {level dest src : Nat} {start : Fin 512} {s : Machine},
    After (copyPageMaps level dest src start) s (fun _ _ => True) (fun e _ => e ≠ .fault)
  | 0, _, _, _, _ => .pure trivial
  | 1, dest, src, start, s => by
    unfold copyPageMaps
    refine After.forM (I := fun _ _ => True) (fun i _ s _ => .get_bind (.ite (fun _ => ?_) fun _ => .pure trivial)) trivial
    exact .modify trivial
  | level + 2, dest, src, start, s => by
    unfold copyPageMaps
    refine After.forM (I := fun _ _ => True) (fun i _ s _ => .get_bind (.ite (fun _ => ?_) fun _ => .pure trivial)) trivial
    exact (newPageMap_error s).bind fun _ _ _ => .modify_bind (.get_bind copyPageMaps_error)

/-- What `LoadApp` does when the segments are in memory. -/
def loadEnd (elf : Elf) (tempPml4 lastAddr : Nat) : LoaderM AppLoadInfo := do
  let entry ← elf.readField 8 24
  let pml4 ← kernel setupPML4
  kernel (copyPageMaps 4 pml4 tempPml4 256)
  return { vaddrEnd := lastAddr, entry, pml4 }

theorem Grows.loadEnd {elf : Elf} {tempPml4 lastAddr : Nat} : Grows (loadEnd elf tempPml4 lastAddr) := by
  unfold Loader.loadEnd
  refine .bind .readField fun entry => .bind .kernel fun pml4 => ?_
  generalize copyPageMaps 4 pml4 tempPml4 256 = y
  exact .bind .kernel fun _ => .pure

theorem confines_loadEnd {elf : Elf} {st : LoadState} {good : Prop} {tempPml4 lastAddr : Nat} (h58 : 58 ≤ elf.size)
    (hlog : Confined elf.size st.log) : Confines elf.size good (loadEnd elf tempPml4 lastAddr) st := by
  have hentry : Confined elf.size (st.noted [.read (24 % 2 ^ 64) 8]).log :=
    confined_append.mpr ⟨hlog, List.forall_mem_singleton.mpr (Nat.le_trans (by decide) h58)⟩
  unfold loadEnd
  rw [Confines, after_readField, ← Confines]
  refine confines_kernel setupPML4_error hentry fun pml4 m => ?_
  have hcopy := @copyPageMaps_error 4 pml4 tempPml4 256
  generalize copyPageMaps 4 pml4 tempPml4 256 = y at hcopy ⊢
  exact confines_kernel (fun _ => hcopy) hentry fun _ _ => After.pure hentry

/-- What `LoadApp` refuses. -/
def Elf.Rejected (elf : Elf) (frames : Nat) : Prop :=
  frames = 0 ∨ 4 ≤ elf.size ∧ (elf.field 4 0 ≠ magic ∨ elf.Refused (frames - 1))

theorem confines_loadApp {elf : Elf} {st : LoadState} (h : IsTree st.machine.cr3 st.machine)
    (hlog : Confined elf.size st.log) : Confines elf.size elf.GoodFile (loadApp elf) st ↔
      elf.GoodFile ∨ elf.Rejected (freeFrames st.machine).ncard := by
  have hspec := setupPML4_space h
  unfold After at hspec
  unfold loadApp
  cases hrun : setupPML4 st.machine with
  | error e m =>
    rw [hrun] at hspec
    have hkernel : kernel setupPML4 st = .error e { st with machine := m } := by
      unfold kernel
      rw [hrun]
    rw [Confines, After.bind_of_error hkernel]
    exact iff_of_true ⟨hlog, fun he => by rw [hspec.1] at he; cases he⟩ (.inr (.inl hspec.2))
  | ok pml4 m =>
    rw [hrun] at hspec
    have hkernel : kernel setupPML4 st = .ok pml4 { st with machine := m } := by
      unfold kernel
      rw [hrun]
    have hframes : (freeFrames st.machine).ncard - 1 = (freeFrames m).ncard := by omega
    have hne : (freeFrames st.machine).ncard ≠ 0 := by omega
    rw [Confines, After.bind_of_ok hkernel, after_readField, ← Confines, Elf.Rejected, hframes]
    change Confines elf.size elf.GoodFile (if elf.field 4 0 ≠ magic then throw (.error .kInvalidFile)
      else loadELF elf >>= fun lastAddr => loadEnd elf pml4 lastAddr) _ ↔ _
    simp only [hne, false_or]
    by_cases h4 : 4 ≤ elf.size
    · have hlog1 : Confined elf.size (({ st with machine := m } : LoadState).noted [.read (0 % 2 ^ 64) 4]).log :=
        confined_append.mpr ⟨hlog, List.forall_mem_singleton.mpr h4⟩
      simp only [h4, true_and]
      by_cases hmagic : elf.field 4 0 = magic
      · have hnot : ¬ elf.field 4 0 ≠ magic := fun hn => hn hmagic
        have hspace : UserSpace ∅ (({ st with machine := m } : LoadState).noted [.read (0 % 2 ^ 64) 4]).machine := hspec.1
        rw [if_neg hnot, confines_loadELF hspace hlog1]
        · simp only [hnot, false_or]
          rfl
        · exact fun h58 r st' hlog' => confines_loadEnd h58 hlog'
        · exact fun r => Grows.loadEnd
      · rw [if_pos hmagic]
        exact iff_of_true ⟨hlog1, nofun⟩ (.inr (.inl hmagic))
    · refine iff_of_false (fun hc => h4 ?_) ?_
      · have hconf := hc.log (.ite .throw (Grows.loadELF.bind fun r => Grows.loadEnd))
        exact hconf _ (List.mem_append_right _ (List.mem_singleton_self _))
      · rintro (⟨h58, -⟩ | ⟨h4', -⟩)
        · omega
        · exact h4 h4'

/-- **The loader is confined** to the file and to the upper half, and no other file makes it fault, if and only if the file
is good or it is rejected in time. -/
theorem load_app_confined_iff {elf : Elf} {s : Machine} (h : IsTree s.cr3 s) :
    Confines elf.size elf.GoodFile (loadApp elf) ⟨s, []⟩ ↔ elf.GoodFile ∨ elf.Rejected (freeFrames s).ncard :=
  @confines_loadApp elf ⟨s, []⟩ h (List.forall_mem_nil _)

theorem load_app_confined_half_page :
    Confines (elfOf [halfPage]).size (elfOf [halfPage]).GoodFile (loadApp (elfOf [halfPage])) ⟨zeroMachine, []⟩ := by
  refine (load_app_confined_iff zeroMachine_tree).mpr (.inl ⟨by decide, fun i hi => ?_⟩)
  have hnum : (elfOf [halfPage]).ePhnum = 1 := by decide +kernel
  have hseg : (elfOf [halfPage]).segment 0 = halfPage := by decide +kernel
  rw [hnum, List.range_one, List.mem_singleton] at hi
  rw [hi]
  refine ⟨by decide +kernel, fun _ => ⟨⟨by decide +kernel, by decide +kernel, ?_⟩, ?_, by decide +kernel, by decide +kernel,
    by decide +kernel⟩⟩
  · rw [hseg]
    exact .inr (by decide)
  · rw [hseg]
    exact ⟨by decide, by decide⟩

/-- A page of the kernel. -/
def kernelPage : Segment := ⟨0x200000, 0, 176, 0x1000⟩

/-- The first segment is in the upper half, the second is not. -/
theorem load_app_not_confined : ¬ Confines (elfOf [halfPage, kernelPage]).size (elfOf [halfPage, kernelPage]).GoodFile
    (loadApp (elfOf [halfPage, kernelPage])) ⟨zeroMachine, []⟩ := by
  have hnum : (elfOf [halfPage, kernelPage]).ePhnum = 2 := by decide +kernel
  have hseg0 : (elfOf [halfPage, kernelPage]).segment 0 = halfPage := by decide +kernel
  have hseg1 : (elfOf [halfPage, kernelPage]).segment 1 = kernelPage := by decide +kernel
  have htype : ∀ i < 2, (elfOf [halfPage, kernelPage]).pType i = ptLoad := by decide +kernel
  have hbad : ¬ (elfOf [halfPage, kernelPage]).Mappable 1 := by
    intro h
    have hupper := h.upper
    rw [hseg1] at hupper
    exact absurd hupper (by unfold Segment.MapsUpper; decide)
  have henough : Enough ((freeFrames zeroMachine).ncard - 1) ([] ++ [(elfOf [halfPage, kernelPage]).segment 0]) := by
    have hpages : num4kPages halfPage.memsz = 1 := by decide
    have hframes := zeroMachine_frames
    have hway := ncard_wayTo_one halfPage.vaddr
    rw [hseg0, List.nil_append, Enough, ways_single, Segment.way, hpages]
    omega
  rw [@confines_loadApp _ ⟨zeroMachine, []⟩ zeroMachine_tree (List.forall_mem_nil _)]
  rintro (⟨-, hall⟩ | h0 | ⟨-, hmagic | ⟨-, hexec | ⟨-, -, hfirst | hshort⟩⟩⟩)
  · exact hbad ((hall 1 (by rw [hnum]; decide)).2 (htype 1 (by decide))).toMappable
  · have hframes := zeroMachine_frames
    change (freeFrames zeroMachine).ncard = 0 at h0
    omega
  · exact hmagic (by decide +kernel)
  · exact hexec (by decide +kernel)
  · exact absurd hfirst (by decide +kernel)
  · rw [hnum] at hshort
    obtain ⟨-, h0⟩ := hshort
    rw [if_neg (fun hn => hn (htype 0 (by decide)))] at h0
    obtain ⟨-, -, -, h1⟩ := h0.2 henough
    rw [if_neg (fun hn => hn (htype 1 (by decide)))] at h1
    exact hbad h1.1

end KinOS.Loader
