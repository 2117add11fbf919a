import KinOS.Kernel.Segments

/-!
# Loading the segments

Segment after segment (`copySegments_spec`): the upper half is the image of the segments so far, and a frame has gone for
each entry on the way to their pages. The run stops at the first segment whose pages do not get a frame each, or whose
bytes are not all in the pages made by then.
-/

namespace KinOS.Loader

open Bytes Paging

/-! ## The image of a list of segments -/

/-- The upper half after the segments. -/
def image (elf : Elf) (l : List Segment) : Nat → Option UInt8 := l.foldl (Segment.over elf) fun _ => none

/-- Segments that share a byte give it the same value. -/
def Agree (elf : Elf) (l : List Segment) : Prop :=
  ∀ g ∈ l, ∀ g' ∈ l, ∀ a, g.Has a → g'.Has a → g.content elf a = g'.content elf a

section
variable {elf : Elf} {l : List Segment} {g : Segment} {a : Nat}

theorem image_append : image elf (l ++ [g]) = Segment.over elf (image elf l) g := List.foldl_append

/-- The last segment that has a byte decides. -/
theorem image_content : (∀ g ∈ l, ∀ a, g.Has a → image elf l a = some (g.content elf a)) ↔ Agree elf l := by
  constructor
  · intro h g hg g' hg' a ha ha'
    exact Option.some.inj ((h g hg a ha).symm.trans (h g' hg' a ha'))
  · induction l using List.reverseRecOn with
    | nil =>
      intro _ g hg
      cases hg
    | append_singleton l g' ih =>
      intro hag g hg a ha
      rw [image_append, Segment.over]
      by_cases ha' : g'.Has a
      · rw [if_pos ha', hag g hg g' (List.mem_append_right l (List.mem_singleton_self g')) a ha ha']
      · have hgl : g ∈ l := by
          rcases List.mem_append.mp hg with hgl | hgl
          · exact hgl
          · rw [List.mem_singleton.mp hgl] at ha
            exact absurd ha ha'
        have hagl : Agree elf l := fun x hx y hy b =>
          hag x (List.mem_append_left _ hx) y (List.mem_append_left _ hy) b
        rw [if_neg ha', ih hagl g hgl a ha, Option.some_or]

end

/-- The segments are in memory. -/
structure Loaded (elf : Elf) (frames : Nat) (l : List Segment) (s : Machine) : Prop extends Filled frames l s where
  byte : ∀ a, InUpper a → readByte s a = image elf l a

/-- In the upper half, without going round. -/
structure Segment.Fits (g : Segment) : Prop extends g.Placed where
  ends : g.vaddr + g.memsz < 2 ^ 64

theorem Segment.Fits.placed {g : Segment} (h : g.Fits) : g.Placed ∧ g.vaddr < 2 ^ 64 :=
  ⟨h.toPlaced, Nat.lt_of_le_of_lt (Nat.le_add_right ..) h.ends⟩

/-! ## The loop -/

section
variable {elf : Elf} {frames i last : Nat} {l : List Segment} {st : LoadState}

/-- As long as there are frames for its pages, each segment lies in pages made by then. -/
def AllCovered (frames : Nat) : List Segment → List Segment → Prop
  | _, [] => True
  | l, g :: r => Enough frames (l ++ [g]) → Covered (l ++ [g]) g ∧ AllCovered frames (l ++ [g]) r

theorem ways_finite (l : List Segment) : (ways l).Finite := by
  refine finite_paths ?_
  rintro q ⟨g, -, b, -, hq, -⟩
  exact hq.length_le

theorem Enough.of_append {r : List Segment} (h : Enough frames (l ++ r)) : Enough frames l := by
  refine le_trans (Set.ncard_le_ncard ?_ (ways_finite (l ++ r))) h
  rintro q ⟨g, hg, hq⟩
  exact ⟨g, List.mem_append_left r hg, hq⟩

theorem loads_cons_of_ne {is : List Nat} (h : elf.pType i ≠ ptLoad) : elf.loads (i :: is) = elf.loads is := by
  simp [Elf.loads, h]

theorem loads_cons {is : List Nat} (h : elf.pType i = ptLoad) : elf.loads (i :: is) = elf.segment i :: elf.loads is := by
  simp [Elf.loads, h]

theorem after_copySegments_cons {is : List Nat} {R : Nat → LoadState → Prop} {E : Stop → LoadState → Prop} :
    After (copySegments elf elf.ePhoff (i :: is) last) st R E ↔
      After (if elf.pType i ≠ ptLoad then copySegments elf elf.ePhoff is last
        else copySegment elf (elf.phdr i) last >>= copySegments elf elf.ePhoff is)
        (st.noted [.read (elf.phdr i % 2 ^ 64) 4]) R E := Iff.rfl

/-- `last_addr` after the segments. -/
def lastEnd (last : Nat) (l : List Segment) : Nat := l.foldl (fun m g => max m (g.vaddr + g.memsz)) last

/-- **The loop**, by induction on the headers still to come. -/
theorem copySegments_spec {is : List Nat} (h : Loaded elf frames l st.machine) (hl : ∀ g ∈ l, g.Fits)
    (his : ∀ g ∈ elf.loads is, g.Fits) :
    After (copySegments elf elf.ePhoff is last) st
      (fun r st' => r = lastEnd last (elf.loads is) ∧ Loaded elf frames (l ++ elf.loads is) st'.machine ∧
        AllCovered frames l (elf.loads is))
      (fun e _ => (e = .error .kNoEnoughMemory ∧ ¬ Enough frames (l ++ elf.loads is) ∧
          AllCovered frames l (elf.loads is)) ∨
        (e = .fault ∧ ¬ AllCovered frames l (elf.loads is))) := by
  induction is generalizing st l last with
  | nil =>
    refine .pure ⟨rfl, ?_, trivial⟩
    exact (List.append_nil l).symm ▸ h
  | cons i is ih =>
    have h1 : Loaded elf frames l (st.noted [.read (elf.phdr i % 2 ^ 64) 4]).machine := h
    rw [after_copySegments_cons]
    by_cases ht : elf.pType i = ptLoad
    · rw [loads_cons ht] at his ⊢
      have hg := his (elf.segment i) List.mem_cons_self
      have hstep := @copySegment_spec _ elf i frames last l h1.toFilled (fun g hg => (hl g hg).placed) hg.toPlaced
      refine .ite (fun hn => absurd ht hn) fun _ => .bind (hstep.imp (fun _ _ h => h) ?_) ?_
      · rintro e st' (⟨he, hno, -⟩ | ⟨he, hframes, hcov, -⟩)
        · refine .inl ⟨he, fun hall => hno ?_, fun hyes => absurd hyes hno⟩
          rw [List.append_cons] at hall
          exact hall.of_append
        · exact .inr ⟨he, fun hall => hcov (hall hframes).1⟩
      · rintro _ st' ⟨rfl, -, hfill, hcov, hbyte⟩
        have hend : elf.pVaddr i + elf.pMemsz i < 2 ^ 64 := hg.ends
        have h' : Loaded elf frames (l ++ [elf.segment i]) st'.machine := by
          refine ⟨hfill, fun a ha => ?_⟩
          rw [hbyte a ha, image_append, Segment.over, Segment.over, h1.byte a ha]
        have hl' : ∀ g ∈ l ++ [elf.segment i], g.Fits := by
          intro g hmem
          rcases List.mem_append.mp hmem with hgl | hgi
          · exact hl g hgl
          · exact List.mem_singleton.mp hgi ▸ hg
        rw [List.append_cons, Nat.mod_eq_of_lt hend]
        refine (ih h' hl' fun g hgr => his g (List.mem_cons_of_mem _ hgr)).imp ?_ ?_
        · rintro r st'' ⟨hr, hload, hall⟩
          exact ⟨hr, hload, fun _ => ⟨hcov, hall⟩⟩
        · rintro e st'' (⟨he, hno, hall⟩ | ⟨he, hnot⟩)
          · exact .inl ⟨he, hno, fun _ => ⟨hcov, hall⟩⟩
          · exact .inr ⟨he, fun hall => hnot (hall hfill.enough).2⟩
    · rw [loads_cons_of_ne ht] at his ⊢
      exact .ite (fun _ => ih h1 hl his) fun hn => absurd ht hn

theorem lastEnd_spec : ∀ {l : List Segment} {last : Nat}, last ≤ lastEnd last l ∧
    (∀ g ∈ l, g.vaddr + g.memsz ≤ lastEnd last l) ∧
    (lastEnd last l = last ∨ ∃ g ∈ l, g.vaddr + g.memsz = lastEnd last l)
  | [], last => ⟨Nat.le_refl last, fun g hg => (List.not_mem_nil hg).elim, .inl rfl⟩
  | g :: l, last => by
    obtain ⟨hle, hall, hex⟩ := @lastEnd_spec l (max last (g.vaddr + g.memsz))
    rw [lastEnd, List.foldl_cons]
    change _ ≤ lastEnd _ l ∧ (∀ g' ∈ g :: l, _ ≤ lastEnd _ l) ∧ (lastEnd _ l = last ∨ _)
    refine ⟨by omega, ?_, ?_⟩
    · intro g' hg'
      rcases List.mem_cons.mp hg' with rfl | hmem
      · omega
      · exact hall g' hmem
    · rcases hex with heq | ⟨g', hg', heq⟩
      · by_cases hmax : g.vaddr + g.memsz ≤ last
        · exact .inl (by omega)
        · exact .inr ⟨g, List.mem_cons_self, by change _ = lastEnd _ l; omega⟩
      · exact .inr ⟨g', List.mem_cons_of_mem g hg', heq⟩

theorem lastEnd_greatest {g : Segment} (hg : g ∈ l) : IsGreatest { e | ∃ g ∈ l, g.vaddr + g.memsz = e } (lastEnd 0 l) := by
  obtain ⟨-, hall, hex⟩ := @lastEnd_spec l 0
  constructor
  · rcases hex with heq | hex
    · exact ⟨g, hg, by have := hall g hg; omega⟩
    · exact hex
  · rintro _ ⟨g', hg', rfl⟩
    exact hall g' hg'

end

/-! ## `LoadELF` -/

namespace Elf

/-- The segments of the file. -/
def segments (elf : Elf) : List Segment := elf.loads (List.range elf.ePhnum)

/-- What `GetFirstLoadAddress` finds in the program headers `is`. -/
def firstVaddr (elf : Elf) (is : List Nat) : Nat := ((elf.loads is).head?.map (·.vaddr)).getD 0

end Elf

/-- What it reads of them. -/
def firstLog (elf : Elf) : List Nat → List Access
  | [] => []
  | i :: is => .read (elf.phdr i % 2 ^ 64) 4 ::
    if elf.pType i ≠ ptLoad then firstLog elf is else [.read ((elf.phdr i + 16) % 2 ^ 64) 8]

/-- What is read of the file's header, before each of the two loops. -/
def tableLog : List Access := [.read (32 % 2 ^ 64) 8, .read (56 % 2 ^ 64) 2]

section
variable {elf : Elf} {R : Nat → LoadState → Prop} {E : Stop → LoadState → Prop}

theorem firstLoad_eq : ∀ {is : List Nat} {st : LoadState},
    firstLoad elf elf.ePhoff is st = .ok (elf.firstVaddr is) (st.noted (firstLog elf is))
  | [], st => by
    rw [firstLog, LoadState.noted, List.append_nil]
    rfl
  | i :: is, st => by
    change (if elf.pType i ≠ ptLoad then firstLoad elf elf.ePhoff is else elf.readField 8 (elf.phdr i + 16))
      (st.noted [.read (elf.phdr i % 2 ^ 64) 4]) = _
    unfold firstLog Elf.firstVaddr
    by_cases ht : elf.pType i = ptLoad
    · have hn : ¬ elf.pType i ≠ ptLoad := fun hne => hne ht
      rw [if_neg hn, if_neg hn, loads_cons ht]
      exact congrArg _ (LoadState.noted_noted st _ _)
    · rw [if_pos ht, if_pos ht, loads_cons_of_ne ht, firstLoad_eq]
      exact congrArg _ (LoadState.noted_noted st _ _)

theorem getFirstLoadAddress_eq (st : LoadState) : getFirstLoadAddress elf st =
    .ok (elf.firstVaddr (List.range elf.ePhnum)) (st.noted (tableLog ++ firstLog elf (List.range elf.ePhnum))) := by
  change firstLoad elf elf.ePhoff (List.range elf.ePhnum) ((st.noted _).noted _) = _
  rw [firstLoad_eq, LoadState.noted_noted, LoadState.noted_noted]
  rfl

theorem copyLoadSegments_eq (st : LoadState) : copyLoadSegments elf st =
    copySegments elf elf.ePhoff (List.range elf.ePhnum) 0 (st.noted tableLog) := by
  change copySegments elf elf.ePhoff (List.range elf.ePhnum) 0 ((st.noted _).noted _) = _
  rw [LoadState.noted_noted]
  rfl

/-- What `LoadELF` reads before it looks at a segment. -/
def headLog (elf : Elf) : List Access := .read (16 % 2 ^ 64) 2 :: tableLog ++ firstLog elf (List.range elf.ePhnum)

theorem loadELF_eq (st : LoadState) : loadELF elf st =
    if elf.eType ≠ etExec then .error (.error .kInvalidFormat) (st.noted [.read (16 % 2 ^ 64) 2])
    else if elf.firstVaddr (List.range elf.ePhnum) < upper then .error (.error .kInvalidFormat) (st.noted (headLog elf))
    else copySegments elf elf.ePhoff (List.range elf.ePhnum) 0 (st.noted (headLog elf ++ tableLog)) := by
  change (if elf.eType ≠ etExec then throw (.error .kInvalidFormat) else (getFirstLoadAddress elf >>= fun addrFirst =>
    if addrFirst < upper then throw (.error .kInvalidFormat) else copyLoadSegments elf)) (st.noted _) = _
  by_cases hexec : elf.eType = etExec
  · have hn : ¬ elf.eType ≠ etExec := fun h => h hexec
    rw [if_neg hn, if_neg hn, EStateM.run_bind_of_ok (getFirstLoadAddress_eq _), LoadState.noted_noted]
    by_cases hfirst : elf.firstVaddr (List.range elf.ePhnum) < upper
    · rw [if_pos hfirst, if_pos hfirst]
      rfl
    · rw [if_neg hfirst, if_neg hfirst, copyLoadSegments_eq, LoadState.noted_noted]
      rfl
  · rw [if_pos hexec, if_pos hexec]
    rfl

/-- Every store of `LoadELF` is to a page that is mapped; if it succeeds, the segments are in memory and `last_addr` is the
greatest of their ends. -/
def LoadsWell (elf : Elf) (st : LoadState) : Prop :=
  After (loadELF elf) st
    (fun last st' => IsGreatest { e | ∃ g ∈ elf.segments, g.vaddr + g.memsz = e } last ∧
      ∀ g ∈ elf.segments, ∀ a, g.Has a → readByte st'.machine a = some (g.content elf a))
    (fun e _ => e ≠ .fault)

theorem loadsWell_iff {st : LoadState} (h : UserSpace ∅ st.machine) (hexec : elf.eType = etExec)
    (hfirst : upper ≤ elf.firstVaddr (List.range elf.ePhnum)) (hfits : ∀ g ∈ elf.segments, g.Fits) :
    LoadsWell elf st ↔ AllCovered (freeFrames st.machine).ncard [] elf.segments ∧
      (Enough (freeFrames st.machine).ncard elf.segments → Agree elf elf.segments) := by
  have hstart : Loaded elf (freeFrames st.machine).ncard [] (st.noted (headLog elf ++ tableLog)).machine := by
    refine ⟨.start h, fun a ha => ?_⟩
    have hread := h.readByte_eq ha
    rwa [if_neg (Set.notMem_empty _)] at hread
  have hspec := @copySegments_spec elf _ 0 [] _ (List.range elf.ePhnum) hstart
    (fun g hg => (List.not_mem_nil hg).elim) hfits
  have hrun : loadELF elf st = copySegments elf elf.ePhoff (List.range elf.ePhnum) 0
      (st.noted (headLog elf ++ tableLog)) := by
    rw [loadELF_eq, if_neg (fun hne => hne hexec), if_neg (Nat.not_lt.mpr hfirst)]
  unfold LoadsWell
  unfold After at hspec ⊢
  rw [hrun]
  cases hx : copySegments elf elf.ePhoff (List.range elf.ePhnum) 0 (st.noted (headLog elf ++ tableLog)) with
  | ok last st' =>
    rw [hx] at hspec
    obtain ⟨rfl, hload, hall⟩ := hspec
    obtain ⟨g, hg⟩ : ∃ g, g ∈ elf.segments := by
      refine List.exists_mem_of_ne_nil _ fun hnil => ?_
      rw [Elf.firstVaddr, ← Elf.segments, hnil] at hfirst
      exact absurd hfirst (by decide)
    constructor
    · rintro ⟨-, hcontent⟩
      refine ⟨hall, fun _ => image_content.mp fun g hg a ha => ?_⟩
      rw [← hcontent g hg a ha]
      exact (hload.byte a ((hfits g hg).inUpper ha)).symm
    · rintro ⟨-, hagree⟩
      refine ⟨lastEnd_greatest hg, fun g hg a ha => ?_⟩
      rw [← image_content.mpr (hagree hload.enough) g hg a ha]
      exact hload.byte a ((hfits g hg).inUpper ha)
  | error e st' =>
    rw [hx] at hspec
    rcases hspec with ⟨rfl, hno, hall⟩ | ⟨rfl, hnot⟩
    · exact ⟨fun _ => ⟨hall, fun hyes => absurd hyes hno⟩, fun _ => nofun⟩
    · exact ⟨fun h => absurd rfl h, fun h => absurd h.1 hnot⟩

end

/-- **Every loaded byte is mapped before it is written**, and the segments get their bytes, if and only if each segment
there are frames for lies in pages made by then, and segments that overlap agree. -/
theorem load_elf_iff {elf : Elf} {s m : Machine} {pml4 : Nat} {log : List Access} (htree : IsTree s.cr3 s)
    (hpml4 : setupPML4 s = .ok pml4 m) (hexec : elf.eType = etExec)
    (hfirst : upper ≤ elf.firstVaddr (List.range elf.ePhnum)) (hfits : ∀ g ∈ elf.segments, g.Fits) :
    LoadsWell elf ⟨m, log⟩ ↔ AllCovered (freeFrames m).ncard [] elf.segments ∧
      (Enough (freeFrames m).ncard elf.segments → Agree elf elf.segments) :=
  loadsWell_iff ((setupPML4_space htree).ok hpml4).1 hexec hfirst hfits

/-! ## One segment alone -/

theorem ncard_wayTo_one (v : Nat) : (wayTo v 1).ncard ≤ 5 := by
  have hsub : wayTo v 1 ⊆ ((LinearAddress4Level.ofValue v).path.tails.toFinset : Set Path) := by
    rintro q ⟨b, ⟨h1, h2⟩, hq, -⟩
    have hb : b.path = (LinearAddress4Level.ofValue v).path := Path.number_inj rfl (by omega)
    rw [hb] at hq
    simp only [SetLike.mem_coe, List.mem_toFinset, List.mem_tails]
    exact hq
  refine (Set.ncard_le_ncard hsub (Finset.finite_toSet _)).trans ?_
  rw [Set.ncard_coe_finset]
  exact (List.toFinset_card_le _).trans (by rw [List.length_tails]; rfl)

theorem ways_single (g : Segment) : ways [g] = g.way := by
  have h := ways_append [] g
  rwa [ways_nil, Set.empty_union] at h

theorem zeroMachine_frames : 99 ≤ (freeFrames zeroMachine).ncard := by
  have hsub : ((Finset.Ico 1 100 : Finset Nat) : Set Nat) ⊆ freeFrames zeroMachine := by
    intro f hf
    obtain ⟨h1, h2⟩ := Finset.mem_Ico.mp hf
    refine ⟨h1, h2, fun g _ _ => ?_⟩
    simp [BitmapMemoryManager.getBit, zeroMachine, BitmapMemoryManager.setMemoryRange, BitmapMemoryManager.init]
  have hcard := Set.ncard_le_ncard hsub (freeFrames_finite zeroMachine)
  rwa [Set.ncard_coe_finset] at hcard

theorem zeroMachine_setup : ∃ pml4 m, setupPML4 zeroMachine = .ok pml4 m ∧ 5 ≤ (freeFrames m).ncard := by
  have hfree := zeroMachine_frames
  have htree : IsTree zeroMachine.cr3 zeroMachine := zeroMachine_tree
  have hspec := setupPML4_space htree
  unfold After at hspec
  cases hrun : setupPML4 zeroMachine with
  | ok pml4 m =>
    rw [hrun] at hspec
    exact ⟨pml4, m, rfl, by omega⟩
  | error e m =>
    rw [hrun] at hspec
    omega

def putHeader (m : Mem) (off : Nat) (g : Segment) : Mem :=
  Bytes.store 8 (Bytes.store 8 (Bytes.store 8 (Bytes.store 8 (Bytes.store 4 m off ptLoad) (off + 8) g.offset)
    (off + 16) g.vaddr) (off + 32) g.filesz) (off + 40) g.memsz

/-- A file of a header and a program header for each segment. -/
def elfOf (l : List Segment) : Elf where
  mem := l.zipIdx.foldl (fun m p => putHeader m (64 + 56 * p.2) p.1)
    (Bytes.store 2 (Bytes.store 8 (Bytes.store 2 (Bytes.store 4 (fun _ => 0) 0 magic) 16 etExec) 32 64) 56 l.length)
  size := 64 + 56 * l.length

/-- From the middle of a page to its end. -/
def halfPage : Segment := ⟨upper + 0x800, 0, 120, 0x800⟩

theorem halfPage_segments : (elfOf [halfPage]).segments = [halfPage] := by decide +kernel

theorem halfPage_onPages {a : Nat} (ha : halfPage.Has a) : halfPage.OnPages a := by
  have hpages : num4kPages halfPage.memsz = 1 := by decide
  have hv : halfPage.vaddr = 4096 * 0xffff800000000 + 0x800 := by decide
  have hm : halfPage.memsz = 0x800 := rfl
  rw [Segment.Has] at ha
  rw [Segment.OnPages]
  omega

theorem load_elf_half_page : ∃ pml4 m, setupPML4 zeroMachine = .ok pml4 m ∧ LoadsWell (elfOf [halfPage]) ⟨m, []⟩ := by
  obtain ⟨pml4, m, hrun, hfree⟩ := zeroMachine_setup
  refine ⟨pml4, m, hrun, ?_⟩
  refine (load_elf_iff zeroMachine_tree hrun (by decide +kernel) (by decide +kernel) ?_).mpr ?_
  · rw [halfPage_segments]
    intro g hg
    rw [List.mem_singleton.mp hg]
    exact ⟨⟨by decide, by decide⟩, by decide⟩
  · rw [halfPage_segments]
    refine ⟨fun _ => ⟨fun a ha => ⟨halfPage, List.mem_singleton_self _, ?_⟩, trivial⟩, fun _ => ?_⟩
    · exact halfPage_onPages ha
    · intro g hg g' hg' a _ _
      rw [List.mem_singleton.mp hg, List.mem_singleton.mp hg']

/-- A page from the middle of a page on. -/
def twoHalves : Segment := ⟨upper + 0x800, 0, 120, 0x1000⟩

theorem twoHalves_segments : (elfOf [twoHalves]).segments = [twoHalves] := by decide +kernel

/-- The page count is 1, and the second half is not mapped. -/
theorem load_elf_not_covered : ∃ pml4 m, setupPML4 zeroMachine = .ok pml4 m ∧ (elfOf [twoHalves]).eType = etExec ∧
    upper ≤ (elfOf [twoHalves]).firstVaddr (List.range (elfOf [twoHalves]).ePhnum) ∧
    (∀ g ∈ (elfOf [twoHalves]).segments, g.Fits) ∧ ¬ LoadsWell (elfOf [twoHalves]) ⟨m, []⟩ := by
  obtain ⟨pml4, m, hrun, hfree⟩ := zeroMachine_setup
  have hexec : (elfOf [twoHalves]).eType = etExec := by decide +kernel
  have hfirst : upper ≤ (elfOf [twoHalves]).firstVaddr (List.range (elfOf [twoHalves]).ePhnum) := by decide +kernel
  have hfits : ∀ g ∈ (elfOf [twoHalves]).segments, g.Fits := by
    rw [twoHalves_segments]
    intro g hg
    rw [List.mem_singleton.mp hg]
    exact ⟨⟨by decide, by decide⟩, by decide⟩
  refine ⟨pml4, m, hrun, hexec, hfirst, hfits, ?_⟩
  have htree : IsTree zeroMachine.cr3 zeroMachine := zeroMachine_tree
  rw [loadsWell_iff ((setupPML4_space htree).ok hrun).1 hexec hfirst hfits, twoHalves_segments]
  rintro ⟨hall, -⟩
  have hpages : num4kPages twoHalves.memsz = 1 := by decide
  have henough : Enough (freeFrames m).ncard [twoHalves] := by
    rw [Enough, ways_single, Segment.way, hpages]
    exact (ncard_wayTo_one _).trans hfree
  obtain ⟨g, hg, hon⟩ := (hall henough).1 (upper + 0x1000) (by decide)
  rw [List.nil_append, List.mem_singleton] at hg
  rw [hg] at hon
  exact absurd hon (by decide)

end KinOS.Loader
