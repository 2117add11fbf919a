import KinOS.Kernel.MemoryManager

/-!
# The bits `InitializeMemoryManager` and `Allocate` touch

| here | there |
| --- | --- |
| `scanIndices`, `allocateIndices` | the arguments of `GetBit` and `SetBit` in `Allocate` (`memory_manager.cpp:12-47`) |
| `Import`, `importRound`          | the descriptor loop in 64-bit arithmetic (`memory_manager.cpp:109-128`) |
| `heapFrames`, `bootIndices`      | `InitializeHeap` and the calls after it (`memory_manager.cpp:88-99`, `129-136`) |

`importDescriptor` of `MemoryManager` adds without a bound; here `physical_end` and the size of a region are reduced
modulo `2^64`, as `uintptr_t` reduces them, and `Import.manager_eq_importMap` says when that makes no difference. The
bitmap has `kFrameCount` bits. An index from there on is a read or write behind `alloc_map_`, so a list of indices is
exact up to the first such index, which is all the theorems use. -/

namespace KinOS.Paging

namespace BitmapMemoryManager

/-- What the `for` loop of `Allocate` passes to `GetBit`. -/
def scanIndices (m : BitmapMemoryManager) (start : Nat) : Nat → Nat → List Nat
  | 0, _ => []
  | k + 1, i =>
    if m.rangeEnd ≤ start + i then []
    else (start + i) :: if m.getBit (start + i) then [] else m.scanIndices start k (i + 1)

/-- What the `while` loop of `Allocate` passes to `GetBit`, and then `MarkAllocated` to `SetBit`. -/
def allocateFromIndices (m : BitmapMemoryManager) (n start : Nat) : List Nat :=
  m.scanIndices start n 0 ++
    match h : m.scan start n 0 with
    | .outOfRange => []
    | .free => List.range' start n
    | .hit i => m.allocateFromIndices n (start + i + 1)
termination_by m.rangeEnd - start
decreasing_by
  have := scan_hit h
  omega

def allocateIndices (m : BitmapMemoryManager) (n : Nat) : List Nat := m.allocateFromIndices n m.rangeBegin

theorem allocateFromIndices_eq (m : BitmapMemoryManager) (n start : Nat) : m.allocateFromIndices n start =
    m.scanIndices start n 0 ++
      match m.scan start n 0 with
      | .outOfRange => []
      | .free => List.range' start n
      | .hit i => m.allocateFromIndices n (start + i + 1) := by
  rw [allocateFromIndices]
  congr 1
  split <;> simp_all only

theorem scanIndices_lt {m : BitmapMemoryManager} {start f : Nat} : ∀ {k i : Nat}, f ∈ m.scanIndices start k i →
    f < m.rangeEnd
  | 0, _, h => by simp [scanIndices] at h
  | k + 1, i, h => by
    rw [scanIndices] at h
    split at h
    · simp at h
    · rcases List.mem_cons.mp h with rfl | h
      · omega
      · split at h
        · simp at h
        · exact scanIndices_lt h

/-- The loop looks at every frame in front of the one it stops at. -/
theorem scanIndices_mem {m : BitmapMemoryManager} {start f : Nat} : ∀ {k i : Nat}, start + i ≤ f →
    match m.scan start k i with
    | .outOfRange => f < m.rangeEnd → f ∈ m.scanIndices start k i
    | .free => f < start + i + k → f ∈ m.scanIndices start k i
    | .hit j => f ≤ start + j → f ∈ m.scanIndices start k i
  | 0, i, hf => by
    intro hlt
    omega
  | k + 1, i, hf => by
    rw [scan, scanIndices]
    by_cases hend : m.rangeEnd ≤ start + i
    · rw [if_pos hend]
      intro hlt
      omega
    · rw [if_neg hend, if_neg hend]
      by_cases hbit : m.getBit (start + i) = true
      · rw [if_pos hbit]
        intro hle
        have : f = start + i := by omega
        simp [this]
      · rw [if_neg hbit, if_neg hbit]
        by_cases heq : f = start + i
        · cases m.scan start k (i + 1) <;> (intro _; simp [heq])
        · have ih := scanIndices_mem (m := m) (k := k) (i := i + 1) (show start + (i + 1) ≤ f by omega)
          cases hs : m.scan start k (i + 1) <;> rw [hs] at ih <;> intro hlt <;> apply List.mem_cons_of_mem
          · exact ih hlt
          · exact ih hlt
          · exact ih (by omega)

/-- Every index is inside the range the allocator was given. -/
theorem allocateFromIndices_lt {m : BitmapMemoryManager} {n start f : Nat} (h : f ∈ m.allocateFromIndices n start) :
    f < m.rangeEnd := by
  rw [allocateFromIndices_eq] at h
  rcases List.mem_append.mp h with h | h
  · exact scanIndices_lt h
  · cases hs : m.scan start n 0 with
    | outOfRange =>
      rw [hs] at h
      simp at h
    | free =>
      rw [hs] at h
      have hend := (scan_free hs).1
      obtain ⟨h1, h2⟩ := List.mem_range'_1.mp h
      have := hend (by omega)
      omega
    | hit i =>
      rw [hs] at h
      have := scan_hit hs
      exact allocateFromIndices_lt h
termination_by m.rangeEnd - start

/-- **A failed `Allocate` has looked at every frame of the range.** -/
theorem allocateFromIndices_error {m : BitmapMemoryManager} {n start f : Nat} {e : Error}
    (h : m.allocateFrom n start = .error e) (hf : start ≤ f) (hend : f < m.rangeEnd) :
    f ∈ m.allocateFromIndices n start := by
  rw [allocateFrom_eq] at h
  rw [allocateFromIndices_eq]
  have hmem := @scanIndices_mem m start f n 0 hf
  cases hs : m.scan start n 0 with
  | outOfRange =>
    rw [hs] at hmem
    exact List.mem_append_left _ (hmem hend)
  | free =>
    rw [hs] at h
    cases h
  | hit i =>
    rw [hs] at h hmem
    have := scan_hit hs
    by_cases hle : f ≤ start + i
    · exact List.mem_append_left _ (hmem hle)
    · exact List.mem_append_right _ (allocateFromIndices_error h (by omega) hend)
termination_by m.rangeEnd - start

theorem allocate_range (m : BitmapMemoryManager) (n : Nat) :
    (m.allocate n).2.rangeBegin = m.rangeBegin ∧ (m.allocate n).2.rangeEnd = m.rangeEnd := by
  unfold allocate
  cases m.allocateFrom n m.rangeBegin with
  | error e => exact ⟨rfl, rfl⟩
  | ok s => exact setBits_range true n m s

theorem allocateIndices_error {m : BitmapMemoryManager} {n f : Nat} {e : Error} (h : (m.allocate n).1 = .error e)
    (hf : m.rangeBegin ≤ f) (hend : f < m.rangeEnd) : f ∈ m.allocateIndices n := by
  apply allocateFromIndices_error (e := e) _ hf hend
  unfold allocate at h
  cases hres : m.allocateFrom n m.rangeBegin with
  | error e' =>
    rw [hres] at h
    exact h
  | ok s =>
    rw [hres] at h
    cases h

/-- A later call: `Allocate` of any number of frames, or `Free` of frames that the bitmap has. -/
inductive Call
  | allocate (n : Nat)
  | free (start n : Nat) (inBitmap : start + n ≤ kFrameCount)

/-- The indices the `Allocate` calls of a sequence pass on. -/
def callIndices (m : BitmapMemoryManager) : List Call → List Nat
  | [] => []
  | .allocate n :: calls => m.allocateIndices n ++ (m.allocate n).2.callIndices calls
  | .free start n _ :: calls => (m.free start n).callIndices calls

theorem callIndices_lt {f : Nat} : ∀ {calls : List Call} {m : BitmapMemoryManager}, f ∈ m.callIndices calls →
    f < m.rangeEnd
  | [], _, h => by simp [callIndices] at h
  | .allocate n :: calls, m, h => by
    rw [callIndices] at h
    rcases List.mem_append.mp h with h | h
    · exact allocateFromIndices_lt h
    · rw [← (m.allocate_range n).2]
      exact callIndices_lt h
  | .free start n _ :: calls, m, h => by
    rw [callIndices] at h
    rw [← (setBits_range false n m start).2]
    exact callIndices_lt h

/-- The unmarked frames of the range. -/
def freeFrames (m : BitmapMemoryManager) : Finset Nat :=
  (Finset.range m.rangeEnd).filter fun f => m.rangeBegin ≤ f ∧ m.getBit f = false

theorem allocate_one_freeFrames {m m' : BitmapMemoryManager} {s : Nat} (h : m.allocate 1 = (.ok s, m')) :
    m'.freeFrames.card < m.freeFrames.card := by
  rcases m.allocate_spec (Nat.le_refl 1) with ⟨s', he, hrun, -⟩ | ⟨he, -⟩ <;> rw [he] at h <;> cases h
  obtain ⟨hb, hend, hfree⟩ := hrun
  have hrange := setBits_range true 1 m s
  have hsub : (m.markAllocated s 1).freeFrames ⊆ m.freeFrames := by
    intro f hf
    simp only [freeFrames, markAllocated, Finset.mem_filter, Finset.mem_range, hrange.1, hrange.2, getBit_setBits] at hf ⊢
    obtain ⟨hlt, hle, hbit⟩ := hf
    refine ⟨hlt, hle, ?_⟩
    split at hbit
    · cases hbit
    · exact hbit
  apply Finset.card_lt_card
  rw [Finset.ssubset_iff_of_subset hsub]
  refine ⟨s, ?_, ?_⟩
  · simp only [freeFrames, Finset.mem_filter, Finset.mem_range]
    exact ⟨by omega, hb, hfree s (Nat.le_refl s) (by omega)⟩
  · simp [freeFrames, markAllocated, getBit_setBits]

/-- Single frames are handed out until none is left, and the call that fails looks at the whole range. -/
theorem exists_call_mem {f : Nat} (m : BitmapMemoryManager) (hf : m.rangeBegin ≤ f) (hend : f < m.rangeEnd) :
    ∃ calls, f ∈ m.callIndices calls := by
  induction hk : m.freeFrames.card using Nat.strong_induction_on generalizing m with
  | _ k ih =>
    cases hres : (m.allocate 1).1 with
    | error e =>
      refine ⟨[.allocate 1], ?_⟩
      rw [callIndices]
      exact List.mem_append_left _ (allocateIndices_error hres hf hend)
    | ok s =>
      have hlt := @allocate_one_freeFrames m (m.allocate 1).2 s (Prod.ext hres rfl)
      have hrange := m.allocate_range 1
      obtain ⟨calls, hmem⟩ := ih _ (hk ▸ hlt) (m.allocate 1).2 (by omega) (by omega) rfl
      refine ⟨.allocate 1 :: calls, ?_⟩
      rw [callIndices]
      exact List.mem_append_right _ hmem

end BitmapMemoryManager

/-! ## The boot memory map in 64-bit arithmetic -/

/-- The loop variables of `InitializeMemoryManager`, and what it has passed to `SetBit`. -/
structure Import where
  mgr : BitmapMemoryManager
  availableEnd : Nat
  indices : List Nat

namespace Import

def init : Import := ⟨.init, 0, []⟩

/-- `MarkAllocated`. -/
def mark (st : Import) (start n : Nat) : Import :=
  { st with mgr := st.mgr.markAllocated start n, indices := st.indices ++ List.range' start n }

/-- `number_of_pages * kUEFIPageSize`. -/
def size (d : MemoryDescriptor) : Nat := d.numberOfPages * 4096 % 2 ^ 64

/-- `physical_end`. -/
def physicalEnd (d : MemoryDescriptor) : Nat := (d.physicalStart + size d) % 2 ^ 64

/-- One round of the descriptor loop. -/
def round (st : Import) (d : MemoryDescriptor) : Import :=
  let st :=
    if st.availableEnd < d.physicalStart then
      st.mark (st.availableEnd / 4096) ((d.physicalStart - st.availableEnd) / 4096)
    else st
  if isAvailable d.type then { st with availableEnd := physicalEnd d }
  else st.mark (d.physicalStart / 4096) (size d / 4096)

def run (ds : List MemoryDescriptor) : Import := ds.foldl round init

/-- The allocator after `SetMemoryRange`. -/
def manager (ds : List MemoryDescriptor) : BitmapMemoryManager :=
  (run ds).mgr.setMemoryRange 1 ((run ds).availableEnd / 4096)

end Import

namespace Import

/-- What one round passes to `SetBit`, from the `available_end` before it. -/
def marked (availableEnd : Nat) (d : MemoryDescriptor) : List Nat :=
  (if availableEnd < d.physicalStart then
    List.range' (availableEnd / 4096) ((d.physicalStart - availableEnd) / 4096)
  else []) ++
  if isAvailable d.type then [] else List.range' (d.physicalStart / 4096) (size d / 4096)

theorem round_indices (st : Import) (d : MemoryDescriptor) :
    (st.round d).indices = st.indices ++ marked st.availableEnd d := by
  unfold round marked
  by_cases hhole : st.availableEnd < d.physicalStart <;> cases ha : isAvailable d.type <;> simp [hhole, mark]

theorem round_availableEnd (st : Import) (d : MemoryDescriptor) :
    (st.round d).availableEnd = if isAvailable d.type then physicalEnd d else st.availableEnd := by
  unfold round
  by_cases hhole : st.availableEnd < d.physicalStart <;> cases ha : isAvailable d.type <;> simp [hhole, mark]

theorem run_append (ds : List MemoryDescriptor) (d : MemoryDescriptor) : run (ds ++ [d]) = (run ds).round d := by
  simp [run]

/-- The end of the last available region of the map, in 64 bits. -/
def lastEnd (ds : List MemoryDescriptor) : Nat :=
  ((ds.filter fun d => isAvailable d.type).getLast?.map physicalEnd).getD 0

theorem run_availableEnd (ds : List MemoryDescriptor) : (run ds).availableEnd = lastEnd ds := by
  induction ds using List.reverseRecOn with
  | nil => rfl
  | append_singleton ds d ih =>
    rw [run_append, round_availableEnd, ih]
    cases ha : isAvailable d.type <;> simp [lastEnd, List.filter_append, ha]

/-- The indices of the whole loop, round by round. -/
theorem mem_run_indices {ds : List MemoryDescriptor} {f : Nat} :
    f ∈ (run ds).indices ↔ ∃ pre d post, ds = pre ++ d :: post ∧ f ∈ marked (lastEnd pre) d := by
  induction ds using List.reverseRecOn with
  | nil => simp [run, init]
  | append_singleton ds d ih =>
    rw [run_append, round_indices, List.mem_append, ih, run_availableEnd]
    constructor
    · rintro (⟨pre, c, post, rfl, hf⟩ | hf)
      · exact ⟨pre, c, post ++ [d], by simp, hf⟩
      · exact ⟨ds, d, [], rfl, hf⟩
    · rintro ⟨pre, c, post, heq, hf⟩
      -- the round is the last one or one of the others
      induction post using List.reverseRecOn with
      | nil =>
        obtain ⟨rfl, hc⟩ := List.append_inj' heq rfl
        cases hc
        exact .inr hf
      | append_singleton post d' _ =>
        rw [← List.cons_append, ← List.append_assoc] at heq
        obtain ⟨rfl, -⟩ := List.append_inj' heq rfl
        exact .inl ⟨pre, c, post, rfl, hf⟩

/-- A page-aligned region of the 64-bit address space. -/
structure InSpace (d : MemoryDescriptor) : Prop where
  aligned : d.physicalStart % 4096 = 0
  start : d.physicalStart < 2 ^ 64
  fits : d.physicalEnd ≤ 2 ^ 64

theorem lastEnd_aligned {ds : List MemoryDescriptor} (hds : ∀ d ∈ ds, InSpace d) : lastEnd ds % 4096 = 0 := by
  unfold lastEnd
  cases h : (ds.filter fun d => isAvailable d.type).getLast? with
  | none => rfl
  | some d =>
    have hd := (hds d (List.mem_of_mem_filter (List.mem_of_getLast? h))).aligned
    simp only [Option.map_some, Option.getD_some, physicalEnd, size]
    omega

theorem forall_range'_lt {s n k : Nat} : (∀ f ∈ List.range' s n, f < k) ↔ n = 0 ∨ s + n ≤ k := by
  constructor
  · intro h
    rcases Nat.eq_zero_or_pos n with hn | hn
    · exact .inl hn
    · have := h (s + n - 1) (List.mem_range'_1.mpr (by omega))
      exact .inr (by omega)
  · intro h f hf
    have := List.mem_range'_1.mp hf
    omega

/-- Where one round stays inside the bitmap: the hole in front of the region ends by 128 GiB, and so does the region
unless it is available or empty. -/
theorem marked_lt_iff {e : Nat} {d : MemoryDescriptor} (he : e % 4096 = 0) (hd : InSpace d) :
    (∀ f ∈ marked e d, f < kFrameCount) ↔
      (e < d.physicalStart → d.physicalStart ≤ kFrameCount * 4096) ∧
      (isAvailable d.type = false → size d = 0 ∨ d.physicalEnd ≤ kFrameCount * 4096) := by
  obtain ⟨hal, hstart, hfits⟩ := hd
  unfold MemoryDescriptor.physicalEnd at hfits
  have hhole : (∀ f ∈ (if e < d.physicalStart then List.range' (e / 4096) ((d.physicalStart - e) / 4096) else []),
      f < kFrameCount) ↔ (e < d.physicalStart → d.physicalStart ≤ kFrameCount * 4096) := by
    by_cases hlt : e < d.physicalStart
    · rw [if_pos hlt, forall_range'_lt]
      omega
    · simp [hlt]
  have hregion : (∀ f ∈ (if isAvailable d.type then [] else List.range' (d.physicalStart / 4096) (size d / 4096)),
      f < kFrameCount) ↔ (isAvailable d.type = false → size d = 0 ∨ d.physicalEnd ≤ kFrameCount * 4096) := by
    cases ha : isAvailable d.type with
    | true => simp
    | false =>
      simp only [Bool.false_eq_true, if_false, true_imp_iff]
      rw [forall_range'_lt]
      unfold size MemoryDescriptor.physicalEnd
      omega
  unfold marked
  rw [List.forall_mem_append, hhole, hregion]

end Import

/-! ## Where the 64 bits make no difference -/

namespace Import

theorem round_eq_importDescriptor (st : Import) {d : MemoryDescriptor} (hd : d.physicalEnd < 2 ^ 64) :
    ((st.round d).mgr, (st.round d).availableEnd) = importDescriptor (st.mgr, st.availableEnd) d := by
  have hsize : size d = d.numberOfPages * 4096 := by
    unfold MemoryDescriptor.physicalEnd at hd
    exact Nat.mod_eq_of_lt (by omega)
  have hend : physicalEnd d = d.physicalEnd := by
    unfold physicalEnd
    rw [hsize]
    exact Nat.mod_eq_of_lt hd
  unfold round importDescriptor
  rw [hsize, hend]
  by_cases hhole : st.availableEnd < d.physicalStart <;> cases ha : isAvailable d.type <;> simp [hhole, mark]

/-- For descriptors that end below `2 ^ 64` the import in 64 bits is the one of `importMap`. -/
theorem manager_eq_importMap {ds : List MemoryDescriptor} (hds : ∀ d ∈ ds, d.physicalEnd < 2 ^ 64) :
    manager ds = importMap ds := by
  have hrun : ((run ds).mgr, (run ds).availableEnd) = ds.foldl importDescriptor (.init, 0) := by
    induction ds using List.reverseRecOn with
    | nil => rfl
    | append_singleton ds d ih =>
      obtain ⟨hpre, hd⟩ := List.forall_mem_append.mp hds
      rw [run_append, round_eq_importDescriptor _ (hd d (by simp)), List.foldl_append, ← ih hpre]
      rfl
  unfold manager importMap
  rw [← hrun]

end Import

/-- `kHeapFrames`. -/
def kHeapFrames : Nat := 64 * 512

/-- Every index passed on by `InitializeMemoryManager` and the `Allocate` calls after it. Without a heap it calls
`exit`, and there are no later calls. -/
def bootIndices (ds : List MemoryDescriptor) (calls : List BitmapMemoryManager.Call) : List Nat :=
  let m := Import.manager ds
  (Import.run ds).indices ++ m.allocateIndices kHeapFrames ++
    match (m.allocate kHeapFrames).1 with
    | .error _ => []
    | .ok _ => (m.allocate kHeapFrames).2.callIndices calls

/-- Where the map stays below 128 GiB: its last available region, every hole in front of a region (behind the last
available one before it), and every region that is not available and not empty. -/
structure FitsBitmap (ds : List MemoryDescriptor) : Prop where
  available : Import.lastEnd ds ≤ kFrameCount * 4096
  hole : ∀ pre d post, ds = pre ++ d :: post → Import.lastEnd pre < d.physicalStart →
    d.physicalStart ≤ kFrameCount * 4096
  region : ∀ d ∈ ds, isAvailable d.type = false → Import.size d = 0 ∨ d.physicalEnd ≤ kFrameCount * 4096

theorem Import.indices_lt_iff {ds : List MemoryDescriptor} (hds : ∀ d ∈ ds, Import.InSpace d) :
    (∀ f ∈ (Import.run ds).indices, f < kFrameCount) ↔
      (∀ pre d post, ds = pre ++ d :: post → Import.lastEnd pre < d.physicalStart →
        d.physicalStart ≤ kFrameCount * 4096) ∧
      ∀ d ∈ ds, isAvailable d.type = false → Import.size d = 0 ∨ d.physicalEnd ≤ kFrameCount * 4096 := by
  have hround : ∀ pre d post, ds = pre ++ d :: post → ((∀ f ∈ Import.marked (Import.lastEnd pre) d, f < kFrameCount) ↔
      (Import.lastEnd pre < d.physicalStart → d.physicalStart ≤ kFrameCount * 4096) ∧
      (isAvailable d.type = false → Import.size d = 0 ∨ d.physicalEnd ≤ kFrameCount * 4096)) := by
    intro pre d post heq
    apply Import.marked_lt_iff
    · exact Import.lastEnd_aligned fun c hc => hds c (heq ▸ List.mem_append_left _ hc)
    · exact hds d (heq ▸ by simp)
  constructor
  · intro h
    have hmarks : ∀ pre d post, ds = pre ++ d :: post → ∀ f ∈ Import.marked (Import.lastEnd pre) d, f < kFrameCount :=
      fun pre d post heq f hf => h f (Import.mem_run_indices.mpr ⟨pre, d, post, heq, hf⟩)
    refine ⟨fun pre d post heq => ((hround pre d post heq).mp (hmarks pre d post heq)).1, fun d hd => ?_⟩
    obtain ⟨pre, post, heq⟩ := List.append_of_mem hd
    exact ((hround pre d post heq).mp (hmarks pre d post heq)).2
  · rintro ⟨hhole, hregion⟩ f hf
    obtain ⟨pre, d, post, heq, hmem⟩ := Import.mem_run_indices.mp hf
    exact (hround pre d post heq).mpr ⟨hhole pre d post heq, hregion d (heq ▸ by simp)⟩ f hmem

/-- **The bitmap's bounds.** For any memory map, the indices of `InitializeMemoryManager` and of every sequence of
calls after it stay below `kFrameCount` exactly when the map stays below 128 GiB where the import marks it and where
the range ends. When the range ends higher, the heap's own `Allocate` or single frames run up to it. -/
theorem indices_in_bitmap_iff {ds : List MemoryDescriptor} (hds : ∀ d ∈ ds, Import.InSpace d) :
    (∀ calls, ∀ f ∈ bootIndices ds calls, f < kFrameCount) ↔ FitsBitmap ds := by
  have hend : (Import.manager ds).rangeEnd = Import.lastEnd ds / 4096 := by
    rw [← Import.run_availableEnd]
    rfl
  have hbegin : (Import.manager ds).rangeBegin = 1 := rfl
  have hrange := (Import.manager ds).allocate_range kHeapFrames
  have haligned := Import.lastEnd_aligned hds
  constructor
  · intro h
    have himport := (Import.indices_lt_iff hds).mp fun f hf => h [] f (by simp [bootIndices, hf])
    refine ⟨?_, himport.1, himport.2⟩
    by_contra hhigh
    -- frame `kFrameCount` is in the range
    have hin : kFrameCount < (Import.manager ds).rangeEnd := by omega
    have hpos : (1 : Nat) ≤ kFrameCount := by decide
    cases hres : ((Import.manager ds).allocate kHeapFrames).1 with
    | error e =>
      have hmem := BitmapMemoryManager.allocateIndices_error hres (hbegin ▸ hpos) hin
      exact Nat.lt_irrefl _ (h [] kFrameCount (by simp [bootIndices, hmem]))
    | ok s =>
      obtain ⟨calls, hmem⟩ := BitmapMemoryManager.exists_call_mem (f := kFrameCount)
        ((Import.manager ds).allocate kHeapFrames).2 (by omega) (by omega)
      exact Nat.lt_irrefl _ (h calls kFrameCount (by simp [bootIndices, hres, hmem]))
  · rintro ⟨havailable, hhole, hregion⟩ calls f hf
    have hle : (Import.manager ds).rangeEnd ≤ kFrameCount := by omega
    unfold bootIndices at hf
    rcases List.mem_append.mp hf with hf | hf
    · rcases List.mem_append.mp hf with hf | hf
      · exact (Import.indices_lt_iff hds).mpr ⟨hhole, hregion⟩ f hf
      · have := BitmapMemoryManager.allocateFromIndices_lt hf
        omega
    · cases hres : ((Import.manager ds).allocate kHeapFrames).1 with
      | error e =>
        rw [hres] at hf
        simp at hf
      | ok s =>
        rw [hres] at hf
        have := BitmapMemoryManager.callIndices_lt hf
        omega

/-- 636 KiB of conventional memory, a hole, 64 KiB of the firmware and 255 MiB of conventional memory. -/
def firmwareMap : List MemoryDescriptor := [⟨7, 0, 159⟩, ⟨0, 0xf0000, 16⟩, ⟨7, 0x100000, 65280⟩]

/-- The import marks the hole and the firmware. -/
theorem indices_in_bitmap_firmware : 0x9f ∈ (Import.run firmwareMap).indices ∧ 0xff ∈ (Import.run firmwareMap).indices ∧
    ∀ calls, ∀ f ∈ bootIndices firmwareMap calls, f < kFrameCount := by
  have hstart : ∀ d ∈ firmwareMap, d.physicalStart ≤ kFrameCount * 4096 := by simp [firmwareMap, kFrameCount]
  have hregion : ∀ d ∈ firmwareMap, d.physicalEnd ≤ kFrameCount * 4096 := by
    simp [firmwareMap, MemoryDescriptor.physicalEnd, kFrameCount]
  have hfits : FitsBitmap firmwareMap :=
    ⟨by decide, fun pre d post heq _ => hstart d (heq ▸ by simp), fun d hd _ => .inr (hregion d hd)⟩
  refine ⟨by decide, by decide, (indices_in_bitmap_iff fun d hd => ?_).mpr hfits⟩
  fin_cases hd <;> constructor <;> decide

/-- Conventional memory, and the reserved 3 GiB at `0xFD00000000`: frame `0xFD00000` is marked. -/
theorem indices_out_of_bitmap : ∃ ds : List MemoryDescriptor, (∀ d ∈ ds, Import.InSpace d) ∧
    ds.Pairwise MemoryDescriptor.Apart ∧ ¬ ∀ calls, ∀ f ∈ bootIndices ds calls, f < kFrameCount := by
  refine ⟨[⟨7, 0, 65536⟩, ⟨0, 0xFD00000000, 786432⟩], ?_, ?_, fun h => ?_⟩
  · simp
    constructor <;> constructor <;> decide
  · simp [MemoryDescriptor.Apart, MemoryDescriptor.physicalEnd]
  · have hmarked : 0xFD00000 ∈ (Import.run [⟨7, 0, 65536⟩, ⟨0, 0xFD00000000, 786432⟩]).indices := by
      refine Import.mem_run_indices.mpr ⟨[⟨7, 0, 65536⟩], ⟨0, 0xFD00000000, 786432⟩, [], rfl, ?_⟩
      apply List.mem_append_right
      exact List.mem_range'_1.mpr (by decide)
    have := h [] 0xFD00000 (by simp [bootIndices, hmarked])
    exact absurd this (by decide)

end KinOS.Paging
