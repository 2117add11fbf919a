import KinOS.Lib.TransitionSystem
import KinOS.Kernel.Basic

/-!
# The frame allocator

| here | there |
| --- | --- |
| `BitmapMemoryManager`    | `class BitmapMemoryManager` (`kernel/memory_manager.hpp:44-73`) |
| `getBit`, `setBit`       | `GetBit`, `SetBit` (`memory_manager.cpp:64-81`) |
| `setBits`                | the loops of `MarkAllocated` and `Free` (`memory_manager.cpp:35-47`) |
| `scan`, `allocate`       | `Allocate` (`memory_manager.cpp:12-33`) |
| `importDescriptor`, `importMap` | the descriptor loop of `InitializeMemoryManager` (`memory_manager.cpp:104-130`) |
| `MemoryDescriptor`, `isAvailable` | `kernel/memory_map.hpp:14-54` |

The bitmap is an array of 64-bit lines. A frame number is a bit of a line, and `getBit_setBit` is all the rest of the
development knows about lines.
-/

namespace KinOS.Paging

/-- `kFrameCount`: 128 GiB in frames of 4 KiB. -/
def kFrameCount : Nat := 33554432

structure BitmapMemoryManager where
  allocMap : Nat → BitVec 64
  rangeBegin : Nat
  rangeEnd : Nat

namespace BitmapMemoryManager

/-- The constructor. -/
def init : BitmapMemoryManager := ⟨fun _ => 0, 0, kFrameCount⟩

def getBit (m : BitmapMemoryManager) (frame : Nat) : Bool :=
  m.allocMap (frame / 64) &&& 1#64 <<< (frame % 64) != 0

def setBit (m : BitmapMemoryManager) (frame : Nat) (allocated : Bool) : BitmapMemoryManager :=
  let line := m.allocMap (frame / 64)
  let bit := 1#64 <<< (frame % 64)
  let line := if allocated then line ||| bit else line &&& ~~~bit
  { m with allocMap := fun i => if i = frame / 64 then line else m.allocMap i }

/-- `for (size_t i = 0; i < n; ++i) SetBit(start + i, allocated)`. -/
def setBits (m : BitmapMemoryManager) (allocated : Bool) : Nat → Nat → BitmapMemoryManager
  | _, 0 => m
  | start, n + 1 => (m.setBit start allocated).setBits allocated (start + 1) n

def markAllocated (m : BitmapMemoryManager) (start n : Nat) : BitmapMemoryManager := m.setBits true start n

/-- `Free`, which always succeeds. -/
def free (m : BitmapMemoryManager) (start n : Nat) : BitmapMemoryManager := m.setBits false start n

def setMemoryRange (m : BitmapMemoryManager) (rangeBegin rangeEnd : Nat) : BitmapMemoryManager :=
  { m with rangeBegin, rangeEnd }

/-- How the `for` loop of `Allocate` ends. -/
inductive Scan
  | outOfRange
  | hit (i : Nat)
  | free

/-- The `for` loop of `Allocate` with `k` rounds to go. -/
def scan (m : BitmapMemoryManager) (start : Nat) : Nat → Nat → Scan
  | 0, _ => .free
  | k + 1, i =>
    if m.rangeEnd ≤ start + i then .outOfRange
    else if m.getBit (start + i) then .hit i
    else m.scan start k (i + 1)

theorem scan_hit {m : BitmapMemoryManager} {start j : Nat} : ∀ {k i : Nat}, m.scan start k i = .hit j →
    i ≤ j ∧ j < i + k ∧ start + j < m.rangeEnd ∧ m.getBit (start + j) = true
  | 0, _, h => by cases h
  | k + 1, i, h => by
    rw [scan] at h
    split at h
    · cases h
    · split at h
      · cases h
        exact ⟨Nat.le_refl _, by omega, by omega, by assumption⟩
      · obtain ⟨h1, h2, h3, h4⟩ := scan_hit h
        exact ⟨by omega, by omega, h3, h4⟩

/-- The `while` loop of `Allocate`: where the frames found start. -/
def allocateFrom (m : BitmapMemoryManager) (n start : Nat) : Except Error Nat :=
  match h : m.scan start n 0 with
  | .outOfRange => .error .kNoEnoughMemory
  | .free => .ok start
  | .hit i => m.allocateFrom n (start + i + 1)
termination_by m.rangeEnd - start
decreasing_by
  have := scan_hit h
  omega

def allocate (m : BitmapMemoryManager) (n : Nat) : Except Error Nat × BitmapMemoryManager :=
  match m.allocateFrom n m.rangeBegin with
  | .error e => (.error e, m)
  | .ok start => (.ok start, m.markAllocated start n)

/-! ## The bitmap -/

theorem and_bit_ne_zero {x : BitVec 64} {k : Nat} (hk : k < 64) : (x &&& 1#64 <<< k != 0) = x.getLsbD k := by
  have htwo : 1#64 <<< k = BitVec.twoPow 64 k := (BitVec.twoPow_eq 64 k).symm
  rw [htwo, BitVec.and_twoPow]
  have hne : (BitVec.twoPow 64 k != 0#64) = true := by
    rw [bne_iff_ne]
    intro h
    have := congrArg (fun b => b.getLsbD k) h
    simp [hk] at this
  cases hx : x.getLsbD k
  · rfl
  · exact hne

theorem getBit_eq (m : BitmapMemoryManager) (f : Nat) : m.getBit f = (m.allocMap (f / 64)).getLsbD (f % 64) :=
  and_bit_ne_zero (by omega)

/-- **One bit.** -/
theorem getBit_setBit (m : BitmapMemoryManager) (f g : Nat) (b : Bool) :
    (m.setBit f b).getBit g = if g = f then b else m.getBit g := by
  rw [getBit_eq, getBit_eq]
  simp only [setBit]
  by_cases hline : g / 64 = f / 64
  · rw [if_pos hline, hline]
    have hbit : (1#64 <<< (f % 64)).getLsbD (g % 64) = decide (g = f) := by
      rw [← BitVec.twoPow_eq, BitVec.getLsbD_twoPow]
      by_cases he : g = f
      · subst he
        simp
        omega
      · have : f % 64 ≠ g % 64 := by omega
        simp [he, this]
    have hlt : decide (g % 64 < 64) = true := decide_eq_true (by omega)
    cases b with
    | false =>
      rw [if_neg Bool.false_ne_true, BitVec.getLsbD_and, BitVec.getLsbD_not, hbit, hlt]
      by_cases he : g = f
      · simp only [he, decide_true, Bool.not_true, Bool.and_false, if_true]
      · simp only [he, decide_false, Bool.not_false, Bool.and_true, if_false]
    | true =>
      rw [if_pos rfl, BitVec.getLsbD_or, hbit]
      by_cases he : g = f
      · simp only [he, decide_true, Bool.or_true, if_true]
      · simp only [he, decide_false, Bool.or_false, if_false]
  · have hne : g ≠ f := fun h => hline (by rw [h])
    rw [if_neg hline, if_neg hne]

@[simp] theorem setBit_rangeBegin (m : BitmapMemoryManager) (f : Nat) (b : Bool) :
    (m.setBit f b).rangeBegin = m.rangeBegin := rfl

@[simp] theorem setBit_rangeEnd (m : BitmapMemoryManager) (f : Nat) (b : Bool) :
    (m.setBit f b).rangeEnd = m.rangeEnd := rfl

theorem getBit_setBits (b : Bool) (g : Nat) : ∀ (n : Nat) (m : BitmapMemoryManager) (start : Nat),
    (m.setBits b start n).getBit g = if start ≤ g ∧ g < start + n then b else m.getBit g
  | 0, m, start => by rw [setBits, if_neg (by omega)]
  | n + 1, m, start => by
    rw [setBits, getBit_setBits b g n, getBit_setBit]
    by_cases h1 : start + 1 ≤ g ∧ g < start + 1 + n
    · rw [if_pos h1, if_pos (by omega)]
    · rw [if_neg h1]
      by_cases h2 : g = start
      · rw [if_pos h2, if_pos (by omega)]
      · rw [if_neg h2, if_neg (by omega)]

theorem setBits_range (b : Bool) : ∀ (n : Nat) (m : BitmapMemoryManager) (start : Nat),
    (m.setBits b start n).rangeBegin = m.rangeBegin ∧ (m.setBits b start n).rangeEnd = m.rangeEnd
  | 0, _, _ => ⟨rfl, rfl⟩
  | n + 1, m, start => by
    rw [setBits]
    exact setBits_range b n (m.setBit start b) (start + 1)

/-! ## `Allocate` finds the lowest free run -/

/-- `n` consecutive unmarked frames of the range, from `start` on. -/
def FreeRun (m : BitmapMemoryManager) (n start : Nat) : Prop :=
  m.rangeBegin ≤ start ∧ start + n ≤ m.rangeEnd ∧ ∀ f, start ≤ f → f < start + n → m.getBit f = false

theorem scan_free {m : BitmapMemoryManager} {start : Nat} : ∀ {k i : Nat}, m.scan start k i = .free →
    (0 < k → start + i + k ≤ m.rangeEnd) ∧ ∀ f, start + i ≤ f → f < start + i + k → m.getBit f = false
  | 0, _, _ => ⟨fun h => absurd h (Nat.lt_irrefl 0), fun f h1 h2 => by omega⟩
  | k + 1, i, h => by
    rw [scan] at h
    split at h
    · cases h
    · rename_i hin
      split at h
      · cases h
      · rename_i hbit
        obtain ⟨hend, hfree⟩ := scan_free h
        refine ⟨fun _ => ?_, fun f h1 h2 => ?_⟩
        · rcases Nat.eq_zero_or_pos k with rfl | hk
          · omega
          · have := hend hk
            omega
        · by_cases hf : f = start + i
          · rw [hf]
            exact Bool.not_eq_true _ ▸ hbit
          · exact hfree f (by omega) (by omega)

theorem scan_outOfRange {m : BitmapMemoryManager} {start : Nat} : ∀ {k i : Nat}, m.scan start k i = .outOfRange →
    m.rangeEnd < start + i + k
  | 0, _, h => by cases h
  | k + 1, i, h => by
    rw [scan] at h
    split at h
    · omega
    · split at h
      · cases h
      · have := scan_outOfRange h
        omega

theorem allocateFrom_eq (m : BitmapMemoryManager) (n start : Nat) : m.allocateFrom n start =
    match m.scan start n 0 with
    | .outOfRange => .error .kNoEnoughMemory
    | .free => .ok start
    | .hit i => m.allocateFrom n (start + i + 1) := by
  rw [allocateFrom]
  split <;> simp_all only

/-- No run is skipped: after a hit at `start + i` every run that starts up to there is spoilt by that frame. -/
theorem allocateFrom_spec {m : BitmapMemoryManager} {n start : Nat} (hn : 1 ≤ n) (hb : m.rangeBegin ≤ start)
    (hskip : ∀ s < start, ¬ m.FreeRun n s) :
    match m.allocateFrom n start with
    | .ok s => m.FreeRun n s ∧ ∀ s' < s, ¬ m.FreeRun n s'
    | .error e => e = .kNoEnoughMemory ∧ ∀ s, ¬ m.FreeRun n s := by
  rw [allocateFrom_eq]
  cases h : m.scan start n 0 with
  | outOfRange =>
    have hend := scan_outOfRange h
    refine ⟨rfl, fun s hs => ?_⟩
    by_cases hlt : s < start
    · exact hskip s hlt hs
    · have := hs.2.1
      omega
  | free =>
    obtain ⟨hend, hfree⟩ := scan_free h
    exact ⟨⟨hb, hend hn, hfree⟩, hskip⟩
  | hit i =>
    obtain ⟨-, hi, hlt, hbit⟩ := scan_hit h
    refine allocateFrom_spec hn (by omega) fun s hs hrun => ?_
    by_cases hsk : s < start
    · exact hskip s hsk hrun
    · have := hrun.2.2 (start + i) (by omega) (by omega)
      rw [hbit] at this
      cases this
termination_by m.rangeEnd - start

/-- **`Allocate`**: the lowest free run, marked; or nothing changed when there is none. -/
theorem allocate_spec (m : BitmapMemoryManager) {n : Nat} (hn : 1 ≤ n) :
    (∃ s, m.allocate n = (.ok s, m.markAllocated s n) ∧ IsLeast { s | m.FreeRun n s } s) ∨
    (m.allocate n = (.error .kNoEnoughMemory, m) ∧ ∀ s, ¬ m.FreeRun n s) := by
  have h := allocateFrom_spec (m := m) hn (Nat.le_refl _) fun s hs hrun => by
    have := hrun.1
    omega
  unfold allocate
  cases hres : m.allocateFrom n m.rangeBegin with
  | ok s =>
    rw [hres] at h
    exact .inl ⟨s, rfl, h.1, fun s' hs' => Nat.le_of_not_lt fun hlt => h.2 s' hlt hs'⟩
  | error e =>
    rw [hres] at h
    obtain ⟨rfl, hno⟩ := h
    exact .inr ⟨rfl, hno⟩

/-! ## Runs of the allocator -/

/-- A block handed out: its first frame and the number of frames. -/
structure Block where
  start : Nat
  frames : Nat
deriving DecidableEq

def Block.Mem (b : Block) (f : Nat) : Prop := b.start ≤ f ∧ f < b.start + b.frames

/-- The allocator and the blocks handed out and not yet freed. -/
structure State where
  mgr : BitmapMemoryManager
  live : List Block

/-- One call: `Allocate` of at least one frame, or `Free` of a live block. -/
inductive Step : State → State → Prop
  | allocate {m m' : BitmapMemoryManager} {live : List Block} {n s : Nat} : 1 ≤ n → m.allocate n = (.ok s, m') →
      Step ⟨m, live⟩ ⟨m', ⟨s, n⟩ :: live⟩
  | refuse {m m' : BitmapMemoryManager} {live : List Block} {n : Nat} {e : Error} : 1 ≤ n →
      m.allocate n = (.error e, m') → Step ⟨m, live⟩ ⟨m', live⟩
  | free {m : BitmapMemoryManager} {live : List Block} {b : Block} : b ∈ live →
      Step ⟨m, live⟩ ⟨m.free b.start b.frames, live.erase b⟩

/-- Live blocks are disjoint, in the range and clear of the initial marks, and the bitmap is these marks and the
live blocks. -/
structure Sound (m0 : BitmapMemoryManager) (s : State) : Prop where
  rangeBegin : s.mgr.rangeBegin = m0.rangeBegin
  rangeEnd : s.mgr.rangeEnd = m0.rangeEnd
  apart : s.live.Pairwise fun b c => ∀ f, b.Mem f → ¬ c.Mem f
  inRange : ∀ b ∈ s.live, m0.rangeBegin ≤ b.start ∧ b.start + b.frames ≤ m0.rangeEnd
  unmarked : ∀ b ∈ s.live, ∀ f, b.Mem f → m0.getBit f = false
  nonempty : ∀ b ∈ s.live, 1 ≤ b.frames
  bitmap : ∀ f, s.mgr.getBit f = true ↔ m0.getBit f = true ∨ ∃ b ∈ s.live, b.Mem f

theorem Sound.start (m0 : BitmapMemoryManager) : Sound m0 ⟨m0, []⟩ := by
  constructor <;> simp

theorem Sound.allocate {m0 m m' : BitmapMemoryManager} {live : List Block} {n s : Nat} (hs : Sound m0 ⟨m, live⟩)
    (hn : 1 ≤ n) (h : m.allocate n = (.ok s, m')) : Sound m0 ⟨m', ⟨s, n⟩ :: live⟩ := by
  rcases m.allocate_spec hn with ⟨s', he, ⟨hb, hend, hfree⟩, -⟩ | ⟨he, -⟩ <;> rw [he] at h
  · cases h
    have hrange := setBits_range true n m s
    -- the block is unmarked, so it was neither marked at the start nor part of a live block
    have hclear : ∀ f, Block.Mem ⟨s, n⟩ f → m0.getBit f = false ∧ ∀ b ∈ live, ¬ b.Mem f := by
      intro f hf
      have hnot : ¬ (m0.getBit f = true ∨ ∃ b ∈ live, b.Mem f) := by
        rw [← hs.bitmap f, hfree f hf.1 hf.2]
        decide
      refine ⟨Bool.eq_false_iff.mpr fun h0 => hnot (.inl h0), fun b hb hm => hnot (.inr ⟨b, hb, hm⟩)⟩
    refine ⟨hrange.1.trans hs.rangeBegin, hrange.2.trans hs.rangeEnd, ?_, ?_, ?_, ?_, fun f => ?_⟩
    · exact List.pairwise_cons.mpr ⟨fun b hbl f hf => (hclear f hf).2 b hbl, hs.apart⟩
    · rintro b (_ | ⟨_, hbl⟩)
      · rw [← hs.rangeBegin, ← hs.rangeEnd]
        exact ⟨hb, hend⟩
      · exact hs.inRange b hbl
    · rintro b (_ | ⟨_, hbl⟩) f hf
      · exact (hclear f hf).1
      · exact hs.unmarked b hbl f hf
    · rintro b (_ | ⟨_, hbl⟩)
      · exact hn
      · exact hs.nonempty b hbl
    · rw [markAllocated, getBit_setBits]
      by_cases hf : s ≤ f ∧ f < s + n
      · rw [if_pos hf]
        exact ⟨fun _ => .inr ⟨_, List.mem_cons_self .., hf⟩, fun _ => rfl⟩
      · rw [if_neg hf, hs.bitmap f]
        refine or_congr_right ⟨fun ⟨b, hbl, hm⟩ => ⟨b, List.mem_cons_of_mem _ hbl, hm⟩, ?_⟩
        rintro ⟨b, _ | ⟨_, hbl⟩, hm⟩
        · exact absurd hm hf
        · exact ⟨b, hbl, hm⟩
  · cases h

theorem Sound.free {m0 m : BitmapMemoryManager} {live : List Block} {b : Block} (hs : Sound m0 ⟨m, live⟩)
    (hb : b ∈ live) : Sound m0 ⟨m.free b.start b.frames, live.erase b⟩ := by
  have hrange := setBits_range false b.frames m b.start
  have hsub : ∀ c ∈ live.erase b, c ∈ live := fun c hc => List.mem_of_mem_erase hc
  -- the other live blocks are disjoint from the one freed
  have hperm := List.perm_cons_erase hb
  have hsymm : ∀ {c d : Block}, (∀ f, c.Mem f → ¬ d.Mem f) → ∀ f, d.Mem f → ¬ c.Mem f := fun h f hd hc => h f hc hd
  have happart := (hperm.pairwise_iff hsymm).mp hs.apart
  obtain ⟨hothers, hrest⟩ := List.pairwise_cons.mp happart
  refine ⟨hrange.1.trans hs.rangeBegin, hrange.2.trans hs.rangeEnd, hrest, fun c hc => hs.inRange c (hsub c hc),
    fun c hc => hs.unmarked c (hsub c hc), fun c hc => hs.nonempty c (hsub c hc), fun f => ?_⟩
  rw [BitmapMemoryManager.free, getBit_setBits]
  by_cases hf : b.start ≤ f ∧ f < b.start + b.frames
  · rw [if_pos hf]
    refine ⟨fun h => absurd h Bool.false_ne_true, ?_⟩
    rintro (h0 | ⟨c, hc, hm⟩)
    · rw [hs.unmarked b hb f hf] at h0
      exact h0
    · exact absurd hm (hothers c hc f hf)
  · rw [if_neg hf, hs.bitmap f]
    refine or_congr_right ⟨?_, fun ⟨c, hc, hm⟩ => ⟨c, hsub c hc, hm⟩⟩
    rintro ⟨c, hc, hm⟩
    rcases List.mem_cons.mp (hperm.mem_iff.mp hc) with rfl | hc
    · exact absurd hm hf
    · exact ⟨c, hc, hm⟩

theorem Sound.step {m0 : BitmapMemoryManager} {s t : State} (hs : Sound m0 s) : Step s t → Sound m0 t
  | .allocate hn h => hs.allocate hn h
  | .refuse (m := m) hn h => by
    rcases m.allocate_spec hn with ⟨s', he, -⟩ | ⟨he, -⟩ <;> rw [he] at h <;> cases h
    exact hs
  | .free hb => hs.free hb

/-- **The allocator over whole runs.** After any sequence of `Allocate` and `Free` of live blocks the live blocks are
disjoint, in the range and clear of the initial marks, the bitmap is those marks and the live blocks, and the next
`Allocate` returns the lowest free run if there is one and otherwise fails and changes nothing. -/
theorem allocator_sound {m0 : BitmapMemoryManager} (_ : m0.rangeEnd ≤ kFrameCount) {s : State}
    (hrun : Relation.ReflTransGen Step ⟨m0, []⟩ s) :
    (s.live.Pairwise (fun b c => ∀ f, b.Mem f → ¬ c.Mem f) ∧
      (∀ b ∈ s.live, m0.rangeBegin ≤ b.start ∧ b.start + b.frames ≤ m0.rangeEnd) ∧
      (∀ b ∈ s.live, ∀ f, b.Mem f → m0.getBit f = false) ∧
      ∀ f, s.mgr.getBit f = true ↔ m0.getBit f = true ∨ ∃ b ∈ s.live, b.Mem f) ∧
    ∀ n, 1 ≤ n → ∀ r m', s.mgr.allocate n = (r, m') →
      ((∃ start, r = .ok start) ↔
        ∃ start, m0.rangeBegin ≤ start ∧ start + n ≤ m0.rangeEnd ∧
          ∀ f, start ≤ f → f < start + n → s.mgr.getBit f = false) ∧
      (∀ start, r = .ok start → IsLeast { start | m0.rangeBegin ≤ start ∧ start + n ≤ m0.rangeEnd ∧
        ∀ f, start ≤ f → f < start + n → s.mgr.getBit f = false } start) ∧
      ∀ e, r = .error e → e = .kNoEnoughMemory ∧ m' = s.mgr := by
  have hs : Sound m0 s := TransitionSystem.invariant (Sound.start m0) (fun _ _ h hst => h.step hst) hrun
  refine ⟨⟨hs.apart, hs.inRange, hs.unmarked, hs.bitmap⟩, fun n hn r m' halloc => ?_⟩
  rw [← hs.rangeBegin, ← hs.rangeEnd]
  rcases s.mgr.allocate_spec hn with ⟨start, he, hleast⟩ | ⟨he, hno⟩ <;> rw [he] at halloc <;> cases halloc
  · refine ⟨⟨fun _ => ⟨start, hleast.1⟩, fun _ => ⟨start, rfl⟩⟩, ?_, by simp⟩
    rintro start' ⟨⟩
    exact hleast
  · refine ⟨⟨by simp, fun ⟨start, h⟩ => absurd h (hno start)⟩, by simp, ?_⟩
    rintro e ⟨⟩
    exact ⟨rfl, rfl⟩

/-- Both frames of a range of two are handed out, the lower one is freed, and it is the next one again. -/
theorem allocator_sound_two : ∃ s, Relation.ReflTransGen Step ⟨init.setMemoryRange 1 3, []⟩ s ∧ s.live = [⟨2, 1⟩] ∧
    (∀ f, s.mgr.getBit f = true ↔ (init.setMemoryRange 1 3).getBit f = true ∨ ∃ b ∈ s.live, b.Mem f) ∧
    IsLeast { start | 1 ≤ start ∧ start + 1 ≤ 3 ∧ ∀ f, start ≤ f → f < start + 1 → s.mgr.getBit f = false } 1 := by
  obtain ⟨m, hm⟩ : ∃ m, m = init.setMemoryRange 1 3 := ⟨_, rfl⟩
  have h1 : (m.allocate 1).1 = .ok 1 := by
    subst hm
    decide +kernel
  have h2 : ((m.allocate 1).2.allocate 1).1 = .ok 2 := by
    subst hm
    decide +kernel
  have h3 : ((((m.allocate 1).2.allocate 1).2.free 1 1).allocate 1).1 = .ok 1 := by
    subst hm
    decide +kernel
  have hrun : Relation.ReflTransGen Step ⟨m, []⟩ ⟨((m.allocate 1).2.allocate 1).2.free 1 1, [⟨2, 1⟩]⟩ := by
    refine .tail (.tail (.single (.allocate (Nat.le_refl 1) (Prod.ext h1 rfl)))
      (.allocate (Nat.le_refl 1) (Prod.ext h2 rfl))) ?_
    exact .free (b := ⟨1, 1⟩) (by decide)
  subst hm
  obtain ⟨⟨-, -, -, hbitmap⟩, hnext⟩ := allocator_sound (by decide) hrun
  exact ⟨_, hrun, rfl, hbitmap, (hnext 1 (by decide) _ _ rfl).2.1 1 h3⟩

end BitmapMemoryManager

/-! ## The boot memory map -/

/-- `struct MemoryDescriptor`: the fields the import reads. -/
structure MemoryDescriptor where
  type : UInt32
  physicalStart : Nat
  numberOfPages : Nat

/-- `IsAvailable`: `kEfiBootServicesCode`, `kEfiBootServicesData` or `kEfiConventionalMemory`. -/
def isAvailable (type : UInt32) : Bool := type == 3 || type == 4 || type == 7

namespace MemoryDescriptor

/-- `physical_start + number_of_pages * kUEFIPageSize`. -/
def physicalEnd (d : MemoryDescriptor) : Nat := d.physicalStart + d.numberOfPages * 4096

/-- The frame lies in the region. -/
def Mem (d : MemoryDescriptor) (f : Nat) : Prop := d.physicalStart ≤ f * 4096 ∧ f * 4096 < d.physicalEnd

/-- The regions do not overlap. -/
def Apart (a b : MemoryDescriptor) : Prop := a.physicalEnd ≤ b.physicalStart ∨ b.physicalEnd ≤ a.physicalStart

end MemoryDescriptor

/-- One round of the descriptor loop on the allocator and `available_end`. -/
def importDescriptor (st : BitmapMemoryManager × Nat) (d : MemoryDescriptor) : BitmapMemoryManager × Nat :=
  let (m, availableEnd) := st
  let m :=
    if availableEnd < d.physicalStart then
      m.markAllocated (availableEnd / 4096) ((d.physicalStart - availableEnd) / 4096)
    else m
  if isAvailable d.type then (m, d.physicalEnd)
  else (m.markAllocated (d.physicalStart / 4096) (d.numberOfPages * 4096 / 4096), availableEnd)

/-- `InitializeMemoryManager` up to `SetMemoryRange`. -/
def importMap (ds : List MemoryDescriptor) : BitmapMemoryManager :=
  let (m, availableEnd) := ds.foldl importDescriptor (.init, 0)
  m.setMemoryRange 1 (availableEnd / 4096)

/-- What one round marks: the hole before the region, and the region itself unless it is available. -/
theorem importDescriptor_getBit {m : BitmapMemoryManager} {e : Nat} {d : MemoryDescriptor} (he : e % 4096 = 0)
    (hd : d.physicalStart % 4096 = 0) (f : Nat) :
    (importDescriptor (m, e) d).1.getBit f = true ↔
      m.getBit f = true ∨ e ≤ f * 4096 ∧ f * 4096 < d.physicalStart ∨ isAvailable d.type = false ∧ d.Mem f := by
  have hhole : (if e < d.physicalStart then m.markAllocated (e / 4096) ((d.physicalStart - e) / 4096) else m).getBit f =
      true ↔ m.getBit f = true ∨ e ≤ f * 4096 ∧ f * 4096 < d.physicalStart := by
    by_cases hlt : e < d.physicalStart
    · rw [if_pos hlt, BitmapMemoryManager.markAllocated, BitmapMemoryManager.getBit_setBits]
      by_cases hf : e / 4096 ≤ f ∧ f < e / 4096 + (d.physicalStart - e) / 4096
      · rw [if_pos hf]
        exact ⟨fun _ => .inr (by omega), fun _ => rfl⟩
      · rw [if_neg hf]
        exact ⟨.inl, fun h => h.resolve_right (by omega)⟩
    · rw [if_neg hlt]
      exact ⟨.inl, fun h => h.resolve_right (by omega)⟩
  unfold importDescriptor
  cases ha : isAvailable d.type with
  | true => simp only [if_true, hhole, Bool.true_eq_false, false_and, or_false]
  | false =>
    simp only [Bool.false_eq_true, if_false, true_and]
    rw [BitmapMemoryManager.markAllocated, BitmapMemoryManager.getBit_setBits, ← or_assoc, ← hhole]
    have hmem : d.Mem f ↔
        d.physicalStart / 4096 ≤ f ∧ f < d.physicalStart / 4096 + d.numberOfPages * 4096 / 4096 := by
      unfold MemoryDescriptor.Mem MemoryDescriptor.physicalEnd
      omega
    by_cases hf : d.Mem f
    · rw [if_pos (hmem.mp hf)]
      exact ⟨fun _ => .inr hf, fun _ => rfl⟩
    · rw [if_neg fun h => hf (hmem.mpr h)]
      exact ⟨.inl, fun h => h.resolve_right hf⟩

theorem importDescriptor_end (m : BitmapMemoryManager) (e : Nat) (d : MemoryDescriptor) :
    (importDescriptor (m, e) d).2 = if isAvailable d.type then d.physicalEnd else e := by
  cases ha : isAvailable d.type <;> simp [importDescriptor, ha]

/-- Below `available_end`, what is not marked is available memory of the descriptors seen so far. -/
def ImportSafe (seen : List MemoryDescriptor) (st : BitmapMemoryManager × Nat) : Prop :=
  st.2 % 4096 = 0 ∧ ∀ f, f * 4096 < st.2 → st.1.getBit f = false → ∃ d ∈ seen, isAvailable d.type = true ∧ d.Mem f

theorem ImportSafe.step {seen : List MemoryDescriptor} {st : BitmapMemoryManager × Nat} {d : MemoryDescriptor}
    (h : ImportSafe seen st) (hd : d.physicalStart % 4096 = 0) : ImportSafe (seen ++ [d]) (importDescriptor st d) := by
  obtain ⟨m, e⟩ := st
  obtain ⟨he, hsafe⟩ := h
  have he : e % 4096 = 0 := he
  have hend := importDescriptor_end m e d
  refine ⟨?_, fun f hf hbit => ?_⟩
  · rw [hend]
    unfold MemoryDescriptor.physicalEnd
    split <;> omega
  · have hunmarked := mt (importDescriptor_getBit he hd f).mpr (Bool.eq_false_iff.mp hbit)
    simp only [not_or, not_and] at hunmarked
    obtain ⟨hm, hhole, hreg⟩ := hunmarked
    by_cases hold : f * 4096 < e
    · obtain ⟨c, hc, ha, hmem⟩ := hsafe f hold (Bool.eq_false_iff.mpr hm)
      exact ⟨c, List.mem_append_left _ hc, ha, hmem⟩
    · -- past the old end: the region itself, and it is available
      have hstart := hhole (by omega)
      rw [hend] at hf
      cases ha : isAvailable d.type with
      | false =>
        rw [ha] at hf
        exact absurd hf hold
      | true =>
        rw [ha, if_pos rfl] at hf
        exact ⟨d, by simp, ha, by omega, hf⟩

theorem ImportSafe.run : ∀ {ds seen : List MemoryDescriptor} {st : BitmapMemoryManager × Nat}, ImportSafe seen st →
    (∀ d ∈ ds, d.physicalStart % 4096 = 0) → ImportSafe (seen ++ ds) (ds.foldl importDescriptor st)
  | [], seen, st, h, _ => by simpa using h
  | d :: ds, seen, st, h, hal => by
    obtain ⟨hd, hal⟩ := List.forall_mem_cons.mp hal
    rw [List.append_cons, List.foldl_cons]
    exact (h.step hd).run hal

/-- In a sorted map: available regions seen so far end by `available_end`, and no available region is marked. -/
structure ImportExact (all seen : List MemoryDescriptor) (st : BitmapMemoryManager × Nat) : Prop where
  aligned : st.2 % 4096 = 0
  below : ∀ d ∈ seen, isAvailable d.type = true → d.physicalEnd ≤ st.2
  source : st.2 = 0 ∨ ∃ d ∈ seen, st.2 = d.physicalEnd
  clear : ∀ f, st.1.getBit f = true → ∀ d ∈ all, isAvailable d.type = true → ¬ d.Mem f

/-- Sorted disjoint regions follow each other. -/
theorem Apart.follows {a b : MemoryDescriptor} (h : a.Apart b) (hlt : a.physicalStart < b.physicalStart) :
    a.physicalEnd ≤ b.physicalStart := by
  rcases h with h | h
  · exact h
  · unfold MemoryDescriptor.physicalEnd at h
    omega

theorem ImportExact.step {seen ds : List MemoryDescriptor} {st : BitmapMemoryManager × Nat} {d : MemoryDescriptor}
    (h : ImportExact (seen ++ d :: ds) seen st) (hd : d.physicalStart % 4096 = 0)
    (hfollow : (seen ++ d :: ds).Pairwise fun a b => a.physicalEnd ≤ b.physicalStart) :
    ImportExact (seen ++ d :: ds) (seen ++ [d]) (importDescriptor st d) := by
  obtain ⟨m, e⟩ := st
  obtain ⟨he, hbelow, hsource, hclear⟩ := h
  have he : e % 4096 = 0 := he
  have hend := importDescriptor_end m e d
  obtain ⟨-, hrest, hbefore⟩ := List.pairwise_append.mp hfollow
  obtain ⟨hafter, -⟩ := List.pairwise_cons.mp hrest
  have hprev : ∀ c ∈ seen, c.physicalEnd ≤ d.physicalStart := fun c hc => hbefore c hc d (by simp)
  have hself : d.physicalStart ≤ d.physicalEnd := Nat.le_add_right ..
  refine ⟨?_, fun c hc ha => ?_, ?_, fun f hf c hc ha hmem => ?_⟩
  · rw [hend]
    unfold MemoryDescriptor.physicalEnd
    split <;> omega
  · rw [hend]
    rcases List.mem_append.mp hc with hc | hc
    · have h1 := hbelow c hc ha
      have h2 := hprev c hc
      split <;> simp only at h1 <;> omega
    · obtain rfl := List.mem_singleton.mp hc
      rw [if_pos ha]
  · rw [hend]
    split
    · exact .inr ⟨d, by simp, rfl⟩
    · exact hsource.imp_right fun ⟨c, hc, hce⟩ => ⟨c, List.mem_append_left _ hc, hce⟩
  · rcases (importDescriptor_getBit he hd f).mp hf with hm | ⟨h1, h2⟩ | ⟨hna, hin⟩
    · exact hclear f hm c hc ha hmem
    · -- the hole lies behind the available regions seen and before the others
      obtain ⟨hs, ht⟩ := hmem
      rcases List.mem_append.mp hc with hc | hc
      · have h3 := hbelow c hc ha
        simp only at h3
        omega
      · rcases List.mem_cons.mp hc with rfl | hc
        · omega
        · have h3 := hafter c hc
          omega
    · obtain ⟨hs, ht⟩ := hmem
      obtain ⟨hs', ht'⟩ := hin
      rcases List.mem_append.mp hc with hc | hc
      · have h3 := hprev c hc
        omega
      · rcases List.mem_cons.mp hc with rfl | hc
        · rw [ha] at hna
          cases hna
        · have h3 := hafter c hc
          omega

theorem ImportExact.run : ∀ {ds seen : List MemoryDescriptor} {st : BitmapMemoryManager × Nat},
    ImportExact (seen ++ ds) seen st → (∀ d ∈ ds, d.physicalStart % 4096 = 0) →
    ((seen ++ ds).Pairwise fun a b => a.physicalEnd ≤ b.physicalStart) →
    ImportExact (seen ++ ds) (seen ++ ds) (ds.foldl importDescriptor st)
  | [], seen, st, h, _, _ => by simpa using h
  | d :: ds, seen, st, h, hal, hf => by
    obtain ⟨hd, hal⟩ := List.forall_mem_cons.mp hal
    have hstep := h.step hd hf
    rw [List.append_cons] at hstep hf ⊢
    rw [List.foldl_cons]
    exact hstep.run hal hf

theorem getBit_init (f : Nat) : BitmapMemoryManager.init.getBit f = false := by
  rw [BitmapMemoryManager.getBit_eq]
  simp [BitmapMemoryManager.init]

/-- **The boot memory map.** Whatever the order of the descriptors, an unmarked frame of the range is available memory;
and if they come in the order of their addresses, all available memory but frame 0 is unmarked and in the range.
The order is strict: of two disjoint regions with one start, one would be empty. -/
theorem memory_map_import {ds : List MemoryDescriptor} (haligned : ∀ d ∈ ds, d.physicalStart % 4096 = 0)
    (hlimit : ∀ d ∈ ds, d.physicalEnd ≤ kFrameCount * 4096) (hapart : ds.Pairwise MemoryDescriptor.Apart) :
    (∀ f, 1 ≤ f → f < (importMap ds).rangeEnd → (importMap ds).getBit f = false →
      ∃ d ∈ ds, isAvailable d.type = true ∧ d.Mem f) ∧
    ((ds.Pairwise fun a b => a.physicalStart < b.physicalStart) → ∀ d ∈ ds, isAvailable d.type = true →
      ∀ f, 1 ≤ f → d.Mem f → (importMap ds).getBit f = false ∧ f < (importMap ds).rangeEnd) ∧
    (importMap ds).rangeEnd ≤ kFrameCount := by
  have hbit : ∀ f, (importMap ds).getBit f = (ds.foldl importDescriptor (.init, 0)).1.getBit f := fun _ => rfl
  have hend : (importMap ds).rangeEnd = (ds.foldl importDescriptor (.init, 0)).2 / 4096 := rfl
  have hsafe := @ImportSafe.run _ [] (.init, 0) ⟨rfl, fun f hf => by simp at hf⟩ haligned
  rw [List.nil_append] at hsafe
  refine ⟨fun f _ hf hm => hsafe.2 f ?_ hm, fun hsorted d hd ha f _ hmem => ?_, ?_⟩
  · rw [hend] at hf
    have := hsafe.1
    omega
  · have hfollow : ds.Pairwise fun a b => a.physicalEnd ≤ b.physicalStart :=
      hapart.imp₂ (fun a b h hlt => Apart.follows h hlt) hsorted
    have hexact := @ImportExact.run _ [] (.init, 0)
      ⟨rfl, by simp, .inl rfl, fun f hf => by rw [getBit_init] at hf; cases hf⟩ haligned hfollow
    rw [List.nil_append] at hexact
    refine ⟨?_, ?_⟩
    · rw [hbit]
      exact Bool.eq_false_iff.mpr fun h => hexact.clear f h d hd ha hmem
    · have h1 := hexact.below d hd ha
      have h2 := hexact.aligned
      have h3 := hmem.2
      rw [hend]
      omega
  · have hbound : ∀ (l : List MemoryDescriptor) (st : BitmapMemoryManager × Nat), st.2 ≤ kFrameCount * 4096 →
        (∀ d ∈ l, d.physicalEnd ≤ kFrameCount * 4096) → (l.foldl importDescriptor st).2 ≤ kFrameCount * 4096 := by
      intro l
      induction l with
      | nil => exact fun _ h _ => h
      | cons d l ih =>
        intro st hst hl
        obtain ⟨hd, hl⟩ := List.forall_mem_cons.mp hl
        rw [List.foldl_cons]
        refine ih _ ?_ hl
        rw [importDescriptor_end]
        split <;> assumption
    rw [hend]
    have := hbound ds (.init, 0) (Nat.zero_le _) hlimit
    omega

/-- Conventional memory in frames 0 to 15 and a reserved region behind it. -/
theorem memory_map_import_two :
    (importMap [⟨7, 0, 16⟩, ⟨0, 65536, 16⟩]).getBit 5 = false ∧ 5 < (importMap [⟨7, 0, 16⟩, ⟨0, 65536, 16⟩]).rangeEnd :=
  (memory_map_import (by simp) (by simp [MemoryDescriptor.physicalEnd, kFrameCount])
    (by simp [MemoryDescriptor.Apart, MemoryDescriptor.physicalEnd])).2.1 (by simp) ⟨7, 0, 16⟩ (by simp) rfl 5 (by decide)
    (by unfold MemoryDescriptor.Mem MemoryDescriptor.physicalEnd; decide)

end KinOS.Paging
