import KinOS.Lib.Int32
import KinOS.Kernel.PageFault
import KinOS.Kernel.PageRange
import KinOS.Servers.Loading

/-!
# The heap of a user program

| here | there |
| --- | --- |
| `sbrk`          | `sbrk` (`libs/kinos/common/newlib_support.c:52-70`); `incr`, `num_pages` and `4096 * num_pages` are `int` |
| `demandPages`   | the system call `DemandPages` (`kernel/syscall.cpp:61-70`), which never fails |
| `dpagingBegin`, `dpagingEnd` | the task's `DPagingBegin`, `DPagingEnd`, both set to the first page behind the program (`kernel/system.cpp:268-271`) |
| `stackAddr`     | the lowest address of the stack (`system.cpp:261-263`) |

`regions` is what has been handed out and `demanded` what was needed for it, in bytes and without a bound. A run goes on
while that stays below the stack.
-/

namespace KinOS

open Paging TransitionSystem

/-- `DPagingEnd` never wraps below this. -/
def stackAddr : Nat := 0xfffffffffffff000 - 16 * 4096

namespace UserHeap

/-- Memory handed out to the program. -/
structure Region where
  start : Nat
  len : Nat

def Region.Mem (r : Region) (a : Nat) : Prop := r.start ≤ a ∧ a < r.start + r.len

end UserHeap

structure UserHeap where
  dpageEnd : Nat
  programBreak : Nat
  dpagingBegin : Nat
  dpagingEnd : Nat
  regions : List UserHeap.Region
  demanded : Nat

namespace UserHeap

def demandPages (h : UserHeap) (numPages : Nat) : Nat × UserHeap :=
  (h.dpagingEnd, { h with dpagingEnd := (h.dpagingEnd + 4096 * numPages) % 2 ^ 64 })

/-- `(incr + 4095) / 4096` -/
def numPages (incr : Int32) : Int32 := (incr + 4095) / 4096

def sbrk (h : UserHeap) (incr : Int32) : Nat × UserHeap :=
  let h :=
    if h.dpageEnd = 0 ∨ h.dpageEnd < (h.programBreak + asSize incr.toInt) % 2 ^ 64 then
      let (value, h) := h.demandPages (asSize (numPages incr).toInt)
      { h with programBreak := value, dpageEnd := (value + asSize (4096 * numPages incr).toInt) % 2 ^ 64 }
    else h
  (h.programBreak, { h with programBreak := (h.programBreak + asSize incr.toInt) % 2 ^ 64 })

/-- What the program may call. -/
inductive Call
  | sbrk (incr : Int32) (nonneg : 0 ≤ incr.toInt)
  | demandPages (n : Nat)

/-- The bytes a call needs from the kernel. -/
def needs (h : UserHeap) : Call → Nat
  | .sbrk incr _ =>
    if h.dpageEnd = 0 ∨ h.dpageEnd < h.programBreak + incr.toInt.toNat then 4096 * ((incr.toInt.toNat + 4095) / 4096) else 0
  | .demandPages n => 4096 * n

/-- The call, with what it hands out noted. -/
def call (h : UserHeap) : Call → UserHeap
  | .sbrk incr _ =>
    let (p, h') := h.sbrk incr
    { h' with regions := ⟨p, incr.toInt.toNat⟩ :: h.regions }
  | .demandPages n =>
    let (p, h') := h.demandPages n
    { h' with regions := ⟨p, 4096 * n⟩ :: h.regions }

/-- A call, as long as what has been demanded stays below the stack. -/
def next (h : UserHeap) (c : Call) : Option UserHeap :=
  if h.dpagingBegin + h.demanded + h.needs c ≤ stackAddr then
    some { h.call c with demanded := h.demanded + h.needs c }
  else none

/-- A program that starts behind `base`. -/
def start (base : Nat) : UserHeap := ⟨0, 0, base, base, [], 0⟩

/-! ## What is asked -/

/-- A fault on a byte that is not present maps its page, unless memory runs out. -/
def MappedOnTouch (h : UserHeap) (a : Nat) : Prop :=
  ∀ (s : Machine) (errorCode : Nat), s.dpagingBegin = h.dpagingBegin → s.dpagingEnd = h.dpagingEnd → IsTree s.cr3 s →
    Small ((LinearAddress4Level.ofValue a).OnWay 1) s.cr3 s → errorCode.testBit 0 = false →
    After (handlePageFault errorCode a) s (fun _ s' => RangeMapped true (.ofValue a) 1 s s')
      (fun e _ => e = .error .kNoEnoughMemory)

/-- The regions are disjoint, and every byte of them is between `DPagingBegin` and `DPagingEnd`, so that it is mapped on
first touch. -/
structure Backed (h : UserHeap) : Prop where
  apart : h.regions.Pairwise fun r q => ∀ a, r.Mem a → ¬ q.Mem a
  inside : ∀ r ∈ h.regions, ∀ a, r.Mem a → h.dpagingBegin ≤ a ∧ a < h.dpagingEnd
  mapped : ∀ r ∈ h.regions, ∀ a, r.Mem a → h.MappedOnTouch a

theorem mappedOnTouch {h : UserHeap} {a : Nat} (hin : h.dpagingBegin ≤ a ∧ a < h.dpagingEnd) : h.MappedOnTouch a := by
  intro s errorCode hb he htree hsmall h0
  rw [← hb, ← he] at hin
  have hrun := setupPageMaps_grown (w := true) htree hsmall
  unfold After at hrun ⊢
  rw [handlePageFault_demand h0 hin]
  cases hres : setupPageMaps (.ofValue a) 1 true s with
  | ok u s' =>
    rw [hres] at hrun
    exact hrun.1.rangeMapped hrun.2
  | error e s' =>
    rw [hres] at hrun
    exact hrun.2.1

/-! ## The arithmetic of `sbrk` -/

theorem asSize_nonneg {i : Int} (h : 0 ≤ i) (hlt : i < 2 ^ 64) : asSize i = i.toNat := by
  unfold asSize
  omega

/-- The number of pages, where the sum does not overflow. -/
theorem numPages_toInt {incr : Int32} (h : 0 ≤ incr.toInt) (hle : incr.toInt ≤ 2147479552) :
    (numPages incr).toInt = (incr.toInt + 4095) / 4096 := by
  have hadd := Int32.toInt_add_cases incr 4095
  have h4095 : (4095 : Int32).toInt = 4095 := rfl
  have h4096 : (4096 : Int32).toInt = 4096 := rfl
  rw [h4095] at hadd
  have hsum : (incr + 4095).toInt = incr.toInt + 4095 := by omega
  rw [numPages, Int32.toInt_div_of_ne_right _ _ (by decide), h4096, hsum, Int.tdiv_eq_ediv_of_nonneg (by omega)]

/-- Where it does, the number is negative. -/
theorem numPages_overflow {incr : Int32} (hlt : 2147479552 < incr.toInt) :
    -524288 ≤ (numPages incr).toInt ∧ (numPages incr).toInt < 0 := by
  have hadd := Int32.toInt_add_cases incr 4095
  have h4095 : (4095 : Int32).toInt = 4095 := rfl
  have h4096 : (4096 : Int32).toInt = 4096 := rfl
  have hle := incr.toInt_lt
  rw [h4095] at hadd
  have hneg : (incr + 4095).toInt = -(4294963201 - incr.toInt) := by omega
  rw [numPages, Int32.toInt_div_of_ne_right _ _ (by decide), h4096, hneg, Int.neg_tdiv,
    Int.tdiv_eq_ediv_of_nonneg (by omega)]
  omega

theorem mul_numPages {incr : Int32} (hlo : -524288 ≤ (numPages incr).toInt) (hhi : (numPages incr).toInt ≤ 524287) :
    (4096 * numPages incr).toInt = 4096 * (numPages incr).toInt := by
  have h4096 : (4096 : Int32).toInt = 4096 := rfl
  rw [Int32.toInt_mul, h4096, Int.bmod_def]
  omega

/-! ## The invariant -/

/-- `DPagingEnd` is where the demand has got to, the program's chunk lies below it, and what has been handed out is apart,
between the two ends and outside the rest of the chunk. -/
structure Good (h : UserHeap) : Prop where
  upper : 0xffff800000000000 ≤ h.dpagingBegin
  demand : h.dpagingEnd = h.dpagingBegin + h.demanded
  chunk : h.dpageEnd = 0 ∨
    h.dpagingBegin ≤ h.programBreak ∧ h.programBreak ≤ h.dpageEnd ∧ h.dpageEnd ≤ h.dpagingEnd
  size : h.dpageEnd ≤ h.programBreak + 2147479552
  apart : h.regions.Pairwise fun r q => ∀ a, r.Mem a → ¬ q.Mem a
  inside : ∀ r ∈ h.regions, ∀ a, r.Mem a → h.dpagingBegin ≤ a ∧ a < h.dpagingEnd
  taken : ∀ r ∈ h.regions, ∀ a, r.Mem a → ¬ (h.programBreak ≤ a ∧ a < h.dpageEnd)

theorem Good.start {base : Nat} (hbase : 0xffff800000000000 ≤ base) : Good (start base) where
  upper := hbase
  demand := rfl
  chunk := .inl rfl
  size := Nat.zero_le _
  apart := .nil
  inside := by simp [UserHeap.start]
  taken := by simp [UserHeap.start]

theorem Good.backed {h : UserHeap} (hg : Good h) : Backed h :=
  ⟨hg.apart, hg.inside, fun r hr a ha => mappedOnTouch (hg.inside r hr a ha)⟩

/-- A region is handed out that starts inside the two ends and is outside what has been handed out. -/
theorem Good.hand {h h' : UserHeap} (hg : Good h) {r : Region} (hregions : h'.regions = r :: h.regions)
    (hbegin : h'.dpagingBegin = h.dpagingBegin) (hdemand : h'.dpagingEnd = h'.dpagingBegin + h'.demanded)
    (hend : h.dpagingEnd ≤ h'.dpagingEnd)
    (hchunk : h'.dpageEnd = 0 ∨
      h'.dpagingBegin ≤ h'.programBreak ∧ h'.programBreak ≤ h'.dpageEnd ∧ h'.dpageEnd ≤ h'.dpagingEnd)
    (hsize : h'.dpageEnd ≤ h'.programBreak + 2147479552)
    (hin : ∀ a, r.Mem a → h'.dpagingBegin ≤ a ∧ a < h'.dpagingEnd)
    (hnew : ∀ a, r.Mem a → h.dpagingEnd ≤ a ∨ h.programBreak ≤ a ∧ a < h.dpageEnd)
    (hrest : ∀ a, h'.programBreak ≤ a → a < h'.dpageEnd → ¬ r.Mem a ∧
      (h.dpagingEnd ≤ a ∨ h.programBreak ≤ a ∧ a < h.dpageEnd)) : Good h' := by
  -- what was handed out before is neither above the old end nor in the old chunk
  have hold : ∀ q ∈ h.regions, ∀ a, q.Mem a → ¬ (h.dpagingEnd ≤ a ∨ h.programBreak ≤ a ∧ a < h.dpageEnd) := by
    rintro q hq a ha (hge | hin)
    · have := (hg.inside q hq a ha).2
      omega
    · exact hg.taken q hq a ha hin
  refine ⟨hbegin ▸ hg.upper, hdemand, hchunk, hsize, ?_, ?_, ?_⟩ <;> rw [hregions]
  · exact List.pairwise_cons.mpr ⟨fun q hq a ha hqa => hold q hq a hqa (hnew a ha), hg.apart⟩
  · rintro q (_ | ⟨_, hq⟩) a ha
    · exact hin a ha
    · have := hg.inside q hq a ha
      omega
  · rintro q (_ | ⟨_, hq⟩) a ha ⟨h1, h2⟩
    · exact (hrest a h1 h2).1 ha
    · exact hold q hq a ha (hrest a h1 h2).2

theorem stackAddr_lt : stackAddr + 65536 < 2 ^ 64 := by decide

theorem Good.demandPages {h : UserHeap} (hg : Good h) {n : Nat}
    (hroom : h.dpagingBegin + h.demanded + 4096 * n ≤ stackAddr) :
    Good { h.call (.demandPages n) with demanded := h.demanded + 4096 * n } := by
  have hend : (h.dpagingEnd + 4096 * n) % 2 ^ 64 = h.dpagingEnd + 4096 * n := by
    have := hg.demand
    have := stackAddr_lt
    exact Nat.mod_eq_of_lt (by omega)
  simp only [call, UserHeap.demandPages, hend]
  have hd := hg.demand
  refine hg.hand rfl rfl ?_ ?_ ?_ hg.size ?_ ?_ ?_
  · simp only
    omega
  · simp only
    omega
  · exact hg.chunk.imp_right fun ⟨h1, h2, h3⟩ => ⟨h1, h2, by simp only; omega⟩
  · rintro a ⟨h1, h2⟩
    simp only at h1 h2 ⊢
    omega
  · rintro a ⟨h1, h2⟩
    exact .inl h1
  · rintro a h1 h2
    simp only at h1 h2
    refine ⟨?_, .inr ⟨h1, h2⟩⟩
    rintro ⟨h3, h4⟩
    simp only at h3 h4
    rcases hg.chunk with h0 | ⟨-, -, h5⟩ <;> omega

/-- `incr` does not fit behind the break, counted without a bound. -/
def Short (h : UserHeap) (incr : Int32) : Prop := h.dpageEnd = 0 ∨ h.dpageEnd < h.programBreak + incr.toInt.toNat

instance (h : UserHeap) (incr : Int32) : Decidable (h.Short incr) := by
  unfold Short
  infer_instance

theorem Good.asSize_incr {incr : Int32} (h0 : 0 ≤ incr.toInt) : asSize incr.toInt = incr.toInt.toNat := by
  have := incr.toInt_lt
  exact asSize_nonneg h0 (by omega)

/-- The test of `sbrk` does not wrap. -/
theorem Good.test_iff {h : UserHeap} (hg : Good h) {incr : Int32} {nonneg : 0 ≤ incr.toInt}
    (hroom : h.dpagingBegin + h.demanded + h.needs (.sbrk incr nonneg) ≤ stackAddr) :
    (h.dpageEnd = 0 ∨ h.dpageEnd < (h.programBreak + asSize incr.toInt) % 2 ^ 64) ↔ h.Short incr := by
  unfold Short
  rw [Good.asSize_incr nonneg]
  rcases hg.chunk with h0 | ⟨h1, h2, h3⟩
  · simp [h0]
  · have hlt := stackAddr_lt
    have hd := hg.demand
    have hup := hg.upper
    have hmod : (h.programBreak + incr.toInt.toNat) % 2 ^ 64 = h.programBreak + incr.toInt.toNat := by
      apply Nat.mod_eq_of_lt
      simp only [needs] at hroom
      split at hroom <;> omega
    rw [hmod]

/-- A call that fits takes its bytes from the chunk. -/
theorem Good.sbrk_fits {h : UserHeap} (hg : Good h) {incr : Int32} {nonneg : 0 ≤ incr.toInt}
    (hroom : h.dpagingBegin + h.demanded + h.needs (.sbrk incr nonneg) ≤ stackAddr) (hfits : ¬ h.Short incr) :
    h.sbrk incr = (h.programBreak, { h with programBreak := h.programBreak + incr.toInt.toNat }) := by
  have hd := hg.demand
  have hlt := stackAddr_lt
  have hmod : (h.programBreak + asSize incr.toInt) % 2 ^ 64 = h.programBreak + incr.toInt.toNat := by
    rw [Good.asSize_incr nonneg]
    apply Nat.mod_eq_of_lt
    unfold Short at hfits
    rcases hg.chunk with h0 | ⟨-, -, h3⟩ <;> omega
  unfold sbrk
  rw [if_neg (mt (hg.test_iff hroom).mp hfits)]
  simp only [hmod]

/-- A call that does not fit demands its pages and starts a chunk there. -/
theorem Good.sbrk_short {h : UserHeap} (hg : Good h) {incr : Int32} {nonneg : 0 ≤ incr.toInt}
    (hle : incr.toInt ≤ 2147479552)
    (hroom : h.dpagingBegin + h.demanded + h.needs (.sbrk incr nonneg) ≤ stackAddr) (hshort : h.Short incr) :
    h.sbrk incr = (h.dpagingEnd, { h with
      dpagingEnd := h.dpagingEnd + 4096 * ((incr.toInt.toNat + 4095) / 4096)
      dpageEnd := h.dpagingEnd + 4096 * ((incr.toInt.toNat + 4095) / 4096)
      programBreak := h.dpagingEnd + incr.toInt.toNat }) := by
  have hd := hg.demand
  have hlt := stackAddr_lt
  have hpages := numPages_toInt nonneg hle
  have hsize : asSize (numPages incr).toInt = (incr.toInt.toNat + 4095) / 4096 := by
    rw [asSize_nonneg (by omega) (by omega), hpages]
    omega
  have hmul : asSize (4096 * numPages incr).toInt = 4096 * ((incr.toInt.toNat + 4095) / 4096) := by
    rw [mul_numPages (by omega) (by omega), asSize_nonneg (by omega) (by omega), hpages]
    omega
  have htest := (hg.test_iff hroom).mpr hshort
  have hneeds : h.needs (.sbrk incr nonneg) = 4096 * ((incr.toInt.toNat + 4095) / 4096) := if_pos hshort
  rw [hneeds] at hroom
  have hend : (h.dpagingEnd + 4096 * ((incr.toInt.toNat + 4095) / 4096)) % 2 ^ 64 =
      h.dpagingEnd + 4096 * ((incr.toInt.toNat + 4095) / 4096) := Nat.mod_eq_of_lt (by omega)
  have hbreak : (h.dpagingEnd + asSize incr.toInt) % 2 ^ 64 = h.dpagingEnd + incr.toInt.toNat := by
    rw [Good.asSize_incr nonneg]
    exact Nat.mod_eq_of_lt (by omega)
  unfold sbrk
  rw [if_pos htest]
  simp only [UserHeap.demandPages, hsize, hmul, hend, hbreak]

theorem Good.sbrk {h : UserHeap} (hg : Good h) {incr : Int32} {nonneg : 0 ≤ incr.toInt} (hle : incr.toInt ≤ 2147479552)
    (hroom : h.dpagingBegin + h.demanded + h.needs (.sbrk incr nonneg) ≤ stackAddr) :
    Good { h.call (.sbrk incr nonneg) with demanded := h.demanded + h.needs (.sbrk incr nonneg) } := by
  have hd := hg.demand
  have hup := hg.upper
  by_cases hshort : h.Short incr
  · have hneeds : h.needs (.sbrk incr nonneg) = 4096 * ((incr.toInt.toNat + 4095) / 4096) := if_pos hshort
    simp only [call, hg.sbrk_short hle hroom hshort]
    rw [hneeds]
    refine hg.hand rfl rfl ?_ ?_ ?_ ?_ ?_ ?_ ?_ <;> simp only [Region.Mem]
    · omega
    · omega
    · omega
    · omega
    · omega
    · omega
    · omega
  · have hneeds : h.needs (.sbrk incr nonneg) = 0 := if_neg hshort
    simp only [call, hg.sbrk_fits hroom hshort]
    rw [hneeds]
    unfold Short at hshort
    rcases hg.chunk with h0 | ⟨h1, h2, h3⟩
    · omega
    have hsz := hg.size
    refine hg.hand rfl rfl ?_ ?_ ?_ ?_ ?_ ?_ ?_ <;> simp only [Region.Mem]
    · omega
    · omega
    · omega
    · omega
    · omega
    · omega
    · omega

/-- An increment for which the number of pages overflows takes pages back, and hands out what lies behind them. -/
theorem Good.not_backed {h : UserHeap} (hg : Good h) {incr : Int32} {nonneg : 0 ≤ incr.toInt}
    (hlt : 2147479552 < incr.toInt)
    (hroom : h.dpagingBegin + h.demanded + h.needs (.sbrk incr nonneg) ≤ stackAddr) (d : Nat) :
    ¬ Backed { h.call (.sbrk incr nonneg) with demanded := d } := by
  have hd := hg.demand
  have hup := hg.upper
  have hstack := stackAddr_lt
  have hshort : h.Short incr := by
    have := hg.size
    unfold Short
    omega
  obtain ⟨hlo, hneg⟩ := numPages_overflow hlt
  have hend : (h.dpagingEnd + 4096 * asSize (numPages incr).toInt) % 2 ^ 64 ≤ h.dpagingEnd := by
    unfold asSize
    omega
  intro hb
  have hin := hb.inside ⟨h.dpagingEnd, incr.toInt.toNat⟩
  simp only [call, UserHeap.sbrk, if_pos ((hg.test_iff hroom).mpr hshort), UserHeap.demandPages] at hin
  have := hin (List.mem_cons_self ..) h.dpagingEnd ⟨Nat.le_refl _, by simp only; omega⟩
  omega

/-! ## Runs -/

/-- The increments whose number of pages is computed without an overflow. -/
def Call.Fits : Call → Prop
  | .sbrk incr _ => incr.toInt ≤ 2147479552
  | .demandPages _ => True

instance (c : Call) : Decidable c.Fits := by
  cases c <;> unfold Call.Fits <;> infer_instance

theorem next_some {h h' : UserHeap} {c : Call} (he : next h c = some h') :
    h.dpagingBegin + h.demanded + h.needs c ≤ stackAddr ∧ h' = { h.call c with demanded := h.demanded + h.needs c } := by
  unfold next at he
  split at he
  · next hroom => exact ⟨hroom, (Option.some.inj he).symm⟩
  · cases he

theorem Good.next {h h' : UserHeap} {c : Call} (hg : Good h) (hc : c.Fits) (he : UserHeap.next h c = some h') : Good h' := by
  obtain ⟨hroom, rfl⟩ := next_some he
  cases c with
  | sbrk incr nonneg => exact hg.sbrk hc hroom
  | demandPages n => exact hg.demandPages hroom

/-- **The heap of a user program.** Along any run of `sbrk` and `DemandPages` calls that stays below the stack, the memory
handed out is disjoint and backed in every state exactly when no increment exceeds `INT_MAX - 4095`. -/
theorem user_heap_backed_iff {base : Nat} (hbase : 0xffff800000000000 ≤ base) (calls : List Call) :
    States UserHeap.next Backed (start base) calls ↔ Along UserHeap.next (fun _ c => c.Fits) (start base) calls := by
  refine (along_iff_states_of_leaves (fun h c h' hg hc he => Good.next hg hc he) (fun h => Good.backed)
    (fun h c h' hg hc he => ?_) calls (Good.start hbase)).symm
  obtain ⟨hroom, rfl⟩ := next_some he
  cases c with
  | sbrk incr nonneg => exact hg.not_backed (Int.lt_of_not_ge hc) hroom _
  | demandPages n => exact absurd trivial hc

/-- Calls of both kinds, with a chunk left and one taken. -/
theorem user_heap_backed_three : States UserHeap.next Backed (start 0xffff800000001000)
    [.sbrk 100 (by decide), .demandPages 1, .sbrk 5000 (by decide)] :=
  (user_heap_backed_iff (by decide) _).mpr <| by
    have h1 : (Call.sbrk 100 (by decide)).Fits := by decide
    have h2 : (Call.sbrk 5000 (by decide)).Fits := by decide
    exact fun _ _ => ⟨h1, fun _ _ => ⟨trivial, fun _ _ => ⟨h2, trivial⟩⟩⟩

/-- `sbrk(INT_MAX)` as the first call. -/
theorem user_heap_not_backed : ¬ ∀ (base : Nat) (calls : List Call), 0xffff800000000000 ≤ base →
    States UserHeap.next Backed (start base) calls := by
  intro h
  have hs := h 0xffff800000001000 [.sbrk 2147483647 (by decide)] (by decide)
  have hroom : (start 0xffff800000001000).dpagingBegin + (start 0xffff800000001000).demanded +
      (start 0xffff800000001000).needs (.sbrk 2147483647 (by decide)) ≤ stackAddr := by decide
  have hlast := hs.2 _ (if_pos hroom)
  exact (Good.start (by decide)).not_backed (by decide) hroom _ hlast

end UserHeap

end KinOS
