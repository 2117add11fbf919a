import KinOS.Lib.RoundUp
import KinOS.Usb.Trb

/-!
# The memory pool of the driver

| here | there |
| --- | --- |
| `ceil`, `allocMem` | `Ceil`, `AllocMem` (`kernel/usb/memory.cpp:5-39`) |
| `Placed`           | what `memory.hpp:9-18` promises of a block |
| `Pool`, `Pool.alloc` | `alloc_ptr` over a run of calls, with the blocks that were given out |

`FreeMem` does nothing. An argument of 0 is no constraint; every other alignment and boundary that the driver asks for is a
power of two.

A block is at the first address from `alloc_ptr` on where it keeps the promise (`allocMem_spec`). A call that fails moves
`alloc_ptr` as well, so that later and smaller requests may fail for it.
-/

open RoundUp

namespace KinOS.Usb

/-- `Ceil<uintptr_t>` -/
def ceil (value : BitVec 64) (alignment : BitVec 32) : BitVec 64 :=
  (value + alignment.setWidth 64 - 1#64) &&& ~~~((alignment - 1#32).setWidth 64)

def kMemoryPoolSize : Nat := 4096 * 32

/-- `AllocMem` with `memory_pool` at `pool`: what it returns, `nullptr` being `none`, and the new `alloc_ptr`. -/
def allocMem (pool allocPtr size : BitVec 64) (alignment boundary : BitVec 32) : Option Ptr × BitVec 64 :=
  let aligned := if 0 < alignment then ceil allocPtr alignment else allocPtr
  let placed :=
    if 0 < boundary then
      let nextBoundary := ceil aligned boundary
      if nextBoundary < aligned + size then nextBoundary else aligned
    else aligned
  if pool + BitVec.ofNat 64 kMemoryPoolSize < placed + size then (none, placed) else (some placed, placed + size)

/-- A block of `size` bytes at `q` starts at a multiple of `alignment`, and crosses no multiple of `boundary` unless it
starts at one. -/
def Placed (alignment boundary size q : Nat) : Prop :=
  (alignment = 0 ∨ alignment ∣ q) ∧ (boundary = 0 ∨ boundary ∣ q ∨ q % boundary + size ≤ boundary)

/-- Zero or a power of two. -/
def IsConstraint (a : BitVec 32) : Prop := a = 0 ∨ ∃ k < 32, a = BitVec.twoPow 32 k

/-- A small block that is placed crosses no boundary. -/
theorem Placed.within {alignment boundary size q : Nat} (h : Placed alignment boundary size q) (hb : 0 < boundary)
    (hsize : size ≤ boundary) : q % boundary + size ≤ boundary := by
  rcases h.2 with h0 | hd | hle
  · omega
  · rwa [Nat.mod_eq_zero_of_dvd hd, Nat.zero_add]
  · exact hle

theorem ceil_toNat {value : BitVec 64} {k : Nat} (hk : k < 32) (hv : value.toNat + 2 ^ 32 ≤ 2 ^ 64) :
    (ceil value (BitVec.twoPow 32 k)).toNat = roundUp (2 ^ k) value.toNat := by
  have hpow : 2 ^ k < 2 ^ 32 := Nat.pow_lt_pow_right (by decide) hk
  have h64 : (BitVec.twoPow 32 k).setWidth 64 = BitVec.twoPow 64 k := by
    apply BitVec.eq_of_toNat_eq
    rw [BitVec.toNat_setWidth, BitVec.toNat_twoPow, BitVec.toNat_twoPow, Nat.mod_eq_of_lt hpow]
  have hmask : (BitVec.twoPow 32 k - 1#32).setWidth 64 = BitVec.twoPow 64 k - 1#64 := by
    apply BitVec.eq_of_toNat_eq
    rw [BitVec.toNat_setWidth, toNat_mask hk, toNat_mask (by omega), Nat.mod_eq_of_lt (by omega)]
  rw [ceil, h64, hmask, mask_eq_roundUp (by omega) (by omega)]

/-! ## One call -/

section
variable {pool allocPtr size : BitVec 64} {alignment boundary : BitVec 32}

/-- Where the first part of `AllocMem` leaves `alloc_ptr`. -/
theorem aligned_isLeast (ha : IsConstraint alignment) (hp : allocPtr.toNat + 2 ^ 32 ≤ 2 ^ 64) :
    IsLeast { q | allocPtr.toNat ≤ q ∧ (alignment.toNat = 0 ∨ alignment.toNat ∣ q) }
      (if 0 < alignment then ceil allocPtr alignment else allocPtr).toNat := by
  rcases ha with rfl | ⟨k, hk, rfl⟩
  · exact ⟨⟨Nat.le_refl _, .inl rfl⟩, fun q hq => hq.1⟩
  · have hpow : 2 ^ k < 2 ^ 32 := Nat.pow_lt_pow_right (by decide) hk
    have hpos : 0 < 2 ^ k := Nat.two_pow_pos k
    have hnat : (BitVec.twoPow 32 k).toNat = 2 ^ k := by rw [BitVec.toNat_twoPow, Nat.mod_eq_of_lt hpow]
    have hlt : 0 < BitVec.twoPow 32 k := by
      rw [BitVec.lt_def, hnat]
      exact hpos
    rw [if_pos hlt, ceil_toNat hk hp, hnat]
    refine ⟨⟨le_roundUp hpos, .inr dvd_roundUp⟩, fun q ⟨hq, hd⟩ => ?_⟩
    rcases hd with h0 | hd
    · omega
    · exact roundUp_le hpos hq hd

/-- **The least place**, given the least aligned one. -/
theorem placed_isLeast {al b n p a : Nat} (hdvd : al ∣ b ∨ b ∣ al) (ha : IsLeast { q | p ≤ q ∧ (al = 0 ∨ al ∣ q) } a)
    (hb : 0 < b) : IsLeast { q | p ≤ q ∧ Placed al b n q } (if roundUp b a < a + n then roundUp b a else a) := by
  obtain ⟨⟨hpa, hal⟩, hleast⟩ := ha
  have hle : a ≤ roundUp b a := le_roundUp hb
  split
  · next hcross =>
    refine ⟨⟨hpa.trans hle, ?_, .inr (.inl dvd_roundUp)⟩, fun q ⟨hpq, halq, hq⟩ => ?_⟩
    · rcases hdvd with hdvd | hdvd
      · exact .inr (hdvd.trans dvd_roundUp)
      · rcases hal with h0 | hd
        · exact .inl h0
        · rw [roundUp_eq hb (hdvd.trans hd)]
          exact .inr hd
    · have haq : a ≤ q := hleast ⟨hpq, halq⟩
      by_cases hbq : b ∣ q
      · exact roundUp_le hb haq hbq
      · have hfit : q + n ≤ roundUp b q := by
          rcases hq with h0 | hd | hfit
          · omega
          · exact absurd hd hbq
          · exact (mod_add_le_iff hb hbq).1 hfit
        by_contra hlt
        -- then `q` is in the same stretch as `a`
        have hsame : roundUp b q ≤ roundUp b a := roundUp_le hb (by omega) dvd_roundUp
        omega
  · next hin =>
    refine ⟨⟨hpa, hal, ?_⟩, fun q ⟨hpq, halq, _⟩ => hleast ⟨hpq, halq⟩⟩
    by_cases hba : b ∣ a
    · exact .inr (.inl hba)
    · exact .inr (.inr ((mod_add_le_iff hb hba).2 (Nat.not_lt.1 hin)))

theorem IsConstraint.dvd {a b : BitVec 32} (ha : IsConstraint a) (hb : IsConstraint b) (hne : 0 < b) :
    a.toNat ∣ b.toNat ∨ b.toNat ∣ a.toNat := by
  have hnat : ∀ k < 32, (BitVec.twoPow 32 k).toNat = 2 ^ k := fun k hk => by
    rw [BitVec.toNat_twoPow, Nat.mod_eq_of_lt (Nat.pow_lt_pow_right (by decide) hk)]
  rcases ha with rfl | ⟨i, hi, rfl⟩
  · exact .inr (Nat.dvd_zero _)
  · rcases hb with rfl | ⟨j, hj, rfl⟩
    · exact absurd hne (by decide)
    · rw [hnat i hi, hnat j hj]
      exact (Nat.le_total i j).imp (Nat.pow_dvd_pow 2) (Nat.pow_dvd_pow 2)

theorem IsConstraint.dvd_top {a : BitVec 32} (ha : IsConstraint a) : a.toNat = 0 ∨ a.toNat ∣ 2 ^ 31 := by
  rcases ha with rfl | ⟨k, hk, rfl⟩
  · exact .inl rfl
  · rw [BitVec.toNat_twoPow, Nat.mod_eq_of_lt (Nat.pow_lt_pow_right (by decide) hk)]
    exact .inr (Nat.pow_dvd_pow 2 (by omega))

end

/-- No address from here on is computed modulo `2^64`. -/
def top (pool : BitVec 64) : Nat := roundUp (2 ^ 31) (pool.toNat + kMemoryPoolSize)

section
variable {pool allocPtr size : BitVec 64} {alignment boundary : BitVec 32}

/-- **One call.** The block is at the least address that will do, and there is none exactly where that one does not fit into
the pool. -/
theorem allocMem_spec (hpool : pool.toNat ≤ 2 ^ 62) (hsize : size.toNat ≤ 2 ^ 62) (hp : allocPtr.toNat ≤ top pool)
    (ha : IsConstraint alignment) (hb : IsConstraint boundary) :
    ∃ q : BitVec 64, IsLeast { q | allocPtr.toNat ≤ q ∧ Placed alignment.toNat boundary.toNat size.toNat q } q.toNat ∧
      q.toNat ≤ top pool ∧
      allocMem pool allocPtr size alignment boundary =
        if q.toNat + size.toNat ≤ pool.toNat + kMemoryPoolSize then (some q, q + size) else (none, q) := by
  have htop : top pool < pool.toNat + kMemoryPoolSize + 2 ^ 31 := roundUp_lt (by decide)
  have hK : kMemoryPoolSize = 2 ^ 17 := rfl
  have haligned := aligned_isLeast ha (show allocPtr.toNat + 2 ^ 32 ≤ 2 ^ 64 by omega)
  generalize hA : (if 0 < alignment then ceil allocPtr alignment else allocPtr) = aligned at haligned
  have haTop : aligned.toNat ≤ top pool :=
    haligned.2 ⟨hp, ha.dvd_top.imp_right fun h => h.trans dvd_roundUp⟩
  have hsum : (aligned + size).toNat = aligned.toNat + size.toNat := by
    rw [BitVec.toNat_add, Nat.mod_eq_of_lt (by omega)]
  generalize hQ : (if 0 < boundary then (if ceil aligned boundary < aligned + size then ceil aligned boundary else aligned)
    else aligned) = q
  have hleast : IsLeast { q | allocPtr.toNat ≤ q ∧ Placed alignment.toNat boundary.toNat size.toNat q } q.toNat := by
    rcases hb with rfl | ⟨k, hk, rfl⟩
    · rw [if_neg (by decide)] at hQ
      rw [← hQ]
      exact ⟨⟨haligned.1.1, haligned.1.2, .inl rfl⟩, fun q hq => haligned.2 ⟨hq.1, hq.2.1⟩⟩
    · have hpow : 2 ^ k < 2 ^ 32 := Nat.pow_lt_pow_right (by decide) hk
      have hpos : 0 < 2 ^ k := Nat.two_pow_pos k
      have hnat : (BitVec.twoPow 32 k).toNat = 2 ^ k := by rw [BitVec.toNat_twoPow, Nat.mod_eq_of_lt hpow]
      have hlt : 0 < BitVec.twoPow 32 k := by
        rw [BitVec.lt_def, hnat]
        exact hpos
      have hceil : (ceil aligned (BitVec.twoPow 32 k)).toNat = roundUp (2 ^ k) aligned.toNat := ceil_toNat hk (by omega)
      have hdvd := ha.dvd (.inr ⟨k, hk, rfl⟩) hlt
      have hplaced := placed_isLeast (n := size.toNat) hdvd haligned (by rwa [hnat])
      rw [if_pos hlt] at hQ
      rw [hnat] at hplaced ⊢
      simpa only [← hQ, apply_ite BitVec.toNat, BitVec.lt_def, hceil, hsum] using hplaced
  have hqTop : q.toNat ≤ top pool :=
    hleast.2 ⟨hp, ha.dvd_top.imp_right fun h => h.trans dvd_roundUp,
      hb.dvd_top.imp_right fun h => .inl (h.trans dvd_roundUp)⟩
  refine ⟨q, hleast, hqTop, ?_⟩
  have hend : (pool + BitVec.ofNat 64 kMemoryPoolSize).toNat = pool.toNat + kMemoryPoolSize := by
    rw [BitVec.toNat_add, BitVec.toNat_ofNat, Nat.mod_eq_of_lt (show kMemoryPoolSize < 2 ^ 64 by decide),
      Nat.mod_eq_of_lt (by omega)]
  have hqsum : (q + size).toNat = q.toNat + size.toNat := by
    rw [BitVec.toNat_add, Nat.mod_eq_of_lt (by omega)]
  have hcond : pool + BitVec.ofNat 64 kMemoryPoolSize < q + size ↔
    ¬ q.toNat + size.toNat ≤ pool.toNat + kMemoryPoolSize := by
    rw [BitVec.lt_def, hend, hqsum, Nat.not_le]
  simp only [allocMem, hA, hQ, hcond, ite_not]

end

/-! ## A run of calls -/

/-- The arguments of a call. -/
structure Request where
  size : BitVec 64
  alignment : BitVec 32
  boundary : BitVec 32
deriving DecidableEq, Repr

def Request.Ok (r : Request) : Prop := r.size.toNat ≤ 2 ^ 62 ∧ IsConstraint r.alignment ∧ IsConstraint r.boundary

/-- A block and the request it answers. -/
structure Block where
  start : Ptr
  request : Request
deriving DecidableEq, Repr

def Block.stop (b : Block) : Nat := b.start.toNat + b.request.size.toNat

structure Pool where
  allocPtr : BitVec 64
  blocks : List Block
deriving DecidableEq, Repr

def Pool.alloc (pool : BitVec 64) (s : Pool) (r : Request) : Pool :=
  let result := allocMem pool s.allocPtr r.size r.alignment r.boundary
  ⟨result.2, s.blocks ++ (result.1.map fun q => ⟨q, r⟩).toList⟩

structure Pool.Inv (pool : BitVec 64) (s : Pool) : Prop where
  start : pool.toNat ≤ s.allocPtr.toNat
  le_top : s.allocPtr.toNat ≤ top pool
  inside : ∀ b ∈ s.blocks, pool.toNat ≤ b.start.toNat ∧ b.stop ≤ pool.toNat + kMemoryPoolSize
  below : ∀ b ∈ s.blocks, b.stop ≤ s.allocPtr.toNat
  placed : ∀ b ∈ s.blocks, Placed b.request.alignment.toNat b.request.boundary.toNat b.request.size.toNat b.start.toNat
  apart : s.blocks.Pairwise fun b c => b.stop ≤ c.start.toNat

theorem Pool.inv_start (pool : BitVec 64) : Inv pool ⟨pool, []⟩ where
  start := Nat.le_refl _
  le_top := (Nat.le_add_right ..).trans (le_roundUp (by decide))
  inside b hb := absurd hb (by simp)
  below b hb := absurd hb (by simp)
  placed b hb := absurd hb (by simp)
  apart := .nil

theorem Pool.Inv.alloc {pool : BitVec 64} {s : Pool} {r : Request} (h : Inv pool s) (hpool : pool.toNat ≤ 2 ^ 62)
    (hr : r.Ok) :
    Inv pool (s.alloc pool r) := by
  obtain ⟨hsize, ha, hb⟩ := hr
  obtain ⟨q, ⟨⟨hq, hplaced⟩, -⟩, hqTop, hrun⟩ := allocMem_spec hpool hsize h.le_top ha hb
  have hlow := h.start
  simp only [Pool.alloc, hrun]
  by_cases hfit : q.toNat + r.size.toNat ≤ pool.toNat + kMemoryPoolSize
  · have htop : pool.toNat + kMemoryPoolSize ≤ top pool := le_roundUp (by decide)
    have hlt : top pool < pool.toNat + kMemoryPoolSize + 2 ^ 31 := roundUp_lt (by decide)
    have hK : kMemoryPoolSize = 2 ^ 17 := rfl
    have hsum : (q + r.size).toNat = q.toNat + r.size.toNat := by rw [BitVec.toNat_add, Nat.mod_eq_of_lt (by omega)]
    simp only [if_pos hfit, Option.map_some, Option.toList_some]
    constructor
    · simp only [hsum]
      omega
    · simp only [hsum]
      omega
    · simp only [List.mem_append, List.mem_singleton]
      rintro b (hmem | rfl)
      · exact h.inside b hmem
      · exact ⟨hlow.trans hq, hfit⟩
    · simp only [List.mem_append, List.mem_singleton, hsum]
      rintro b (hmem | rfl)
      · have := h.below b hmem
        omega
      · exact Nat.le_refl _
    · simp only [List.mem_append, List.mem_singleton]
      rintro b (hmem | rfl)
      · exact h.placed b hmem
      · exact hplaced
    · refine List.pairwise_append.2 ⟨h.apart, List.pairwise_singleton .., fun b hmem c hc => ?_⟩
      rw [List.mem_singleton.1 hc]
      exact (h.below b hmem).trans hq
  · simp only [if_neg hfit, Option.map_none, Option.toList_none, List.append_nil]
    exact ⟨hlow.trans hq, hqTop, h.inside, fun b hmem => (h.below b hmem).trans hq, h.placed, h.apart⟩

theorem Pool.Inv.run {pool : BitVec 64} (hpool : pool.toNat ≤ 2 ^ 62) : ∀ (rs : List Request) {s : Pool}, Inv pool s →
    (∀ r ∈ rs, r.Ok) → Inv pool (rs.foldl (Pool.alloc pool) s)
  | [], _, h, _ => h
  | r :: rs, _, h, hr => Inv.run hpool rs (h.alloc hpool (hr r (List.mem_cons_self ..))) fun r' hr' =>
      hr r' (List.mem_cons_of_mem _ hr')

/-- **What the pool promises over a whole run**: blocks lie in the pool, keep their alignment, cross no boundary that
they are not larger than, and no two of them overlap. The next request gets the least address from `alloc_ptr` on that
will do, or `nullptr` where every such address is too high. -/
theorem Pool.blocks_apart {pool : BitVec 64} (hpool : pool.toNat ≤ 2 ^ 62) {rs : List Request} (hrs : ∀ r ∈ rs, r.Ok)
    {r : Request} (hr : r.Ok) :
    let s := rs.foldl (Pool.alloc pool) ⟨pool, []⟩
    (∀ b ∈ s.blocks, pool.toNat ≤ b.start.toNat ∧ b.stop ≤ pool.toNat + kMemoryPoolSize ∧
      (b.request.alignment ≠ 0 → b.request.alignment.toNat ∣ b.start.toNat) ∧
      (b.request.boundary ≠ 0 → b.request.size.toNat ≤ b.request.boundary.toNat →
        b.start.toNat % b.request.boundary.toNat + b.request.size.toNat ≤ b.request.boundary.toNat)) ∧
    s.blocks.Pairwise (fun b c => b.stop ≤ c.start.toNat) ∧
    match (allocMem pool s.allocPtr r.size r.alignment r.boundary).1 with
    | some q => IsLeast { q | s.allocPtr.toNat ≤ q ∧ Placed r.alignment.toNat r.boundary.toNat r.size.toNat q } q.toNat
    | none => ∀ q, s.allocPtr.toNat ≤ q → Placed r.alignment.toNat r.boundary.toNat r.size.toNat q →
        pool.toNat + kMemoryPoolSize < q + r.size.toNat := by
  have h := (inv_start pool).run hpool rs hrs
  refine ⟨fun b hb => ?_, h.apart, ?_⟩
  · have hplaced := h.placed b hb
    have hne : ∀ a : BitVec 32, a ≠ 0 → a.toNat ≠ 0 := fun a ha h0 => ha (BitVec.eq_of_toNat_eq h0)
    refine ⟨(h.inside b hb).1, (h.inside b hb).2, fun ha => ?_, fun hb hle => ?_⟩
    · exact hplaced.1.resolve_left (hne _ ha)
    · exact hplaced.within (Nat.pos_of_ne_zero (hne _ hb)) hle
  · obtain ⟨hsize, ha, hb⟩ := hr
    obtain ⟨q, hleast, -, hrun⟩ := allocMem_spec hpool hsize h.le_top ha hb
    rw [hrun]
    by_cases hfit : q.toNat + r.size.toNat ≤ pool.toNat + kMemoryPoolSize
    · rw [if_pos hfit]
      exact hleast
    · rw [if_neg hfit]
      intro p hp hplaced
      have := hleast.2 ⟨hp, hplaced⟩
      omega

/-- The pool at 64, a `TRB` ring after a page. -/
theorem Pool.blocks_apart_ring :
    let s := [⟨4096, 4096, 4096⟩, ⟨512, 64, 0x10000⟩].foldl (Pool.alloc 64) ⟨64, []⟩
    s.blocks.map Block.start = [4096, 8192] ∧ s.blocks.Pairwise (fun b c => b.stop ≤ c.start.toNat) := by
  have h32 : ∀ k, k < 32 → IsConstraint (BitVec.twoPow 32 k) := fun k hk => .inr ⟨k, hk, rfl⟩
  have hpage : IsConstraint 4096 := h32 12 (by decide)
  refine ⟨by decide, (blocks_apart (by decide : (64 : BitVec 64).toNat ≤ 2 ^ 62) ?_ (r := ⟨1, 0, 0⟩) ?_).2.1⟩
  · simp only [List.mem_cons, List.not_mem_nil, or_false]
    rintro r (rfl | rfl)
    · exact ⟨by decide, hpage, hpage⟩
    · exact ⟨by decide, h32 6 (by decide), h32 16 (by decide)⟩
  · exact ⟨by decide, .inl rfl, .inl rfl⟩

end KinOS.Usb
