import KinOS.Lib.Bytes

/-!
# Rows copied inside one memory

`copyWithin` is `memcpy` inside the first `size` bytes of a memory: undefined if a range leaves them, or if the ranges
overlap. `copyRows` is a loop that copies a row and goes on `stride` bytes further on both sides. Whether it is defined
depends on the places of the rows only; if no row is written before it has been read, every row ends as it was at its source.
-/

namespace Bytes

/-- Two ranges of `n` bytes do not overlap. -/
def Apart (n : Nat) (a b : Int) : Prop := a + n ≤ b ∨ b + n ≤ a

instance (n : Nat) (a b : Int) : Decidable (Apart n a b) := inferInstanceAs (Decidable (_ ∨ _))

/-- `n` bytes can be copied from `src` to `dst`. -/
def RowOk (size n : Nat) (dst src : Int) : Prop :=
  ((0 ≤ dst ∧ dst + n ≤ size) ∧ 0 ≤ src ∧ src + n ≤ size) ∧ Apart n dst src

instance (size n : Nat) (dst src : Int) : Decidable (RowOk size n dst src) := inferInstanceAs (Decidable (_ ∧ _))

def copyWithin (size : Nat) (m : Mem) (dst src : Int) (n : Nat) : Option Mem :=
  if n = 0 then some m
  else if RowOk size n dst src then some (copy m dst.toNat m src.toNat n)
  else none

def copyRows (size n : Nat) (stride : Int) : Nat → Int → Int → Mem → Option Mem
  | 0, _, _, m => some m
  | rows + 1, dst, src, m =>
    (copyWithin size m dst src n).bind (copyRows size n stride rows (dst + stride) (src + stride))

variable {size n : Nat} {stride dst src : Int} {m : Mem}

theorem copyWithin_isSome : (copyWithin size m dst src n).isSome ↔ n = 0 ∨ RowOk size n dst src := by
  unfold copyWithin
  by_cases hn : n = 0
  · simp [hn]
  · by_cases hr : RowOk size n dst src
    · simp [hn, hr]
    · simp [hn, hr]

/-- The place of the next row. -/
theorem next_row (stride a : Int) (j : Nat) : a + stride + stride * j = a + stride * (j + 1 : Nat) := by
  push_cast
  ring

theorem copyRows_zero : ∀ (rows : Nat) (dst src : Int), copyRows size 0 stride rows dst src m = some m
  | 0, _, _ => rfl
  | rows + 1, dst, src => by
    rw [copyRows, copyWithin, if_pos rfl, Option.bind_some, copyRows_zero rows]

theorem copyRows_isSome (hn : n ≠ 0) : ∀ {rows : Nat} {dst src : Int} {m : Mem},
    (copyRows size n stride rows dst src m).isSome ↔ ∀ j < rows, RowOk size n (dst + stride * j) (src + stride * j)
  | 0, _, _, _ => iff_of_true rfl fun j hj => absurd hj (Nat.not_lt_zero j)
  | rows + 1, dst, src, m => by
    rw [copyRows, Nat.forall_lt_succ_left']
    have hzero : ∀ a : Int, a + stride * ((0 : Nat) : Int) = a := fun a => by simp
    simp only [hzero]
    by_cases hr : RowOk size n dst src
    · obtain ⟨m1, h1⟩ := Option.isSome_iff_exists.1 (copyWithin_isSome.2 (.inr hr) : (copyWithin size m dst src n).isSome)
      rw [h1, Option.bind_some, copyRows_isSome hn, and_iff_right hr]
      simp only [next_row]
    · have h0 : copyWithin size m dst src n = none := by
        rw [← Option.not_isSome_iff_eq_none, copyWithin_isSome]
        exact fun h => h.elim hn hr
      rw [h0]
      exact iff_of_false (by simp) fun h => hr h.1

/-- **No row is lost** if each is read before it is overwritten. -/
theorem copyRows_spec (hn : n ≠ 0) : ∀ {rows : Nat} {dst src : Int} {m : Mem},
    (∀ j < rows, RowOk size n (dst + stride * j) (src + stride * j)) →
    (∀ i j, i < j → j < rows → Apart n (dst + stride * i) (dst + stride * j) ∧
    Apart n (dst + stride * i) (src + stride * j)) → ∃ m', copyRows size n stride rows dst src m = some m' ∧
      (∀ j < rows, ∀ k < n, m' ((dst + stride * j).toNat + k) = m ((src + stride * j).toNat + k)) ∧
      ∀ b : Nat, (∀ j < rows, (b : Int) < dst + stride * j ∨ dst + stride * j + n ≤ b) → m' b = m b
  | 0, _, _, m, _, _ => ⟨m, rfl, fun j hj => absurd hj (Nat.not_lt_zero j), fun _ _ => rfl⟩
  | rows + 1, dst, src, m, hok, hsep => by
    have hzero : ∀ a : Int, a + stride * ((0 : Nat) : Int) = a := fun a => by simp
    have h0 : RowOk size n dst src := by simpa only [hzero] using hok 0 (Nat.succ_pos rows)
    -- the other rows, after the first one
    have hok' : ∀ j < rows, RowOk size n (dst + stride + stride * j) (src + stride + stride * j) := by
      intro j hj
      simpa only [next_row] using hok (j + 1) (Nat.succ_lt_succ hj)
    have hsep' : ∀ i j : Nat, i < j → j < rows → Apart n (dst + stride + stride * i) (dst + stride + stride * j) ∧
        Apart n (dst + stride + stride * i) (src + stride + stride * j) := by
      intro i j hij hj
      simpa only [next_row] using hsep (i + 1) (j + 1) (Nat.succ_lt_succ hij) (Nat.succ_lt_succ hj)
    obtain ⟨m', hm', hin, hout⟩ := copyRows_spec (m := copy m dst.toNat m src.toNat n) hn hok' hsep'
    have hsep0 : ∀ j < rows, Apart n dst (dst + stride * (j + 1 : Nat)) ∧ Apart n dst (src + stride * (j + 1 : Nat)) := by
      intro j hj
      simpa only [hzero] using hsep 0 (j + 1) (Nat.succ_pos j) (Nat.succ_lt_succ hj)
    simp only [next_row] at hin hout
    refine ⟨m', ?_, ?_, fun b hb => ?_⟩
    · rw [copyRows, copyWithin, if_neg hn, if_pos h0, Option.bind_some]
      exact hm'
    · rw [Nat.forall_lt_succ_left']
      simp only [hzero]
      refine ⟨fun k hk => ?_, fun j hj k hk => ?_⟩
      · rw [hout, copy_inside hk]
        intro j hj
        have hs := (hsep0 j hj).1
        have hd := h0.1.1
        unfold Apart at hs
        omega
      · rw [hin j hj k hk, copy_outside]
        have hs := (hsep0 j hj).2
        have hr := (hok (j + 1) (Nat.succ_lt_succ hj)).1.2
        have hd := h0.1.1
        unfold Apart at hs
        omega
    · rw [Nat.forall_lt_succ_left'] at hb
      simp only [hzero] at hb
      rw [hout b hb.2, copy_outside]
      have hd := h0.1.1
      omega

end Bytes
