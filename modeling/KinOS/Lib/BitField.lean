import Mathlib

/-!
# Bit fields of a word

`get w lo len` reads the `len` bits of `w` from bit `lo` on, and `put w lo v` overwrites them. A field is what was put last
into it, and fields beside each other do not disturb each other.
-/

namespace BitField

variable {n : Nat}

def get (w : BitVec n) (lo len : Nat) : BitVec len := w.extractLsb' lo len

/-- The word with the bits of `v` from bit `lo` on. -/
def put (w : BitVec n) (lo : Nat) {len : Nat} (v : BitVec len) : BitVec n :=
  w &&& ~~~((BitVec.allOnes len).setWidth n <<< lo) ||| v.setWidth n <<< lo

theorem getLsbD_get (w : BitVec n) (lo len i : Nat) : (get w lo len).getLsbD i = (decide (i < len) && w.getLsbD (lo + i)) :=
  BitVec.getLsbD_extractLsb' ..

theorem getLsbD_put (w : BitVec n) (lo : Nat) {len : Nat} (v : BitVec len) (i : Nat) :
    (put w lo v).getLsbD i = if lo ≤ i ∧ i < lo + len then (decide (i < n) && v.getLsbD (i - lo)) else w.getLsbD i := by
  by_cases hn : i < n
  · by_cases hlo : lo ≤ i
    · have hlt : ¬ i < lo := by omega
      by_cases hlen : i < lo + len
      · simp [put, hn, hlo, hlt, hlen, show i - lo < len by omega]
      · simp [put, hn, hlo, hlt, hlen, show ¬ i - lo < len by omega, BitVec.getLsbD_of_ge v (i - lo) (by omega)]
    · have hlt : i < lo := by omega
      simp [put, hn, hlo, hlt]
  · simp [put, hn, BitVec.getLsbD_of_ge w i (by omega)]

variable {w : BitVec n} {lo len lo' len' : Nat} {v : BitVec len}

/-- A field holds what was put into it. -/
@[simp] theorem get_put (h : lo + len ≤ n) : get (put w lo v) lo len = v := by
  apply BitVec.eq_of_getLsbD_eq
  intro i hi
  rw [getLsbD_get, getLsbD_put]
  simp [hi, show lo + i < n by omega]

/-- **A field beside it is left alone.** -/
theorem get_put_of_disjoint (h : lo + len ≤ lo' ∨ lo' + len' ≤ lo) : get (put w lo v) lo' len' = get w lo' len' := by
  apply BitVec.eq_of_getLsbD_eq
  intro i hi
  rw [getLsbD_get, getLsbD_get, getLsbD_put, if_neg (by omega)]

/-- A second value replaces the first. -/
theorem put_put {v' : BitVec len} : put (put w lo v) lo v' = put w lo v' := by
  apply BitVec.eq_of_getLsbD_eq
  intro i hi
  rw [getLsbD_put, getLsbD_put, getLsbD_put]
  split <;> rfl

/-- Putting back what is there changes nothing. -/
theorem put_get : put w lo (get w lo len) = w := by
  apply BitVec.eq_of_getLsbD_eq
  intro i hi
  rw [getLsbD_put]
  split
  · next h => rw [getLsbD_get, Nat.add_sub_cancel' h.1, decide_eq_true hi, decide_eq_true (by omega), Bool.true_and,
      Bool.true_and]
  · rfl

/-- Fields of zero are zero. -/
@[simp] theorem get_zero : get (0 : BitVec n) lo len = 0 := by
  apply BitVec.eq_of_getLsbD_eq
  intro i hi
  simp [getLsbD_get]

end BitField
