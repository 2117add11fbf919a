import Mathlib

/-!
# Rounding up to a multiple

`roundUp a n` is the least multiple of `a` from `n` on. For a power of two it is what masking computes on machine words.
-/

namespace RoundUp

def roundUp (a n : Nat) : Nat := (n + a - 1) / a * a

variable {a n q : Nat}

theorem dvd_roundUp : a ∣ roundUp a n := Nat.dvd_mul_left ..

theorem le_roundUp (ha : 0 < a) : n ≤ roundUp a n := by
  have h := Nat.div_add_mod (n + a - 1) a
  have hlt := Nat.mod_lt (n + a - 1) ha
  rw [roundUp, Nat.mul_comm]
  omega

theorem roundUp_le (ha : 0 < a) (hn : n ≤ q) (hq : a ∣ q) : roundUp a n ≤ q := by
  obtain ⟨m, rfl⟩ := hq
  rw [roundUp, Nat.mul_comm a m]
  apply Nat.mul_le_mul_right
  apply Nat.le_of_lt_succ
  rw [Nat.div_lt_iff_lt_mul ha, Nat.succ_mul, Nat.mul_comm m a]
  omega

theorem roundUp_lt (ha : 0 < a) : roundUp a n < n + a := by
  have h := Nat.div_mul_le_self (n + a - 1) a
  rw [roundUp]
  omega

/-- A multiple stays. -/
theorem roundUp_eq (ha : 0 < a) (h : a ∣ n) : roundUp a n = n :=
  Nat.le_antisymm (roundUp_le ha (Nat.le_refl _) h) (le_roundUp ha)

/-- What is left up to the next multiple. -/
theorem mod_add_le_iff (ha : 0 < a) (hn : ¬ a ∣ n) : n % a + q ≤ a ↔ n + q ≤ roundUp a n := by
  have hmod := Nat.mod_lt n ha
  have hne : n % a ≠ 0 := fun h => hn (Nat.dvd_of_mod_eq_zero h)
  have hdiv := Nat.div_add_mod n a
  have heq : roundUp a n = a * (n / a) + a := by
    apply Nat.le_antisymm
    · exact roundUp_le ha (by omega) (Nat.dvd_add (Nat.dvd_mul_right ..) (Nat.dvd_refl a))
    · obtain ⟨m, hm⟩ := dvd_roundUp (a := a) (n := n)
      have hle := le_roundUp (n := n) ha
      have hlt : n / a < m := by
        by_contra hge
        have := Nat.mul_le_mul_left a (Nat.not_lt.1 hge)
        omega
      rw [hm, ← Nat.mul_succ]
      exact Nat.mul_le_mul_left a hlt
  omega

/-! ## On machine words -/

variable {w k : Nat}

theorem toNat_mask (hk : k < w) : (BitVec.twoPow w k - 1#w).toNat = 2 ^ k - 1 := by
  have hlt : 2 ^ k < 2 ^ w := Nat.pow_lt_pow_right (by decide) hk
  have hpos : 0 < 2 ^ k := Nat.two_pow_pos k
  rw [BitVec.toNat_sub, BitVec.toNat_twoPow, Nat.mod_eq_of_lt hlt, BitVec.toNat_ofNat,
    Nat.mod_eq_of_lt (show 1 < 2 ^ w by omega), show 2 ^ w - 1 + 2 ^ k = 2 ^ k - 1 + 2 ^ w by omega, Nat.add_mod_right,
    Nat.mod_eq_of_lt (by omega)]

/-- Clearing the low bits. -/
theorem and_not_mask (hk : k < w) (x : BitVec w) : (x &&& ~~~(BitVec.twoPow w k - 1#w)).toNat = x.toNat / 2 ^ k * 2 ^ k := by
  have hmask : BitVec.twoPow w k - 1#w = (BitVec.allOnes k).setWidth w := by
    apply BitVec.eq_of_toNat_eq
    have hlt : 2 ^ k < 2 ^ w := Nat.pow_lt_pow_right (by decide) hk
    have hpos : 0 < 2 ^ k := Nat.two_pow_pos k
    rw [toNat_mask hk, BitVec.toNat_setWidth, BitVec.toNat_allOnes, Nat.mod_eq_of_lt (by omega)]
  have hshift : x &&& ~~~(BitVec.twoPow w k - 1#w) = x >>> k <<< k := by
    rw [hmask]
    apply BitVec.eq_of_getLsbD_eq
    intro i hi
    by_cases hik : i < k
    · simp [hi, hik]
    · simp [hi, hik, show k + (i - k) = i by omega]
  have hle := Nat.div_mul_le_self x.toNat (2 ^ k)
  rw [hshift, BitVec.toNat_shiftLeft, BitVec.toNat_ushiftRight, Nat.shiftRight_eq_div_pow, Nat.shiftLeft_eq,
    Nat.mod_eq_of_lt (by have := x.isLt; omega)]

/-- **Masking rounds up**, where the sum does not wrap. -/
theorem mask_eq_roundUp (hk : k < w) {x : BitVec w} (hx : x.toNat + 2 ^ k ≤ 2 ^ w) :
    ((x + BitVec.twoPow w k - 1#w) &&& ~~~(BitVec.twoPow w k - 1#w)).toNat = roundUp (2 ^ k) x.toNat := by
  have hpos : 0 < 2 ^ k := Nat.two_pow_pos k
  have hsum : (x + BitVec.twoPow w k - 1#w).toNat = x.toNat + 2 ^ k - 1 := by
    rw [BitVec.sub_eq_add_neg, BitVec.add_assoc, ← BitVec.sub_eq_add_neg, BitVec.toNat_add, toNat_mask hk,
      Nat.mod_eq_of_lt (by omega)]
    omega
  rw [and_not_mask hk, hsum, roundUp]

end RoundUp
