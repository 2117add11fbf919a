import Mathlib

/-!
# Intervals of machine integers

Sums and differences of `Int32` go round at `2 ^ 31`. An interval given by its start and its length has an end that may
have gone round; two intervals that pass the usual test for an overlap have ends that have not.
-/

namespace Int32

theorem toInt_max (a b : Int32) : (max a b).toInt = max a.toInt b.toInt := by
  simp only [max, Int32.le_iff_toInt_le]
  split <;> omega

theorem toInt_min (a b : Int32) : (min a b).toInt = min a.toInt b.toInt := by
  simp only [min, Int32.le_iff_toInt_le]
  split <;> omega

theorem toInt_add_cases (a b : Int32) :
    (a + b).toInt = a.toInt + b.toInt ∧ -2147483648 ≤ a.toInt + b.toInt ∧ a.toInt + b.toInt < 2147483648 ∨
    (a + b).toInt = a.toInt + b.toInt - 4294967296 ∧ 2147483648 ≤ a.toInt + b.toInt ∨
    (a + b).toInt = a.toInt + b.toInt + 4294967296 ∧ a.toInt + b.toInt < -2147483648 := by
  have ha := a.toInt_lt
  have ha' := a.le_toInt
  have hb := b.toInt_lt
  have hb' := b.le_toInt
  rw [Int32.toInt_add, Int.bmod_def]
  omega

theorem toInt_sub_cases (a b : Int32) :
    (a - b).toInt = a.toInt - b.toInt ∧ -2147483648 ≤ a.toInt - b.toInt ∧ a.toInt - b.toInt < 2147483648 ∨
    (a - b).toInt = a.toInt - b.toInt - 4294967296 ∧ 2147483648 ≤ a.toInt - b.toInt ∨
    (a - b).toInt = a.toInt - b.toInt + 4294967296 ∧ a.toInt - b.toInt < -2147483648 := by
  have ha := a.toInt_lt
  have ha' := a.le_toInt
  have hb := b.toInt_lt
  have hb' := b.le_toInt
  rw [Int32.toInt_sub, Int.bmod_def]
  omega

/-! ## Conversions -/

theorem toNat_toUInt32 {a : Int32} (h : 0 ≤ a.toInt) : (a.toUInt32.toNat : Int) = a.toInt := by
  have hi : a.toInt = a.toBitVec.toInt := rfl
  have hn : a.toUInt32.toNat = a.toBitVec.toNat := rfl
  rw [hi, BitVec.toInt_eq_toNat_cond] at h
  rw [hi, hn, BitVec.toInt_eq_toNat_cond]
  split at h <;> omega

theorem toInt_toInt32 (u : UInt32) :
    u.toInt32.toInt = if u.toNat < 2147483648 then (u.toNat : Int) else u.toNat - 4294967296 := by
  have hi : u.toInt32.toInt = u.toBitVec.toInt := rfl
  have hn : u.toNat = u.toBitVec.toNat := rfl
  rw [hi, hn, BitVec.toInt_eq_toNat_cond]
  split <;> split <;> omega

theorem toInt_pos {a : Int32} (h : 0 ≤ a.toInt) (h0 : a ≠ 0) : 0 < a.toInt := by
  have hne : a.toInt ≠ (0 : Int32).toInt := fun he => h0 (Int32.toInt_inj.1 he)
  rw [Int32.toInt_zero] at hne
  omega

/-! ## Intervals -/

/-- Two intervals that are not found apart: neither end has gone round. -/
theorem ends_exact {p s q t : Int32} (hs : 0 ≤ s.toInt) (ht : 0 ≤ t.toInt) (h1 : ¬ p + s < q) (h2 : ¬ q + t < p) :
    (p + s).toInt = p.toInt + s.toInt ∧ (q + t).toInt = q.toInt + t.toInt := by
  rw [Int32.lt_iff_toInt_lt] at h1 h2
  have hps := toInt_add_cases p s
  have hqt := toInt_add_cases q t
  have hp := p.le_toInt
  have hq := q.le_toInt
  have hs' := s.toInt_lt
  have ht' := t.toInt_lt
  omega

/-- The overlap of two intervals that are not found apart. -/
theorem overlap_exact {p s q t : Int32} (hs : 0 ≤ s.toInt) (ht : 0 ≤ t.toInt) (h1 : ¬ p + s < q) (h2 : ¬ q + t < p) :
    (min (p + s) (q + t) - max p q).toInt = min (p.toInt + s.toInt) (q.toInt + t.toInt) - max p.toInt q.toInt ∧
      max p.toInt q.toInt ≤ min (p.toInt + s.toInt) (q.toInt + t.toInt) := by
  obtain ⟨he1, he2⟩ := ends_exact hs ht h1 h2
  rw [Int32.lt_iff_toInt_lt] at h1 h2
  have hsub := toInt_sub_cases (min (p + s) (q + t)) (max p q)
  rw [toInt_min, toInt_max, he1, he2] at hsub
  have hs' := s.toInt_lt
  have ht' := t.toInt_lt
  omega

/-! ## Counting loops -/

/-- The values of `i` in `for (int i = a; i < b; ++i)`. -/
def upTo (a b : Int32) : List Int32 := (List.range (b.toInt - a.toInt).toNat).map fun k => a + Int32.ofNat k

theorem toInt_add_ofNat {a : Int32} {k : Nat} (h : a.toInt + k < 2147483648) : (a + Int32.ofNat k).toInt = a.toInt + k := by
  have ha := a.le_toInt
  rw [Int32.toInt_add, Int32.toInt_ofNat', Int.bmod_def, Int.bmod_def]
  simp only [Int32.size]
  omega

theorem mem_upTo {a b i : Int32} : i ∈ upTo a b ↔ a.toInt ≤ i.toInt ∧ i.toInt < b.toInt := by
  have ha := a.le_toInt
  have hb := b.toInt_lt
  have hval : ∀ k : Nat, k < (b.toInt - a.toInt).toNat → (a + Int32.ofNat k).toInt = a.toInt + k := fun k hk =>
    toInt_add_ofNat (by omega)
  simp only [upTo, List.mem_map, List.mem_range]
  refine ⟨?_, fun h => ⟨(i.toInt - a.toInt).toNat, by omega, ?_⟩⟩
  · rintro ⟨k, hk, rfl⟩
    rw [hval k hk]
    omega
  · rw [← Int32.toInt_inj, hval _ (by omega)]
    omega

end Int32
