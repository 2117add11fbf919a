import Mathlib

/-!
# Rings with a cycle bit

The places of a ring are used in turn, and each entry carries a bit that is 1 in the first round and the other one in each
next round. The bit tells a reader which entries are new to it, with no index shared between writer and reader: as long as
no more than `n` entries are unread, the next place has the bit the reader waits for exactly when an entry is unread.
-/

namespace CycleRing

variable {α : Type} {n : Nat}

/-- The bit of the `k`-th entry in a ring of `n` places. -/
def cycle (n k : Nat) : Bool := k / n % 2 == 0

theorem cycle_first {k : Nat} (h : k < n) : cycle n k = true := by
  simp [cycle, Nat.div_eq_of_lt h]

theorem cycle_add (hn : 0 < n) (k : Nat) : cycle n (k + n) = !cycle n k := by
  have hmod := Nat.mod_two_eq_zero_or_one (k / n)
  rw [cycle, cycle, Nat.add_div_right k hn]
  rcases hmod with h | h <;> simp [Nat.succ_mod_two_eq_zero_iff, h]

/-- Within a round the bit stays. -/
theorem cycle_succ (hn : 0 < n) {k : Nat} (h : k % n + 1 < n) : cycle n (k + 1) = cycle n k := by
  have hdiv : (k + 1) / n = k / n := by
    rw [Nat.succ_div, if_neg]
    · rfl
    · intro hd
      have := Nat.mod_eq_zero_of_dvd hd
      rw [Nat.add_mod, Nat.mod_eq_of_lt (a := 1) (by omega), Nat.mod_eq_of_lt h] at this
      omega
  rw [cycle, cycle, hdiv]

/-- At its end it turns. -/
theorem cycle_wrap (hn : 0 < n) {k : Nat} (h : k % n + 1 = n) : cycle n (k + 1) = !cycle n k := by
  have hk : k + 1 = n * (k / n) + n := by have := Nat.div_add_mod k n; omega
  have hround : k = n * (k / n) + (n - 1) := by omega
  have h1 : (n * (k / n) + (n - 1)) / n = k / n := by rw [← hround]
  rw [hk, cycle_add hn]
  conv_rhs => rw [hround]
  simp [cycle, h1, Nat.mul_div_cancel_left _ hn]

theorem mod_succ (hn : 0 < n) {k : Nat} (h : k % n + 1 < n) : (k + 1) % n = k % n + 1 := by
  rw [Nat.add_mod, Nat.mod_eq_of_lt (a := 1) (by omega), Nat.mod_eq_of_lt h]

theorem mod_wrap {k : Nat} (h : k % n + 1 = n) : (k + 1) % n = 0 := by
  have hk := Nat.div_add_mod k n
  have : k + 1 = n * (k / n) + n := by omega
  rw [this, Nat.mul_add_mod, Nat.mod_self]

/-- After the entries `w` were put in turn into a ring whose bits were 0: the last `n` of them are there. -/
structure Holds (n : Nat) (m : Nat → Bool × α) (w : List α) : Prop where
  kept : ∀ k (h : k < w.length), w.length ≤ k + n → m (k % n) = (cycle n k, w[k])
  fresh : ∀ i < n, w.length ≤ i → (m i).1 = false

theorem holds_nil {m : Nat → Bool × α} (h : ∀ i < n, (m i).1 = false) : Holds n m [] where
  kept _ hk _ := absurd hk (by simp)
  fresh i hi _ := h i hi

namespace Holds

variable {m : Nat → Bool × α} {w : List α}

/-- **One more entry.** -/
theorem push (h : Holds n m w) (a : α) :
    Holds n (Function.update m (w.length % n) (cycle n w.length, a)) (w ++ [a]) := by
  constructor
  · intro k hk hlast
    simp only [List.length_append, List.length_singleton] at hk hlast
    by_cases heq : k = w.length
    · subst heq
      simp
    · have hne : k % n ≠ w.length % n := by
        intro he
        have hdiff := Nat.sub_mod_eq_zero_of_mod_eq he.symm
        have hzero := Nat.eq_zero_of_dvd_of_lt (Nat.dvd_of_mod_eq_zero hdiff) (by omega)
        omega
      rw [Function.update_of_ne hne, List.getElem_append_left (by omega)]
      exact h.kept k (by omega) (by omega)
  · intro i hi hlen
    simp only [List.length_append, List.length_singleton] at hlen
    have hne : i ≠ w.length % n := by
      rw [Nat.mod_eq_of_lt (by omega)]
      omega
    rw [Function.update_of_ne hne]
    exact h.fresh i hi (by omega)

/-- A ring of which only the places outside change. -/
theorem congr {m' : Nat → Bool × α} (h : Holds n m w) (hn : 0 < n) (he : ∀ i < n, m' i = m i) : Holds n m' w where
  kept k hk hlast := (he _ (Nat.mod_lt _ hn)).trans (h.kept k hk hlast)
  fresh i hi hlen := (congrArg Prod.fst (he i hi)).trans (h.fresh i hi hlen)

variable {r : Nat}

/-- **The bit shows whether an entry is unread.** -/
theorem next_iff (hn : 0 < n) (h : Holds n m w) (hr : r ≤ w.length) (hroom : w.length ≤ r + n) :
    (m (r % n)).1 = cycle n r ↔ r < w.length := by
  rcases Nat.lt_or_eq_of_le hr with hlt | heq
  · simp [h.kept r hlt hroom, hlt]
  · by_cases hfirst : r < n
    · rw [Nat.mod_eq_of_lt hfirst, h.fresh r hfirst (by omega), cycle_first hfirst]
      simp [heq]
    · -- the place still has the entry of the round before
      have hold := h.kept (r - n) (by omega) (by omega)
      have hcycle := cycle_add hn (r - n)
      rw [Nat.sub_add_cancel (by omega)] at hcycle
      have hmod : (r - n) % n = r % n := by
        conv_rhs => rw [← Nat.sub_add_cancel (Nat.not_lt.1 hfirst), Nat.add_mod_right]
      rw [← hmod, hold, hcycle]
      simp [heq]

/-- The unread entry. -/
theorem next_eq (h : Holds n m w) (hr : r < w.length) (hroom : w.length ≤ r + n) : (m (r % n)).2 = w[r] := by
  rw [h.kept r hr hroom]

end Holds

end CycleRing
