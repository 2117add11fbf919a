import Mathlib

/-!
# Byte memories

A memory is a function from addresses to bytes. `copy` is `memcpy` between two memories, `load` and `store`
are little-endian accesses of a given width. The lemmas say what each leaves behind inside and outside
the range it writes.
-/

namespace Bytes

abbrev Mem := Nat → UInt8

/-- `memcpy(&dst[da], &src[sa], n)`. -/
def copy (dst : Mem) (da : Nat) (src : Mem) (sa n : Nat) : Mem :=
  fun b => if da ≤ b ∧ b < da + n then src (sa + (b - da)) else dst b

theorem copy_inside {dst src : Mem} {da sa n b : Nat} (h : b < n) : copy dst da src sa n (da + b) = src (sa + b) := by
  have hb : da ≤ da + b ∧ da + b < da + n := ⟨Nat.le_add_right .., by omega⟩
  rw [copy, if_pos hb, Nat.add_sub_cancel_left]

theorem copy_outside {dst src : Mem} {da sa n b : Nat} (h : b < da ∨ da + n ≤ b) : copy dst da src sa n b = dst b := by
  rw [copy, if_neg (by omega)]

/-- The little-endian value of `w` bytes. -/
def load : Nat → Mem → Nat → Nat
  | 0, _, _ => 0
  | w + 1, m, a => (m a).toNat + 256 * load w m (a + 1)

def store (w : Nat) (m : Mem) (a v : Nat) : Mem :=
  fun b => if a ≤ b ∧ b < a + w then UInt8.ofNat (v / 256 ^ (b - a)) else m b

theorem load_lt : ∀ (w : Nat) (m : Mem) (a : Nat), load w m a < 256 ^ w
  | 0, _, _ => by simp [load]
  | w + 1, m, a => by
    have h1 := load_lt w m (a + 1)
    have h2 := (m a).toNat_lt
    rw [load, Nat.pow_succ]
    omega

/-- A load sees only its bytes. -/
theorem load_congr : ∀ {w : Nat} {m m' : Mem} {a a' : Nat}, (∀ i < w, m (a + i) = m' (a' + i)) →
    load w m a = load w m' a'
  | 0, _, _, _, _, _ => rfl
  | w + 1, m, m', a, a', h => by
    have h0 : m a = m' a' := h 0 (by omega)
    have h1 : load w m (a + 1) = load w m' (a' + 1) := by
      refine load_congr fun i hi => ?_
      have := h (i + 1) (by omega)
      rwa [show a + (i + 1) = a + 1 + i by omega, show a' + (i + 1) = a' + 1 + i by omega] at this
    rw [load, load, h0, h1]

theorem store_outside {w : Nat} {m : Mem} {a v b : Nat} (h : b < a ∨ a + w ≤ b) : store w m a v b = m b := by
  rw [store, if_neg (by omega)]

theorem store_inside {w : Nat} {m : Mem} {a v i : Nat} (h : i < w) :
    store w m a v (a + i) = UInt8.ofNat (v / 256 ^ i) := by
  have hb : a ≤ a + i ∧ a + i < a + w := ⟨Nat.le_add_right .., by omega⟩
  rw [store, if_pos hb, Nat.add_sub_cancel_left]

/-- The bytes of `v`, from any memory that holds them. -/
theorem load_bytes : ∀ {w : Nat} {m : Mem} {a v : Nat}, v < 256 ^ w → (∀ i < w, m (a + i) = UInt8.ofNat (v / 256 ^ i)) →
    load w m a = v
  | 0, _, _, v, hv, _ => by
    rw [load]
    simp only [Nat.pow_zero] at hv
    omega
  | w + 1, m, a, v, hv, h => by
    have h0 : m a = UInt8.ofNat v := by
      have := h 0 (by omega)
      simpa using this
    have h1 : load w m (a + 1) = v / 256 := by
      refine load_bytes (by rw [Nat.pow_succ] at hv; omega) fun i hi => ?_
      have := h (i + 1) (by omega)
      rw [show a + 1 + i = a + (i + 1) by omega, this, Nat.pow_succ, Nat.mul_comm, Nat.div_div_eq_div_mul]
    rw [load, h0, h1, UInt8.toNat_ofNat']
    omega

theorem load_store_self {w : Nat} {m : Mem} {a v : Nat} (hv : v < 256 ^ w) : load w (store w m a v) a = v :=
  load_bytes hv fun _ hi => store_inside hi

theorem load_store_other {w w' : Nat} {m : Mem} {a a' v : Nat} (h : a' + w' ≤ a ∨ a + w ≤ a') :
    load w' (store w m a v) a' = load w' m a' :=
  load_congr fun i hi => store_outside (by omega)

theorem load_copy_inside {w : Nat} {dst src : Mem} {da sa n i : Nat} (h : i + w ≤ n) :
    load w (copy dst da src sa n) (da + i) = load w src (sa + i) :=
  load_congr fun j hj => by rw [Nat.add_assoc, copy_inside (by omega), Nat.add_assoc]

theorem load_copy_outside {w : Nat} {dst src : Mem} {da sa n a : Nat} (h : a + w ≤ da ∨ da + n ≤ a) :
    load w (copy dst da src sa n) a = load w dst a :=
  load_congr fun j hj => copy_outside (by omega)

/-- Copy a window out, change it, copy it back: the same as the change in place. -/
theorem copy_store_copy {m buf : Mem} {a n w i v : Nat} (h : i + w ≤ n) :
    copy m a (store w (copy buf 0 m a n) i v) 0 n = store w m (a + i) v := by
  funext b
  by_cases hin : a ≤ b ∧ b < a + n
  · obtain ⟨k, rfl⟩ : ∃ k, b = a + k := ⟨b - a, by omega⟩
    rw [copy_inside (by omega), Nat.zero_add]
    by_cases he : i ≤ k ∧ k < i + w
    · obtain ⟨l, rfl⟩ : ∃ l, k = i + l := ⟨k - i, by omega⟩
      rw [store_inside (by omega), ← Nat.add_assoc, store_inside (by omega)]
    · have hw := @copy_inside buf m 0 a n k (by omega)
      rw [Nat.zero_add] at hw
      rw [store_outside (by omega), store_outside (by omega), hw]
  · rw [copy_outside (by omega), store_outside (by omega)]

end Bytes
