import Mathlib

/-!
# Ring buffers

A buffer of `n` elements that is read and written around its end. `Holds n m head q`: from `head` on it holds the queue
`q`. An element is put at the index behind the queue, and a part of the queue that does not reach the end of the buffer
is a contiguous segment.
-/

namespace Ring

variable {α : Type} {n head : Nat} {m : Nat → α} {q : List α}

def Holds (n : Nat) (m : Nat → α) (head : Nat) (q : List α) : Prop :=
  ∀ i (h : i < q.length), m ((head + i) % n) = q[i]

theorem holds_nil : Holds n m head [] := by
  intro i hi
  cases hi

/-- Two places of the buffer are different. -/
theorem index_inj {i j : Nat} (hi : i < n) (hj : j < n) (h : (head + i) % n = (head + j) % n) : i = j := by
  have hmod : i ≡ j [MOD n] := Nat.ModEq.add_left_cancel' head h
  rwa [Nat.ModEq, Nat.mod_eq_of_lt hi, Nat.mod_eq_of_lt hj] at hmod

/-- **One more element**, at the index behind the queue. -/
theorem Holds.push {a : α} (h : Holds n m head q) (hlen : q.length < n) :
    Holds n (Function.update m ((head + q.length) % n) a) head (q ++ [a]) := by
  intro i hi
  rw [List.length_append, List.length_singleton] at hi
  by_cases heq : i = q.length
  · subst heq
    rw [Function.update_self, List.getElem_concat_length rfl]
  · have hne : (head + i) % n ≠ (head + q.length) % n := fun he => heq (index_inj (by omega) hlen he)
    rw [Function.update_of_ne hne, h i (by omega), List.getElem_append_left]

/-- **The queue without its first elements.** -/
theorem Holds.drop (h : Holds n m head q) (k : Nat) : Holds n m ((head + k) % n) (q.drop k) := by
  intro i hi
  rw [List.length_drop] at hi
  rw [Nat.mod_add_mod, Nat.add_assoc, h (k + i) (by omega), List.getElem_drop]

/-- **A part that does not reach the end of the buffer.** -/
theorem Holds.segment {k : Nat} (h : Holds n m head q) (hk : k ≤ q.length) (hend : head + k ≤ n) :
    (List.range k).map (fun j => m (head + j)) = q.take k := by
  apply List.ext_getElem
  · rw [List.length_map, List.length_range, List.length_take, Nat.min_eq_left hk]
  · intro j h1 h2
    rw [List.length_map, List.length_range] at h1
    rw [List.getElem_map, List.getElem_range, List.getElem_take, ← h j (by omega), Nat.mod_eq_of_lt (by omega)]

end Ring
