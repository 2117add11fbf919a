import Mathlib

/-!
# Raising an element of a stack

A list from the bottom to the top. `raise a s` takes `a` out, if it is there, and puts it just below the top.
-/

namespace Stack

variable {α : Type} [DecidableEq α]

def raise (a : α) (s : List α) : List α := (s.erase a).insertIdx ((s.erase a).length - 1) a

omit [DecidableEq α] in
theorem insertIdx_append_right {a x : α} : ∀ init : List α, (init ++ [x]).insertIdx init.length a = init ++ [a, x]
  | [] => rfl
  | b :: init => by simp [insertIdx_append_right init]

theorem erase_append_top {a top : α} (h : a ≠ top) : ∀ init : List α, (init ++ [top]).erase a = init.erase a ++ [top]
  | [] => by simp [Ne.symm h]
  | b :: init => by
    by_cases hb : b = a
    · simp [hb]
    · simp [hb, erase_append_top h init]

theorem raise_append {a top : α} (h : a ≠ top) (init : List α) :
    raise a (init ++ [top]) = init.erase a ++ [a, top] := by
  unfold raise
  rw [erase_append_top h, List.length_append, List.length_singleton, Nat.add_sub_cancel]
  exact insertIdx_append_right _

variable {a : α} {s : List α}

theorem raise_perm : (raise a s).Perm (a :: s.erase a) :=
  List.perm_insertIdx a (s.erase a) (Nat.sub_le _ 1)

theorem mem_raise {b : α} : b ∈ raise a s ↔ b = a ∨ b ∈ s := by
  rw [raise_perm.mem_iff, List.mem_cons]
  by_cases hb : b = a
  · simp [hb]
  · simp [hb, List.mem_erase_of_ne hb]

theorem raise_nodup (h : s.Nodup) : (raise a s).Nodup :=
  raise_perm.nodup_iff.2 (List.nodup_cons.2 ⟨fun ha => (h.mem_erase_iff.1 ha).1 rfl, h.erase a⟩)

theorem erase_insertIdx : ∀ {s : List α} (i : Nat), a ∉ s → i ≤ s.length → (s.insertIdx i a).erase a = s
  | s, 0, _, _ => by simp
  | [], _ + 1, _, hi => by simp at hi
  | b :: s, i + 1, ha, hi => by
    simp only [List.mem_cons, not_or] at ha
    rw [List.insertIdx_succ_cons, List.erase_cons_tail (by simpa using Ne.symm ha.1),
      erase_insertIdx i ha.2 (by simpa using hi)]

/-- **The others keep their order.** -/
theorem erase_raise (h : s.Nodup) : (raise a s).erase a = s.erase a :=
  erase_insertIdx _ (fun ha => (h.mem_erase_iff.1 ha).1 rfl) (Nat.sub_le _ 1)

end Stack
