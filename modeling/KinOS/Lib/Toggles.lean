import Mathlib

/-!
# Comings and goings

A set that is known by its changes: a log of elements, each with whether it came or went. A log alternates if nothing comes
that is there and nothing goes that is not.
-/

namespace Toggles

variable {α : Type}

/-- The elements of `ks` in which two sets differ. -/
def changes (ks : List α) (s t : α → Bool) : List (α × Bool) := (ks.filter fun k => s k != t k).map fun k => (k, t k)

theorem changes_cons {k : α} {ks : List α} {s t : α → Bool} :
    changes (k :: ks) s t = if s k = t k then changes ks s t else (k, t k) :: changes ks s t := by
  by_cases h : s k = t k
  · simp [changes, h]
  · simp [changes, h]

variable [DecidableEq α]

/-- The set after the changes. -/
def after (s : α → Bool) : List (α × Bool) → α → Bool
  | [] => s
  | e :: es => after (Function.update s e.1 e.2) es

/-- Each change is one. -/
def Alternating (s : α → Bool) : List (α × Bool) → Prop
  | [] => True
  | e :: es => e.2 = !s e.1 ∧ Alternating (Function.update s e.1 e.2) es

variable {s t : α → Bool} {es : List (α × Bool)}

theorem after_append (es' : List (α × Bool)) : after s (es ++ es') = after (after s es) es' := by
  induction es generalizing s with
  | nil => rfl
  | cons e es ih => exact ih

theorem alternating_append {es' : List (α × Bool)} :
    Alternating s (es ++ es') ↔ Alternating s es ∧ Alternating (after s es) es' := by
  induction es generalizing s with
  | nil => exact ⟨fun h => ⟨trivial, h⟩, And.right⟩
  | cons e es ih =>
    simp only [List.cons_append, Alternating, after, ih]
    exact and_assoc.symm

/-- A change at `k` is not seen by the rest. -/
theorem changes_update {k : α} {ks : List α} (hk : k ∉ ks) {b : Bool} :
    changes ks (Function.update s k b) t = changes ks s t := by
  have hsame : ∀ a ∈ ks, (Function.update s k b a != t a) = (s a != t a) := fun a ha => by
    have hne : a ≠ k := fun he => hk (he ▸ ha)
    rw [Function.update_of_ne hne]
  rw [changes, changes, List.filter_congr hsame]

/-- **The changes from `s` to `t` lead from `s` to `t`**, as far as `ks` goes. -/
theorem after_changes {ks : List α} (hks : ks.Nodup) (a : α) :
    after s (changes ks s t) a = if a ∈ ks then t a else s a := by
  induction ks generalizing s with
  | nil => rfl
  | cons k ks ih =>
    obtain ⟨hk, hrest⟩ := List.nodup_cons.1 hks
    rw [changes_cons]
    by_cases ha : a = k
    · subst ha
      split
      · next heq => rw [ih hrest, if_neg hk, if_pos (List.mem_cons_self ..), heq]
      · rw [after, ← changes_update hk (b := t a), ih hrest, if_neg hk, if_pos (List.mem_cons_self ..), Function.update_self]
    · have hmem : a ∈ k :: ks ↔ a ∈ ks := by simp [ha]
      simp only [hmem]
      split
      · exact ih hrest
      · rw [after, ← changes_update hk (b := t k), ih hrest, Function.update_of_ne ha]

theorem alternating_changes {ks : List α} (hks : ks.Nodup) : Alternating s (changes ks s t) := by
  induction ks generalizing s with
  | nil => trivial
  | cons k ks ih =>
    obtain ⟨hk, hrest⟩ := List.nodup_cons.1 hks
    rw [changes_cons]
    split
    · exact ih hrest
    · next hne =>
      refine ⟨?_, ?_⟩
      · show t k = !s k
        revert hne
        cases s k <;> cases t k <;> simp
      · rw [← changes_update hk (b := t k)]
        exact ih hrest

end Toggles
