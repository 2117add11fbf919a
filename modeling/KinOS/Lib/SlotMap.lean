import Mathlib

/-!
# Tables of slots

A table of slots, each of which is free or holds a key and a value. `put` fills the first free slot and does nothing where
there is none, `get` and `delete` go for the first slot with the key. A key may be in several slots.
-/

namespace SlotMap

variable {K V : Type}

abbrev Table (K V : Type) := List (Option (K × V))

def empty (n : Nat) : Table K V := List.replicate n none

/-- What is in the slots, in their order. -/
def entries (m : Table K V) : List (K × V) := m.reduceOption

def put : Table K V → K → V → Table K V
  | [], _, _ => []
  | none :: m, k, v => some (k, v) :: m
  | some e :: m, k, v => some e :: put m k v

variable {m : Table K V} {k : K} {v : V}

@[simp] theorem entries_nil : entries ([] : Table K V) = [] := rfl

@[simp] theorem entries_none : entries (none :: m) = entries m := rfl

@[simp] theorem entries_some {e : K × V} : entries (some e :: m) = e :: entries m := rfl

@[simp] theorem entries_empty {n : Nat} : entries (empty n : Table K V) = [] := by
  induction n with
  | zero => rfl
  | succ n ih =>
    rw [empty, List.replicate_succ, entries_none]
    exact ih

@[simp] theorem length_put : (put m k v).length = m.length := by
  induction m with
  | nil => rfl
  | cons o m ih => cases o <;> simp [put, ih]

theorem length_entries_le : (entries m).length ≤ m.length := List.reduceOption_length_le m

/-- **A table with a free slot takes the entry.** -/
theorem entries_put (h : (entries m).length < m.length) : (entries (put m k v)).Perm ((k, v) :: entries m) := by
  induction m with
  | nil => simp at h
  | cons o m ih =>
    cases o with
    | none => simp [put]
    | some e =>
      have hperm := ih (by simpa using h)
      simp only [put, entries_some]
      exact (hperm.cons e).trans (.swap ..)

/-- A full one stays as it is. -/
theorem put_full (h : (entries m).length = m.length) : put m k v = m := by
  induction m with
  | nil => rfl
  | cons o m ih =>
    cases o with
    | none =>
      have := length_entries_le (m := m)
      simp only [entries_none, List.length_cons] at h
      omega
    | some e => rw [put, ih (by simpa using h)]

/-- An entry is put into a table that holds no other. -/
theorem entries_put_same (h : ∀ e ∈ entries m, e = (k, v)) (hm : 0 < m.length) :
    (∀ e ∈ entries (put m k v), e = (k, v)) ∧ entries (put m k v) ≠ [] := by
  by_cases hroom : (entries m).length < m.length
  · have hperm := entries_put hroom (k := k) (v := v)
    refine ⟨fun e he => ?_, fun hnil => ?_⟩
    · rcases List.mem_cons.1 (hperm.mem_iff.1 he) with rfl | he
      · rfl
      · exact h e he
    · rw [hnil] at hperm
      exact absurd hperm.length_eq (by simp)
  · have hfull : (entries m).length = m.length := Nat.le_antisymm length_entries_le (Nat.not_lt.1 hroom)
    rw [put_full hfull]
    exact ⟨h, fun hnil => by rw [hnil] at hfull; simp only [List.length_nil] at hfull; omega⟩

variable [DecidableEq K]

def get : Table K V → K → Option V
  | [], _ => none
  | none :: m, k => get m k
  | some e :: m, k => if e.1 = k then some e.2 else get m k

def delete : Table K V → K → Table K V
  | [], _ => []
  | none :: m, k => none :: delete m k
  | some e :: m, k => if e.1 = k then none :: m else some e :: delete m k

@[simp] theorem length_delete : (delete m k).length = m.length := by
  induction m with
  | nil => rfl
  | cons o m ih =>
    cases o with
    | none => simp [delete, ih]
    | some e =>
      simp only [delete]
      split <;> simp [ih]

theorem mem_of_get (h : get m k = some v) : (k, v) ∈ entries m := by
  induction m with
  | nil => simp [get] at h
  | cons o m ih =>
    cases o with
    | none => exact ih h
    | some e =>
      simp only [get] at h
      split at h
      · next he =>
        cases h
        exact he ▸ List.mem_cons_self ..
      · exact List.mem_cons_of_mem _ (ih h)

theorem get_isSome (h : (k, v) ∈ entries m) : (get m k).isSome := by
  induction m with
  | nil => simp at h
  | cons o m ih =>
    cases o with
    | none => exact ih h
    | some e =>
      simp only [get]
      split
      · rfl
      · next he =>
        rcases List.mem_cons.1 h with rfl | hmem
        · exact absurd rfl he
        · exact ih hmem

/-- **What the table finds**, where its entries of one key agree. -/
theorem get_of_mem (h : (k, v) ∈ entries m) (hv : ∀ u, (k, u) ∈ entries m → u = v) : get m k = some v := by
  obtain ⟨u, hu⟩ := Option.isSome_iff_exists.1 (get_isSome h)
  rw [hu, hv u (mem_of_get hu)]

/-- **One entry of the key goes**, and no other. -/
theorem entries_delete (h : get m k = some v) : (entries m).Perm ((k, v) :: entries (delete m k)) := by
  induction m with
  | nil => simp [get] at h
  | cons o m ih =>
    cases o with
    | none => simpa [delete] using ih h
    | some e =>
      simp only [get] at h
      simp only [delete]
      split at h
      · next he =>
        cases h
        subst he
        simp
      · next he =>
        rw [if_neg he, entries_some, entries_some]
        exact ((ih h).cons e).trans (.swap ..)

theorem mem_delete {e : K × V} (he : e ∈ entries m) (hk : e.1 ≠ k) : e ∈ entries (delete m k) := by
  cases hg : get m k with
  | none =>
    have hsame : delete m k = m := by
      clear he
      induction m with
      | nil => rfl
      | cons o m ih =>
        cases o with
        | none => rw [delete, ih hg]
        | some e' =>
          simp only [get] at hg
          split at hg
          · cases hg
          · next hne => rw [delete, if_neg hne, ih hg]
    rwa [hsame]
  | some v =>
    rcases List.mem_cons.1 ((entries_delete hg).mem_iff.1 he) with rfl | hmem
    · exact absurd rfl hk
    · exact hmem

end SlotMap
