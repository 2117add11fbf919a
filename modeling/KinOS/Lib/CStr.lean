import KinOS.Lib.Bytes

/-!
# NUL-terminated strings in byte memories

`Str m p s` says that the string `s` stands at `p`, its terminator behind it. `skip` is a loop `while (P(*p)) ++p;`
with fuel, `strlen` and `strcpy` are the C functions over it. `words` splits a list of bytes into its maximal runs
without separators, and `words_eq` is the one round of a scanner.
-/

namespace Bytes

/-- The string at `p`. -/
def Str (m : Mem) : Nat → List UInt8 → Prop
  | p, [] => m p = 0
  | p, c :: s => m p = c ∧ c ≠ 0 ∧ Str m (p + 1) s

theorem Str.congr {m m' : Mem} : ∀ {p : Nat} {s : List UInt8}, Str m p s →
    (∀ a, p ≤ a → a ≤ p + s.length → m' a = m a) → Str m' p s
  | p, [], h, heq => (heq p (Nat.le_refl _) (Nat.le_refl _)).trans h
  | p, c :: s, ⟨h1, h2, h3⟩, heq => by
    refine ⟨(heq p (Nat.le_refl _) (Nat.le_add_right ..)).trans h1, h2, h3.congr fun a ha hle => ?_⟩
    apply heq
    · omega
    · simp only [List.length_cons]
      omega

theorem Str.drop {m : Mem} : ∀ {p k : Nat} {s : List UInt8}, Str m p s → k ≤ s.length → Str m (p + k) (s.drop k)
  | _, 0, _, h, _ => h
  | p, k + 1, [], _, hk => by simp at hk
  | p, k + 1, c :: s, h, hk => by
    have ih := h.2.2.drop (k := k) (by simpa using hk)
    rwa [Nat.add_assoc, Nat.add_comm 1 k] at ih

theorem Str.append_right {m : Mem} {p : Nat} {s t : List UInt8} (h : Str m p (s ++ t)) : Str m (p + s.length) t := by
  have := h.drop (k := s.length) (by simp)
  rwa [List.drop_left] at this

/-- A terminator written into a string cuts it. -/
theorem Str.cut {m : Mem} : ∀ {p k : Nat} {s : List UInt8}, Str m p s → k ≤ s.length →
    Str (Function.update m (p + k) 0) p (s.take k)
  | p, 0, s, _, _ => by simp [Str]
  | p, k + 1, [], _, hk => by simp at hk
  | p, k + 1, c :: s, ⟨h1, h2, h3⟩, hk => by
    have ih := h3.cut (k := k) (by simpa using hk)
    rw [Nat.add_assoc, Nat.add_comm 1 k] at ih
    refine ⟨?_, h2, ih⟩
    rw [Function.update_of_ne (by omega), h1]

/-- What stands behind the cut is still there. -/
theorem Str.behind {m : Mem} {p k : Nat} {s : List UInt8} (h : Str m p s) (hk : k < s.length) :
    Str (Function.update m (p + k) 0) (p + k + 1) (s.drop (k + 1)) := by
  apply (h.drop (k := k + 1) hk).congr
  intro a ha _
  exact Function.update_of_ne (by omega) ..

theorem Str.copy {src dst : Mem} {a d : Nat} {s : List UInt8} (h : Str src a s) :
    Str (Bytes.copy dst d src a (s.length + 1)) d s := by
  -- `a` and `d` advance together
  have hcopy : ∀ (t : List UInt8) (i : Nat), i + t.length = s.length → Str src (a + i) t →
      Str (Bytes.copy dst d src a (s.length + 1)) (d + i) t := by
    intro t
    induction t with
    | nil =>
      intro i hi ht
      simp only [List.length_nil] at hi
      exact (copy_inside (by omega)).trans ht
    | cons c t ih =>
      intro i hi ht
      simp only [List.length_cons] at hi
      exact ⟨(copy_inside (by omega)).trans ht.1, ht.2.1, ih (i + 1) (by omega) ht.2.2⟩
  exact hcopy s 0 (Nat.zero_add _) h

/-! ## Scanning -/

/-- `isspace` of the C locale. -/
def isspace (c : UInt8) : Bool := c == 32 || (9 ≤ c && c ≤ 13)

/-- `while (P(*p)) ++p;`. -/
def skip (P : UInt8 → Bool) : Nat → Mem → Nat → Option Nat
  | 0, _, _ => none
  | fuel + 1, m, p => if P (m p) then skip P fuel m (p + 1) else some p

/-- A loop that stops at the terminator stops at the first byte that fails the test. -/
theorem skip_eq {P : UInt8 → Bool} (hP : P 0 = false) {m : Mem} : ∀ {fuel p : Nat} {s : List UInt8}, Str m p s →
    s.length < fuel → skip P fuel m p = some (p + (s.takeWhile P).length)
  | 0, _, _, _, hf => by simp at hf
  | fuel + 1, p, [], h, _ => by
    have h0 : m p = 0 := h
    simp [skip, h0, hP]
  | fuel + 1, p, c :: s, ⟨h1, _, h3⟩, hf => by
    rw [skip, h1]
    by_cases hc : P c = true
    · have ih := skip_eq hP h3 (show s.length < fuel by simpa using hf)
      rw [if_pos hc, ih, List.takeWhile_cons_of_pos hc, List.length_cons, Nat.add_assoc, Nat.add_comm 1]
    · rw [if_neg hc, List.takeWhile_cons_of_neg hc]
      rfl

def strlen (fuel : Nat) (m : Mem) (p : Nat) : Option Nat := (skip (· != 0) fuel m p).map (· - p)

theorem Str.ne_zero {m : Mem} : ∀ {p : Nat} {s : List UInt8}, Str m p s → ∀ c ∈ s, c ≠ 0
  | _, [], _, c, hc => by simp at hc
  | _, d :: s, ⟨_, h2, h3⟩, c, hc => by
    rcases List.mem_cons.mp hc with rfl | hc
    · exact h2
    · exact h3.ne_zero c hc

theorem strlen_eq {m : Mem} {fuel p : Nat} {s : List UInt8} (h : Str m p s) (hf : s.length < fuel) :
    strlen fuel m p = some s.length := by
  have hall : s.takeWhile (· != 0) = s := by
    apply List.takeWhile_eq_self_iff.mpr
    intro c hc
    simpa using h.ne_zero c hc
  rw [strlen, skip_eq rfl h hf, hall]
  simp

/-- `strcpy(&dst[d], &src[a])`. -/
def strcpy (fuel : Nat) (dst : Mem) (d : Nat) (src : Mem) (a : Nat) : Option Mem :=
  (strlen fuel src a).map fun n => copy dst d src a (n + 1)

/-! ## Runs without separators -/

section
variable {P : UInt8 → Bool}

/-- The maximal runs of bytes that fail `P`. -/
def words (P : UInt8 → Bool) (s : List UInt8) : List (List UInt8) := (s.splitOnP P).filter (· ≠ [])

theorem words_nil : words P [] = [] := by simp [words]

theorem words_sep {c : UInt8} {s : List UInt8} (hc : P c = true) : words P (c :: s) = words P s := by
  have h : ([] ++ c :: s).splitOnP P = [] :: s.splitOnP P :=
    List.splitOnP_append_cons_of_forall_mem (by simp) c hc s
  rw [List.nil_append] at h
  simp [words, h]

theorem words_dropWhile (s : List UInt8) : words P (s.dropWhile P) = words P s := by
  induction s with
  | nil => rfl
  | cons c s ih =>
    by_cases hc : P c = true
    · rw [List.dropWhile_cons_of_pos hc, words_sep hc, ih]
    · rw [List.dropWhile_cons_of_neg hc]

theorem words_run {w : List UInt8} (hw : w ≠ []) (hP : ∀ c ∈ w, P c = false) : words P w = [w] := by
  have h : w.splitOnP P = [w] := List.splitOnP_eq_singleton hP
  simp [words, h, hw]

theorem words_run_sep {w s : List UInt8} {c : UInt8} (hw : w ≠ []) (hP : ∀ c ∈ w, P c = false) (hc : P c = true) :
    words P (w ++ c :: s) = w :: words P s := by
  have h := List.splitOnP_append_cons_of_forall_mem hP c hc s
  simp [words, h, hw]

theorem words_head {c : UInt8} {t : List UInt8} (hc : P c = false) :
    words P (c :: t) =
      (c :: t).takeWhile (fun c => !P c) :: words P ((c :: t).drop (((c :: t).takeWhile fun c => !P c).length + 1)) := by
  have hsplit := List.takeWhile_append_dropWhile (p := fun c => !P c) (l := c :: t)
  have hstop := List.head?_dropWhile_not (fun c => !P c) (c :: t)
  have hrun : ∀ d ∈ (c :: t).takeWhile (fun c => !P c), P d = false := by
    intro d hd
    simpa using List.mem_takeWhile_imp hd
  have hne : (c :: t).takeWhile (fun c => !P c) ≠ [] := by simp [hc]
  generalize c :: t = r at *
  generalize r.takeWhile (fun c => !P c) = w at *
  cases hd : r.dropWhile (fun c => !P c) with
  | nil =>
    rw [hd, List.append_nil] at hsplit
    rw [← hsplit, List.drop_eq_nil_of_le (Nat.le_succ _), words_nil]
    exact words_run hne hrun
  | cons d u =>
    have hsep : P d = true := by simpa [hd] using hstop
    have hdrop : r.drop (w.length + 1) = u := by
      rw [← hsplit, hd]
      simp
    rw [hdrop, ← hsplit, hd]
    exact words_run_sep hne hrun hsep

/-- One round of a scanner: skip separators, take a run, step over the separator behind it. -/
theorem words_eq (s : List UInt8) : words P s =
    match s.dropWhile P with
    | [] => []
    | c :: t =>
      (c :: t).takeWhile (fun c => !P c) :: words P ((c :: t).drop (((c :: t).takeWhile fun c => !P c).length + 1)) := by
  rw [← words_dropWhile]
  have hstop := List.head?_dropWhile_not P s
  cases hs : s.dropWhile P with
  | nil => exact words_nil
  | cons c t =>
    rw [hs] at hstop
    exact words_head (by simpa using hstop)

/-- The bytes of all runs, a terminator for each. -/
def packedSize (ws : List (List UInt8)) : Nat := (ws.map fun w => w.length + 1).sum

@[simp] theorem packedSize_nil : packedSize [] = 0 := rfl

@[simp] theorem packedSize_cons (w : List UInt8) (ws : List (List UInt8)) :
    packedSize (w :: ws) = w.length + 1 + packedSize ws := by
  simp [packedSize]

@[simp] theorem packedSize_append (ws vs : List (List UInt8)) :
    packedSize (ws ++ vs) = packedSize ws + packedSize vs := by
  simp [packedSize]

/-- Packed with their terminators the runs take no more room than the string does. -/
theorem packedSize_words_le (s : List UInt8) : packedSize (words P s) ≤ s.length + 1 := by
  induction hn : s.length using Nat.strong_induction_on generalizing s with
  | _ n ih =>
    have hle := (List.dropWhile_sublist P (l := s)).length_le
    rw [words_eq]
    cases hs : s.dropWhile P with
    | nil => simp
    | cons c t =>
      have htake := (List.takeWhile_sublist (fun c => !P c) (l := c :: t)).length_le
      simp only [packedSize_cons]
      rw [hs] at hle
      generalize (c :: t).takeWhile (fun c => !P c) = w at htake ⊢
      by_cases hend : (c :: t).length ≤ w.length + 1
      · rw [List.drop_eq_nil_of_le hend, words_nil, packedSize_nil]
        omega
      · have hlt : ((c :: t).drop (w.length + 1)).length < n := by
          rw [List.length_drop]
          omega
        have hrest := ih _ hlt _ rfl
        rw [List.length_drop] at hrest
        omega

theorem length_words_le (s : List UInt8) : 2 * (words P s).length ≤ s.length + 1 := by
  have hne : ∀ w ∈ words P s, 1 ≤ w.length := by
    intro w hw
    have : w ≠ [] := by simpa using (List.mem_filter.mp hw).2
    exact List.length_pos_iff.mpr this
  have hsize : ∀ ws : List (List UInt8), (∀ w ∈ ws, 1 ≤ w.length) → 2 * ws.length ≤ packedSize ws := by
    intro ws
    induction ws with
    | nil => simp
    | cons w ws ih =>
      intro h
      obtain ⟨hw, hws⟩ := List.forall_mem_cons.mp h
      have := ih hws
      simp only [List.length_cons, packedSize_cons]
      omega
  exact (hsize _ hne).trans (packedSize_words_le s)

end

end Bytes
