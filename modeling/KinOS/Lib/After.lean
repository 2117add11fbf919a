import Mathlib

/-!
# What holds after a fallible stateful program

`After x s Q E`: run from `s`, the program `x` returns a value and a state in `Q`, or fails with an error and a state
in `E`. A program of `EStateM` always ends in one of the two, so this is total correctness. The rules follow the
shape of the program: one for each primitive, `bind` for sequencing and `forM` for a loop over a list.
-/

variable {ε σ α β : Type}

def After (x : EStateM ε σ α) (s : σ) (Q : α → σ → Prop) (E : ε → σ → Prop) : Prop :=
  match x s with
  | .ok a s' => Q a s'
  | .error e s' => E e s'

namespace After

variable {x : EStateM ε σ α} {s : σ} {Q Q' : α → σ → Prop} {E E' : ε → σ → Prop}

theorem pure {a : α} (h : Q a s) : After (pure a : EStateM ε σ α) s Q E := h

theorem throw {e : ε} (h : E e s) : After (throw e : EStateM ε σ α) s Q E := h

/-- Reading the state, then going on. -/
theorem get_bind {f : σ → EStateM ε σ β} {R : β → σ → Prop} (h : After (f s) s R E) :
    After (get >>= f) s R E := h

/-- Writing the state, then going on. -/
theorem modify_bind {g : σ → σ} {f : PUnit → EStateM ε σ β} {R : β → σ → Prop} (h : After (f ⟨⟩) (g s) R E) :
    After (modify g >>= f) s R E := h

theorem modify {g : σ → σ} {Q : PUnit → σ → Prop} (h : Q ⟨⟩ (g s)) :
    After (modify g : EStateM ε σ PUnit) s Q E := h

theorem ite {c : Prop} [Decidable c] {y : EStateM ε σ α} (hx : c → After x s Q E) (hy : ¬ c → After y s Q E) :
    After (if c then x else y) s Q E := by
  split
  · next h => exact hx h
  · next h => exact hy h

/-- Weakening. -/
theorem imp (h : After x s Q E) (hQ : ∀ a s', Q a s' → Q' a s') (hE : ∀ e s', E e s' → E' e s') :
    After x s Q' E' := by
  unfold After at h ⊢
  cases hx : x s with
  | ok a s' =>
    rw [hx] at h
    exact hQ a s' h
  | error e s' =>
    rw [hx] at h
    exact hE e s' h

/-- Sequencing. -/
theorem bind {f : α → EStateM ε σ β} {R : β → σ → Prop} (hx : After x s Q E)
    (hf : ∀ a s', Q a s' → After (f a) s' R E) : After (x >>= f) s R E := by
  unfold After at hx ⊢
  change match EStateM.bind x f s with
    | .ok b s' => R b s'
    | .error e s' => E e s'
  unfold EStateM.bind
  cases h : x s with
  | ok a s' =>
    rw [h] at hx
    exact hf a s' hx
  | error e s' =>
    rw [h] at hx
    exact hx

/-- Sequencing, when the first part is known to return. -/
theorem bind_of_ok {f : α → EStateM ε σ β} {R : β → σ → Prop} {a : α} {s' : σ} (hx : x s = .ok a s') :
    After (x >>= f) s R E ↔ After (f a) s' R E := by
  have hrun : (x >>= f) s = f a s' := by
    change EStateM.bind x f s = _
    unfold EStateM.bind
    rw [hx]
  unfold After
  rw [hrun]

theorem bind_of_error {f : α → EStateM ε σ β} {R : β → σ → Prop} {e : ε} {s' : σ} (hx : x s = .error e s') :
    After (x >>= f) s R E ↔ E e s' := by
  have hrun : (x >>= f) s = .error e s' := by
    change EStateM.bind x f s = _
    unfold EStateM.bind
    rw [hx]
  unfold After
  rw [hrun]

/-- Sequencing, after two first parts that end the same way. -/
theorem bind_congr {y : EStateM ε σ α} {f : α → EStateM ε σ β} {R : β → σ → Prop} {t : σ} (h : x s = y t) :
    After (x >>= f) s R E ↔ After (y >>= f) t R E := by
  cases hy : y t with
  | ok a s' => rw [bind_of_ok (h.trans hy), bind_of_ok hy]
  | error e s' => rw [bind_of_error (h.trans hy), bind_of_error hy]

/-- A loop over a list keeps an invariant on the elements still to come and the state. -/
theorem forM {f : β → EStateM ε σ PUnit} {I : List β → σ → Prop}
    (hstep : ∀ b l s, I (b :: l) s → After (f b) s (fun _ => I l) E) :
    ∀ {l : List β} {s : σ}, I l s → After (l.forM f) s (fun _ => I []) E
  | [], _, h => h
  | b :: l, s, h => bind (hstep b l s h) fun _ _ h' => forM hstep h'

/-- The result, read off. -/
theorem ok {a : α} {s' : σ} (h : After x s Q E) (hx : x s = .ok a s') : Q a s' := by
  unfold After at h
  rwa [hx] at h

theorem error {e : ε} {s' : σ} (h : After x s Q E) (hx : x s = .error e s') : E e s' := by
  unfold After at h
  rwa [hx] at h

end After

/-!
## A successful run, peeled apart

Each rule says what a primitive did, given that it returned. With them `simp` turns a run of a `do` block into the
chain of its states.
-/

namespace EStateM

variable {ε σ α β : Type} {s s' : σ}

@[simp] theorem run_bind_ok {x : EStateM ε σ α} {f : α → EStateM ε σ β} {b : β} :
    (x >>= f) s = .ok b s' ↔ ∃ a s₁, x s = .ok a s₁ ∧ f a s₁ = .ok b s' := by
  change EStateM.bind x f s = _ ↔ _
  unfold EStateM.bind
  cases x s with
  | ok a s₁ =>
    refine ⟨fun h => ⟨a, s₁, rfl, h⟩, ?_⟩
    rintro ⟨_, _, ⟨⟩, h⟩
    exact h
  | error e s₁ => simp

/-- The rest of a run, after a first part that returned. -/
theorem run_bind_of_ok {x : EStateM ε σ α} {f : α → EStateM ε σ β} {a : α} (h : x s = .ok a s') :
    (x >>= f) s = f a s' := by
  change EStateM.bind x f s = _
  unfold EStateM.bind
  rw [h]

/-- Reading the state, then going on. -/
theorem run_get_bind (f : σ → EStateM ε σ β) : (get >>= f) s = f s s := rfl

/-- Writing the state, then going on. -/
theorem run_modify_bind (g : σ → σ) (f : PUnit → EStateM ε σ β) : (modify g >>= f) s = f ⟨⟩ (g s) := rfl

@[simp] theorem run_pure_ok {a b : α} : (pure a : EStateM ε σ α) s = .ok b s' ↔ a = b ∧ s = s' := by
  change Result.ok a s = _ ↔ _
  simp

@[simp] theorem run_throw_ok {e : ε} {b : α} : (throw e : EStateM ε σ α) s = .ok b s' ↔ False := by
  change Result.error e s = _ ↔ _
  simp

@[simp] theorem run_get_ok {b : σ} : (get : EStateM ε σ σ) s = .ok b s' ↔ s = b ∧ s = s' := by
  change Result.ok s s = _ ↔ _
  simp

@[simp] theorem run_set_ok {t : σ} {b : PUnit} : (set t : EStateM ε σ PUnit) s = .ok b s' ↔ t = s' := by
  change Result.ok PUnit.unit t = _ ↔ _
  simp

@[simp] theorem run_modify_ok {g : σ → σ} {b : PUnit} : (modify g : EStateM ε σ PUnit) s = .ok b s' ↔ g s = s' := by
  change Result.ok PUnit.unit (g s) = _ ↔ _
  simp

/-! ## Programs that return -/

/-- `x` returns from the state. -/
def Runs (x : EStateM ε σ α) (s : σ) : Prop := ∃ a s', x s = .ok a s'

section Runs

variable {x : EStateM ε σ α}

theorem runs_bind {f : α → EStateM ε σ β} : Runs (x >>= f) s ↔ ∃ a s₁, x s = .ok a s₁ ∧ Runs (f a) s₁ := by
  simp only [Runs, run_bind_ok]
  constructor
  · rintro ⟨b, s', a, s₁, h1, h2⟩
    exact ⟨a, s₁, h1, b, s', h2⟩
  · rintro ⟨a, s₁, h1, b, s', h2⟩
    exact ⟨b, s', a, s₁, h1, h2⟩

/-- The rest decides, once the first part has returned. -/
theorem runs_bind_of_ok {f : α → EStateM ε σ β} {a : α} (h : x s = .ok a s') : Runs (x >>= f) s ↔ Runs (f a) s' := by
  simp only [Runs, run_bind_of_ok h]

theorem runs_get_bind {f : σ → EStateM ε σ β} : Runs (get >>= f) s ↔ Runs (f s) s := by
  simp only [Runs, run_get_bind]

@[simp] theorem runs_pure {a : α} : Runs (pure a : EStateM ε σ α) s := ⟨a, s, rfl⟩

/-- A program that always returns. -/
def Total (x : EStateM ε σ α) : Prop := ∀ s, Runs x s

namespace Total

theorem pure {a : α} : Total (pure a : EStateM ε σ α) := fun _ => runs_pure

theorem get : Total (get : EStateM ε σ σ) := fun s => ⟨s, s, rfl⟩

theorem modify {g : σ → σ} : Total (modify g : EStateM ε σ PUnit) := fun s => ⟨⟨⟩, g s, rfl⟩

theorem bind {f : α → EStateM ε σ β} (hx : Total x) (hf : ∀ a, Total (f a)) : Total (x >>= f) := by
  intro s
  obtain ⟨a, s', h⟩ := hx s
  exact (runs_bind_of_ok h).mpr (hf a s')

theorem ite {c : Prop} [Decidable c] {y : EStateM ε σ α} (hx : Total x) (hy : Total y) :
    Total (if c then x else y) := by
  split
  · exact hx
  · exact hy

end Total

end Runs

/-! ## What every successful run keeps -/

/-- Whenever `x` returns, its last state is related to its first. -/
def Keeps (R : σ → σ → Prop) (x : EStateM ε σ α) : Prop := ∀ s a s', x s = .ok a s' → R s s'

namespace Keeps

variable {R : σ → σ → Prop} {x : EStateM ε σ α}

theorem pure (hr : ∀ s, R s s) {a : α} : Keeps R (pure a : EStateM ε σ α) := by
  intro s b s' h
  simp only [run_pure_ok] at h
  exact h.2 ▸ hr s

theorem throw {e : ε} : Keeps R (throw e : EStateM ε σ α) := by
  intro s b s' h
  simp only [run_throw_ok] at h

theorem get (hr : ∀ s, R s s) : Keeps R (get : EStateM ε σ σ) := by
  intro s b s' h
  simp only [run_get_ok] at h
  exact h.2 ▸ hr s

theorem modify {g : σ → σ} (h : ∀ s, R s (g s)) : Keeps R (modify g : EStateM ε σ PUnit) := by
  intro s b s' he
  simp only [run_modify_ok] at he
  exact he ▸ h s

theorem bind (ht : ∀ {a b c}, R a b → R b c → R a c) {f : α → EStateM ε σ β} (hx : Keeps R x)
    (hf : ∀ a, Keeps R (f a)) : Keeps R (x >>= f) := by
  intro s b s' h
  simp only [run_bind_ok] at h
  obtain ⟨a, s₁, h1, h2⟩ := h
  exact ht (hx _ _ _ h1) (hf a _ _ _ h2)

theorem ite {c : Prop} [Decidable c] {y : EStateM ε σ α} (hx : Keeps R x) (hy : Keeps R y) :
    Keeps R (if c then x else y) := by
  split
  · exact hx
  · exact hy

end Keeps

/-- `Keeps`, and what `x` returns is in `P`. -/
def Gives (R : σ → σ → Prop) (P : α → Prop) (x : EStateM ε σ α) : Prop := ∀ s a s', x s = .ok a s' → R s s' ∧ P a

namespace Gives

variable {R : σ → σ → Prop} {P : α → Prop} {x : EStateM ε σ α}

theorem of_keeps (h : Keeps R x) : Gives R (fun _ => True) x := fun s a s' he => ⟨h s a s' he, trivial⟩

theorem pure (hr : ∀ s, R s s) {a : α} (ha : P a) : Gives R P (pure a : EStateM ε σ α) := by
  intro s b s' h
  simp only [run_pure_ok] at h
  exact ⟨h.2 ▸ hr s, h.1 ▸ ha⟩

theorem throw {e : ε} : Gives R P (throw e : EStateM ε σ α) := by
  intro s b s' h
  simp only [run_throw_ok] at h

theorem bind (ht : ∀ {a b c}, R a b → R b c → R a c) {Q : β → Prop} {f : α → EStateM ε σ β} (hx : Gives R P x)
    (hf : ∀ a, P a → Gives R Q (f a)) : Gives R Q (x >>= f) := by
  intro s b s' h
  simp only [run_bind_ok] at h
  obtain ⟨a, s₁, h1, h2⟩ := h
  obtain ⟨hr, ha⟩ := hx _ _ _ h1
  obtain ⟨hr', hb⟩ := hf a ha _ _ _ h2
  exact ⟨ht hr hr', hb⟩

theorem ite {c : Prop} [Decidable c] {y : EStateM ε σ α} (hx : Gives R P x) (hy : Gives R P y) :
    Gives R P (if c then x else y) := by
  split
  · exact hx
  · exact hy

end Gives

end EStateM
