import Mathlib

/-!
# Transition systems

A step relation `step : σ → σ → Prop`; its runs are `Relation.ReflTransGen step`. Two rules are
used throughout: an invariant kept by every step holds along every run, and `AllPaths step Q`,
"every maximal run reaches `Q` after finitely many steps", follows from a measure that every step
decreases and is refuted by an invariant that excludes `Q`.

A system given by a function `next : σ → ε → Option σ` runs through a list of events. `Along` and
`States` quantify over the steps and over the states of such a run.
-/

namespace TransitionSystem

variable {σ : Type} {step : σ → σ → Prop}

/-- An invariant of the start state that each step preserves holds in every state reached. -/
theorem invariant {I : σ → Prop} {a b : σ} (h0 : I a) (hstep : ∀ x y, I x → step x y → I y)
    (hrun : Relation.ReflTransGen step a b) : I b := by
  induction hrun with
  | refl => exact h0
  | tail _ hxy ih => exact hstep _ _ ih hxy

/-- On every path from the state, `Q` is reached after finitely many steps. -/
inductive AllPaths (step : σ → σ → Prop) (Q : σ → Prop) : σ → Prop
  | here {s : σ} : Q s → AllPaths step Q s
  | next {s : σ} : (∃ s', step s s') → (∀ s', step s s' → AllPaths step Q s') → AllPaths step Q s

namespace AllPaths

variable {Q : σ → Prop}

/-- A measure that decreases with every step out of a non-`Q` state, which can always be left. -/
theorem of_measure {I : σ → Prop} (m : σ → Nat) (hstep : ∀ x y, I x → step x y → I y ∧ m y < m x)
    (hlive : ∀ x, I x → ¬ Q x → ∃ y, step x y) {s : σ} (hs : I s) : AllPaths step Q s := by
  have key : ∀ n s, m s ≤ n → I s → AllPaths step Q s := by
    intro n
    induction n with
    | zero =>
      intro s hm hs
      by_cases hq : Q s
      · exact .here hq
      · obtain ⟨y, hy⟩ := hlive s hs hq
        have := (hstep s y hs hy).2
        omega
    | succ n ih =>
      intro s hm hs
      by_cases hq : Q s
      · exact .here hq
      · refine .next (hlive s hs hq) fun y hy => ?_
        obtain ⟨hI, hlt⟩ := hstep s y hs hy
        exact ih y (by omega) hI
  exact key _ s (Nat.le_refl _) hs

/-- An invariant that excludes `Q` refutes `AllPaths step Q`. -/
theorem not_of_invariant {I : σ → Prop} (hstep : ∀ x y, I x → step x y → I y)
    (hQ : ∀ x, I x → ¬ Q x) {s : σ} (hs : I s) : ¬ AllPaths step Q s := by
  intro h
  induction h with
  | here hq => exact hQ _ hs hq
  | next hex _ ih =>
    obtain ⟨y, hy⟩ := hex
    exact ih y hy (hstep _ _ hs hy)

end AllPaths

/-! ## Runs given by their events -/

section Events

variable {σ ε : Type} (next : σ → ε → Option σ)

def exec (s : σ) : List ε → Option σ
  | [] => some s
  | e :: es => (next s e).bind fun s' => exec s' es

/-- A run given by its events is a run of any relation that has its steps. -/
theorem exec_run {R : σ → σ → Prop} {P : ε → Prop} (hR : ∀ s e s', P e → next s e = some s' → R s s') :
    ∀ (es : List ε) {s s' : σ}, (∀ e ∈ es, P e) → exec next s es = some s' → Relation.ReflTransGen R s s'
  | [], _, _, _, he => Option.some.inj he ▸ .refl
  | e :: es, s, s', hP, he => by
    obtain ⟨s1, he1, he2⟩ := Option.bind_eq_some_iff.1 he
    have h1 := hR s e s1 (hP e (List.mem_cons_self ..)) he1
    exact .head h1 (exec_run hR es (fun x hx => hP x (List.mem_cons_of_mem _ hx)) he2)

/-- An invariant that each step preserves holds at the end of a run. -/
theorem exec_invariant {I : σ → Prop} (hI : ∀ s e s', I s → next s e = some s' → I s') :
    ∀ (es : List ε) {s s' : σ}, I s → exec next s es = some s' → I s'
  | [], _, _, hs, he => Option.some.inj he ▸ hs
  | e :: es, s, s', hs, he => by
    obtain ⟨s1, he1, he2⟩ := Option.bind_eq_some_iff.1 he
    exact exec_invariant hI es (hI s e s1 hs he1) he2

/-- Every step the run takes meets `P`. -/
def Along (P : σ → ε → Prop) (s : σ) : List ε → Prop
  | [] => True
  | e :: es => ∀ s', next s e = some s' → P s e ∧ Along P s' es

/-- Every state of the run meets `Q`. -/
def States (Q : σ → Prop) (s : σ) : List ε → Prop
  | [] => Q s
  | e :: es => Q s ∧ ∀ s', next s e = some s' → States Q s' es

variable {next}

theorem States.start {Q : σ → Prop} {s : σ} : ∀ {es : List ε}, States next Q s es → Q s
  | [], h => h
  | _ :: _, h => h.1

/-- A run whose steps meet `P` is a run of any relation that has the steps meeting `P`. -/
theorem Along.run {R : σ → σ → Prop} {P : σ → ε → Prop} (hR : ∀ s e s', P s e → next s e = some s' → R s s') :
    ∀ (es : List ε) {s s' : σ}, Along next P s es → exec next s es = some s' → Relation.ReflTransGen R s s'
  | [], _, _, _, he => Option.some.inj he ▸ .refl
  | e :: es, s, s', ha, he => by
    obtain ⟨s1, he1, he2⟩ := Option.bind_eq_some_iff.1 he
    obtain ⟨hp, hrest⟩ := ha s1 he1
    exact .head (hR s e s1 hp he1) (Along.run hR es hrest he2)

/-- If, in states of `I`, a step that meets `P` out of a `Q` state leads to a `Q` state exactly when it meets `R`, then a run
from a `Q` state whose steps meet `P` stays in `Q` exactly when they all meet `R`. -/
theorem Along.iff_states {I Q : σ → Prop} {P R : σ → ε → Prop} (hI : ∀ s e s', I s → P s e → next s e = some s' → I s')
    (hQ : ∀ s e s', I s → Q s → P s e → next s e = some s' → (Q s' ↔ R s e)) :
    ∀ (es : List ε) {s : σ}, I s → Q s → Along next P s es → (Along next R s es ↔ States next Q s es)
  | [], _, _, hq, _ => iff_of_true trivial hq
  | e :: es, s, hi, hq, ha => by
    refine ⟨fun h => ⟨hq, fun s' he => ?_⟩, fun h s' he => ?_⟩
    · obtain ⟨hp, hrest⟩ := ha s' he
      obtain ⟨hr, hstay⟩ := h s' he
      exact (Along.iff_states hI hQ es (hI s e s' hi hp he) ((hQ s e s' hi hq hp he).2 hr) hrest).1 hstay
    · obtain ⟨hp, hrest⟩ := ha s' he
      have hs := h.2 s' he
      exact ⟨(hQ s e s' hi hq hp he).1 hs.start,
        (Along.iff_states hI hQ es (hI s e s' hi hp he) hs.start hrest).2 hs⟩

theorem along_true : ∀ (es : List ε) (s : σ), Along next (fun _ _ => True) s es
  | [], _ => trivial
  | _ :: es, _ => fun s' _ => ⟨trivial, along_true es s'⟩

/-- If, in states of `I`, a step out of a `Q` state leads to a `Q` state exactly when it meets `P`, then a run
from a `Q` state stays in `Q` exactly when all its steps meet `P`. -/
theorem along_iff_states {I Q : σ → Prop} {P : σ → ε → Prop}
    (hI : ∀ s e s', I s → next s e = some s' → I s')
    (hQ : ∀ s e s', I s → Q s → next s e = some s' → (Q s' ↔ P s e)) (es : List ε) {s : σ} (hi : I s) (hq : Q s) :
    Along next P s es ↔ States next Q s es :=
  Along.iff_states (fun s e s' hi _ => hI s e s' hi) (fun s e s' hi hq _ => hQ s e s' hi hq) es hi hq (along_true es s)

/-- If the steps that meet `P` keep an invariant that implies `Q`, and a step out of it that does not meet `P` leaves `Q`,
then a run from the invariant stays in `Q` exactly when all its steps meet `P`. -/
theorem along_iff_states_of_leaves {I Q : σ → Prop} {P : σ → ε → Prop}
    (hI : ∀ s e s', I s → P s e → next s e = some s' → I s')
    (hQ : ∀ s, I s → Q s) (hleave : ∀ s e s', I s → ¬ P s e → next s e = some s' → ¬ Q s') :
    ∀ (es : List ε) {s : σ}, I s → (Along next P s es ↔ States next Q s es)
  | [], s, hi => iff_of_true trivial (hQ s hi)
  | e :: es, s, hi => by
    refine ⟨fun h => ⟨hQ s hi, fun s' he => ?_⟩, fun h s' he => ?_⟩
    · obtain ⟨hp, hrest⟩ := h s' he
      exact (along_iff_states_of_leaves hI hQ hleave es (hI s e s' hi hp he)).1 hrest
    · have hs := h.2 s' he
      have hp : P s e := Classical.byContradiction fun hp => hleave s e s' hi hp he hs.start
      exact ⟨hp, (along_iff_states_of_leaves hI hQ hleave es (hI s e s' hi hp he)).2 hs⟩

/-- Every step the run attempts meets `P`, the one it stops at included. -/
def Throughout (next : σ → ε → Option σ) (P : σ → ε → Prop) (s : σ) : List ε → Prop
  | [] => True
  | e :: es => P s e ∧ ∀ s', next s e = some s' → Throughout next P s' es

theorem Throughout.along {P : σ → ε → Prop} : ∀ {es : List ε} {s : σ}, Throughout next P s es → Along next P s es
  | [], _, _ => trivial
  | _ :: _, _, h => fun s' he => ⟨h.1, (h.2 s' he).along⟩

theorem Throughout.mono {P Q : σ → ε → Prop} (h : ∀ s e, P s e → Q s e) :
    ∀ (es : List ε) {s : σ}, Throughout next P s es → Throughout next Q s es
  | [], _, _ => trivial
  | _ :: es, _, ht => ⟨h _ _ ht.1, fun s' he => (ht.2 s' he).mono h es⟩

instance decidableThroughout {P : σ → ε → Prop} [∀ s e, Decidable (P s e)] :
    ∀ (es : List ε) (s : σ), Decidable (Throughout next P s es)
  | [], _ => isTrue trivial
  | e :: es, s =>
    have : ∀ s', Decidable (Throughout next P s' es) := decidableThroughout es
    inferInstanceAs (Decidable (P s e ∧ ∀ s' ∈ next s e, Throughout next P s' es))

/-- If, in states of `I`, the steps that meet `P` are taken exactly where `Q` holds, and lead to `I`, then a run that
meets `P` reaches its end exactly when it meets `Q`. -/
theorem throughout_iff_exec {I : σ → Prop} {P Q : σ → ε → Prop}
    (hI : ∀ s e s', I s → P s e → next s e = some s' → I s')
    (hQ : ∀ s e, I s → P s e → (Q s e ↔ (next s e).isSome)) :
    ∀ (es : List ε) {s : σ}, I s → Throughout next P s es → (Throughout next Q s es ↔ (exec next s es).isSome)
  | [], _, _, _ => iff_of_true trivial rfl
  | e :: es, s, hi, hp => by
    simp only [Throughout, exec]
    cases hn : next s e with
    | none => simpa [hn] using hQ s e hi hp.1
    | some s1 =>
      have hq : Q s e := (hQ s e hi hp.1).2 (by rw [hn]; rfl)
      have ih := throughout_iff_exec hI hQ es (hI s e s1 hi hp.1 hn) (hp.2 s1 hn)
      simp [hq, ih]

/-- The states of a run whose steps meet `P` are in an invariant that these steps preserve. -/
theorem Along.states {I : σ → Prop} {P : σ → ε → Prop} (hI : ∀ s e s', I s → P s e → next s e = some s' → I s') :
    ∀ (es : List ε) {s : σ}, I s → Along next P s es → States next I s es
  | [], _, hi, _ => hi
  | e :: es, s, hi, ha => ⟨hi, fun s' he => (ha s' he).2.states hI es (hI s e s' hi (ha s' he).1 he)⟩

theorem States.last {Q : σ → Prop} : ∀ {es : List ε} {s s' : σ}, States next Q s es → exec next s es = some s' → Q s'
  | [], _, _, h, he => Option.some.inj he ▸ h
  | _ :: _, _, _, h, he => by
    obtain ⟨s1, he1, he2⟩ := Option.bind_eq_some_iff.1 he
    exact (h.2 s1 he1).last he2

theorem States.mono {Q R : σ → Prop} (h : ∀ s, Q s → R s) : ∀ (es : List ε) {s : σ}, States next Q s es → States next R s es
  | [], _, hs => h _ hs
  | _ :: es, _, hs => ⟨h _ hs.1, fun s' he => (hs.2 s' he).mono h es⟩

instance decidableForallNext {o : Option σ} {P : σ → Prop} [DecidablePred P] : Decidable (∀ s', o = some s' → P s') :=
  inferInstanceAs (Decidable (∀ s' ∈ o, P s'))

instance decidableAlong {P : σ → ε → Prop} [∀ s e, Decidable (P s e)] :
    ∀ (es : List ε) (s : σ), Decidable (Along next P s es)
  | [], _ => isTrue trivial
  | e :: es, s =>
    match h : next s e with
    | none => isTrue fun s' hs => by rw [h] at hs; cases hs
    | some s' =>
      have : Decidable (Along next P s' es) := decidableAlong es s'
      decidable_of_iff (P s e ∧ Along next P s' es)
        ⟨fun hp s'' hs => by rw [h] at hs; cases hs; exact hp, fun ha => ha s' h⟩

instance decidableStates {Q : σ → Prop} [DecidablePred Q] : ∀ (es : List ε) (s : σ), Decidable (States next Q s es)
  | [], s => inferInstanceAs (Decidable (Q s))
  | _ :: es, s =>
    have : ∀ s', Decidable (States next Q s' es) := decidableStates es
    inferInstanceAs (Decidable (Q s ∧ ∀ s', next s _ = some s' → States next Q s' es))

/-- If, in states of `I`, a step that meets `P` stays in `I` and meets `Q`, a run whose steps meet `P` meets `Q`. -/
theorem Along.mono {I : σ → Prop} {P Q : σ → ε → Prop}
    (h : ∀ s e s', I s → P s e → next s e = some s' → I s' ∧ Q s e) :
    ∀ (es : List ε) {s : σ}, I s → Along next P s es → Along next Q s es
  | [], _, _, _ => trivial
  | e :: es, s, hi, ha => by
    intro s' he
    obtain ⟨hp, hrest⟩ := ha s' he
    obtain ⟨hi', hq⟩ := h s e s' hi hp he
    exact ⟨hq, Along.mono h es hi' hrest⟩

/-- Two conditions on steps agree along a run whose steps meet `P` if they agree on such steps in the states of an
invariant that these steps preserve. -/
theorem Along.congr {I : σ → Prop} {P Q R : σ → ε → Prop} (hI : ∀ s e s', I s → P s e → next s e = some s' → I s')
    (h : ∀ s e s', I s → P s e → next s e = some s' → (Q s e ↔ R s e)) :
    ∀ (es : List ε) {s : σ}, I s → Along next P s es → (Along next Q s es ↔ Along next R s es)
  | [], _, _, _ => Iff.rfl
  | e :: es, s, hi, ha => forall_congr' fun s' => imp_congr_right fun he => by
    obtain ⟨hp, hrest⟩ := ha s' he
    exact and_congr (h s e s' hi hp he) (Along.congr hI h es (hI s e s' hi hp he) hrest)

/-- Two conditions on steps that agree in the states of an invariant agree along every run. -/
theorem along_congr {I : σ → Prop} {P Q : σ → ε → Prop} (hI : ∀ s e s', I s → next s e = some s' → I s')
    (h : ∀ s e s', I s → next s e = some s' → (P s e ↔ Q s e)) (es : List ε) {s : σ} (hs : I s) :
    Along next P s es ↔ Along next Q s es :=
  Along.congr (fun s e s' hi _ => hI s e s' hi) (fun s e s' hi _ => h s e s' hi) es hs (along_true es s)

end Events

end TransitionSystem
