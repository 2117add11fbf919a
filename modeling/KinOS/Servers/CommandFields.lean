import KinOS.Servers.CommandLine

/-!
# The fields of the terminal's requests

The three fields have 32 bytes. A loop of `ExecuteFile` looks at its index once for each character it reads and stops behind
25, so a character that is one byte never leaves its field. `$?` is up to eleven bytes behind one look. A `$?` that ends
behind the field is noticed when a character follows it in the argument, and that is in time only when no stage has been sent
yet.
-/

namespace KinOS.Terminal

open Bytes

/-- `sizeof(Message::arg.executefile.filename)`, `sizeof(arg)` and `sizeof(redirect.filename)`. -/
def fieldSize : Nat := 32

/-- The event leaves the fields whole. -/
def Event.InField : Event → Prop
  | .put _ i _ => i < fieldSize
  | _ => True

/-- No field overflows, or the command is rejected before a request has been sent. -/
def Safe (events : List Event) : Prop :=
  (∀ e ∈ events, e.InField) ∨ (∃ text, .print text ∈ events) ∧ ∀ e ∈ events, e.Silent

/-- A `$?` that is still taken is written past the end, or nothing follows it and its terminator is. -/
def Spills (exitCode : List UInt8) (ps : List (Option UInt8)) : Prop :=
  ∃ pre post, ps = pre ++ none :: post ∧ (render exitCode pre).length ≤ 25 ∧
    (fieldSize < (render exitCode pre).length + exitCode.length ∨
      post = [] ∧ (render exitCode pre).length + exitCode.length = fieldSize)

/-- As `Spills`, with nothing behind it. -/
def SpillsAtEnd (exitCode : List UInt8) (ps : List (Option UInt8)) : Prop :=
  ∃ pre, ps = pre ++ [none] ∧ (render exitCode pre).length ≤ 25 ∧
    fieldSize ≤ (render exitCode pre).length + exitCode.length

/-- `rest` is the line of the stage behind `line`, and `line` is not rejected. -/
def Next (lastExitCode : Int32) (line rest : List UInt8) : Prop :=
  (stageOf line).rest = some rest ∧ (stageOf line).filename.length ≤ 26 ∧
    Fits (decimal lastExitCode) (pieces (stageOf line).arg)

/-! ## The loops -/

theorem copyName_inField {f : Field} : ∀ {s out : List UInt8}, ∀ e ∈ (copyName f out s).1, e.InField
  | [], _, e, h => by simp [copyName] at h
  | c :: s, out, e, h => by
    rw [copyName] at h
    split at h
    · rw [List.mem_singleton.mp h]
      trivial
    · rcases List.mem_cons.mp h with rfl | h
      · simp only [Event.InField, fieldSize]
        omega
      · exact copyName_inField e h

theorem copyArg_rejects {exitCode s out : List UInt8} (h : (copyArg exitCode out s).2 = none) :
    ∃ text, .print text ∈ (copyArg exitCode out s).1 := by
  fun_induction copyArg exitCode out s with
  | case1 => simp at h
  | case2 => exact ⟨_, List.mem_singleton_self _⟩
  | case3 out _ s r ih =>
    obtain ⟨text, htext⟩ := ih h
    exact ⟨text, List.mem_append_right _ htext⟩
  | case4 out _ c s hne r ih =>
    obtain ⟨text, htext⟩ := ih h
    exact ⟨text, List.mem_cons_of_mem _ htext⟩

theorem putAll_inField_iff {f : Field} {s : List UInt8} {i : Nat} (h : i ≤ fieldSize) :
    (∀ e ∈ putAll f i s, e.InField) ↔ i + s.length ≤ fieldSize := by
  induction s generalizing i with
  | nil => simp [putAll, h]
  | cons c s ih =>
    rw [putAll, List.forall_mem_cons, List.length_cons]
    by_cases hi : i < fieldSize
    · rw [ih hi, Event.InField]
      omega
    · refine iff_of_false (fun h => hi h.1) ?_
      omega

/-- Its writes stay in the field exactly when every `$?` that is taken ends there. -/
theorem copyArg_inField_iff {exitCode s out : List UInt8} : (∀ e ∈ (copyArg exitCode out s).1, e.InField) ↔
    ∀ pre post, pieces s = pre ++ none :: post → out.length + (render exitCode pre).length ≤ 25 →
      out.length + (render exitCode pre).length + exitCode.length ≤ fieldSize := by
  fun_induction copyArg exitCode out s with
  | case1 out => simp [pieces]
  | case2 out c s hlt =>
    refine iff_of_true (by simp [Event.InField]) fun pre post _ hle => ?_
    omega
  | case3 out hle s r ih =>
    have hput := putAll_inField_iff (f := .arg) (s := exitCode) (show out.length ≤ fieldSize by rw [fieldSize]; omega)
    rw [pieces, forall_split_cons, List.forall_mem_append, ih, hput]
    simp only [render_none, List.length_append, render_nil, List.length_nil, ← Nat.add_assoc]
    grind
  | case4 out hle c s hne r ih =>
    have hput : (Event.put .arg out.length c).InField := by
      rw [Event.InField, fieldSize]
      omega
    rw [pieces_of_ne hne, forall_split_cons, List.forall_mem_cons, ih]
    simp only [render_some, List.length_append, List.length_cons, List.length_nil]
    grind

/-! ## One stage -/

section
variable {exitCode : List UInt8} {s : List UInt8}

/-- The last piece is the one to look at. -/
theorem fits_concat {pre : List (Option UInt8)} {p : Option UInt8} (h : (render exitCode pre).length ≤ 25) :
    Fits exitCode (pre ++ [p]) := by
  intro pre' q post heq
  rcases List.prefix_concat_iff.mp ⟨q :: post, heq.symm⟩ with rfl | ⟨t, rfl⟩
  · simp at heq
  · rw [render_append, List.length_append] at h
    omega

/-- The writes of an argument and its terminator stay in the field. -/
def ArgInField (exitCode s : List UInt8) : Prop :=
  (∀ e ∈ (copyArg exitCode [] s).1, e.InField) ∧
    (Fits exitCode (pieces s) → (render exitCode (pieces s)).length < fieldSize)

theorem argInField_iff : ArgInField exitCode s ↔ ¬ Spills exitCode (pieces s) := by
  rw [ArgInField, copyArg_inField_iff]
  simp only [List.length_nil, Nat.zero_add]
  constructor
  · rintro ⟨hput, hend⟩ ⟨pre, post, hs, hpre, hlt | ⟨rfl, heq⟩⟩
    · have := hput pre post hs hpre
      omega
    · have hlen := hend (hs ▸ fits_concat hpre)
      rw [hs, render_append, List.length_append, render_none, render_nil, List.append_nil] at hlen
      omega
  · intro hspill
    refine ⟨fun pre post hs hpre => ?_, fun hfits => ?_⟩
    · by_contra hlt
      exact hspill ⟨pre, post, hs, hpre, .inl (by omega)⟩
    · rcases List.eq_nil_or_concat' (pieces s) with hnil | ⟨pre, p, hs⟩
      · rw [hnil, render_nil, List.length_nil, fieldSize]
        omega
      have hpre := hfits pre p [] hs
      rw [hs, render_append, List.length_append]
      cases p with
      | some c =>
        simp only [render_some, render_nil, List.length_singleton, fieldSize]
        omega
      | none =>
        rw [render_none, render_nil, List.append_nil]
        by_contra hge
        refine hspill ⟨pre, [], hs, hpre, ?_⟩
        rw [eq_self, true_and]
        omega

/-- With all pieces taken, only a `$?` at the end gets past the field. -/
theorem spillsAtEnd_iff : SpillsAtEnd exitCode (pieces s) ↔ Fits exitCode (pieces s) ∧ Spills exitCode (pieces s) := by
  constructor
  · rintro ⟨pre, hs, hpre, hle⟩
    refine ⟨hs ▸ fits_concat hpre, pre, [], hs, hpre, ?_⟩
    rw [eq_self, true_and]
    omega
  · rintro ⟨hfits, pre, post, hs, hpre, hspill⟩
    cases post with
    | nil => exact ⟨pre, hs, hpre, by omega⟩
    | cons p post =>
      -- the piece behind it would not be taken
      have hle := hfits (pre ++ [none]) p post (by rw [hs, List.append_assoc]; rfl)
      rw [render_append, List.length_append, render_none, render_nil, List.append_nil] at hle
      simp only [reduceCtorEq, false_and, or_false, fieldSize] at hspill
      omega

end

/-! ## A command -/

/-- Neither name nor argument of the stage is too long. -/
def Taken (lastExitCode : Int32) (line name arg : List UInt8) : Prop :=
  (copyName .filename [] (stageOf line).filename).2 = some name ∧
    (copyArg (decimal lastExitCode) [] (stageOf line).arg).2 = some arg

/-- **Where an event of one call comes from.** -/
inductive Emits (lastExitCode : Int32) (turns : List Turn) (line : List UInt8) : Event → Prop
  | name {e : Event} (h : e ∈ (copyName .filename [] (stageOf line).filename).1) : Emits lastExitCode turns line e
  | nameEnd {name : List UInt8} (h : (copyName .filename [] (stageOf line).filename).2 = some name) :
    Emits lastExitCode turns line (.put .filename name.length 0)
  | arg {name : List UInt8} {e : Event} (h : (copyName .filename [] (stageOf line).filename).2 = some name)
    (he : e ∈ (copyArg (decimal lastExitCode) [] (stageOf line).arg).1) : Emits lastExitCode turns line e
  | argEnd {name arg : List UInt8} (h : Taken lastExitCode line name arg) :
    Emits lastExitCode turns line (.put .arg arg.length 0)
  | request {name arg : List UInt8} (h : Taken lastExitCode line name arg) :
    Emits lastExitCode turns line (.execute name arg (stageOf line).redirect.isSome (stageOf line).rest.isSome)
  | later {name arg rest : List UInt8} {e : Event} (h : Taken lastExitCode line name arg)
    (hr : (stageOf line).rest = some rest) (he : e ∈ executeFile lastExitCode turns rest) :
    Emits lastExitCode turns line e
  | redirectName {name : List UInt8} {e : Event} (hr : (stageOf line).redirect = some name)
    (he : e ∈ (copyName .redirectFilename [] name).1) : Emits lastExitCode turns line e
  | redirect {name arg target out : List UInt8} (h : Taken lastExitCode line name arg)
    (hr : (stageOf line).redirect = some target) (ho : (copyName .redirectFilename [] target).2 = some out) :
    Emits lastExitCode turns line (.redirect out)
  | lastExitCode (code : Int32) : Emits lastExitCode turns line (.lastExitCode code)
  | print (text : String) : Emits lastExitCode turns line (.print text)

theorem mem_andThen {α : Type} {x : List Event × Option α} {f : α → List Event} {e : Event} (h : e ∈ andThen x f) :
    e ∈ x.1 ∨ ∃ a, x.2 = some a ∧ e ∈ f a := by
  rcases List.mem_append.mp h with h | h
  · exact .inl h
  · cases hx : x.2 with
    | none => simp [hx] at h
    | some a => exact .inr ⟨a, rfl, by simpa [hx] using h⟩

theorem mem_awaitReady {request : Event} {next : List Event} {rs : List Reply} {e : Event}
    (h : e ∈ awaitReady request next rs) :
    e = request ∨ e ∈ next ∨ (∃ code, e = .lastExitCode code) ∨ ∃ text, e = .print text := by
  induction rs with
  | nil => simp [awaitReady] at h
  | cons r rs ih =>
    cases r with
    | error retry err =>
      cases retry with
      | true =>
        rcases List.mem_cons.mp h with h | h
        · exact .inl h
        · exact ih h
      | false =>
        rw [awaitReady, List.mem_cons, List.mem_singleton] at h
        rcases h with rfl | rfl
        · exact .inr (.inr (.inl ⟨_, rfl⟩))
        · exact .inr (.inr (.inr ⟨_, rfl⟩))
    | ready => exact .inr (.inl h)
    | other => exact ih h

theorem mem_executeFile {lastExitCode : Int32} {turn : Turn} {turns : List Turn} {line : List UInt8} {e : Event}
    (h : e ∈ executeFile lastExitCode (turn :: turns) line) : Emits lastExitCode turns line e := by
  rw [executeFile] at h
  split at h
  · rcases mem_andThen h with h | ⟨name, hname, h⟩
    · exact .name h
    rcases List.mem_cons.mp h with rfl | h
    · exact .nameEnd hname
    rcases mem_andThen h with h | ⟨arg, harg, h⟩
    · exact .arg hname h
    have ht : Taken lastExitCode line name arg := ⟨hname, harg⟩
    have hrequest : Emits lastExitCode turns line
        (.execute name arg (stageOf line).redirect.isSome (stageOf line).rest.isSome) := .request ht
    rcases List.mem_cons.mp h with rfl | h
    · exact .argEnd ht
    cases hr : (stageOf line).rest with
    | some rest =>
      rw [redirect_of_rest hr, hr] at hrequest
      simp only [hr] at h
      rcases List.mem_cons.mp h with rfl | h
      · exact hrequest
      rcases mem_awaitReady h with rfl | h | ⟨code, rfl⟩ | ⟨text, rfl⟩
      · exact hrequest
      · exact .later ht hr h
      · exact .lastExitCode code
      · exact .print text
    | none =>
      rw [hr] at hrequest
      simp only [hr] at h
      rcases List.mem_cons.mp h with rfl | h
      · exact hrequest
      cases hd : (stageOf line).redirect with
      | none => simp [hd] at h
      | some name =>
        simp only [hd] at h
        rcases mem_andThen h with h | ⟨out, hout, h⟩
        · exact .redirectName hd h
        · rw [List.mem_singleton.mp h]
          exact .redirect ht hd hout
  · rw [List.mem_singleton.mp h]
    exact .print _

section
variable {lastExitCode : Int32} {line : List UInt8}

theorem taken_of_fits (hname : (stageOf line).filename.length ≤ 26)
    (hfits : Fits (decimal lastExitCode) (pieces (stageOf line).arg)) :
    Taken lastExitCode line (stageOf line).filename (render (decimal lastExitCode) (pieces (stageOf line).arg)) :=
  ⟨name_iff.mpr ⟨hname, rfl⟩, copyArg_eq hfits⟩

/-- What the first call does up to the request, and behind it. -/
theorem mem_of_name (hname : (stageOf line).filename.length ≤ 26) {e : Event} {turn : Turn} {turns : List Turn}
    (hturn : turn.am = true) (he : e ∈ (copyArg (decimal lastExitCode) [] (stageOf line).arg).1) :
    e ∈ executeFile lastExitCode (turn :: turns) line := by
  have hcopy := name_iff.mpr ⟨hname, rfl⟩
  simp [executeFile, hturn, andThen, hcopy, he]

theorem mem_of_taken {name arg : List UInt8} (h : Taken lastExitCode line name arg) {turn : Turn} {turns : List Turn}
    (hturn : turn.am = true) :
    .put .arg arg.length 0 ∈ executeFile lastExitCode (turn :: turns) line ∧
      .execute name arg (stageOf line).redirect.isSome (stageOf line).rest.isSome ∈
        executeFile lastExitCode (turn :: turns) line := by
  cases hr : (stageOf line).rest with
  | none => simp [executeFile, hturn, andThen, h.1, h.2, hr]
  | some rest => simp [executeFile, hturn, andThen, h.1, h.2, hr, redirect_of_rest hr]

theorem mem_of_next {rest : List UInt8} (h : Next lastExitCode line rest) {e : Event} {turns : List Turn}
    (he : e ∈ executeFile lastExitCode turns rest) : e ∈ executeFile lastExitCode (⟨true, [.ready]⟩ :: turns) line := by
  have ht := taken_of_fits h.2.1 h.2.2
  simp [executeFile, andThen, ht.1, ht.2, h.1, awaitReady, he]

end

/-- One call writes nothing past a field when its argument is right and the later calls do not either. -/
theorem inField_cons {lastExitCode : Int32} {turn : Turn} {turns : List Turn} {line : List UInt8}
    (harg : (stageOf line).filename.length ≤ 26 → ArgInField (decimal lastExitCode) (stageOf line).arg)
    (hlater : ∀ rest, Next lastExitCode line rest → ∀ e ∈ executeFile lastExitCode turns rest, e.InField) :
    ∀ e ∈ executeFile lastExitCode (turn :: turns) line, e.InField := by
  intro e he
  cases mem_executeFile he with
  | name he => exact copyName_inField e he
  | nameEnd hname =>
    obtain ⟨hle, rfl⟩ := name_iff.mp hname
    rw [Event.InField, fieldSize]
    omega
  | arg hname he => exact (harg (name_iff.mp hname).1).1 e he
  | argEnd ht =>
    have hlen := (harg (name_iff.mp ht.1).1).2 (fits_iff.mpr (Option.isSome_of_eq_some ht.2))
    rwa [copyArg_some ht.2, List.nil_append]
  | later ht hr he =>
    exact hlater _ ⟨hr, (name_iff.mp ht.1).1, fits_iff.mpr (Option.isSome_of_eq_some ht.2)⟩ e he
  | redirectName _ he => exact copyName_inField e he
  | request | redirect | lastExitCode | print => trivial

/-- A command whose argument is not taken sends nothing. -/
theorem silent_of_not_fits {lastExitCode : Int32} {turn : Turn} {turns : List Turn} {line : List UInt8}
    (h : ¬ Fits (decimal lastExitCode) (pieces (stageOf line).arg)) :
    ∀ e ∈ executeFile lastExitCode (turn :: turns) line, e.Silent := by
  have hnot : ∀ name arg, ¬ Taken lastExitCode line name arg := fun name arg ht =>
    h (fits_iff.mpr (Option.isSome_of_eq_some ht.2))
  intro e he
  cases mem_executeFile he with
  | name he => exact copyName_silent e he
  | arg _ he => exact copyArg_silent e he
  | redirectName _ he => exact copyName_silent e he
  | request ht => exact absurd ht (hnot _ _)
  | later ht => exact absurd ht (hnot _ _)
  | redirect ht => exact absurd ht (hnot _ _)
  | nameEnd | argEnd | lastExitCode | print => trivial

/-- The first write past a field is one of a `$?`, and all stages in front of it are taken. -/
theorem inField_iff {lastExitCode : Int32} {line : List UInt8} :
    (∀ turns, ∀ e ∈ executeFile lastExitCode turns line, e.InField) ↔
      ∀ l, Relation.ReflTransGen (Next lastExitCode) line l → (stageOf l).filename.length ≤ 26 →
        ¬ Spills (decimal lastExitCode) (pieces (stageOf l).arg) := by
  constructor
  · intro h l hl hname
    induction hl using Relation.ReflTransGen.head_induction_on with
    | refl =>
      rw [← argInField_iff]
      refine ⟨fun e he => h [⟨true, []⟩] e (mem_of_name hname rfl he), fun hfits => ?_⟩
      exact h [⟨true, []⟩] _ (mem_of_taken (taken_of_fits hname hfits) rfl).1
    | head hn _ ih => exact ih fun turns e he => h (⟨true, [.ready]⟩ :: turns) e (mem_of_next hn he)
  · intro h turns
    induction turns generalizing line with
    | nil => simp [executeFile]
    | cons turn turns ih =>
      refine inField_cons (fun hle => argInField_iff.mpr (h line .refl hle)) fun rest hn => ?_
      exact ih fun l hl => h l (.head hn hl)

/-- **The fields of a command are safe exactly when** no `$?` ends its own argument behind the field, and none is written
past the field in a stage that is reached. -/
theorem safe_iff (lastExitCode : Int32) (line : List UInt8) : (∀ turns, Safe (executeFile lastExitCode turns line)) ↔
    ¬ ((stageOf line).filename.length ≤ 26 ∧ SpillsAtEnd (decimal lastExitCode) (pieces (stageOf line).arg)) ∧
      ∀ l, Relation.TransGen (Next lastExitCode) line l →
        ¬ ((stageOf l).filename.length ≤ 26 ∧ Spills (decimal lastExitCode) (pieces (stageOf l).arg)) := by
  have hlater : (∀ l, Relation.TransGen (Next lastExitCode) line l →
      ¬ ((stageOf l).filename.length ≤ 26 ∧ Spills (decimal lastExitCode) (pieces (stageOf l).arg))) ↔
      ∀ rest, Next lastExitCode line rest → ∀ turns, ∀ e ∈ executeFile lastExitCode turns rest, e.InField := by
    simp only [inField_iff, Relation.TransGen.head'_iff, not_and, forall_exists_index, and_imp]
    exact ⟨fun h rest hn l hl => h l rest hn hl, fun h l rest hn hl => h rest hn l hl⟩
  rw [hlater]
  constructor
  · intro h
    constructor
    · rintro ⟨hname, hspill⟩
      obtain ⟨hfits, hspill⟩ := spillsAtEnd_iff.mp hspill
      have ht := taken_of_fits hname hfits
      rcases h [⟨true, []⟩] with hin | ⟨-, hsent⟩
      · refine argInField_iff.mp ⟨fun e he => ?_, fun _ => ?_⟩ hspill
        · exact hin e (mem_of_name hname rfl he)
        · exact hin _ (mem_of_taken ht rfl).1
      · exact False.elim (hsent _ (mem_of_taken ht rfl).2)
    · intro rest hn turns e he
      rcases h (⟨true, [.ready]⟩ :: turns) with hin | ⟨-, hsent⟩
      · exact hin e (mem_of_next hn he)
      · exact False.elim (hsent _ (mem_of_taken (taken_of_fits hn.2.1 hn.2.2) rfl).2)
  · rintro ⟨hfirst, hnext⟩ turns
    cases turns with
    | nil => exact .inl (by simp [executeFile])
    | cons turn turns =>
      by_cases hbad : (stageOf line).filename.length ≤ 26 → ArgInField (decimal lastExitCode) (stageOf line).arg
      · exact .inl (inField_cons hbad fun rest hn => hnext rest hn turns)
      · obtain ⟨hname, harg⟩ := Classical.not_imp.mp hbad
        rw [argInField_iff, not_not] at harg
        have hfits : ¬ Fits (decimal lastExitCode) (pieces (stageOf line).arg) := fun hfits =>
          hfirst ⟨hname, spillsAtEnd_iff.mpr ⟨hfits, harg⟩⟩
        have hnone : (copyArg (decimal lastExitCode) [] (stageOf line).arg).2 = none := by
          rwa [fits_iff, Option.isSome_iff_ne_none, not_not] at hfits
        obtain ⟨text, htext⟩ := copyArg_rejects hnone
        refine .inr ⟨?_, silent_of_not_fits hfits⟩
        cases hturn : turn.am with
        | true => exact ⟨text, mem_of_name hname hturn htext⟩
        | false => exact ⟨_, by simp [executeFile, hturn]; rfl⟩

/-- The exit code -2147483648 has eleven characters; the line is `a`, a space, 25 times `a` and `$?`. -/
theorem fields_overflow :
    let line : List UInt8 := [97, 32] ++ List.replicate 25 97 ++ [36, 63]
    line.length ≤ 127 ∧ ¬ Safe (executeFile (-2147483648) [⟨true, []⟩] line) := by
  refine ⟨by decide, fun h => ?_⟩
  rcases h with hin | ⟨-, hsilent⟩
  · have hlt : 36 < fieldSize := hin (.put .arg 36 0) (by decide)
    exact absurd hlt (by decide)
  · exact hsilent (.execute [97] (List.replicate 25 97 ++ decimal (-2147483648)) false false) (by decide)

end KinOS.Terminal
