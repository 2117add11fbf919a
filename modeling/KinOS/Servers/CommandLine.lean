import KinOS.Lib.CStr

/-!
# `ExecuteFile`: the terminal's command line

| here | there |
| --- | --- |
| `strchr`, `cut`    | `strchr(line, c)` and `*p = 0` |
| `cutLine`          | the three searches, then the three cuts (`servers/terminal/terminal.cpp:216-231`) |
| `stageOf`          | the strings at `command`, `first_arg`, `redir_filename` and `subcommand` |
| `copyName`         | the loops over `command` and `redir_filename` (`terminal.cpp:243-252`, `349-357`) |
| `copyArg`          | the loop over `first_arg` (`terminal.cpp:258-282`) |
| `awaitReady`       | the loop of a piped stage (`terminal.cpp:296-325`) |
| `executeFile`      | `ExecuteFile` (`terminal.cpp:215-361`) |

A line is the list of its bytes in front of the terminator, a pointer an index into it. A field of the message is the list
of the bytes written from its start; it has no size here, and every index that is written is an event. A `Turn` is what the
system answers in one call, and a run ends with its turns. The loop after the last stage has been sent is left out: it
writes none of the three fields.

The first space, `>` and `|` of the whole line are cut at once, wherever they stand. `grammar` is what the commands are
meant to be, and `stage_iff` says on which lines the cuts find the same. Of a run's events `sent` are the messages, and
`messages` are those that the stages and am's answers call for.
-/

namespace KinOS.Terminal

open Bytes

def blank : UInt8 := 32

/-- `'>'` -/
def gt : UInt8 := 62

/-- `'|'` -/
def bar : UInt8 := 124

def strchr (line : List UInt8) (c : UInt8) : Option Nat := line.findIdx? (· == c)

def cut (buf : List UInt8) : Option Nat → List UInt8
  | some p => buf.set p 0
  | none => buf

/-- The string at `p`. -/
def textAt (buf : List UInt8) (p : Nat) : List UInt8 := (buf.drop p).takeWhile (· != 0)

structure Pointers where
  line : List UInt8
  firstArg : Option Nat
  redirChar : Option Nat
  pipeChar : Option Nat

def cutLine (line : List UInt8) : Pointers :=
  let firstArg := strchr line blank
  let redirChar := strchr line gt
  let pipeChar := strchr line bar
  { line := cut (cut (cut line firstArg) redirChar) pipeChar
    firstArg := firstArg.map (· + 1)
    redirChar := redirChar.map (· + 1)
    pipeChar := pipeChar.map (· + 1) }

/-- One stage of a pipeline: `redirect` is the name when the flag is set, `rest` the next line when `pipe` is. -/
@[ext]
structure Stage where
  filename : List UInt8
  arg : List UInt8
  redirect : Option (List UInt8)
  rest : Option (List UInt8)
deriving DecidableEq

def stageOf (line : List UInt8) : Stage :=
  let p := cutLine line
  { filename := textAt p.line 0
    arg := p.firstArg.elim [] (textAt p.line)
    redirect := if p.pipeChar.isSome then none else p.redirChar.map fun q => (textAt p.line q).dropWhile isspace
    rest := p.pipeChar.map fun q => (textAt p.line q).dropWhile isspace }

/-! ## What a stage sends -/

inductive Field where
  | filename
  | arg
  | redirectFilename
deriving DecidableEq

inductive Event where
  | put (f : Field) (i : Nat) (c : UInt8)
  /-- `kExecuteFile` is sent. -/
  | execute (filename arg : List UInt8) (redirect pipe : Bool)
  /-- `kRedirect` is sent. -/
  | redirect (filename : List UInt8)
  | lastExitCode (code : Int32)
  | print (text : String)
deriving DecidableEq

/-- A loop that may have returned from the function. -/
def andThen {α : Type} (x : List Event × Option α) (f : α → List Event) : List Event := x.1 ++ x.2.elim [] f

/-- `i` is the length of what is there. -/
def copyName (f : Field) : List UInt8 → List UInt8 → List Event × Option (List UInt8)
  | out, [] => ([], some out)
  | out, c :: s =>
    if 25 < out.length then ([.print "too long file name\n"], none)
    else
      let r := copyName f (out ++ [c]) s
      (.put f out.length c :: r.1, r.2)

/-- `while (*p)` over `exit_code`. -/
def putAll (f : Field) : Nat → List UInt8 → List Event
  | _, [] => []
  | i, c :: s => .put f i c :: putAll f (i + 1) s

def copyArg (exitCode : List UInt8) : List UInt8 → List UInt8 → List Event × Option (List UInt8)
  | out, [] => ([], some out)
  | out, c :: s =>
    if 25 < out.length then ([.print "too long argument\n"], none)
    else
      match c, s with
      | 36, 63 :: s =>
        let r := copyArg exitCode (out ++ exitCode) s
        (putAll .arg out.length exitCode ++ r.1, r.2)
      | c, s =>
        let r := copyArg exitCode (out ++ [c]) s
        (.put .arg out.length c :: r.1, r.2)

/-- `sprintf(exit_code, "%d", n)`. -/
def decimal (n : Int32) : List UInt8 :=
  let digits := (Nat.toDigits 10 n.toInt.natAbs).map fun c => UInt8.ofNat c.toNat
  if n.toInt < 0 then 45 :: digits else digits

/-- Messages of am; `err` is an `errno`. -/
inductive Reply where
  | error (retry : Bool) (err : Int)
  | ready
  | other

/-- One call of `ExecuteFile`: whether `SyscallFindServer` finds am, and what am answers. -/
structure Turn where
  am : Bool
  replies : List Reply

def errorText (err : Int) : String :=
  if err = 2 then "no such file\n" else if err = 21 then "this is a directory\n" else "error at other server\n"

def awaitReady (request : Event) (next : List Event) : List Reply → List Event
  | [] => []
  | .error true _ :: rs => request :: awaitReady request next rs
  | .error false err :: _ => [.lastExitCode 1, .print (errorText err)]
  | .ready :: _ => next
  | .other :: rs => awaitReady request next rs

def executeFile (lastExitCode : Int32) : List Turn → List UInt8 → List Event
  | [], _ => []
  | turn :: turns, line =>
    let stage := stageOf line
    if turn.am then
      andThen (copyName .filename [] stage.filename) fun filename => .put .filename filename.length 0 ::
        andThen (copyArg (decimal lastExitCode) [] stage.arg) fun arg => .put .arg arg.length 0 ::
          match stage.rest with
          | some subcommand =>
            let request := .execute filename arg false true
            request :: awaitReady request (executeFile lastExitCode turns subcommand) turn.replies
          | none =>
            .execute filename arg stage.redirect.isSome false ::
              match stage.redirect with
              | some name => andThen (copyName .redirectFilename [] name) fun name => [.redirect name]
              | none => []
    else [.print "cannot find application management server\n"]

/-! ## The grammar -/

def before (c : UInt8) (l : List UInt8) : List UInt8 := l.takeWhile (· != c)

def after (c : UInt8) (l : List UInt8) : List UInt8 := (l.dropWhile (· != c)).drop 1

/-- The first segment without its redirection. -/
def body (line : List UInt8) : List UInt8 := before gt (before bar line)

/-- The command as it is meant. White space in front of a redirection or of the next stage is not part of it, and only the
last stage can be redirected. -/
def grammar (line : List UInt8) : Stage where
  filename := before blank (body line)
  arg := after blank (body line)
  redirect :=
    if bar ∉ line ∧ gt ∈ before bar line then some ((after gt (before bar line)).dropWhile isspace) else none
  rest := if bar ∈ line then some ((after bar line).dropWhile isspace) else none

/-- The first `n` stages of a pipeline. -/
def stages (split : List UInt8 → Stage) : Nat → List UInt8 → List Stage
  | 0, _ => []
  | n + 1, line => split line :: (split line).rest.elim [] (stages split n)

/-- The first `d` stands behind the first `c`. -/
def Behind (line : List UInt8) (c d : UInt8) : Prop := d ∉ before c line ∧ d ∈ after c line

instance (line : List UInt8) (c d : UInt8) : Decidable (Behind line c d) := inferInstanceAs (Decidable (_ ∧ _))

/-- The separators stand where the cuts do no harm. -/
structure Ordered (line : List UInt8) : Prop where
  /-- The first space is in the command, or no text follows it. -/
  arg : blank ∈ line → blank ∈ body line ∨ ∀ d ∈ (after blank line).head?, (d = gt ∨ d = bar) ∧ d ∉ before blank line
  redirect : bar ∉ line → gt ∈ line → ¬ Behind line gt blank ∨ ∀ c ∈ after gt line, isspace c = true
  rest : bar ∈ line → ¬ Behind line bar blank ∧ ¬ Behind line bar gt ∨ ∀ c ∈ after bar line, isspace c = true

/-! ## What the cuts leave -/

theorem before_cons {c x : UInt8} (hx : x ≠ c) (l : List UInt8) : before c (x :: l) = x :: before c l :=
  List.takeWhile_cons_of_pos (by simpa using hx)

theorem after_cons {c x : UInt8} (hx : x ≠ c) (l : List UInt8) : after c (x :: l) = after c l := by
  rw [after, List.dropWhile_cons_of_pos (by simpa using hx), after]

/-- The first of each byte of `s` is cut. -/
def mark : Finset UInt8 → List UInt8 → List UInt8
  | _, [] => []
  | s, x :: l => (if x ∈ s then 0 else x) :: mark (s.erase x) l

theorem mark_empty (l : List UInt8) : mark ∅ l = l := by
  induction l with
  | nil => rfl
  | cons x l ih => simp [mark, ih]

theorem strchr_cons (x : UInt8) (l : List UInt8) (c : UInt8) :
    strchr (x :: l) c = if x = c then some 0 else (strchr l c).map (· + 1) := by
  by_cases hx : x = c
  · simp [strchr, List.findIdx?_cons, hx]
  · simp [strchr, List.findIdx?_cons, hx]

theorem strchr_eq (line : List UInt8) (c : UInt8) : strchr line c = if c ∈ line then some (before c line).length else
    none := by
  induction line with
  | nil => rfl
  | cons x l ih =>
    rw [strchr_cons, ih]
    by_cases hx : x = c
    · simp [before, hx]
    · have hc : c ∈ x :: l ↔ c ∈ l := by simp [Ne.symm hx]
      rw [if_neg hx, before_cons hx]
      simp only [hc]
      split
      · rfl
      · rfl

theorem cut_mark {c : UInt8} : ∀ {s : Finset UInt8} (_ : c ∉ s) (l : List UInt8),
    cut (mark s l) (strchr l c) = mark (insert c s) l
  | _, _, [] => rfl
  | s, hc, x :: l => by
    rw [strchr_cons]
    by_cases hx : x = c
    · subst hx
      rw [if_pos rfl, cut, mark, mark, if_pos (Finset.mem_insert_self ..), Finset.erase_insert hc,
        Finset.erase_eq_of_notMem hc, List.set_cons_zero]
    · have ih := cut_mark (s := s.erase x) (fun h => hc (Finset.mem_of_mem_erase h)) l
      rw [if_neg hx, mark, mark, Finset.erase_insert_of_ne (Ne.symm hx), ← ih]
      have hmem : x ∈ insert c s ↔ x ∈ s := by simp [hx]
      simp only [hmem]
      cases strchr l c with
      | none => rfl
      | some p => rfl

theorem takeWhile_mark : ∀ {l : List UInt8} (_ : 0 ∉ l) (s : Finset UInt8),
    (mark s l).takeWhile (· != 0) = l.takeWhile (· ∉ s)
  | [], _, _ => rfl
  | x :: l, h, s => by
    rw [mark]
    by_cases hx : x ∈ s
    · simp [hx]
    · have hne : x ≠ 0 := fun h0 => h (h0 ▸ List.mem_cons_self)
      have ih := takeWhile_mark (fun h0 => h (List.mem_cons_of_mem _ h0)) s
      rw [if_neg hx, Finset.erase_eq_of_notMem hx, List.takeWhile_cons_of_pos (by simpa using hne), ih,
        List.takeWhile_cons_of_pos (by simpa using hx)]

/-- Behind the first `c` those are cut that did not stand in front of it. -/
theorem drop_mark {c : UInt8} : ∀ {l : List UInt8} (_ : c ∈ l) (s : Finset UInt8),
    (mark s l).drop ((before c l).length + 1) = mark ((s.erase c).filter (· ∉ before c l)) (after c l)
  | [], h, _ => by simp at h
  | x :: l, h, s => by
    by_cases hx : x = c
    · subst hx
      simp [mark, before, after]
    · have hc : c ∈ l := (List.mem_cons.mp h).resolve_left (Ne.symm hx)
      have ih := drop_mark hc (s.erase x)
      rw [before_cons hx, after_cons hx, List.length_cons, mark, List.drop_succ_cons, ih]
      congr 1
      ext d
      simp only [Finset.mem_filter, Finset.mem_erase, List.mem_cons]
      tauto

theorem before_of_notMem {c : UInt8} {l : List UInt8} (h : c ∉ l) : before c l = l := by
  apply List.takeWhile_eq_self_iff.mpr
  intro d hd
  simpa using fun heq : d = c => h (heq ▸ hd)

theorem after_of_notMem {c : UInt8} {l : List UInt8} (h : c ∉ l) : after c l = [] := by
  have hnil : l.dropWhile (· != c) = [] := by
    apply List.dropWhile_eq_nil_iff.mpr
    intro d hd
    simpa using fun heq : d = c => h (heq ▸ hd)
  rw [after, hnil, List.drop_nil]

theorem mem_of_mem_after {c d : UInt8} {l : List UInt8} (h : d ∈ after c l) : d ∈ l :=
  (List.dropWhile_sublist _).mem (List.mem_of_mem_drop h)

/-- A prefix that holds the first `c` ends behind it. -/
theorem after_takeWhile {Q : UInt8 → Bool} {c : UInt8} : ∀ {l : List UInt8}, c ∈ l.takeWhile Q →
    after c (l.takeWhile Q) = (after c l).takeWhile Q ∧ ∀ d ∈ before c l, Q d = true
  | [], h => by simp at h
  | x :: l, h => by
    by_cases hQ : Q x = true
    · rw [List.takeWhile_cons_of_pos hQ] at h ⊢
      by_cases hx : x = c
      · subst hx
        simp [after, before]
      · have ih := after_takeWhile ((List.mem_cons.mp h).resolve_left (Ne.symm hx))
        rw [after_cons hx, ih.1, after_cons hx, before_cons hx]
        exact ⟨rfl, List.forall_mem_cons.mpr ⟨hQ, ih.2⟩⟩
    · rw [List.takeWhile_cons_of_neg hQ] at h
      simp at h

/-- Cutting a text changes what is left of it behind the white space, unless nothing is left. -/
theorem dropWhile_takeWhile_iff {P W : UInt8 → Bool} (l : List UInt8) :
    (l.takeWhile P).dropWhile W = l.dropWhile W ↔ (∀ c ∈ l, P c = true) ∨ ∀ c ∈ l, W c = true := by
  induction l with
  | nil => simp
  | cons x l ih =>
    by_cases hP : P x = true
    · rw [List.takeWhile_cons_of_pos hP]
      by_cases hW : W x = true
      · rw [List.dropWhile_cons_of_pos hW, List.dropWhile_cons_of_pos hW, ih]
        simp [hP, hW]
      · rw [List.dropWhile_cons_of_neg hW, List.dropWhile_cons_of_neg hW, List.cons.injEq, List.takeWhile_eq_self_iff]
        simp [hP, hW]
    · rw [List.takeWhile_cons_of_neg hP, List.dropWhile_nil, eq_comm, List.dropWhile_eq_nil_iff]
      simp [hP]

/-! ## One stage -/

theorem cutLine_line (line : List UInt8) : (cutLine line).line = mark {bar, gt, blank} line := by
  have h1 := cut_mark (c := blank) (s := ∅) (by simp) line
  have h2 := cut_mark (c := gt) (s := {blank}) (by decide) line
  have h3 := cut_mark (c := bar) (s := {gt, blank}) (by decide) line
  rw [mark_empty] at h1
  rw [cutLine, h1, LawfulSingleton.insert_empty_eq, h2, h3]

/-- The string behind the first `c` ends at the next cut. -/
theorem textAt_after {line : List UInt8} (h : 0 ∉ line) {c : UInt8} (hc : c ∈ line) (s : Finset UInt8) :
    textAt (mark s line) ((before c line).length + 1) =
      (after c line).takeWhile (· ∉ (s.erase c).filter (· ∉ before c line)) := by
  rw [textAt, drop_mark hc, takeWhile_mark fun h0 => h (mem_of_mem_after h0)]

theorem forall_after_iff {line : List UInt8} {c : UInt8} {s : Finset UInt8} :
    (∀ d ∈ after c line, decide (d ∉ (s.erase c).filter (· ∉ before c line)) = true) ↔
      ∀ d ∈ s, d ≠ c → ¬ Behind line c d := by
  simp only [Behind, Finset.mem_filter, Finset.mem_erase, decide_eq_true_eq]
  constructor
  · intro h d hs hd hb
    exact h d hb.2 ⟨⟨hd, hs⟩, hb.1⟩
  · intro h d hd hs
    exact h d hs.1.2 hs.1.1 ⟨hs.2, hd⟩

theorem body_eq (line : List UInt8) : body line = line.takeWhile fun d => d != gt && d != bar := by
  rw [body, before, before, List.takeWhile_takeWhile]
  congr 1
  funext d
  rw [Bool.eq_iff_iff]
  simp

theorem filename_eq {line : List UInt8} (h : 0 ∉ line) : (stageOf line).filename = (grammar line).filename := by
  have hcode : (stageOf line).filename = line.takeWhile (· ∉ ({bar, gt, blank} : Finset UInt8)) := by
    rw [stageOf, cutLine_line, textAt, List.drop_zero, takeWhile_mark h]
  rw [hcode, grammar, before, body_eq, List.takeWhile_takeWhile]
  congr 1
  funext d
  rw [Bool.eq_iff_iff]
  simp
  tauto

theorem arg_iff {line : List UInt8} (h : 0 ∉ line) : (stageOf line).arg = (grammar line).arg ↔
    (blank ∈ line → blank ∈ body line ∨ ∀ d ∈ (after blank line).head?, (d = gt ∨ d = bar) ∧ d ∉ before blank line) := by
  have hcode : (stageOf line).arg =
      if blank ∈ line then textAt (mark {bar, gt, blank} line) ((before blank line).length + 1) else [] := by
    rw [stageOf, cutLine_line]
    simp only [cutLine, strchr_eq]
    split
    · rfl
    · rfl
  have hset : ({bar, gt, blank} : Finset UInt8).erase blank = {bar, gt} := by decide
  rw [hcode, grammar]
  by_cases hl : blank ∈ line
  · rw [if_pos hl, textAt_after h hl, hset]
    by_cases hb : blank ∈ body line
    · -- no other separator stands in front of the space
      rw [body_eq] at hb ⊢
      obtain ⟨ha, hbefore⟩ := after_takeWhile hb
      rw [ha]
      refine iff_of_true ?_ fun _ => .inl hb
      congr 1
      funext d
      have hgt : gt ∉ before blank line := fun hm => by simpa using hbefore _ hm
      have hbar : bar ∉ before blank line := fun hm => by simpa using hbefore _ hm
      rw [Bool.eq_iff_iff]
      simp only [Finset.mem_filter, Finset.mem_insert, Finset.mem_singleton, decide_eq_true_eq, bne_iff_ne,
        Bool.and_eq_true]
      grind
    · rw [after_of_notMem hb]
      cases after blank line with
      | nil => simp
      | cons d t =>
        simp [hl, hb]
        tauto
  · have hb : blank ∉ body line := fun hb => hl ((List.takeWhile_sublist _).mem ((List.takeWhile_sublist _).mem hb))
    rw [if_neg hl, after_of_notMem hb]
    exact iff_of_true rfl fun h => absurd h hl

theorem redirect_iff {line : List UInt8} (h : 0 ∉ line) : (stageOf line).redirect = (grammar line).redirect ↔
    (bar ∉ line → gt ∈ line → ¬ Behind line gt blank ∨ ∀ c ∈ after gt line, isspace c = true) := by
  have hcode : (stageOf line).redirect = if bar ∈ line then none else if gt ∈ line then
      some ((textAt (mark {bar, gt, blank} line) ((before gt line).length + 1)).dropWhile isspace) else none := by
    rw [stageOf, cutLine_line]
    simp only [cutLine, strchr_eq]
    by_cases hbar : bar ∈ line
    · simp [hbar]
    · by_cases hgt : gt ∈ line
      · simp [hbar, hgt]
      · simp [hbar, hgt]
  rw [hcode, grammar]
  by_cases hbar : bar ∈ line
  · simp [hbar]
  · rw [before_of_notMem hbar, if_neg hbar]
    by_cases hgt : gt ∈ line
    · have hb : ¬ Behind line gt bar := fun hb => hbar (mem_of_mem_after hb.2)
      have hs : (∀ d ∈ ({bar, gt, blank} : Finset UInt8), d ≠ gt → ¬ Behind line gt d) ↔ ¬ Behind line gt blank := by
        have hne : blank ≠ gt := by decide
        simp [hb, hne]
      rw [if_pos hgt, if_pos ⟨hbar, hgt⟩, Option.some.injEq, textAt_after h hgt, dropWhile_takeWhile_iff,
        forall_after_iff, hs]
      simp [hbar, hgt]
    · simp [hbar, hgt]

theorem rest_iff {line : List UInt8} (h : 0 ∉ line) : (stageOf line).rest = (grammar line).rest ↔
    (bar ∈ line → ¬ Behind line bar blank ∧ ¬ Behind line bar gt ∨ ∀ c ∈ after bar line, isspace c = true) := by
  have hcode : (stageOf line).rest = if bar ∈ line then
      some ((textAt (mark {bar, gt, blank} line) ((before bar line).length + 1)).dropWhile isspace) else none := by
    rw [stageOf, cutLine_line]
    simp only [cutLine, strchr_eq]
    split
    · rfl
    · rfl
  rw [hcode, grammar]
  by_cases hbar : bar ∈ line
  · have hs : (∀ d ∈ ({bar, gt, blank} : Finset UInt8), d ≠ bar → ¬ Behind line bar d) ↔
        ¬ Behind line bar blank ∧ ¬ Behind line bar gt := by
      have h1 : gt ≠ bar ∧ blank ≠ bar := by decide
      simp [h1]
      exact and_comm
    rw [if_pos hbar, if_pos hbar, Option.some.injEq, textAt_after h hbar, dropWhile_takeWhile_iff, forall_after_iff, hs]
    simp [hbar]
  · simp [hbar]

/-- **One stage is split by the grammar exactly when its separators are in order.** -/
theorem stage_iff {line : List UInt8} (h : 0 ∉ line) : stageOf line = grammar line ↔ Ordered line := by
  rw [Stage.ext_iff]
  constructor
  · rintro ⟨-, harg, hredirect, hrest⟩
    exact ⟨(arg_iff h).mp harg, (redirect_iff h).mp hredirect, (rest_iff h).mp hrest⟩
  · intro ho
    exact ⟨filename_eq h, (arg_iff h).mpr ho.arg, (redirect_iff h).mpr ho.redirect, (rest_iff h).mpr ho.rest⟩

/-! ## The pipeline -/

/-- `l` is the line of a stage of the pipeline. -/
def Later (split : List UInt8 → Stage) : List UInt8 → List UInt8 → Prop :=
  Relation.ReflTransGen fun line rest => (split line).rest = some rest

theorem zero_notMem_rest {line rest : List UInt8} (h : 0 ∉ line) (hr : (grammar line).rest = some rest) : 0 ∉ rest := by
  simp only [grammar, Option.ite_none_right_eq_some, Option.some.injEq] at hr
  rw [← hr.2]
  intro h0
  exact h (mem_of_mem_after ((List.dropWhile_sublist _).mem h0))

theorem stages_iff {line : List UInt8} (h : 0 ∉ line) : (∀ n, stages stageOf n line = stages grammar n line) ↔
    ∀ l, Later grammar line l → Ordered l := by
  constructor
  · intro heq l hl
    induction hl using Relation.ReflTransGen.head_induction_on with
    | refl => exact (stage_iff h).mp (List.cons.inj (heq 1)).1
    | head hr _ ih =>
      have hs := (List.cons.inj (heq 1)).1
      refine ih (zero_notMem_rest h hr) fun n => ?_
      have hn := (List.cons.inj (heq (n + 1))).2
      rw [hs, hr] at hn
      exact hn
  · intro ho n
    induction n generalizing line with
    | zero => rfl
    | succ n ih =>
      have hs := (stage_iff h).mpr (ho line .refl)
      rw [stages, stages, hs]
      cases hr : (grammar line).rest with
      | none => rfl
      | some rest => exact congrArg _ (ih (zero_notMem_rest h hr) fun l hl => ho l (.head hr hl))

/-! ## The messages -/

/-- What an argument is made of; `none` is `$?`. -/
def pieces : List UInt8 → List (Option UInt8)
  | [] => []
  | c :: s =>
    match c, s with
    | 36, 63 :: s => none :: pieces s
    | c, s => some c :: pieces s

def render (exitCode : List UInt8) (ps : List (Option UInt8)) : List UInt8 := ps.flatMap fun p => p.elim exitCode ([·])

/-- Every piece starts where the loop still takes it. -/
def Fits (exitCode : List UInt8) (ps : List (Option UInt8)) : Prop :=
  ∀ pre p post, ps = pre ++ p :: post → (render exitCode pre).length ≤ 25

/-- Name and argument of the stage are short enough for a request. -/
def Stage.Short (stage : Stage) (lastExitCode : Int32) : Prop :=
  stage.filename.length ≤ 26 ∧ Fits (decimal lastExitCode) (pieces stage.arg)

/-- What the stage asks am for, with `$?` expanded. -/
def Stage.request (stage : Stage) (lastExitCode : Int32) : Event :=
  .execute stage.filename (render (decimal lastExitCode) (pieces stage.arg)) stage.redirect.isSome stage.rest.isSome

/-- How often am wants a request again. -/
def retries : List Reply → Nat
  | .error true _ :: rs => retries rs + 1
  | .other :: rs => retries rs
  | .error false _ :: _ | .ready :: _ | [] => 0

/-- am answers that the next stage can come. -/
def answersReady : List Reply → Bool
  | .error true _ :: rs | .other :: rs => answersReady rs
  | .ready :: _ => true
  | .error false _ :: _ | [] => false

theorem copyName_iff {f : Field} : ∀ {s out name : List UInt8}, out.length ≤ 26 →
    ((copyName f out s).2 = some name ↔ out.length + s.length ≤ 26 ∧ name = out ++ s)
  | [], out, name, h => by
    simp only [copyName, Option.some.injEq, List.length_nil, Nat.add_zero, h, true_and, List.append_nil]
    exact eq_comm
  | c :: s, out, name, h => by
    rw [copyName]
    split
    · simp only [List.length_cons]
      refine iff_of_false (by simp) ?_
      omega
    · have hlen : (out ++ [c]).length = out.length + 1 := List.length_append
      rw [copyName_iff (by omega), hlen, List.append_assoc, List.length_cons]
      simp only [List.cons_append, List.nil_append]
      rw [show out.length + 1 + s.length = out.length + (s.length + 1) by omega]

theorem name_iff {line name : List UInt8} : (copyName .filename [] (stageOf line).filename).2 = some name ↔
    (stageOf line).filename.length ≤ 26 ∧ name = (stageOf line).filename := by
  rw [copyName_iff (Nat.zero_le _), List.length_nil, Nat.zero_add, List.nil_append]

/-- The splits of a list at an element. -/
theorem forall_split_cons {α : Type} {a x : α} {l : List α} {P : List α → List α → Prop} :
    (∀ pre post, a :: l = pre ++ x :: post → P pre post) ↔
      (a = x → P [] l) ∧ ∀ pre post, l = pre ++ x :: post → P (a :: pre) post := by
  constructor
  · intro h
    exact ⟨fun hx => h [] l (hx ▸ rfl), fun pre post hl => h (a :: pre) post (hl ▸ rfl)⟩
  · rintro ⟨h1, h2⟩ pre post hl
    cases pre with
    | nil =>
      obtain ⟨rfl, rfl⟩ := List.cons.inj hl
      exact h1 rfl
    | cons b pre =>
      obtain ⟨rfl, rfl⟩ := List.cons.inj hl
      exact h2 pre post rfl

@[simp] theorem render_nil (exitCode : List UInt8) : render exitCode [] = [] := rfl

@[simp] theorem render_none (exitCode : List UInt8) (ps : List (Option UInt8)) :
    render exitCode (none :: ps) = exitCode ++ render exitCode ps := rfl

@[simp] theorem render_some (exitCode : List UInt8) (c : UInt8) (ps : List (Option UInt8)) :
    render exitCode (some c :: ps) = c :: render exitCode ps := rfl

@[simp] theorem render_append (exitCode : List UInt8) (ps qs : List (Option UInt8)) :
    render exitCode (ps ++ qs) = render exitCode ps ++ render exitCode qs := by
  simp [render]

theorem pieces_of_ne {c : UInt8} {s : List UInt8} (h : ∀ t, c = 36 → s = 63 :: t → False) :
    pieces (c :: s) = some c :: pieces s := by
  rw [pieces]
  exact h

theorem pieces_ne_nil (c : UInt8) (s : List UInt8) : pieces (c :: s) ≠ [] := by
  by_cases h : ∃ t, c = 36 ∧ s = 63 :: t
  · obtain ⟨t, rfl, rfl⟩ := h
    simp [pieces]
  · rw [pieces_of_ne fun t hc hs => h ⟨t, hc, hs⟩]
    simp

theorem copyArg_some {exitCode s out arg : List UInt8} (h : (copyArg exitCode out s).2 = some arg) :
    arg = out ++ render exitCode (pieces s) := by
  fun_induction copyArg exitCode out s with
  | case1 out => simpa [pieces, render] using h.symm
  | case2 => simp at h
  | case3 out _ s r ih => simp [ih h, pieces, render]
  | case4 out _ c s hne r ih => simp [ih h, pieces, render]

/-- The loop reads to the end exactly when every piece starts where it is still taken. -/
theorem copyArg_isSome_iff {exitCode s out : List UInt8} : (copyArg exitCode out s).2.isSome ↔
    ∀ p pre post, pieces s = pre ++ p :: post → out.length + (render exitCode pre).length ≤ 25 := by
  fun_induction copyArg exitCode out s with
  | case1 out => simp [pieces]
  | case2 out c s hlt =>
    refine iff_of_false (by simp) fun h => ?_
    obtain ⟨p, ps, hps⟩ := List.exists_cons_of_ne_nil (pieces_ne_nil c s)
    have := h p [] ps hps
    simp only [render_nil, List.length_nil] at this
    omega
  | case3 out hle s r ih =>
    rw [ih, pieces]
    simp only [forall_split_cons, render_none, List.length_append, render_nil, List.length_nil, ← Nat.add_assoc]
    grind
  | case4 out hle c s hne r ih =>
    rw [ih, pieces_of_ne hne]
    simp only [forall_split_cons, render_some, List.length_append, List.length_cons, render_nil, List.length_nil]
    grind

theorem fits_iff {exitCode s : List UInt8} : Fits exitCode (pieces s) ↔ (copyArg exitCode [] s).2.isSome := by
  rw [copyArg_isSome_iff]
  simp only [List.length_nil, Nat.zero_add]
  exact ⟨fun h p pre post => h pre p post, fun h pre p post => h p pre post⟩

theorem copyArg_eq {exitCode s : List UInt8} (h : Fits exitCode (pieces s)) :
    (copyArg exitCode [] s).2 = some (render exitCode (pieces s)) := by
  obtain ⟨arg, harg⟩ := Option.isSome_iff_exists.mp (fits_iff.mp h)
  rw [harg, copyArg_some harg, List.nil_append]

instance (stage : Stage) (lastExitCode : Int32) : Decidable (stage.Short lastExitCode) :=
  decidable_of_iff (stage.filename.length ≤ 26 ∧ (copyArg (decimal lastExitCode) [] stage.arg).2.isSome)
    (and_congr_right fun _ => fits_iff.symm)

/-- **The messages of a pipeline.** The k-th turn is the k-th stage's: its request is sent when its texts are short, and
again for every retry, and the stages behind it have theirs once am is ready. -/
def messages (lastExitCode : Int32) : List Turn → List Stage → List Event
  | turn :: turns, stage :: later =>
    if turn.am = true ∧ stage.Short lastExitCode then
      if stage.rest.isSome then
        List.replicate (retries turn.replies + 1) (stage.request lastExitCode) ++
          if answersReady turn.replies then messages lastExitCode turns later else []
      else
        stage.request lastExitCode :: ((stage.redirect.filter (·.length ≤ 26)).map Event.redirect).toList
    else []
  | _, _ => []

/-! ## What is sent -/

/-- An event that is no message. -/
def Event.Silent : Event → Prop
  | .execute .. | .redirect _ => False
  | _ => True

theorem copyName_silent {f : Field} : ∀ {s out : List UInt8}, ∀ e ∈ (copyName f out s).1, e.Silent
  | [], _, e, h => by simp [copyName] at h
  | c :: s, out, e, h => by
    rw [copyName] at h
    split at h
    · rw [List.mem_singleton.mp h]
      trivial
    · rcases List.mem_cons.mp h with rfl | h
      · trivial
      · exact copyName_silent e h

theorem mem_putAll {f : Field} {e : Event} : ∀ {s : List UInt8} {i : Nat}, e ∈ putAll f i s →
    ∃ k c, k < s.length ∧ e = .put f (i + k) c
  | [], _, h => by simp [putAll] at h
  | c :: s, i, h => by
    rcases List.mem_cons.mp h with rfl | h
    · exact ⟨0, c, Nat.succ_pos _, rfl⟩
    · obtain ⟨k, c, hk, rfl⟩ := mem_putAll h
      exact ⟨k + 1, c, Nat.succ_lt_succ hk, by rw [Nat.add_assoc, Nat.add_comm 1]⟩

theorem copyArg_silent {exitCode s out : List UInt8} : ∀ e ∈ (copyArg exitCode out s).1, e.Silent := by
  fun_induction copyArg exitCode out s with
  | case1 => simp
  | case2 => simp [Event.Silent]
  | case3 out _ s r ih =>
    intro e he
    rcases List.mem_append.mp he with he | he
    · obtain ⟨k, c, -, rfl⟩ := mem_putAll he
      trivial
    · exact ih e he
  | case4 out _ c s hne r ih => exact List.forall_mem_cons.mpr ⟨trivial, ih⟩

instance : DecidablePred Event.Silent := fun e =>
  match e with
  | .execute .. | .redirect _ => .isFalse id
  | .put .. | .lastExitCode _ | .print _ => .isTrue trivial

def sent (events : List Event) : List Event := events.filter fun e => ¬ e.Silent

theorem sent_silent {events : List Event} (h : ∀ e ∈ events, e.Silent) : sent events = [] := by
  simpa [sent] using h

theorem sent_append (xs ys : List Event) : sent (xs ++ ys) = sent xs ++ sent ys := List.filter_append ..

theorem sent_put (f : Field) (i : Nat) (c : UInt8) (events : List Event) :
    sent (.put f i c :: events) = sent events :=
  List.filter_cons_of_neg (by simp [Event.Silent])

theorem sent_cons {e : Event} (h : ¬ e.Silent) (events : List Event) : sent (e :: events) = e :: sent events :=
  List.filter_cons_of_pos (by simpa using h)

/-- A loop over a name or an argument sends nothing. -/
theorem sent_andThen {α : Type} {x : List Event × Option α} (h : ∀ e ∈ x.1, e.Silent) (f : α → List Event) :
    sent (andThen x f) = x.2.elim [] fun a => sent (f a) := by
  rw [andThen, sent_append, sent_silent h, List.nil_append]
  cases x.2 with
  | none => rfl
  | some a => rfl

theorem sent_awaitReady {request : Event} (h : ¬ request.Silent) (next : List Event) (rs : List Reply) :
    sent (awaitReady request next rs) =
      List.replicate (retries rs) request ++ if answersReady rs then sent next else [] := by
  induction rs with
  | nil => rfl
  | cons r rs ih =>
    match r with
    | .error true _ => rw [awaitReady, sent_cons h, ih, retries, answersReady, List.replicate_succ, List.cons_append]
    | .error false _ => rfl
    | .ready => simp [awaitReady, retries, answersReady]
    | .other => rw [awaitReady, ih, retries, answersReady]

theorem redirect_of_rest {line rest : List UInt8} (h : (stageOf line).rest = some rest) :
    (stageOf line).redirect = none := by
  simp only [stageOf, Option.map_eq_some_iff] at h ⊢
  obtain ⟨p, hp, -⟩ := h
  rw [hp, Option.isSome_some, if_pos rfl]

/-- A run of the command sends the messages of its stages. -/
theorem executeFile_sent {lastExitCode : Int32} : ∀ (turns : List Turn) (line : List UInt8),
    sent (executeFile lastExitCode turns line) = messages lastExitCode turns (stages stageOf turns.length line)
  | [], _ => rfl
  | turn :: turns, line => by
    rw [executeFile, List.length_cons, stages, messages]
    by_cases ham : turn.am = true
    swap
    · rw [if_neg ham, if_neg fun h => ham h.1]
      rfl
    rw [if_pos ham, sent_andThen copyName_silent]
    by_cases hname : (stageOf line).filename.length ≤ 26
    swap
    · have hnone : (copyName .filename [] (stageOf line).filename).2 = none :=
        Option.eq_none_iff_forall_ne_some.mpr fun _ h => hname (name_iff.mp h).1
      rw [hnone, if_neg fun h => hname h.2.1]
      rfl
    rw [name_iff.mpr ⟨hname, rfl⟩, Option.elim_some, sent_put, sent_andThen copyArg_silent]
    by_cases hfits : Fits (decimal lastExitCode) (pieces (stageOf line).arg)
    swap
    · have hnone : (copyArg (decimal lastExitCode) [] (stageOf line).arg).2 = none := by
        rwa [fits_iff, Option.not_isSome_iff_eq_none] at hfits
      rw [hnone, if_neg fun h => hfits h.2.2]
      rfl
    rw [copyArg_eq hfits, Option.elim_some, sent_put, if_pos ⟨ham, hname, hfits⟩, Stage.request]
    cases hr : (stageOf line).rest with
    | some rest =>
      rw [sent_cons id, sent_awaitReady id, executeFile_sent turns rest, redirect_of_rest hr]
      rfl
    | none =>
      rw [sent_cons id]
      cases hd : (stageOf line).redirect with
      | none => rfl
      | some name =>
        simp only [Option.isSome_none, Bool.false_eq_true, if_false, sent_andThen copyName_silent]
        by_cases hlen : name.length ≤ 26
        · rw [(copyName_iff (Nat.zero_le _)).mpr ⟨by simpa using hlen, rfl⟩,
            Option.filter_some_pos (by simpa using hlen)]
          rfl
        · have hnone : (copyName .redirectFilename [] name).2 = none :=
            Option.eq_none_iff_forall_ne_some.mpr fun _ h => hlen (by simpa using ((copyName_iff (Nat.zero_le _)).mp h).1)
          rw [hnone, Option.filter_some_neg (by simpa using hlen)]
          rfl

end KinOS.Terminal
