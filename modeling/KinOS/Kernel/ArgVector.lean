import KinOS.Lib.CStr
import KinOS.Kernel.Basic

/-!
# `MakeArgVector`

| here | there |
| --- | --- |
| `argvLen`, `argbufLen` | the page at `0xfffffffffffff000` (`kernel/system.cpp:243-256`) |
| `ArgVector`            | `first_arg`, `argv`, `argbuf` and the counters `argc`, `argbuf_index` (`system.cpp:18-20`) |
| `pushToArgv`           | `push_to_argv` (`system.cpp:22-32`) |
| `tokens`               | the loop over `first_arg` (`system.cpp:41-63`) |
| `makeArgVector`        | `MakeArgVector` (`system.cpp:16-66`) |

`argv[i]` is the index into `argbuf` that the pointer stored there has. The string `first_arg` is read and cut in the
memory of `task.arg_`. Every C loop has fuel, and the theorem about it says how much is enough.
-/

namespace KinOS

open Bytes

namespace ArgVector

def argvLen : Nat := 32

/-- `4096 - sizeof(char **) * argv_len`. -/
def argbufLen : Nat := 4096 - 8 * argvLen

end ArgVector

structure ArgVector where
  arg : Mem
  argv : Nat → Nat
  argbuf : Mem
  argc : Nat
  argbufIndex : Nat

namespace ArgVector

/-- `push_to_argv(s)` for a string of the memory `src`. -/
def pushToArgv (fuel : Nat) (st : ArgVector) (src : Mem) (s : Nat) : Option (Except Error Unit × ArgVector) :=
  if argvLen ≤ st.argc ∨ argbufLen ≤ st.argbufIndex then some (.error .kFull, st)
  else do
    let argbuf ← strcpy fuel st.argbuf st.argbufIndex src s
    let len ← strlen fuel src s
    some (.ok (), { st with
      argv := Function.update st.argv st.argc st.argbufIndex
      argc := st.argc + 1
      argbuf := argbuf
      argbufIndex := st.argbufIndex + len + 1 })

/-- The `while (true)` loop from `p` on. -/
def tokens : Nat → ArgVector → Nat → Option (Except Error Unit × ArgVector)
  | 0, _, _ => none
  | fuel + 1, st, p => do
    let p ← skip isspace (fuel + 1) st.arg p
    if st.arg p = 0 then some (.ok (), st)
    else
      let arg := p
      let p ← skip (fun c => c != 0 && !isspace c) (fuel + 1) st.arg p
      let isEnd := st.arg p == 0
      let st := { st with arg := Function.update st.arg p 0 }
      match ← pushToArgv (fuel + 1) st st.arg arg with
      | (.error e, st) => some (.error e, st)
      | (.ok (), st) => if isEnd then some (.ok (), st) else tokens fuel st (p + 1)

/-- `MakeArgVector`; `st` holds the memories as they are at the call. -/
def makeArgVector (fuel : Nat) (st : ArgVector) (command : Mem) (firstArg : Option Nat) :
    Option (Except Error Unit × ArgVector) := do
  match ← pushToArgv fuel { st with argc := 0, argbufIndex := 0 } command 0 with
  | (.error e, st) => some (.error e, st)
  | (.ok (), st) =>
    match firstArg with
    | none => some (.ok (), st)
    | some p => tokens fuel st p

/-! ## What has been pushed -/

/-- The strings `ws` are packed one behind the other, and `argv` points to them in order. -/
structure Packed (st : ArgVector) (ws : List (List UInt8)) : Prop where
  argc : st.argc = ws.length
  index : st.argbufIndex = packedSize ws
  slot : ∀ k < ws.length, st.argv k = packedSize (ws.take k)
  str : ∀ k (h : k < ws.length), Str st.argbuf (st.argv k) ws[k]

/-- A packed string ends where the next one starts. -/
theorem packedSize_take_succ {ws : List (List UInt8)} {k : Nat} (h : k < ws.length) :
    packedSize (ws.take (k + 1)) = packedSize (ws.take k) + ws[k].length + 1 := by
  rw [List.take_succ_eq_append_getElem h, packedSize_append, packedSize_cons, packedSize_nil]
  rfl

theorem packedSize_take_mono {ws : List (List UInt8)} {j k : Nat} (h : j ≤ k) :
    packedSize (ws.take j) ≤ packedSize (ws.take k) := by
  obtain ⟨i, rfl⟩ := Nat.exists_eq_add_of_le h
  rw [List.take_add, packedSize_append]
  exact Nat.le_add_right ..

theorem Packed.end_le {st : ArgVector} {ws : List (List UInt8)} (h : Packed st ws) {j k : Nat} (hj : j < ws.length)
    (hjk : j < k) : st.argv j + ws[j].length + 1 ≤ packedSize (ws.take k) := by
  rw [h.slot j hj, ← packedSize_take_succ hj]
  exact packedSize_take_mono hjk

theorem pushToArgv_eq {fuel : Nat} {st : ArgVector} {src : Mem} {s : Nat} {ws : List (List UInt8)} {w : List UInt8}
    (h : Packed st ws) (hs : Str src s w) (hf : w.length < fuel) (hn : ws.length < argvLen)
    (hroom : packedSize ws < argbufLen) :
    ∃ st', pushToArgv fuel st src s = some (.ok (), st') ∧ Packed st' (ws ++ [w]) ∧ st'.arg = st.arg := by
  have hnot : ¬ (argvLen ≤ st.argc ∨ argbufLen ≤ st.argbufIndex) := by
    rw [h.argc, h.index]
    omega
  have hlen := strlen_eq hs hf
  rw [pushToArgv, if_neg hnot]
  simp only [strcpy, hlen, Option.map_some, Option.bind_eq_bind, Option.bind_some]
  refine ⟨_, rfl, ?_, rfl⟩
  constructor
  · simp [h.argc]
  · simp [h.index, Nat.add_assoc]
  · intro k hk
    rw [List.length_append, List.length_singleton] at hk
    by_cases heq : k = ws.length
    · subst heq
      simp [h.argc, h.index]
    · have hlt : k < ws.length := by omega
      rw [List.take_append_of_le_length (by omega), ← h.slot k hlt]
      exact Function.update_of_ne (by rw [h.argc]; omega) ..
  · intro k hk
    rw [List.length_append, List.length_singleton] at hk
    by_cases heq : k = ws.length
    · subst heq
      simp only [h.argc, Function.update_self, List.getElem_concat_length]
      exact hs.copy
    · -- the earlier strings lie in front of the copy
      have hlt : k < ws.length := by omega
      have hbefore := h.end_le hlt hlt
      rw [List.take_length, ← h.index] at hbefore
      rw [List.getElem_append_left hlt]
      have hslot : Function.update st.argv st.argc st.argbufIndex k = st.argv k :=
        Function.update_of_ne (by rw [h.argc]; omega) ..
      simp only [hslot]
      apply (h.str k hlt).congr
      intro a _ ha
      exact copy_outside (by omega)

/-! ## The loop -/

theorem isspace_zero : isspace 0 = false := rfl

/-- In a string the word loop stops at the next separator or at the end. -/
theorem takeWhile_word {m : Mem} {p : Nat} {s : List UInt8} (hs : Str m p s) :
    s.takeWhile (fun c => c != 0 && !isspace c) = s.takeWhile fun c => !isspace c := by
  have hne := hs.ne_zero
  clear hs
  induction s with
  | nil => rfl
  | cons c s ih =>
    obtain ⟨hc, hs⟩ := List.forall_mem_cons.mp hne
    simp only [List.takeWhile_cons, ih hs, hc, bne_iff_ne, ne_eq, not_false_eq_true, Bool.and_eq_true, true_and]

/-- **The loop pushes the words of the string**, as long as the slots and the buffer last. -/
theorem tokens_eq : ∀ {fuel : Nat} {st : ArgVector} {p : Nat} {ws : List (List UInt8)} {s : List UInt8},
    Packed st ws → Str st.arg p s → s.length < fuel → ws.length + (words isspace s).length ≤ argvLen →
    packedSize ws + packedSize (words isspace s) ≤ argbufLen →
    ∃ st', tokens fuel st p = some (.ok (), st') ∧ Packed st' (ws ++ words isspace s)
  | 0, _, _, _, _, _, _, hf, _, _ => by simp at hf
  | fuel + 1, st, p, ws, s, h, hs, hf, hn, hroom => by
    have hskip := skip_eq isspace_zero hs hf
    have hsplit := List.takeWhile_append_dropWhile (p := isspace) (l := s)
    have hlen := congrArg List.length hsplit
    rw [List.length_append] at hlen
    have hs' : Str st.arg (p + (s.takeWhile isspace).length) (s.dropWhile isspace) := by
      rw [← hsplit] at hs
      exact hs.append_right
    rw [tokens, hskip]
    simp only [Option.bind_eq_bind, Option.bind_some]
    rw [words_eq] at hn hroom ⊢
    generalize p + (s.takeWhile isspace).length = q at hs' ⊢
    cases hd : s.dropWhile isspace with
    | nil =>
      rw [hd] at hs'
      have h0 : st.arg q = 0 := hs'
      rw [if_pos h0]
      exact ⟨st, rfl, by simpa using h⟩
    | cons c t =>
      rw [hd] at hs' hn hroom hlen
      have hc : st.arg q ≠ 0 := hs'.1 ▸ hs'.2.1
      have hword := skip_eq (P := fun c => c != 0 && !isspace c) rfl hs' (show (c :: t).length < fuel + 1 by omega)
      rw [takeWhile_word hs'] at hword
      rw [if_neg hc, hword]
      simp only [Option.bind_some]
      have hpre := List.takeWhile_append_dropWhile (p := fun c => !isspace c) (l := c :: t)
      dsimp only at hn hroom ⊢
      generalize (c :: t).takeWhile (fun c => !isspace c) = w at hn hroom hpre ⊢
      generalize (c :: t).dropWhile (fun c => !isspace c) = r at hpre
      simp only [List.length_cons, packedSize_cons] at hn hroom
      -- the word is cut off and pushed
      rw [← hpre] at hs' hlen hn hroom ⊢
      rw [List.length_append] at hlen
      have hcut : Str (Function.update st.arg (q + w.length) 0) q w := by
        have := hs'.cut (k := w.length) (by simp)
        rwa [List.take_left] at this
      have hcutPacked : Packed { st with arg := Function.update st.arg (q + w.length) 0 } ws :=
        ⟨h.argc, h.index, h.slot, h.str⟩
      obtain ⟨st', hpush, hpacked, harg⟩ := pushToArgv_eq hcutPacked hcut (show w.length < fuel + 1 by omega) (by omega)
        (by omega)
      rw [hpush]
      simp only [Option.bind_some]
      have hrest := hs'.append_right
      cases r with
      | nil =>
        have h0 : st.arg (q + w.length) = 0 := hrest
        rw [List.append_nil, List.drop_eq_nil_of_le (Nat.le_succ _), words_nil]
        exact ⟨st', by simp [h0], hpacked⟩
      | cons d r =>
        have hd0 : st.arg (q + w.length) ≠ 0 := hrest.1 ▸ hrest.2.1
        have hbehind : Str st'.arg (q + w.length + 1) r := by
          have := hs'.behind (k := w.length) (by simp)
          rw [harg]
          simpa using this
        have hdrop : (w ++ d :: r).drop (w.length + 1) = r := by simp
        rw [hdrop] at hn hroom ⊢
        simp only [List.length_cons] at hlen
        obtain ⟨st'', hloop, hpacked'⟩ := tokens_eq hpacked hbehind (show r.length < fuel by omega)
          (by rw [List.length_append, List.length_singleton]; omega)
          (by rw [packedSize_append, packedSize_cons, packedSize_nil]; omega)
        exact ⟨st'', by simpa [hd0] using hloop, by simpa using hpacked'⟩

/-- **`MakeArgVector` is tokenisation.** For a command and an argument that fit the 32-byte fields of the task, 32
rounds are enough for each loop, and the result is success with the command and the words of the argument copied one
behind the other. -/
theorem make_arg_vector_words {st0 : ArgVector} {command : Mem} {c s : List UInt8} (hc : Str command 0 c)
    (hs : Str st0.arg 0 s) (hclen : c.length ≤ 31) (hslen : s.length ≤ 31) {fuel : Nat} (hfuel : 32 ≤ fuel) :
    ∃ st, makeArgVector fuel st0 command (some 0) = some (.ok (), st) ∧
      st.argc = 1 + (words isspace s).length ∧
      (∀ k (h : k < (c :: words isspace s).length), Str st.argbuf (st.argv k) (c :: words isspace s)[k] ∧
        st.argv k + (c :: words isspace s)[k].length + 1 ≤ argbufLen) ∧
      ∀ j k (hj : j < (c :: words isspace s).length) (_ : k < (c :: words isspace s).length), j < k →
        st.argv j + (c :: words isspace s)[j].length + 1 ≤ st.argv k := by
  have hnum := length_words_le (P := isspace) s
  have hsize := packedSize_words_le (P := isspace) s
  have hslots : argvLen = 32 := rfl
  have hbuf : argbufLen = 3840 := rfl
  have hstart : Packed { st0 with argc := 0, argbufIndex := 0 } [] := by
    constructor <;> simp
  obtain ⟨st1, hpush, hpacked1, harg⟩ := pushToArgv_eq hstart hc (show c.length < fuel by omega) (by decide)
    (by decide)
  have hs1 : Str st1.arg 0 s := by
    rw [harg]
    exact hs
  rw [List.nil_append] at hpacked1
  obtain ⟨st, hloop, hpacked⟩ := tokens_eq hpacked1 hs1 (show s.length < fuel by omega)
    (by rw [List.length_singleton]; omega)
    (by rw [packedSize_cons, packedSize_nil]; omega)
  rw [List.singleton_append] at hpacked
  have htotal : packedSize (c :: words isspace s) ≤ argbufLen := by
    rw [packedSize_cons]
    omega
  refine ⟨st, ?_, ?_, fun k hk => ⟨hpacked.str k hk, ?_⟩, fun j k hj hk hjk => ?_⟩
  · simp only [makeArgVector, hpush, Option.bind_eq_bind, Option.bind_some]
    exact hloop
  · rw [hpacked.argc, List.length_cons, Nat.add_comm]
  · have := hpacked.end_le hk hk
    rw [List.take_length] at this
    exact this.trans htotal
  · rw [hpacked.slot k hk]
    exact hpacked.end_le hj hjk

/-- `cp  a b` becomes three strings at 0, 3 and 5. -/
theorem make_arg_vector_words_three :
    let command : Mem := fun i => [99, 112].getD i 0
    let arg : Mem := fun i => [32, 97, 32, 98].getD i 0
    ∃ st, makeArgVector 32 ⟨arg, fun _ => 0, fun _ => 0, 0, 0⟩ command (some 0) = some (.ok (), st) ∧ st.argc = 3 := by
  intro command arg
  have hc : Str command 0 [99, 112] := by simp [Str, command]
  have hs : Str arg 0 [32, 97, 32, 98] := by simp [Str, arg]
  have hn : (words isspace [32, 97, 32, 98]).length = 2 := by decide
  obtain ⟨st, hres, hargc, -⟩ := @make_arg_vector_words ⟨arg, fun _ => 0, fun _ => 0, 0, 0⟩ _ _ _ hc hs (by decide)
    (by decide) 32 (Nat.le_refl 32)
  exact ⟨st, hres, by rw [hargc, hn]⟩

end ArgVector

end KinOS
