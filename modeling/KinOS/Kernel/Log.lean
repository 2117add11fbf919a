import KinOS.Lib.Ring
import KinOS.Lib.TransitionSystem

/-!
# The kernel log

A ring of 1024 bytes with a head, a tail and a flag. The writer appends behind the tail only while the flag is set, and the
reader clears the flag whatever it has left: a read that takes all is the reading end of a queue (`Queued.read`), after any
other the rest of the log is lost (`Short`).

| here | there |
| --- | --- |
| `KernelLog`      | `kernel_log_buf`, `kernel_log_head`, `kernel_log_tail`, `kernel_log_changed` (`kernel/system.cpp:375-385`) |
| `kernelLogWrite` | `KernelLogWrite` (`system.cpp:421-435`) |
| `kernelLogRead`  | `KernelLogRead` (`system.cpp:437-454`) |
| `readKernelLog`  | the system call `ReadKernelLog` (`syscall.cpp:270-279`) |
-/

namespace KinOS.Log

open TransitionSystem

structure KernelLog where
  buf : Nat → UInt8
  head : Nat
  tail : Nat
  changed : Bool

/-- The loop of `KernelLogWrite`: the buffer and `kernel_log_head` after it. -/
def fill (buf : Nat → UInt8) (head : Nat) : List UInt8 → (Nat → UInt8) × Nat
  | [] => (buf, head)
  | c :: s => fill (Function.update buf head c) ((head + 1) % 1024) s

def kernelLogWrite (l : KernelLog) (s : List UInt8) : KernelLog :=
  let i := l.head
  let head := if l.changed then l.tail else l.head
  let (buf, head) := fill l.buf head s
  { buf, head := i, tail := head, changed := true }

/-- `memcpy(buf, &kernel_log_buf[head], n)`. -/
def KernelLog.segment (l : KernelLog) (head n : Nat) : List UInt8 := (List.range n).map fun j => l.buf (head + j)

/-- The log afterwards, the bytes copied and `remaining`. -/
def kernelLogRead (l : KernelLog) (len : Nat) : KernelLog × List UInt8 × Nat :=
  let (first, remaining, head) :=
    if l.tail < l.head then
      let n := min len (1024 - l.head)
      (l.segment l.head n, len - n, 0)
    else ([], len, l.head)
  let n := min remaining (l.tail - head)
  ({ l with head := (head + n) % 1024, changed := false }, first ++ l.segment head n, remaining - n)

/-- `none` is `EAGAIN`. -/
def readKernelLog (l : KernelLog) (len : Nat) : KernelLog × Option (List UInt8 × Nat) :=
  if l.changed then
    let r := kernelLogRead l len
    (r.1, some r.2)
  else (l, none)

/-! ## Runs -/

inductive LogCall
  | write (s : List UInt8)
  | read (len : Nat)

/-- The log, with all that was written and all that the reads have returned. -/
structure Logged where
  log : KernelLog
  written : List UInt8
  returned : List UInt8

/-- `InitializeSystemTask`'s log. -/
def Logged.init : Logged := ⟨⟨fun _ => 0, 0, 0, false⟩, [], []⟩

def Logged.unread (s : Logged) : Nat := s.written.length - s.returned.length

def Logged.step (s : Logged) : LogCall → Logged
  | .write t => { s with log := kernelLogWrite s.log t, written := s.written ++ t }
  | .read len =>
    let r := readKernelLog s.log len
    { s with log := r.1, returned := s.returned ++ (r.2.map Prod.fst).getD [] }

def Logged.next (s : Logged) (c : LogCall) : Option Logged := some (s.step c)

/-- What a read is to answer: `EAGAIN` only if nothing is unread, and otherwise as many bytes as there are and fit. -/
def Logged.Faithful (s : Logged) : LogCall → Prop
  | .write _ => True
  | .read len =>
    match (readKernelLog s.log len).2 with
    | none => s.unread = 0
    | some (out, _) => out.length = min len s.unread

/-- A read that takes all that is unread. -/
def Logged.Whole (s : Logged) : LogCall → Prop
  | .write _ => True
  | .read len => s.unread ≤ len

instance decidableFaithful (s : Logged) : ∀ c : LogCall, Decidable (s.Faithful c)
  | .write _ => isTrue trivial
  | .read len =>
    match h : (readKernelLog s.log len).2 with
    | none => decidable_of_iff (s.unread = 0) (by simp only [Logged.Faithful, h])
    | some (out, _) => decidable_of_iff (out.length = min len s.unread) (by simp only [Logged.Faithful, h])

instance decidableWhole (s : Logged) : ∀ c : LogCall, Decidable (s.Whole c)
  | .write _ => isTrue trivial
  | .read len => inferInstanceAs (Decidable (s.unread ≤ len))

/-- **The log is a queue without loss** in this run. -/
def Fifo (calls : List LogCall) : Prop :=
  Throughout Logged.next Logged.Faithful .init calls ∧ States Logged.next (fun s => s.returned <+: s.written) .init calls

/-! ## A log that holds a queue -/

theorem fill_holds : ∀ {s : List UInt8} {buf : Nat → UInt8} {head : Nat} {q : List UInt8}, Ring.Holds 1024 buf head q →
    q.length + s.length ≤ 1024 → Ring.Holds 1024 (fill buf ((head + q.length) % 1024) s).1 head (q ++ s)
  | [], _, _, _, h, _ => by rwa [fill, List.append_nil]
  | c :: s, buf, head, q, h, hlen => by
    rw [List.length_cons] at hlen
    have hstep := h.push (a := c) (by omega)
    have ih := fill_holds (s := s) hstep (by rw [List.length_append, List.length_singleton]; omega)
    have hidx : ((head + q.length) % 1024 + 1) % 1024 = (head + (q ++ [c]).length) % 1024 := by
      rw [List.length_append, List.length_singleton]
      omega
    rw [fill, hidx, List.append_cons q c s]
    exact ih

theorem fill_head : ∀ {s : List UInt8} {buf : Nat → UInt8} {head : Nat}, head < 1024 →
    (fill buf head s).2 = (head + s.length) % 1024
  | [], _, _, h => (Nat.mod_eq_of_lt h).symm
  | c :: s, buf, head, h => by
    rw [fill, fill_head (Nat.mod_lt _ (by decide)), List.length_cons]
    omega

/-- The log holds the queue `q`, and nothing when the flag is clear. -/
structure Holds (l : KernelLog) (q : List UInt8) : Prop where
  head : l.head < 1024
  tail : l.tail = (l.head + q.length) % 1024
  room : q.length ≤ 1023
  bytes : Ring.Holds 1024 l.buf l.head q
  fresh : l.changed = false → q = []

namespace Holds

variable {l : KernelLog} {q : List UInt8}

theorem write (h : Holds l q) {t : List UInt8} (hlen : q.length + t.length ≤ 1023) : Holds (kernelLogWrite l t)
    (q ++ t) := by
  -- with the flag clear the writer starts at the head, which is the tail of an empty queue
  have hstart : (if l.changed = true then l.tail else l.head) = (l.head + q.length) % 1024 := by
    by_cases hc : l.changed = true
    · rw [if_pos hc, h.tail]
    · rw [if_neg hc, h.fresh (by simpa using hc), List.length_nil, Nat.add_zero, Nat.mod_eq_of_lt h.head]
  have hfill := fill_holds (s := t) h.bytes (by omega)
  have hhead := @fill_head t l.buf ((l.head + q.length) % 1024) (Nat.mod_lt _ (by decide))
  refine ⟨h.head, ?_, by rw [List.length_append]; omega, ?_, fun hc => ?_⟩
  · simp only [kernelLogWrite, hstart, hhead, List.length_append]
    omega
  · simp only [kernelLogWrite, hstart]
    exact hfill
  · cases hc

/-- **A read takes the first bytes of the queue.** -/
theorem read_bytes (h : Holds l q) (len : Nat) : (kernelLogRead l len).2.1 = q.take len := by
  have hhead := h.head
  have htail := h.tail
  have hroom := h.room
  by_cases hwrap : l.tail < l.head
  · have hfirst := h.bytes.segment (k := min len (1024 - l.head)) (by omega) (by omega)
    have hrest := h.bytes.drop (1024 - l.head)
    have hzero : (l.head + (1024 - l.head)) % 1024 = 0 := by omega
    rw [hzero] at hrest
    have hsecond := hrest.segment (k := min (len - min len (1024 - l.head)) l.tail)
      (by rw [List.length_drop]; omega) (by omega)
    simp only [kernelLogRead, if_pos hwrap, KernelLog.segment, Nat.sub_zero]
    rw [hfirst, hsecond]
    by_cases hlen : len ≤ 1024 - l.head
    · rw [Nat.min_eq_left hlen, Nat.sub_self, Nat.zero_min, List.take_zero, List.append_nil]
    · have hmin : min len (1024 - l.head) = 1024 - l.head := by omega
      rw [hmin, ← List.take_add, List.take_eq_take_iff]
      omega
  · have hfirst := h.bytes.segment (k := min len (l.tail - l.head)) (by omega) (by omega)
    simp only [kernelLogRead, if_neg hwrap, KernelLog.segment, List.nil_append]
    rw [hfirst, List.take_eq_take_iff]
    omega

/-- **A read that takes all** leaves the empty queue. -/
theorem read_all (h : Holds l q) {len : Nat} (hlen : q.length ≤ len) : Holds (kernelLogRead l len).1 [] := by
  have hhead := h.head
  have htail := h.tail
  have hroom := h.room
  have heq : (kernelLogRead l len).1.head = l.tail := by
    by_cases hwrap : l.tail < l.head
    · simp only [kernelLogRead, if_pos hwrap]
      omega
    · simp only [kernelLogRead, if_neg hwrap]
      omega
  have htl : (kernelLogRead l len).1.tail = l.tail := rfl
  refine ⟨?_, ?_, Nat.zero_le _, Ring.holds_nil, fun _ => rfl⟩
  · rw [heq]
    omega
  · rw [heq, htl, List.length_nil]
    omega

end Holds

/-! ## What the log counts as unread -/

/-- The bytes between the head and the tail, none when the flag is clear. -/
def KernelLog.view (l : KernelLog) : Nat := if l.changed then (l.tail + 1024 - l.head) % 1024 else 0

section View

variable {l : KernelLog}

theorem view_write {t : List UInt8} (hhead : l.head < 1024) (htail : l.tail < 1024) (hlen : l.view + t.length ≤ 1023) :
    (kernelLogWrite l t).view = l.view + t.length := by
  have hstart : (if l.changed = true then l.tail else l.head) < 1024 := by
    split
    · exact htail
    · exact hhead
  unfold KernelLog.view at hlen ⊢
  simp only [kernelLogWrite, fill_head hstart, if_true]
  by_cases hc : l.changed = true
  · simp only [if_pos hc] at hlen ⊢
    omega
  · simp only [if_neg hc] at hlen ⊢
    omega

theorem read_length (hc : l.changed = true) (hhead : l.head < 1024) (htail : l.tail < 1024) (len : Nat) :
    (kernelLogRead l len).2.1.length = min len l.view := by
  unfold KernelLog.view
  rw [if_pos hc]
  by_cases hwrap : l.tail < l.head
  · simp only [kernelLogRead, if_pos hwrap, KernelLog.segment, List.length_append, List.length_map, List.length_range]
    omega
  · simp only [kernelLogRead, if_neg hwrap, KernelLog.segment, List.nil_append, List.length_map, List.length_range]
    omega

end View

/-! ## Runs of whole reads -/

/-- What is unread is in the log. -/
structure Queued (s : Logged) (q : List UInt8) : Prop where
  holds : Holds s.log q
  split : s.written = s.returned ++ q

/-- More is unread than the log counts. -/
structure Short (s : Logged) : Prop where
  head : s.log.head < 1024
  tail : s.log.tail < 1024
  lost : s.returned.length + s.log.view < s.written.length

theorem Queued.init : Queued .init [] :=
  ⟨⟨by decide, rfl, by decide, Ring.holds_nil, fun _ => rfl⟩, rfl⟩

/-- There is room in every state for what is unread. -/
def Room (s : Logged) : Prop := s.unread ≤ 1023

instance : DecidablePred Room := fun s => inferInstanceAs (Decidable (s.unread ≤ 1023))

section Read

variable {l : KernelLog} {len : Nat}

theorem readKernelLog_changed (h : l.changed = true) :
    readKernelLog l len = ((kernelLogRead l len).1, some (kernelLogRead l len).2) := if_pos h

theorem readKernelLog_unchanged (h : ¬ l.changed = true) : readKernelLog l len = (l, none) := if_neg h

end Read

namespace Queued

variable {s : Logged} {q : List UInt8}

theorem unread (h : Queued s q) : s.unread = q.length := by
  rw [Logged.unread, h.split, List.length_append, Nat.add_sub_cancel_left]

theorem isPrefix (h : Queued s q) : s.returned <+: s.written := ⟨q, h.split.symm⟩

theorem write {t : List UInt8} (h : Queued s q) (hroom : Room (s.step (.write t))) : Queued (s.step (.write t))
    (q ++ t) := by
  have hlen : q.length + t.length ≤ 1023 := by
    have hw := congrArg List.length h.split
    simp only [Room, Logged.unread, Logged.step, List.length_append] at hroom hw
    omega
  exact ⟨h.holds.write hlen, by simp only [Logged.step, h.split, List.append_assoc]⟩

/-- What a read of the log returns. -/
theorem read_eq (h : Queued s q) (len : Nat) :
    ((readKernelLog s.log len).2.map Prod.fst).getD [] = q.take len := by
  by_cases hc : s.log.changed = true
  · rw [readKernelLog_changed hc]
    exact h.holds.read_bytes len
  · rw [readKernelLog_unchanged hc, h.holds.fresh (by simpa using hc), List.take_nil]
    rfl

theorem read_faithful (h : Queued s q) (len : Nat) : s.Faithful (.read len) := by
  have hbytes := h.holds.read_bytes len
  unfold Logged.Faithful
  by_cases hc : s.log.changed = true
  · simp only [readKernelLog_changed hc, hbytes, List.length_take, h.unread]
  · simp only [readKernelLog_unchanged hc, h.unread, h.holds.fresh (by simpa using hc), List.length_nil]

theorem read_prefix (h : Queued s q) (len : Nat) : (s.step (.read len)).returned <+: (s.step (.read len)).written := by
  simp only [Logged.step, h.read_eq len, h.split]
  exact (List.prefix_append_right_inj _).mpr (List.take_prefix len q)

/-- A read that takes all leaves a queue again. -/
theorem read {len : Nat} (h : Queued s q) (hlen : s.unread ≤ len) : Queued (s.step (.read len)) [] := by
  rw [h.unread] at hlen
  refine ⟨?_, ?_⟩
  · by_cases hc : s.log.changed = true
    · simp only [Logged.step, readKernelLog_changed hc]
      exact h.holds.read_all hlen
    · simp only [Logged.step, readKernelLog_unchanged hc]
      have hq := h.holds
      rwa [h.holds.fresh (by simpa using hc)] at hq
  · simp only [Logged.step, h.read_eq len, h.split, List.take_of_length_le hlen, List.append_nil]

theorem view_cleared (l : KernelLog) (len : Nat) : (kernelLogRead l len).1.view = 0 := rfl

/-- **After any other read, bytes are lost.** -/
theorem short {len : Nat} (h : Queued s q) (hlen : len < s.unread) : Short (s.step (.read len)) := by
  rw [h.unread] at hlen
  have htail : s.log.tail < 1024 := by
    rw [h.holds.tail]
    exact Nat.mod_lt _ (by decide)
  have hc : s.log.changed = true := by
    by_contra hc
    rw [h.holds.fresh (by simpa using hc)] at hlen
    cases hlen
  refine ⟨?_, ?_, ?_⟩
  · simp only [Logged.step, readKernelLog_changed hc, kernelLogRead]
    exact Nat.mod_lt _ (by decide)
  · simp only [Logged.step, readKernelLog_changed hc, kernelLogRead]
    exact htail
  · simp only [Logged.step, h.read_eq len, h.split]
    simp only [readKernelLog_changed hc, view_cleared, List.length_append, List.length_take]
    omega

end Queued

namespace Short

variable {s : Logged}

theorem write {t : List UInt8} (h : Short s) (hroom : Room (s.step (.write t))) : Short (s.step (.write t)) := by
  have hlost := h.lost
  simp only [Room, Logged.unread, Logged.step, List.length_append] at hroom
  have hview := view_write (t := t) h.head h.tail (by omega)
  refine ⟨h.head, ?_, ?_⟩
  · have hstart : (if s.log.changed = true then s.log.tail else s.log.head) < 1024 := by
      split
      · exact h.tail
      · exact h.head
    simp only [Logged.step, kernelLogWrite, fill_head hstart]
    exact Nat.mod_lt _ (by decide)
  · simp only [Logged.step, hview, List.length_append]
    omega

theorem read {len : Nat} (h : Short s) : Short (s.step (.read len)) := by
  have hlost := h.lost
  by_cases hc : s.log.changed = true
  · have hlen := read_length hc h.head h.tail len
    simp only [Logged.step, readKernelLog_changed hc, Option.map_some, Option.getD_some]
    refine ⟨Nat.mod_lt _ (by decide), h.tail, ?_⟩
    simp only [Queued.view_cleared, List.length_append, hlen]
    omega
  · simp only [Logged.step, readKernelLog_unchanged hc, Option.map_none, Option.getD_none, List.append_nil]
    exact h

/-- A read that asks for all that is unread shows the loss. -/
theorem unfaithful (h : Short s) : ¬ s.Faithful (.read s.unread) := by
  have hlost := h.lost
  intro hf
  unfold Logged.Faithful at hf
  by_cases hc : s.log.changed = true
  · have hlen := read_length hc h.head h.tail s.unread
    simp only [readKernelLog_changed hc, hlen, Nat.min_self] at hf
    have hview : s.unread ≤ s.log.view := by omega
    unfold Logged.unread at hview
    omega
  · simp only [readKernelLog_unchanged hc, Logged.unread] at hf
    omega

/-- What is lost stays lost: in every run there is a read that shows it. -/
theorem run : ∀ {calls : List LogCall} {s : Logged}, Short s → States Logged.next Room s calls →
    ∃ len, ¬ Throughout Logged.next Logged.Faithful s (calls ++ [.read len])
  | [], s, h, _ => ⟨s.unread, fun hf => h.unfaithful hf.1⟩
  | .write t :: calls, s, h, hroom => by
    have hnext := hroom.2 _ rfl
    obtain ⟨len, hlen⟩ := run (h.write hnext.start) hnext
    exact ⟨len, fun hf => hlen (hf.2 _ rfl)⟩
  | .read n :: calls, s, h, hroom => by
    obtain ⟨len, hlen⟩ := run (@Short.read _ n h) (hroom.2 _ rfl)
    exact ⟨len, fun hf => hlen (hf.2 _ rfl)⟩

end Short

namespace Queued

/-- In a run of whole reads, a further read is answered right whatever it asks for. -/
theorem run : ∀ {calls : List LogCall} {s : Logged} {q : List UInt8}, Queued s q → States Logged.next Room s calls →
    Throughout Logged.next Logged.Whole s calls → ∀ len, Throughout Logged.next Logged.Faithful s (calls ++ [.read len]) ∧
      States Logged.next (fun s => s.returned <+: s.written) s (calls ++ [.read len])
  | [], s, _, h, _, _, len => by
    refine ⟨⟨h.read_faithful len, fun _ _ => trivial⟩, h.isPrefix, fun s' he => ?_⟩
    obtain rfl : s.step (.read len) = s' := Option.some.inj he
    exact h.read_prefix len
  | .write t :: calls, s, _, h, hroom, hw, len => by
    have hnext := hroom.2 _ rfl
    obtain ⟨hf, hp⟩ := run (h.write hnext.start) hnext (hw.2 _ rfl) len
    refine ⟨⟨trivial, fun s' he => ?_⟩, h.isPrefix, fun s' he => ?_⟩
    · obtain rfl : s.step (.write t) = s' := Option.some.inj he
      exact hf
    · obtain rfl : s.step (.write t) = s' := Option.some.inj he
      exact hp
  | .read n :: calls, s, _, h, hroom, hw, len => by
    obtain ⟨hf, hp⟩ := run (h.read hw.1) (hroom.2 _ rfl) (hw.2 _ rfl) len
    refine ⟨⟨h.read_faithful n, fun s' he => ?_⟩, h.isPrefix, fun s' he => ?_⟩
    · obtain rfl : s.step (.read n) = s' := Option.some.inj he
      exact hf
    · obtain rfl : s.step (.read n) = s' := Option.some.inj he
      exact hp

/-- If every further read is answered right, the reads before were whole. -/
theorem whole : ∀ {calls : List LogCall} {s : Logged} {q : List UInt8}, Queued s q → States Logged.next Room s calls →
    (∀ len, Throughout Logged.next Logged.Faithful s (calls ++ [.read len])) → Throughout Logged.next Logged.Whole s calls
  | [], _, _, _, _, _ => trivial
  | .write t :: calls, s, _, h, hroom, hf => by
    have hnext := hroom.2 _ rfl
    refine ⟨trivial, fun s' he => ?_⟩
    obtain rfl : s.step (.write t) = s' := Option.some.inj he
    exact whole (h.write hnext.start) hnext fun len => (hf len).2 _ rfl
  | .read n :: calls, s, _, h, hroom, hf => by
    have hnext := hroom.2 _ rfl
    by_cases hn : s.unread ≤ n
    · refine ⟨hn, fun s' he => ?_⟩
      obtain rfl : s.step (.read n) = s' := Option.some.inj he
      exact whole (h.read hn) hnext fun len => (hf len).2 _ rfl
    · obtain ⟨len, hlen⟩ := (@Queued.short _ _ n h (by omega)).run hnext
      exact absurd ((hf len).2 _ rfl) hlen

end Queued

/-- **The log is a queue exactly as long as every read takes all**: a run in which never more than 1023 bytes are unread,
and any read after it, lose nothing if and only if each read of the run asks for at least what is unread. -/
theorem kernelLog_fifo {calls : List LogCall} (hroom : States Logged.next Room .init calls) :
    (∀ len, Fifo (calls ++ [.read len])) ↔ Throughout Logged.next Logged.Whole .init calls := by
  constructor
  · intro hf
    exact Queued.init.whole hroom fun len => (hf len).1
  · intro hw len
    exact Queued.init.run hroom hw len

/-- Two writes before one read, and another read. -/
theorem kernelLog_twoWrites : Fifo ([.write [0x61, 0x62], .write [0x63], .read 128] ++ [.read 128]) :=
  (@kernelLog_fifo [.write [0x61, 0x62], .write [0x63], .read 128] (by decide)).mpr (by decide) 128

/-- After a read of one of two bytes the other is not returned. -/
theorem kernelLog_partialRead : States Logged.next Room .init [.write [0x61, 0x62], .read 1, .read 1] ∧
    ¬ Fifo [.write [0x61, 0x62], .read 1, .read 1] :=
  ⟨by decide, fun h => absurd h.1 (by decide)⟩

end KinOS.Log
