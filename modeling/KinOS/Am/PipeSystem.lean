import KinOS.Lib.TransitionSystem
import KinOS.Am.Pipe

/-!
# A writer, the application manager and a reader

| here | there |
| --- | --- |
| `Call`, `Call.take`        | the loops of `read` and `write` (`libs/kinos/common/newlib_support.c:123-221`) and of `TaskApp` (`kernel/system.cpp:326-371`) on one message |
| `nextChunk`                | the body of the loop of `write` up to `SyscallSendMessage` |
| `Event.write`, `Event.read` | a call, up to its first receive |
| `Event.exitWriter`, `Event.exitReader` | `TaskApp` once the application has returned |
| `Event.am`                 | the application manager on the next message of its queue, in any receive |

Two tasks share a pipe: file 1 of the writer and file 0 of the reader (`StartTaskState`). Their messages and the
answers travel in three queues. In between the application manager does whatever other tasks ask of it: `Elsewhere` is
what such a step leaves alone, and a message of the two may find it in a closed receive.
-/

namespace KinOS.Am

/-! ## The C library, from one receive to the next -/

/-- The bytes of `smsg` that the next round of `write` sets; the others stay. -/
def nextChunk (smsg : WriteArg) (bs : List UInt8) : WriteArg :=
  { smsg with
    len := .ofNat (min 16 bs.length)
    data := Vector.ofFn fun i => (bs[i.val]?).getD (smsg.data.get i) }

/-- Where a task waits for an answer: in `write` with the message it sent, what is left and the size of the call, in
`read` with the message and what it has, or in `TaskApp`. -/
inductive Call
  | idle
  | writing (smsg : WriteArg) (left : List UInt8) (count : Nat)
  | reading (smsg : Message) (got : List UInt8)
  | exiting (msg : Message)
  | finished
deriving DecidableEq

inductive Result
  | wrote (count : Nat)
  | got (bs : List UInt8)
  | failed
deriving DecidableEq

/-- The bytes that a finished `read` has put into the buffer. -/
def Result.bytes : Result → List UInt8
  | .got bs => bs
  | _ => []

namespace Call

/-- Those of an unfinished one. -/
def got : Call → List UInt8
  | .reading _ got => got
  | _ => []

def ended : Call → Bool
  | .exiting _ | .finished => true
  | _ => false

/-- The task `t` takes a message from the application manager: where it waits then, what it sends and what a call
returns. -/
def take (t : UInt64) (m : Message) : Call → Call × List Message × List Result
  | .writing smsg left count =>
    if m.type = .kError then
      if m.errorRetry then (.writing smsg left count, [⟨.kWrite, t, .write smsg⟩], []) else (.idle, [], [.failed])
    else if m.type = .kReceived then
      if smsg.len = 0 then (.idle, [], [.wrote count])
      else (.writing (nextChunk smsg left) (left.drop 16) count, [⟨.kWrite, t, .write (nextChunk smsg left)⟩], [])
    else (.writing smsg left count, [], [])
  | .reading smsg got =>
    if m.type = .kError then if m.errorRetry then (.reading smsg got, [smsg], []) else (.idle, [], [.failed])
    else if m.type = .kRead then
      if (readArg m).len ≠ 0 then (.reading smsg (got ++ dataBytes m), [], []) else (.idle, [], [.got got])
    else (.reading smsg got, [], [])
  | .exiting msg =>
    if m.type = .kError then (.exiting msg, if m.errorRetry then [msg] else [], [])
    else if m.type = .kReceived then (.finished, [], []) else (.exiting msg, [], [])
  | c => (c, [], [])

def waits : Call → Bool
  | .idle | .finished => false
  | _ => true

end Call

/-! ## The system -/

structure Duct where
  server : Server
  writer : Call
  reader : Call
  toAm : List Message
  toWriter : List Message
  toReader : List Message
  /-- all that the writer has passed to `write` -/
  given : List UInt8
  /-- what the calls of `write` and of `read` have returned -/
  wlog : List Result
  rlog : List Result

/-- The kernel puts the sender's id into `src_task`. -/
def writeMsg (t : UInt64) (smsg : WriteArg) : Message := ⟨.kWrite, t, .write smsg⟩

def exitMsg (t ec : UInt64) : Message := ⟨.kExitApp, t, .exitapp t ec⟩

/-- The application manager may take the message: it is in its open receive, or in a closed one on another task. -/
def Server.Meets (s : Server) (w : Wait) (m : Message) : Prop :=
  w = .receive .init ∨ (s.source w).any (· ≠ m.srcTask) = true

instance (s : Server) (w : Wait) (m : Message) : Decidable (s.Meets w m) := inferInstanceAs (Decidable (_ ∨ _))

namespace Duct

inductive Event
  /-- `write(1, buf, count)`; `stack` is what `smsg` held -/
  | write (stack : WriteArg) (bs : List UInt8)
  /-- `read(0, buf, count)` -/
  | read (stack : ReadArg) (count : UInt64)
  | exitWriter (ec : UInt64)
  | exitReader (ec : UInt64)
  | writerTakes
  | readerTakes
  | am (env : Env) (w : Wait)

/-- All that the reader has received. -/
def received (x : Duct) : List UInt8 := x.rlog.flatMap Result.bytes ++ x.reader.got

variable (wId rId : UInt64)

/-- One step of one of the three; `none` when it cannot be taken, or when C++ leaves it undefined. -/
def next (x : Duct) : Event → Option Duct
  | .write stack bs =>
    if x.writer = .idle then
      let smsg := nextChunk { stack with fd := 1, count := .ofNat bs.length } bs
      some { x with
        writer := .writing smsg (bs.drop 16) bs.length
        toAm := x.toAm ++ [writeMsg wId smsg]
        given := x.given ++ bs }
    else none
  | .read stack count =>
    if x.reader = .idle then
      let smsg := readRequest rId 0 count stack
      some { x with reader := .reading smsg [], toAm := x.toAm ++ [smsg] }
    else none
  | .exitWriter ec =>
    if x.writer = .idle then
      some { x with writer := .exiting (exitMsg wId ec), toAm := x.toAm ++ [exitMsg wId ec] }
    else none
  | .exitReader ec =>
    if x.reader = .idle then
      some { x with reader := .exiting (exitMsg rId ec), toAm := x.toAm ++ [exitMsg rId ec] }
    else none
  | .writerTakes =>
    match x.toWriter with
    | [] => none
    | m :: ms =>
      if x.writer.waits then
        let (c, out, res) := x.writer.take wId m
        some { x with writer := c, toWriter := ms, toAm := x.toAm ++ out, wlog := x.wlog ++ res }
      else none
  | .readerTakes =>
    match x.toReader with
    | [] => none
    | m :: ms =>
      if x.reader.waits then
        let (c, out, res) := x.reader.take rId m
        some { x with reader := c, toReader := ms, toAm := x.toAm ++ out, rlog := x.rlog ++ res }
      else none
  | .am env w =>
    match x.toAm with
    | [] => none
    | m :: ms =>
      if x.server.Meets w m then
        match Server.deliver env w m x.server with
        | .ok _ s =>
          let out := s.sent.drop x.server.sent.length
          some { x with
            server := s
            toAm := ms
            toWriter := x.toWriter ++ sentTo wId out
            toReader := x.toReader ++ sentTo rId out }
        | .error _ _ => none
      else none

/-! What each of the events does. -/

section Next

variable {wId rId : UInt64} {x x' : Duct}

theorem next_write {stack : WriteArg} {bs : List UInt8} (hx : x.next wId rId (.write stack bs) = some x') :
    x.writer = .idle ∧ x' = { x with
      writer := .writing (nextChunk { stack with fd := 1, count := .ofNat bs.length } bs) (bs.drop 16) bs.length
      toAm := x.toAm ++ [writeMsg wId (nextChunk { stack with fd := 1, count := .ofNat bs.length } bs)]
      given := x.given ++ bs } := by
  simp only [next] at hx
  split at hx
  · next hidle => exact ⟨hidle, (Option.some.inj hx).symm⟩
  · cases hx

theorem next_read {stack : ReadArg} {count : UInt64} (hx : x.next wId rId (.read stack count) = some x') :
    x.reader = .idle ∧ x' = { x with
      reader := .reading (readRequest rId 0 count stack) []
      toAm := x.toAm ++ [readRequest rId 0 count stack] } := by
  simp only [next] at hx
  split at hx
  · next hidle => exact ⟨hidle, (Option.some.inj hx).symm⟩
  · cases hx

theorem next_exitWriter {ec : UInt64} (hx : x.next wId rId (.exitWriter ec) = some x') :
    x.writer = .idle ∧ x' = { x with writer := .exiting (exitMsg wId ec), toAm := x.toAm ++ [exitMsg wId ec] } := by
  simp only [next] at hx
  split at hx
  · next hidle => exact ⟨hidle, (Option.some.inj hx).symm⟩
  · cases hx

theorem next_exitReader {ec : UInt64} (hx : x.next wId rId (.exitReader ec) = some x') :
    x.reader = .idle ∧ x' = { x with reader := .exiting (exitMsg rId ec), toAm := x.toAm ++ [exitMsg rId ec] } := by
  simp only [next] at hx
  split at hx
  · next hidle => exact ⟨hidle, (Option.some.inj hx).symm⟩
  · cases hx

theorem next_writerTakes (hx : x.next wId rId .writerTakes = some x') :
    ∃ m ms, x.toWriter = m :: ms ∧ x.writer.waits = true ∧ x' = { x with
      writer := (x.writer.take wId m).1
      toWriter := ms
      toAm := x.toAm ++ (x.writer.take wId m).2.1
      wlog := x.wlog ++ (x.writer.take wId m).2.2 } := by
  simp only [next] at hx
  cases htw : x.toWriter with
  | nil =>
    rw [htw] at hx
    cases hx
  | cons m ms =>
    rw [htw] at hx
    simp only at hx
    split at hx
    · next hwaits => exact ⟨m, ms, rfl, hwaits, (Option.some.inj hx).symm⟩
    · cases hx

theorem next_readerTakes (hx : x.next wId rId .readerTakes = some x') :
    ∃ m ms, x.toReader = m :: ms ∧ x.reader.waits = true ∧ x' = { x with
      reader := (x.reader.take rId m).1
      toReader := ms
      toAm := x.toAm ++ (x.reader.take rId m).2.1
      rlog := x.rlog ++ (x.reader.take rId m).2.2 } := by
  simp only [next] at hx
  cases htr : x.toReader with
  | nil =>
    rw [htr] at hx
    cases hx
  | cons m ms =>
    rw [htr] at hx
    simp only at hx
    split at hx
    · next hwaits => exact ⟨m, ms, rfl, hwaits, (Option.some.inj hx).symm⟩
    · cases hx

theorem next_am {env : Env} {w : Wait} (hx : x.next wId rId (.am env w) = some x') :
    ∃ m ms w' s, x.toAm = m :: ms ∧ x.server.Meets w m ∧ Server.deliver env w m x.server = .ok w' s ∧ x' = { x with
      server := s
      toAm := ms
      toWriter := x.toWriter ++ sentTo wId (s.sent.drop x.server.sent.length)
      toReader := x.toReader ++ sentTo rId (s.sent.drop x.server.sent.length) } := by
  simp only [next] at hx
  cases ham : x.toAm with
  | nil =>
    rw [ham] at hx
    cases hx
  | cons m ms =>
    rw [ham] at hx
    simp only at hx
    split at hx
    swap
    · cases hx
    next hmeets =>
    cases hd : Server.deliver env w m x.server with
    | error e s =>
      rw [hd] at hx
      cases hx
    | ok w' s =>
      rw [hd] at hx
      exact ⟨m, ms, w', s, rfl, hmeets, hd, (Option.some.inj hx).symm⟩

end Next

variable (r : Ref)

/-- The two have no other pipe in common, and neither is the other's parent. -/
structure Apart (s : Server) : Prop where
  writer : ∀ q p, Server.Held wId s.apps q → s.objects[q]? = some (.pipe p) → p.id ≠ rId
  reader : ∀ q p, Server.Held rId s.apps q → s.objects[q]? = some (.pipe p) → q = r ∨ p.id ≠ wId
  wParent : getPID s.apps wId ≠ rId
  rParent : getPID s.apps rId ≠ wId

/-- What the application manager does for other tasks. -/
structure Elsewhere (s s' : Server) : Prop where
  pipe : s'.objects[r]? = s.objects[r]?
  writer : getAppInfo s'.apps wId = getAppInfo s.apps wId
  reader : getAppInfo s'.apps rId = getAppInfo s.apps rId
  apart : Apart wId rId r s'

/-- A step of the system whose events meet `P`. -/
inductive Step (P : Event → Prop) (x : Duct) : Duct → Prop
  | own {e : Event} {x' : Duct} (hp : P e) (h : x.next wId rId e = some x') : Step P x x'
  | elsewhere {s : Server} (h : Elsewhere wId rId r x.server s) : Step P x { x with server := s }

/-- As `StartTaskState` leaves it when the reader has been started: the pipe is new and nobody has called anything. -/
structure Start (x : Duct) : Prop where
  ne : wId ≠ rId
  pipe : x.server.objects[r]? = some (.pipe (.new wId))
  apart : Apart wId rId r x.server
  writer : ∃ a, getAppInfo x.server.apps wId = some a ∧ Server.fileAt a 1 = some r
  reader : ∃ a, getAppInfo x.server.apps rId = some a ∧ Server.fileAt a 0 = some r
  calls : x.writer = .idle ∧ x.reader = .idle
  queues : x.toAm = [] ∧ x.toWriter = [] ∧ x.toReader = []
  logs : x.given = [] ∧ x.wlog = [] ∧ x.rlog = []

end Duct

end KinOS.Am
