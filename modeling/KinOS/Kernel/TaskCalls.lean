import KinOS.Kernel.Ipc
import KinOS.Servers.Loading

/-!
# The system calls that name a task

| here | there |
| --- | --- |
| `Result`              | `syscall::Result` (`kernel/syscall.cpp:19-22`) |
| `copyToTaskBufferCall` | `syscall::CopyToTaskBuffer` (`syscall.cpp:74-85`) over `TaskManager::CopyToTaskBuffer` (`task.cpp:206-221`) |
| `findTaskId`          | `Task *TaskManager::FindTask(uint64_t)` (`task.cpp:188-193`) |
| `strcpy`              | `strcpy` into a `char[32]` |
| `Tasks`               | the tasks with their `command_` and `arg_` (`task.hpp:34-35`) |
| `setCommand`, `setArgument` | `syscall::SetCommand`, `syscall::SetArgument` (`syscall.cpp:87-113`) |
| `sendMessageCall`     | `syscall::SendMessage` (`syscall.cpp:197-214`) |

Each call looks its task up in `tasks_` and has its own way to say that there is none: `CopyToTaskBuffer` by -1, `FindTask`
by a null pointer that it never returns, `SendMessage` by an error code that its caller drops. `none` is undefined
behaviour: `it->get()` for `it == tasks_.end()`, or a copy to where the array is not.
-/

namespace KinOS

open Bytes

/-- `syscall::Result`. -/
structure Result where
  value : UInt64
  error : Int
deriving DecidableEq, Repr

def ESRCH : Int := 3

def EFBIG : Int := 27

/-! ## `CopyToTaskBuffer` -/

def copyToTaskBufferCall (tm : TaskManager) (id : UInt64) (buf : Mem) (offset len : UInt64) :
    Option (TaskManager × Result) :=
  (tm.copyToTaskBuffer id buf offset.toNat len.toNat).map fun (tm, remainBytes) =>
    if remainBytes = -1 then (tm, ⟨0, EFBIG⟩) else (tm, ⟨UInt64.ofNat (asSize remainBytes), 0⟩)

/-- `buf_.resize(bytes)` with a `uint32_t`: what every buffer's size is. -/
def BuffersSized (tm : TaskManager) : Prop := ∀ t ∈ tm.tasks, t.buf.length < 2 ^ 32

/-- The copy is inside the target's buffer and done, or it is refused and nothing is written. -/
def CopiesInBounds (tm : TaskManager) (id : UInt64) (buf : Mem) (offset len : UInt64) : Prop :=
  (∃ (t : Task) (write : List UInt8 → List UInt8), tm.find id = some t ∧ offset.toNat + len.toNat ≤ t.buf.length ∧
    copyToTaskBufferCall tm id buf offset len = some (tm.modify t.ptr fun u => { u with buf := write u.buf },
      ⟨UInt64.ofNat (t.buf.length - (offset.toNat + len.toNat)), 0⟩) ∧
    (write t.buf).length = t.buf.length ∧ ∀ i, (write t.buf)[i]? =
      if offset.toNat ≤ i ∧ i < offset.toNat + len.toNat then some (buf (i - offset.toNat)) else t.buf[i]?) ∨
  ∃ v, copyToTaskBufferCall tm id buf offset len = some (tm, ⟨v, EFBIG⟩)

/-- By how much the end of the copy is behind the end of the buffer, in 32 bits: what the `int` shows as negative. -/
def Seen (size stop : Nat) : Prop := stop ≤ size ∨ (1 ≤ (stop - size) % 2 ^ 32 ∧ (stop - size) % 2 ^ 32 ≤ 2 ^ 31)

section Copy

variable {tm : TaskManager} {id : UInt64} {t : Task}

/-- Neither call makes a buffer of 4 GiB. -/
theorem BuffersSized.expand (h : BuffersSized tm) (bytes : UInt32) : BuffersSized (tm.expandTaskBuffer id bytes).1 := by
  unfold TaskManager.expandTaskBuffer
  cases hf : tm.find id with
  | none => exact h
  | some t =>
    intro u hu
    obtain ⟨v, hv, rfl⟩ := TaskManager.mem_modify.mp hu
    have hb := bytes.toNat_lt
    split
    · simp only [resize, List.length_append, List.length_take, List.length_replicate]
      omega
    · exact h v hv

theorem BuffersSized.copy (h : BuffersSized tm) {buf : Mem} {offset len : UInt64} {tm' : TaskManager} {r : Result}
    (hc : copyToTaskBufferCall tm id buf offset len = some (tm', r)) : BuffersSized tm' := by
  obtain ⟨⟨tm1, x⟩, hcopy, hr⟩ := Option.map_eq_some_iff.mp hc
  have htm : tm1 = tm' := by
    dsimp only at hr
    split at hr <;> cases hr <;> rfl
  subst htm
  unfold TaskManager.copyToTaskBuffer at hcopy
  cases hf : tm.find id with
  | none =>
    rw [hf] at hcopy
    cases hcopy
    exact h
  | some t =>
    simp only [hf] at hcopy
    split at hcopy
    · cases hcopy
      exact h
    · split at hcopy
      · cases hcopy
        exact h
      · split at hcopy
        · rename_i hin
          cases hcopy
          intro u hu
          obtain ⟨v, hv, rfl⟩ := TaskManager.mem_modify.mp hu
          have hvl := h v hv
          have htl := h t (TaskManager.find_some hf).1
          split
          · simp only [overwrite, List.length_append, List.length_take, List.length_drop, List.length_map, List.length_range]
            omega
          · exact hvl
        · cases hcopy

theorem overwrite_getElem? {l : List UInt8} {off n : Nat} {f : Mem} (h : off + n ≤ l.length) (i : Nat) :
    (overwrite l off ((List.range n).map f))[i]? = if off ≤ i ∧ i < off + n then some (f (i - off)) else l[i]? := by
  unfold overwrite
  rw [List.append_assoc, List.getElem?_append, List.length_take, Nat.min_eq_left (by omega)]
  by_cases h1 : i < off
  · rw [if_pos h1, if_neg (by omega), List.getElem?_take_of_lt h1]
  · rw [if_neg h1, List.getElem?_append, List.length_map, List.length_range]
    by_cases h2 : i - off < n
    · rw [if_pos h2, if_pos (by omega), List.getElem?_map, List.getElem?_range h2, Option.map_some]
    · rw [if_neg h2, if_neg (by omega), List.getElem?_drop]
      congr 1
      omega

/-- `remain_bytes`. -/
def remainBytes (size stop : Nat) : Int := asInt ((size + 2 ^ 64 - stop % 2 ^ 64) % 2 ^ 64)

theorem seen_iff {size stop : Nat} (h : size < 2 ^ 32) : Seen size stop ↔ stop ≤ size ∨ remainBytes size stop < 0 := by
  unfold Seen remainBytes asInt
  omega

theorem remainBytes_inside {size stop : Nat} (h : size < 2 ^ 32) (hin : stop ≤ size) (hpos : ¬ remainBytes size stop < 0) :
    asSize (remainBytes size stop) = size - stop := by
  unfold remainBytes asInt at *
  unfold asSize
  omega

section Call

variable {buf : Mem} {offset len : UInt64} (hf : tm.find id = some t)
include hf

theorem call_refused (hneg : remainBytes t.buf.length (offset.toNat + len.toNat) < 0) :
    copyToTaskBufferCall tm id buf offset len = some (tm, ⟨0, EFBIG⟩) := by
  have hcopy : tm.copyToTaskBuffer id buf offset.toNat len.toNat = some (tm, -1) := by
    simp only [TaskManager.copyToTaskBuffer, hf]
    exact if_pos hneg
  simp [copyToTaskBufferCall, hcopy]

/-- What is not refused and not empty is copied inside the buffer, or not to the buffer. -/
theorem call_copies (hpos : ¬ remainBytes t.buf.length (offset.toNat + len.toNat) < 0) :
    copyToTaskBufferCall tm id buf offset len =
      if len.toNat = 0 ∨ offset.toNat + len.toNat ≤ t.buf.length then
        some (tm.modify t.ptr fun t => { t with buf := overwrite t.buf offset.toNat ((List.range len.toNat).map buf) },
          ⟨UInt64.ofNat (asSize (remainBytes t.buf.length (offset.toNat + len.toNat))), 0⟩)
      else none := by
  have hne : remainBytes t.buf.length (offset.toNat + len.toNat) ≠ -1 := by omega
  have hcopy : tm.copyToTaskBuffer id buf offset.toNat len.toNat =
      if len.toNat = 0 then some (tm, remainBytes t.buf.length (offset.toNat + len.toNat))
      else if offset.toNat + len.toNat ≤ t.buf.length then
        some (tm.modify t.ptr fun t => { t with buf := overwrite t.buf offset.toNat ((List.range len.toNat).map buf) },
          remainBytes t.buf.length (offset.toNat + len.toNat))
      else none := by
    simp only [TaskManager.copyToTaskBuffer, hf]
    exact if_neg hpos
  unfold copyToTaskBufferCall
  rw [hcopy]
  by_cases hlen : len.toNat = 0
  · -- no byte is written
    have hsame : (tm.modify t.ptr fun t => { t with
        buf := overwrite t.buf offset.toNat ((List.range len.toNat).map buf) }) = tm := by
      simp [hlen, overwrite_nil, TaskManager.modify]
    rw [if_pos hlen, if_pos (.inl hlen), hsame]
    exact congrArg some (if_neg hne)
  · by_cases hin : offset.toNat + len.toNat ≤ t.buf.length
    · simp [hlen, hin, hne]
    · simp [hlen, hin]

end Call

/-- **Copies into a task's buffer.** A copy is refused or inside the buffer if and only if it ends in the buffer, or the
`int` shows by its sign that it does not. -/
theorem copy_in_bounds_iff (h : BuffersSized tm) (buf : Mem) (offset len : UInt64) :
    CopiesInBounds tm id buf offset len ↔ ∀ t, tm.find id = some t → Seen t.buf.length (offset.toNat + len.toNat) := by
  cases hf : tm.find id with
  | none =>
    have hcopy : copyToTaskBufferCall tm id buf offset len = some (tm, ⟨0, EFBIG⟩) := by
      simp [copyToTaskBufferCall, copy_none hf]
    simp only [reduceCtorEq, false_implies, implies_true, iff_true]
    exact .inr ⟨0, hcopy⟩
  | some t =>
    have hsize := h t (TaskManager.find_some hf).1
    simp only [Option.some.injEq, forall_eq', seen_iff hsize]
    by_cases hneg : remainBytes t.buf.length (offset.toNat + len.toNat) < 0
    · simp only [hneg, or_true, iff_true]
      exact .inr ⟨0, call_refused hf hneg⟩
    · simp only [hneg, or_false]
      have hcall := @call_copies tm id t buf offset len hf hneg
      constructor
      · rintro (⟨t', write, ht', hin, -⟩ | ⟨v, hv⟩)
        · rw [hf] at ht'
          cases ht'
          exact hin
        · rw [hcall] at hv
          split at hv
          · simp [EFBIG] at hv
          · simp at hv
      · intro hin
        refine .inl ⟨t, fun b => overwrite b offset.toNat ((List.range len.toNat).map buf), hf, hin, ?_, ?_,
          overwrite_getElem? hin⟩
        · rw [hcall, if_pos (.inr hin), remainBytes_inside hsize hin hneg]
        · exact overwrite_length (by simpa using hin)

/-- The system task with a buffer of ten bytes. -/
def tenBytes : TaskManager := (TaskManager.boot.expandTaskBuffer 1 10).1

theorem tenBytes_sized : BuffersSized tenBytes := by
  apply BuffersSized.expand
  intro t ht
  rw [TaskManager.boot_tasks] at ht
  simp at ht
  rcases ht with rfl | rfl <;> simp

theorem tenBytes_find : ∃ t, tenBytes.find 1 = some t ∧ t.buf.length = 10 := by
  have hlen : (tenBytes.find 1).map (fun t => t.buf.length) = some 10 := by decide
  simpa using hlen

/-- Bytes 2 to 5 of a buffer of ten. -/
theorem copy_in_bounds_ten : CopiesInBounds tenBytes 1 (fun _ => 7) 2 3 := by
  refine (copy_in_bounds_iff tenBytes_sized (fun _ => 7) 2 3).mpr fun t ht => ?_
  obtain ⟨u, hu, hlen⟩ := tenBytes_find
  rw [ht] at hu
  cases hu
  rw [hlen]
  exact .inl (by decide)

/-- One byte at the last of 2 ^ 64 places: the sum is 0, and the byte goes to in front of the buffer. -/
theorem copy_out_of_bounds : ¬ CopiesInBounds tenBytes 1 (fun _ => 7) 0xffffffffffffffff 1 := by
  obtain ⟨t, ht, hlen⟩ := tenBytes_find
  have hcall : copyToTaskBufferCall tenBytes 1 (fun _ => 7) 0xffffffffffffffff 1 = none := by
    rw [call_copies ht (by rw [hlen]; decide), hlen, if_neg (by decide)]
  unfold CopiesInBounds
  simp [hcall]

end Copy

/-! ## `SetCommand`, `SetArgument` -/

/-- A NUL-terminated string, without its terminator. -/
structure CString where
  chars : List UInt8
  noNul : 0 ∉ chars

/-- A `char[32]`. -/
abbrev Field := Vector UInt8 32

/-- The string in the array. -/
def Field.str (f : Field) : List UInt8 := f.toList.takeWhile (· ≠ 0)

/-- `strcpy` into a `char[32]`. -/
def strcpy (dst : Field) (src : CString) : Option Field :=
  if src.chars.length < 32 then
    some (Vector.ofFn fun i => if i.val = src.chars.length then 0 else src.chars.getD i dst[i])
  else none

/-- The tasks, with `command_` and `arg_` of each. -/
structure Tasks where
  tm : TaskManager
  command : Ptr → Field
  arg : Ptr → Field

/-- `FindTask(uint64_t)`: what `it->get()` gives for `it == tasks_.end()` is undefined. -/
def TaskManager.findTaskId (tm : TaskManager) (id : UInt64) : Option (Option Ptr) :=
  match tm.find id with
  | none => none
  | some t => some (some t.ptr)

/-- What `SetCommand` and `SetArgument` share: `field` is what they copy to. -/
def setString (tm : TaskManager) (field : Ptr → Field) (id : UInt64) (str : CString) :
    Option ((Ptr → Field) × Result) := do
  let task ← tm.findTaskId id
  match task with
  | none => return (field, ⟨0, ESRCH⟩)
  | some p =>
    let f ← strcpy (field p) str
    return (Function.update field p f, ⟨0, 0⟩)

def setCommand (s : Tasks) (id : UInt64) (command : CString) : Option (Tasks × Result) :=
  (setString s.tm s.command id command).map fun (f, r) => ({ s with command := f }, r)

def setArgument (s : Tasks) (id : UInt64) (arg : CString) : Option (Tasks × Result) :=
  (setString s.tm s.arg id arg).map fun (f, r) => ({ s with arg := f }, r)

/-- `task` is the task that makes the call. -/
def sendMessageCall (tm : TaskManager) (task : Task) (msg : Message) (id : UInt64) : Option (TaskManager × Result) := do
  let (tm, _) ← tm.sendMessage id { msg with srcTask := task.id }
  return (tm, ⟨0, 0⟩)

/-- A live task has the id. -/
def TaskManager.HasTask (tm : TaskManager) (id : UInt64) : Prop := ∃ t ∈ tm.tasks, t.id = id

instance (tm : TaskManager) (id : UInt64) : Decidable (tm.HasTask id) :=
  inferInstanceAs (Decidable (∃ t ∈ tm.tasks, t.id = id))

/-- A call that is to put a string in a field of a task: without the task or without room it reports an error and changes
nothing, and otherwise the string is in the field of that task, and of no other. `set` puts the fields back in their
place. -/
def StoresString (s : Tasks) (field : Ptr → Field) (set : (Ptr → Field) → Tasks) (id : UInt64) (str : CString)
    (called : Option (Tasks × Result)) : Prop :=
  (¬ s.tm.HasTask id → called = some (s, ⟨0, ESRCH⟩)) ∧
  (∀ t, s.tm.find id = some t → str.chars.length < 32 → ∃ f, called = some (set f, ⟨0, 0⟩) ∧
    (f t.ptr).str = str.chars ∧ ∀ p, p ≠ t.ptr → f p = field p) ∧
  (s.tm.HasTask id → 32 ≤ str.chars.length → ∃ r, called = some (s, r) ∧ r.error ≠ 0)

/-- A call that is to send a message: its error says that there is no such task, and then nothing changes. -/
def ReportsMissing (tm : TaskManager) (id : UInt64) (called : Option (TaskManager × Result)) : Prop :=
  ∃ tm' r, called = some (tm', r) ∧ (r.error ≠ 0 ↔ ¬ tm.HasTask id) ∧ (¬ tm.HasTask id → tm' = tm)

section Calls

variable {tm : TaskManager} {id : UInt64}

theorem hasTask_iff : tm.HasTask id ↔ ∃ t, tm.find id = some t := by
  constructor
  · rintro ⟨t, ht, rfl⟩
    cases hf : tm.find t.id with
    | some u => exact ⟨u, rfl⟩
    | none =>
      have := List.find?_eq_none.mp hf t ht
      simp at this
  · rintro ⟨t, hf⟩
    exact ⟨t, TaskManager.find_some hf⟩

theorem strcpy_str {dst : Field} {src : CString} (h : src.chars.length < 32) :
    ∃ f, strcpy dst src = some f ∧ Field.str f = src.chars := by
  refine ⟨_, if_pos h, ?_⟩
  -- the characters, the terminator, and what was there before
  have hlist : ∃ rest, (Vector.ofFn fun i : Fin 32 =>
      if i.val = src.chars.length then 0 else src.chars.getD i dst[i]).toList = src.chars ++ 0 :: rest := by
    refine ⟨dst.toList.drop (src.chars.length + 1), List.ext_getElem (by simp; omega) fun i h1 h2 => ?_⟩
    simp only [Vector.toList_ofFn, List.length_ofFn] at h1
    simp only [Vector.toList_ofFn, List.getElem_ofFn]
    rcases Nat.lt_trichotomy i src.chars.length with hlt | rfl | hgt
    · rw [if_neg (by omega), List.getElem_append_left hlt]
      simp [hlt]
    · simp
    · rw [if_neg (by omega), List.getElem_append_right (by omega), List.getElem_cons,
        dif_neg (by omega), List.getElem_drop]
      simp [Nat.not_lt.mpr (Nat.le_of_lt hgt)]
      congr 1
      omega
  obtain ⟨rest, hrest⟩ := hlist
  unfold Field.str
  rw [hrest, List.takeWhile_append_of_pos fun c hc => ?_]
  · simp
  · have := src.noNul
    simp
    rintro rfl
    exact this hc

theorem storesString_iff (s : Tasks) (field : Ptr → Field) (set : (Ptr → Field) → Tasks) (str : CString) :
    StoresString s field set id str ((setString s.tm field id str).map fun (f, r) => (set f, r)) ↔
      s.tm.HasTask id ∧ str.chars.length < 32 := by
  unfold StoresString setString TaskManager.findTaskId
  cases hf : s.tm.find id with
  | none =>
    have hno : ¬ s.tm.HasTask id := by
      rw [hasTask_iff]
      simp [hf]
    simp [hno]
  | some t =>
    have hyes : s.tm.HasTask id := hasTask_iff.mpr ⟨t, hf⟩
    by_cases hlen : str.chars.length < 32
    · obtain ⟨f, hcopy, hstr⟩ := @strcpy_str (field t.ptr) str hlen
      simp only [hyes, hlen, and_self, iff_true]
      refine ⟨fun h => absurd trivial h, fun u hu _ => ?_, fun _ h => absurd hlen (Nat.not_lt.mpr h)⟩
      cases hu
      refine ⟨Function.update field t.ptr f, by simp [hcopy], ?_, fun p hp => ?_⟩
      · rwa [Function.update_self]
      · rw [Function.update_of_ne hp]
    · have hcopy : strcpy (field t.ptr) str = none := if_neg hlen
      simp [hyes, hlen, hcopy, Nat.not_lt.mp hlen]

theorem sendMessage_sends {t : Task} (hf : tm.find id = some t) (msg : Message) :
    ∃ tm', tm.sendMessage id msg = some (tm', .kSuccess) := by
  have hlive : (tm.modify t.ptr fun t => { t with msgs := t.msgs ++ [msg] }).Live t.ptr :=
    ⟨_, TaskManager.mem_modify.mpr ⟨t, (TaskManager.find_some hf).1, rfl⟩, by simp⟩
  obtain ⟨u, hu⟩ := TaskManager.deref_isSome hlive
  simp only [TaskManager.sendMessage, hf, TaskManager.taskSendMessage, TaskManager.wakeup, hu, Option.bind_eq_bind,
    Option.bind_some, TaskManager.changeLevelRunning]
  by_cases hrun : u.running = true
  · simp [hrun]
  · simp [hrun]

theorem reportsMissing_iff (task : Task) (msg : Message) :
    ReportsMissing tm id (sendMessageCall tm task msg id) ↔ tm.HasTask id := by
  unfold ReportsMissing sendMessageCall
  cases hf : tm.find id with
  | none =>
    have hno : ¬ tm.HasTask id := by
      rw [hasTask_iff]
      simp [hf]
    simp [hno, TaskManager.sendMessage_none hf]
  | some t =>
    have hyes : tm.HasTask id := hasTask_iff.mpr ⟨t, hf⟩
    obtain ⟨tm', hsend⟩ := sendMessage_sends hf { msg with srcTask := task.id }
    simp [hyes, hsend]

/-- **Calls on a task that is not there.** `SetCommand` and `SetArgument` do what they are to if and only if the task
is there and the string has room, and `SendMessage` if and only if the task is there. -/
theorem task_calls_iff (s : Tasks) (task : Task) (msg : Message) (id : UInt64) (str : CString) :
    (StoresString s s.command (fun f => { s with command := f }) id str (setCommand s id str) ↔
      s.tm.HasTask id ∧ str.chars.length < 32) ∧
    (StoresString s s.arg (fun f => { s with arg := f }) id str (setArgument s id str) ↔
      s.tm.HasTask id ∧ str.chars.length < 32) ∧
    (ReportsMissing s.tm id (sendMessageCall s.tm task msg id) ↔ s.tm.HasTask id) :=
  ⟨storesString_iff s s.command _ str, storesString_iff s s.arg _ str, reportsMissing_iff task msg⟩

/-- The tasks at boot, with empty fields. -/
def bootTasks : Tasks := ⟨TaskManager.boot, fun _ => Vector.replicate 32 0, fun _ => Vector.replicate 32 0⟩

/-- With the id 7, which no task has, `SetCommand` follows the pointer behind the last task and a message gets lost
without an error; and the system task has no room for 32 characters and their terminator. -/
theorem task_calls_broken :
    ¬ StoresString bootTasks bootTasks.command (fun f => { bootTasks with command := f }) 7 ⟨[97], by decide⟩
      (setCommand bootTasks 7 ⟨[97], by decide⟩) ∧
    ¬ StoresString bootTasks bootTasks.arg (fun f => { bootTasks with arg := f }) 1 ⟨List.replicate 32 97, by decide⟩
      (setArgument bootTasks 1 ⟨List.replicate 32 97, by decide⟩) ∧
    ¬ ReportsMissing bootTasks.tm 7 (sendMessageCall bootTasks.tm { ptr := 0, id := 1 } ⟨.kReady, 0, .unset⟩ 7) := by
  refine ⟨fun h => ?_, fun h => ?_, fun h => ?_⟩
  · have := ((storesString_iff ..).mp h).1
    revert this
    decide
  · have := ((storesString_iff ..).mp h).2
    simp at this
  · have := (reportsMissing_iff ..).mp h
    revert this
    decide

end Calls

end KinOS
