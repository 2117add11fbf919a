import KinOS.Kernel.TaskInvariant

/-!
# Message passing: the critical sections of the receive system calls (kernel/syscall.cpp:124-195)

`OpenReceiveMessage` and `ClosedReceiveMessage` run the same section at the head of their loops,

    cli; msg = task.ReceiveMessage(); if (!msg && i == 0) { task.Sleep(); continue; } sti

which is `takeMessage`; the closed receive has a second one that answers a message from anyone
but the target with `kError`/`retry`, `errorRetry`. A section runs with interrupts off, so each is
one atomic step wherever system calls interleave.
-/

namespace KinOS.TaskManager

/-- How the section at the loop head ends. -/
inductive Taken
  | slept
  | empty
  | got (m : Message)
deriving DecidableEq, Repr

/-- The section at the head of both receive loops, run by task `p` with `i` messages stored. -/
def takeMessage (tm : TaskManager) (p : Ptr) (i : Nat) : Option (TaskManager × Taken) := do
  let t ← tm.deref p
  let (msg, t') := t.receiveMessage
  match msg with
  | some m => return (tm.modify p fun _ => t', .got m)
  | none =>
    if i = 0 then
      let tm ← tm.sleep p
      return (tm, .slept)
    else return (tm, .empty)

/-- `emsg` of `ClosedReceiveMessage`; the source leaves `err` unset. -/
def errorRetry (id : UInt64) : Message := ⟨.kError, id, .error true 0⟩

/-! ## What the scheduler's operations do to `tasks_` -/

/-- The only task touched is `p`, by `f`; no task is created. -/
structure Touches (tm : TaskManager) (p : Ptr) (f : Task → Task) (tm' : TaskManager) : Prop where
  tasks : tm'.tasks = (tm.modify p f).tasks
  latestId : tm'.latestId = tm.latestId
  nextPtr : tm'.nextPtr = tm.nextPtr

theorem Touches.refl (tm : TaskManager) (p : Ptr) : Touches tm p (fun t => t) tm :=
  ⟨by simp [modify], rfl, rfl⟩

/-- Every task after the operation comes from one before it. -/
theorem Touches.of_mem {tm tm' : TaskManager} {p : Ptr} {f : Task → Task} (h : Touches tm p f tm')
    (hf : ∀ t, (f t).ptr = t.ptr ∧ (f t).id = t.id) {u : Task} (hu : u ∈ tm'.tasks) :
    ∃ t ∈ tm.tasks, t.ptr = u.ptr ∧ t.id = u.id ∧ u = if u.ptr = p then f t else t := by
  rw [h.tasks, mem_modify] at hu
  obtain ⟨t, ht, rfl⟩ := hu
  by_cases hp : t.ptr = p
  · rw [if_pos hp]
    exact ⟨t, ht, (hf t).1.symm, (hf t).2.symm, by rw [if_pos ((hf t).1.trans hp)]⟩
  · rw [if_neg hp]
    exact ⟨t, ht, rfl, rfl, by rw [if_neg hp]⟩

/-- No task is lost. -/
theorem Touches.mem {tm tm' : TaskManager} {p : Ptr} {f : Task → Task} (h : Touches tm p f tm')
    (hf : ∀ t, (f t).ptr = t.ptr ∧ (f t).id = t.id) {t : Task} (ht : t ∈ tm.tasks) :
    ∃ u ∈ tm'.tasks, u.ptr = t.ptr ∧ u.id = t.id := by
  refine ⟨_, h.tasks ▸ mem_modify.2 ⟨t, ht, rfl⟩, ?_⟩
  split
  · exact hf t
  · exact ⟨rfl, rfl⟩

theorem find?_touched {P : Task → Bool} {p : Ptr} {f : Task → Task} (hP : ∀ t, P (f t) = P t) (ts : List Task) :
    (ts.map fun t => if t.ptr = p then f t else t).find? P =
      (ts.find? P).map fun t => if t.ptr = p then f t else t := by
  rw [List.find?_map]
  congr 2
  funext t
  simp only [Function.comp_apply]
  split
  · exact hP t
  · rfl

theorem Touches.deref {tm tm' : TaskManager} {p : Ptr} {f : Task → Task} (h : Touches tm p f tm')
    (hf : ∀ t, (f t).ptr = t.ptr) (q : Ptr) :
    tm'.deref q = (tm.deref q).map fun t => if t.ptr = p then f t else t := by
  rw [TaskManager.deref, h.tasks]
  exact find?_touched (fun t => by rw [hf]) tm.tasks

theorem Touches.deref_self {tm tm' : TaskManager} {p : Ptr} {f : Task → Task} (h : Touches tm p f tm')
    (hf : ∀ t, (f t).ptr = t.ptr) {t : Task} (ht : tm.deref p = some t) : tm'.deref p = some (f t) := by
  rw [h.deref hf, ht, Option.map_some, if_pos (deref_some ht).2]

theorem Touches.deref_other {tm tm' : TaskManager} {p q : Ptr} {f : Task → Task} (h : Touches tm p f tm')
    (hf : ∀ t, (f t).ptr = t.ptr) (hq : q ≠ p) : tm'.deref q = tm.deref q := by
  rw [h.deref hf]
  cases ht : tm.deref q with
  | none => rfl
  | some t => rw [Option.map_some, if_neg (by rw [(deref_some ht).2]; exact hq)]

theorem Touches.find {tm tm' : TaskManager} {p : Ptr} {f : Task → Task} (h : Touches tm p f tm')
    (hf : ∀ t, (f t).id = t.id) (id : UInt64) :
    tm'.find id = (tm.find id).map fun t => if t.ptr = p then f t else t := by
  rw [TaskManager.find, h.tasks]
  exact find?_touched (fun t => by rw [hf]) tm.tasks

/-- The idle task stays runnable unless it is the one put to sleep. -/
theorem Touches.inv {tm tm' : TaskManager} {p : Ptr} {f : Task → Task} (h : Touches tm p f tm') (hi : tm.Inv)
    (hcore : tm'.Core) (hf : ∀ t, (f t).ptr = t.ptr)
    (hr : p = idlePtr → ∀ t, t.running = true → (f t).running = true) : tm'.Inv := by
  obtain ⟨t, ht, hp, hrun⟩ := hi.idle
  refine ⟨hcore, _, h.tasks ▸ mem_modify.2 ⟨t, ht, rfl⟩, ?_, ?_⟩
  · split
    · exact (hf t).trans hp
    · exact hp
  · split
    · rename_i htp
      exact hr (htp.symm.trans hp) t hrun
    · exact hrun

/-- **`Wakeup()`** sets the flag and leaves the level alone. -/
theorem Core.wakeup_touches {tm : TaskManager} (h : tm.Core) {t : Task} (ht : t ∈ tm.tasks) :
    ∃ tm', tm.wakeup t.ptr none = some tm' ∧ tm'.Core ∧ Touches tm t.ptr (fun t => { t with running := true }) tm' := by
  obtain ⟨tm', he, hcore, -⟩ := h.wakeup ht none
  refine ⟨tm', he, hcore, ?_⟩
  by_cases hrun : t.running = true
  · simp only [TaskManager.wakeup, h.rep.deref_eq ht, hrun, TaskManager.changeLevelRunning, Option.bind_eq_bind,
      Option.bind_some, if_true, Option.some.injEq] at he
    subst he
    exact ⟨(modify_id h.rep ht (by simp [← hrun])).symm, rfl, rfl⟩
  · simp only [TaskManager.wakeup, h.rep.deref_eq ht, hrun, Option.bind_eq_bind, Option.bind_some,
      Option.getD_none, pure, Bool.false_eq_true, if_false, Option.some.injEq] at he
    have htasks := modify_congr h.rep ht (f := fun u => { u with level := t.level, running := true })
      (g := fun u => { u with running := true }) rfl
    subst he
    split
    · exact ⟨htasks, rfl, rfl⟩
    · exact ⟨htasks, rfl, rfl⟩

/-- A write to a task followed by `Wakeup()`. -/
theorem Core.modifyWakeup_touches {tm : TaskManager} (h : tm.Core) {t : Task} (ht : t ∈ tm.tasks) (f : Task → Task)
    (hf : ∀ u, (f u).ptr = u.ptr) (hr : ∀ u, (f u).running = u.running) (hl : ∀ u, (f u).level = u.level) :
    ∃ tm', (tm.modify t.ptr f).wakeup t.ptr none = some tm' ∧ tm'.Core ∧
      Touches tm t.ptr (fun t => { f t with running := true }) tm' := by
  have hmem : f t ∈ (tm.modify t.ptr f).tasks := mem_modify.2 ⟨t, ht, if_pos rfl⟩
  obtain ⟨tm', he, hcore, hto⟩ := (h.modify t.ptr f hf hr hl).wakeup_touches hmem
  rw [hf] at he hto
  refine ⟨tm', he, hcore, ⟨?_, hto.latestId, hto.nextPtr⟩⟩
  rw [hto.tasks]
  exact congrArg TaskManager.tasks (modify_modify tm t.ptr hf)

/-- **`SendMessage`** to a live task pushes the message and sets the flag. -/
theorem Core.sendMessage_touches {tm : TaskManager} (h : tm.Core) {id : UInt64} {t : Task}
    (hf : tm.find id = some t) (msg : Message) :
    ∃ tm', tm.sendMessage id msg = some (tm', .kSuccess) ∧ tm'.Core ∧
      Touches tm t.ptr (fun t => { t with msgs := t.msgs ++ [msg], running := true }) tm' := by
  obtain ⟨tm', he, hcore, hto⟩ := h.modifyWakeup_touches (find_some hf).1
    (fun t => { t with msgs := t.msgs ++ [msg] }) (fun _ => rfl) (fun _ => rfl) (fun _ => rfl)
  have he' : tm.taskSendMessage t.ptr msg = some tm' := he
  exact ⟨tm', by simp [TaskManager.sendMessage, hf, he'], hcore, hto⟩

theorem sendMessage_none {tm : TaskManager} {id : UInt64} (hf : tm.find id = none) (msg : Message) :
    tm.sendMessage id msg = some (tm, .kNoSuchTask) := by
  simp [TaskManager.sendMessage, hf]

/-- **`StartAppTask`/`StartServerTask`** of a live task. -/
theorem Core.startTask_touches {tm : TaskManager} (h : tm.Core) {id : UInt64} {t : Task}
    (hf : tm.find id = some t) (f : TaskFunc) (data : UInt64) :
    ∃ tm', tm.startTask f id data = some (tm', .kSuccess) ∧ tm'.Core ∧
      Touches tm t.ptr (fun t => { t.initContext f data with running := true }) tm' := by
  obtain ⟨tm', he, hcore, hto⟩ := h.modifyWakeup_touches (find_some hf).1
    (fun t => t.initContext f data) (fun _ => rfl) (fun _ => rfl) (fun _ => rfl)
  exact ⟨tm', by simp [TaskManager.startTask, hf, he], hcore, hto⟩

/-- **The section at the loop head**: a queued message is popped; with none queued the task goes to sleep
if it has stored nothing yet. -/
theorem Core.takeMessage_spec {tm tm' : TaskManager} (h : tm.Core) {t : Task} (ht : t ∈ tm.tasks) {i : Nat}
    {r : Taken} (he : tm.takeMessage t.ptr i = some (tm', r)) :
    (∃ m ms, t.msgs = m :: ms ∧ r = .got m ∧ tm'.Core ∧ Touches tm t.ptr (fun t => { t with msgs := ms }) tm') ∨
    (t.msgs = [] ∧ i = 0 ∧ r = .slept ∧ tm.sleep t.ptr = some tm' ∧ tm'.Core ∧
      Touches tm t.ptr (fun t => { t with running := false }) tm') ∨
    (t.msgs = [] ∧ i ≠ 0 ∧ r = .empty ∧ tm' = tm) := by
  simp only [TaskManager.takeMessage, h.rep.deref_eq ht, Task.receiveMessage, Option.bind_eq_bind,
    Option.bind_some] at he
  cases hm : t.msgs with
  | cons m ms =>
    simp only [hm, pure, Option.some.injEq, Prod.mk.injEq] at he
    obtain ⟨rfl, rfl⟩ := he
    have hcongr := modify_congr h.rep ht (f := fun _ => { t with msgs := ms }) (g := fun t => { t with msgs := ms }) rfl
    have hmod : tm.modify t.ptr (fun _ => { t with msgs := ms }) = tm.modify t.ptr fun t => { t with msgs := ms } := by
      simp only [TaskManager.modify] at hcongr ⊢
      rw [hcongr]
    rw [hmod]
    exact Or.inl ⟨m, ms, rfl, rfl, h.modify t.ptr _ (fun _ => rfl) (fun _ => rfl) (fun _ => rfl), ⟨rfl, rfl, rfl⟩⟩
  | nil =>
    by_cases hi : i = 0
    · simp only [hm, hi, if_true, Option.bind_eq_some_iff, pure, Option.some.injEq, Prod.mk.injEq] at he
      obtain ⟨tm1, hs, rfl, rfl⟩ := he
      obtain ⟨hcore, -, htasks, hid, hnext⟩ := (h.sleep ht).1 _ hs
      exact Or.inr (Or.inl ⟨rfl, hi, rfl, hs, hcore, ⟨htasks, hid, hnext⟩⟩)
    · simp only [hm, hi, if_false, pure, Option.some.injEq, Prod.mk.injEq] at he
      exact Or.inr (Or.inr ⟨rfl, hi, he.2.symm, he.1.symm⟩)

/-- For any task but the idle one the section returns. -/
theorem Inv.takeMessage_some {tm : TaskManager} (h : tm.Inv) {t : Task} (ht : t ∈ tm.tasks) (hne : t.ptr ≠ idlePtr)
    (i : Nat) : ∃ r, tm.takeMessage t.ptr i = some r := by
  simp only [TaskManager.takeMessage, h.rep.deref_eq ht, Task.receiveMessage, Option.bind_eq_bind, Option.bind_some]
  cases hm : t.msgs with
  | cons m ms => exact ⟨_, rfl⟩
  | nil =>
    by_cases hi : i = 0
    · obtain ⟨tm', he, -⟩ := h.sleep ht hne
      exact ⟨(tm', .slept), by simp [hi, he]⟩
    · exact ⟨(tm, .empty), by simp [hi]⟩

end KinOS.TaskManager
