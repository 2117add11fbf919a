import KinOS.Kernel.MachineSteps

/-!
# When a task's context is initialised

`NewTask` leaves `context_` alone; `InitContext` fills it in. `StartAppTask` and `StartServerTask` call
`InitContext` and wake the task, but `SendMessage` wakes the task it is sent to as well, initialised or
not, and a start request is obeyed whatever the task has been doing. `context_init_iff` says which runs
nevertheless initialise each task once and before it can run.

| here | there |
| --- | --- |
| `sendsTo`   | the `SendMessage` calls of the system calls, the system task and the exit code |
| `Initialised` | `InitContext` before the first `Wakeup`, and once (`task.cpp:22-41`, `:223-241`) |
-/

namespace KinOS.Kernel

open TaskManager

/-- Task 1 is running from the start; any other task once its context is initialised. -/
def Started (t : Task) : Prop := t.ptr = systemPtr ∨ t.inits ≠ []

/-- Every task but task 1 in a run queue has had `InitContext` applied, and none has had it applied after it
was started. -/
def Initialised (k : Kernel) : Prop :=
  ∀ t ∈ k.tm.tasks, (t.ptr ≠ systemPtr → (∃ l, t.ptr ∈ k.tm.running l) → t.inits ≠ []) ∧
    t.inits.length ≤ 1 ∧ (t.ptr = systemPtr → t.inits = [])

/-- The id a place is about to send to. -/
def sendsTo : Pc → Option UInt64
  | .send _ dst | .systemReply dst => some dst
  | .closedReject _ _ _ m => some m.srcTask
  | .appExit amId _ _ => some amId
  | .serverExit initId _ => some initId
  | _ => none

/-- A message for `id` reaches no task that was created and not started. -/
def Reaches (k : Kernel) (id : UInt64) : Prop := ∀ t, k.tm.find id = some t → Started t

/-- The step sends to no task that was not started, and starts no task that was. -/
def StartOk (k : Kernel) : Event → Prop
  | .tick => ∀ timer ms switch, k.timer.tick = some (timer, ms, switch) → ∀ x ∈ ms, k.Reaches x.1
  | .kernelSend id _ => k.Reaches id
  | .run => ∀ p, k.tm.currentTask = some p →
    (∀ id, sendsTo (k.pc p) = some id → k.Reaches id) ∧
    ∀ m f t, k.pc p = .systemGot m → startFunc m.type = some f → k.tm.find m.starttaskId = some t → ¬ Started t
  | _ => True

/-! ## Task by task -/

def InitOnce (t : Task) : Prop :=
  (t.ptr ≠ systemPtr → t.running = true → t.inits ≠ []) ∧ t.inits.length ≤ 1 ∧ (t.ptr = systemPtr → t.inits = [])

theorem initialised_iff {k : Kernel} (h : k.tm.Core) : k.Initialised ↔ ∀ t ∈ k.tm.tasks, InitOnce t := by
  have hq : ∀ t ∈ k.tm.tasks, (∃ l, t.ptr ∈ k.tm.running l) ↔ t.running = true := by
    intro t ht
    constructor
    · rintro ⟨l, hl⟩
      exact (h.rep.level_eq ht hl).1
    · intro hr
      exact ⟨t.level, (h.rep.queued _ _).2 ⟨t, ht, rfl, hr, rfl⟩⟩
  unfold Initialised InitOnce
  exact forall₂_congr fun t ht => by rw [hq t ht]

/-- An operation on one task leaves the others as they were. -/
theorem initOnce_touch {tm tm' : TaskManager} {u : Task} (hu : u ∈ tm.tasks) (hrep : tm.Rep) {f : Task → Task}
    (hto : Touches tm u.ptr f tm') (hf : ∀ t, (f t).ptr = t.ptr ∧ (f t).id = t.id) :
    (∀ t ∈ tm'.tasks, InitOnce t) ↔ (∀ t ∈ tm.tasks, t.ptr ≠ u.ptr → InitOnce t) ∧ InitOnce (f u) := by
  have hmem : ∀ t ∈ tm.tasks, (if t.ptr = u.ptr then f t else t) ∈ tm'.tasks :=
    fun t ht => by rw [hto.tasks]; exact mem_modify.2 ⟨t, ht, rfl⟩
  constructor
  · intro h'
    refine ⟨fun t ht hne => ?_, ?_⟩
    · have := h' _ (hmem t ht)
      rwa [if_neg hne] at this
    · have := h' _ (hmem u hu)
      rwa [if_pos rfl] at this
  · rintro ⟨hothers, hfu⟩ t ht
    obtain ⟨v, hv, hp, -, hte⟩ := hto.of_mem hf ht
    by_cases hq : t.ptr = u.ptr
    · rw [if_pos hq] at hte
      rw [hte, hrep.unique hv hu (hp.trans hq)]
      exact hfu
    · rw [if_neg hq] at hte
      exact hte ▸ hothers v hv fun e => hq (hp.symm.trans e)

/-- Waking a task with a message. -/
theorem initOnce_push (t : Task) (msg : Message) :
    InitOnce { t with msgs := t.msgs ++ [msg], running := true } ↔ InitOnce t ∧ Started t := by
  simp only [InitOnce, Started]
  constructor
  · rintro ⟨h1, h2, h3⟩
    refine ⟨⟨fun hp _ => h1 hp trivial, h2, h3⟩, ?_⟩
    by_cases hp : t.ptr = systemPtr
    · exact Or.inl hp
    · exact Or.inr (h1 hp trivial)
  · rintro ⟨h, hs⟩
    exact ⟨fun hp _ => hs.resolve_left hp, h.2⟩

/-- Initialising and waking a task. -/
theorem initOnce_start (t : Task) (f : TaskFunc) (data : UInt64) :
    InitOnce { t.initContext f data with running := true } ↔ ¬ Started t := by
  simp only [InitOnce, Started, Task.initContext, List.length_append, List.length_cons, List.length_nil, not_or, not_not]
  constructor
  · rintro ⟨-, hlen, hsys⟩
    exact ⟨fun hp => absurd (hsys hp) (by simp), List.length_eq_zero_iff.1 (by omega)⟩
  · rintro ⟨hp, hi⟩
    simp [hp, hi]

/-! ## Step by step -/

/-- A write that leaves `running_` and the contexts alone. -/
theorem initialised_keep {k k' : Kernel} (hs : k.Sound) (hs' : k'.Sound) (h : k.Initialised) {u : Task}
    (hu : u ∈ k.tm.tasks) {f : Task → Task} (hto : Touches k.tm u.ptr f k'.tm)
    (hf : ∀ t, (f t).ptr = t.ptr ∧ (f t).id = t.id)
    (hkeep : (f u).inits = u.inits ∧ ((f u).running = true → u.running = true)) : k'.Initialised := by
  have h0 := (initialised_iff hs.core).1 h
  rw [initialised_iff hs'.core, initOnce_touch hu hs.core.rep hto hf]
  refine ⟨fun t ht _ => h0 t ht, ?_⟩
  have hu0 := h0 u hu
  unfold InitOnce at hu0 ⊢
  rw [(hf u).1, hkeep.1]
  exact ⟨fun hp hr => hu0.1 hp (hkeep.2 hr), hu0.2⟩

/-- The contexts depend on the scheduler only. -/
theorem initialised_congr {k k' : Kernel} (htm : k'.tm = k.tm) : k'.Initialised ↔ k.Initialised := by
  simp only [Initialised, htm]

/-- **A send** keeps contexts in order exactly when it reaches a started task. -/
theorem initialised_send {k k' : Kernel} (hs : k.Sound) {who : Producer} {id : UInt64} {msg : Message}
    (he : k.send who id msg = some k') : k'.Initialised ↔ k.Initialised ∧ k.Reaches id := by
  rcases send_spec hs.core he with ⟨hn, rfl⟩ | ⟨t, tm', hf, hcore, hto, rfl⟩
  · refine ⟨fun h => ⟨h, fun u hu => ?_⟩, fun h => h.1⟩
    rw [hn] at hu
    exact absurd hu (by simp)
  · have ht := (find_some hf).1
    have hreach : k.Reaches id ↔ Started t :=
      ⟨fun hr => hr t hf, fun hst u hu => Option.some.inj (hf.symm.trans hu) ▸ hst⟩
    rw [hreach, initialised_iff hs.core, initialised_iff (k := { k with tm := tm', sent := _ }) hcore,
      initOnce_touch ht hs.core.rep hto (fun _ => ⟨rfl, rfl⟩), initOnce_push]
    constructor
    · rintro ⟨hothers, hself, hst⟩
      refine ⟨fun u hu => ?_, hst⟩
      by_cases hq : u.ptr = t.ptr
      · exact hs.core.rep.unique hu ht hq ▸ hself
      · exact hothers u hu hq
    · rintro ⟨hall, hst⟩
      exact ⟨fun u hu _ => hall u hu, hall t ht, hst⟩

/-- A send starts nobody. -/
theorem reaches_send {k k' : Kernel} (hs : k.Sound) {who : Producer} {id : UInt64} {msg : Message}
    (he : k.send who id msg = some k') (id' : UInt64) : k'.Reaches id' ↔ k.Reaches id' := by
  rcases send_spec hs.core he with ⟨-, rfl⟩ | ⟨t, tm', -, -, hto, rfl⟩
  · exact Iff.rfl
  · unfold Reaches
    simp only [hto.find (fun _ => rfl), Option.map_eq_some_iff]
    constructor
    · intro h u hu
      have := h _ ⟨u, hu, rfl⟩
      split at this <;> exact this
    · rintro h _ ⟨u, hu, rfl⟩
      have := h u hu
      split <;> exact this

/-- The messages of a tick, one after the other. -/
theorem initialised_sendAll : ∀ (ms : List (UInt64 × Message)) {k k' : Kernel}, k.Sound → k.sendAll ms = some k' →
    (k'.Initialised ↔ k.Initialised ∧ ∀ x ∈ ms, k.Reaches x.1)
  | [], _, _, _, he => by
    obtain rfl := Option.some.inj he
    simp
  | (id, msg) :: ms, k, k', hs, he => by
    simp only [Kernel.sendAll, Option.bind_eq_bind, Option.bind_eq_some_iff] at he
    obtain ⟨k1, he1, he2⟩ := he
    rw [initialised_sendAll ms (hs.send he1).1 he2, initialised_send hs he1]
    simp only [reaches_send hs he1, List.forall_mem_cons, and_assoc]

/-- A start keeps contexts in order exactly when the task was not started. -/
theorem initialised_start {k k' : Kernel} (hs : k.Sound) (hs' : k'.Sound) (h : k.Initialised) {f : TaskFunc}
    {id data : UInt64} (he : k.start f id data = some k') :
    k'.Initialised ↔ ∀ t, k.tm.find id = some t → ¬ Started t := by
  have h0 := (initialised_iff hs.core).1 h
  rcases start_spec hs.core he with ⟨hn, rfl⟩ | ⟨t, tm', hf, hcore, hto, hk'⟩
  · refine iff_of_true h fun u hu => ?_
    rw [hn] at hu
    exact absurd hu (by simp)
  · have htm : k'.tm = tm' := by
      rw [hk']
      split
      · rfl
      · unfold Kernel.abandon
        split <;> rfl
    have ht := (find_some hf).1
    rw [initialised_iff hs'.core, htm, initOnce_touch ht hs.core.rep hto (fun _ => ⟨rfl, rfl⟩), initOnce_start]
    constructor
    · rintro ⟨-, hst⟩ u hu
      exact Option.some.inj (hf.symm.trans hu) ▸ hst
    · intro hst
      exact ⟨fun u hu _ => h0 u hu, hst t hf⟩

/-! ## The condition, by place -/

theorem startOk_of_quiet {k : Kernel} {p : Ptr} (hcur : k.tm.currentTask = some p) (hsend : sendsTo (k.pc p) = none)
    (hstart : ∀ m f, k.pc p = .systemGot m → startFunc m.type ≠ some f) : StartOk k .run := by
  intro q hq
  obtain rfl := Option.some.inj (hcur.symm.trans hq)
  refine ⟨fun id hid => ?_, fun m f t hpc hf => absurd hf (hstart m f hpc)⟩
  rw [hsend] at hid
  exact absurd hid (by simp)

theorem startOk_iff_send {k : Kernel} {p : Ptr} (hcur : k.tm.currentTask = some p) {id : UInt64}
    (hsend : sendsTo (k.pc p) = some id) : StartOk k .run ↔ k.Reaches id := by
  constructor
  · intro h
    exact (h p hcur).1 id hsend
  · intro hr q hq
    obtain rfl := Option.some.inj (hcur.symm.trans hq)
    refine ⟨fun id' hid => Option.some.inj (hsend.symm.trans hid) ▸ hr, fun m f t hpc => ?_⟩
    rw [hpc] at hsend
    exact absurd hsend (by simp [sendsTo])

theorem startOk_iff_start {k : Kernel} {p : Ptr} (hcur : k.tm.currentTask = some p) {m : Message} {f : TaskFunc}
    (hpc : k.pc p = .systemGot m) (hf : startFunc m.type = some f) :
    StartOk k .run ↔ ∀ t, k.tm.find m.starttaskId = some t → ¬ Started t := by
  constructor
  · intro h t ht
    exact (h p hcur).2 m f t hpc hf ht
  · intro hst q hq
    obtain rfl := Option.some.inj (hcur.symm.trans hq)
    refine ⟨fun id hid => ?_, fun m' f' t hpc' _ ht => ?_⟩
    · rw [hpc] at hid
      exact absurd hid (by simp [sendsTo])
    · obtain rfl := Pc.systemGot.inj (hpc.symm.trans hpc')
      exact hst t ht

theorem Sends.sendsTo {p : Ptr} {t : Task} {pc pc' : Pc} {who : Producer} {id : UInt64} {msg : Message}
    (h : Sends p t pc who id msg pc') : sendsTo pc = some id := by
  cases h <;> rfl

theorem Waits.quietStart {pc : Pc} {i : Nat} (h : Waits pc i) :
    Kernel.sendsTo pc = none ∧ ∀ m f, pc = .systemGot m → startFunc m.type ≠ some f := by
  cases h <;> exact ⟨rfl, by simp⟩

theorem Goes.quietStart {pc pc' : Pc} (h : Goes pc pc') :
    Kernel.sendsTo pc = none ∧ ∀ m f, pc = .systemGot m → startFunc m.type ≠ some f := by
  cases h with
  | opened | closed => exact ⟨rfl, by simp⟩
  | ignored m hm =>
    refine ⟨rfl, fun m' f he => ?_⟩
    rw [← Pc.systemGot.inj he, hm]
    simp

/-! ## Every step, every run -/

/-- **One section of the current task.** -/
theorem initialised_runs {k k' : Kernel} (hs : k.Sound) (h : k.Initialised) {t : Task} (ht : t ∈ k.tm.tasks)
    (hcur : k.tm.currentTask = some t.ptr) (hsec : Section k t.ptr t k') : k'.Initialised ↔ StartOk k .run := by
  have hs' := hs.runs ht hcur hsec
  cases hsec with
  | go pc hg => exact iff_of_true ((initialised_congr rfl).2 h) (startOk_of_quiet hcur hg.quietStart.1 hg.quietStart.2)
  | send who id msg pc k1 hsd he =>
    calc (k1.setPc t.ptr pc).Initialised ↔ k1.Initialised := initialised_congr rfl
      _ ↔ k.Initialised ∧ k.Reaches id := initialised_send hs he
      _ ↔ k.Reaches id := and_iff_right h
      _ ↔ StartOk k .run := (startOk_iff_send hcur hsd.sendsTo).symm
  | reject len i target m k1 hpc he =>
    calc _ ↔ k1.Initialised := initialised_congr rfl
      _ ↔ k.Initialised ∧ k.Reaches m.srcTask := initialised_send hs he
      _ ↔ k.Reaches m.srcTask := and_iff_right h
      _ ↔ StartOk k .run := (startOk_iff_send hcur (by rw [hpc]; rfl)).symm
  | sleep i tm' hw he =>
    refine iff_of_true ?_ (startOk_of_quiet hcur hw.quietStart.1 hw.quietStart.2)
    rcases hs.core.takeMessage_spec ht he with ⟨m, ms, -, hr, -, -⟩ | ⟨-, -, -, -, -, hto⟩ | ⟨-, -, hr, -⟩
    · exact absurd hr (by simp)
    · exact initialised_keep hs hs' h ht hto (fun _ => ⟨rfl, rfl⟩) ⟨rfl, fun hr => absurd hr (by simp)⟩
    · exact absurd hr (by simp)
  | keep i tm' m pc ret hw hk he =>
    refine iff_of_true ?_ (startOk_of_quiet hcur hw.quietStart.1 hw.quietStart.2)
    rcases hs.core.takeMessage_spec ht he with ⟨m', ms, -, -, -, hto⟩ | ⟨-, -, hr, -, -, -⟩ | ⟨-, -, hr, -⟩
    · exact initialised_keep hs hs' h ht hto (fun _ => ⟨rfl, rfl⟩) ⟨rfl, id⟩
    · exact absurd hr (by simp)
    · exact absurd hr (by simp)
  | refuse len i target tm' m hpc _ he =>
    refine iff_of_true ?_ (startOk_of_quiet hcur (by rw [hpc]; rfl) (by rw [hpc]; simp))
    rcases hs.core.takeMessage_spec ht he with ⟨m', ms, -, -, -, hto⟩ | ⟨-, -, hr, -, -, -⟩ | ⟨-, -, hr, -⟩
    · exact initialised_keep hs hs' h ht hto (fun _ => ⟨rfl, rfl⟩) ⟨rfl, id⟩
    · exact absurd hr (by simp)
    · exact absurd hr (by simp)
  | expand m hpc hm =>
    refine iff_of_true ?_ (startOk_of_quiet hcur (by rw [hpc]; rfl) fun m' f he => ?_)
    · cases hf : k.tm.find m.expandId with
      | none => exact (initialised_congr (by simp [Kernel.setPc, TaskManager.expandTaskBuffer, hf])).2 h
      | some u =>
        refine initialised_keep (u := u) hs hs' h (find_some hf).1
          (f := fun t => { t with buf := resize t.buf m.expandBytes.toNat }) ?_ (fun _ => ⟨rfl, rfl⟩) ⟨rfl, id⟩
        simp only [Kernel.setPc, TaskManager.expandTaskBuffer, hf]
        exact ⟨rfl, rfl, rfl⟩
    · rw [hpc] at he
      rw [← Pc.systemGot.inj he, hm]
      simp
  | start m f k1 hpc hf he =>
    have hp : t.ptr = systemPtr := (hs.system _).1 (by rw [hpc]; trivial)
    calc _ ↔ k1.Initialised := initialised_congr rfl
      _ ↔ ∀ u, k.tm.find m.starttaskId = some u → ¬ Started u :=
        initialised_start hs (hs.start (hp ▸ hcur) he).1 h he
      _ ↔ StartOk k .run := (startOk_iff_start hcur hpc hf).symm
  | finish ec tm' hpc he =>
    refine iff_of_true ?_ (startOk_of_quiet hcur (by rw [hpc]; rfl) (by rw [hpc]; simp))
    obtain ⟨c, -, -, hspec, -⟩ := hs.core.finish ec
    obtain ⟨hcore, -, htasks, -, -⟩ := hspec tm' he
    rw [initialised_iff (k := { k with tm := tm' }) hcore]
    intro u hu
    replace hu : u ∈ tm'.tasks := hu
    rw [htasks] at hu
    exact (initialised_iff hs.core).1 h u (List.mem_filter.1 hu).1

/-- **One step.** -/
theorem initialised_step {k k' : Kernel} (hs : k.Sound) (h : k.Initialised) {e : Event} (he : k.step e = some k') :
    k'.Initialised ↔ StartOk k e := by
  have htick : ∀ {timer ms switch}, k.timer.tick = some (timer, ms, switch) →
      (StartOk k .tick ↔ ∀ x ∈ ms, ({ k with timer := timer } : Kernel).Reaches x.1) := by
    intro timer ms switch ht
    refine ⟨fun hst => hst timer ms switch ht, fun hall timer' ms' switch' ht' => ?_⟩
    obtain ⟨rfl, rfl, rfl⟩ : timer = timer' ∧ ms = ms' ∧ switch = switch' := by
      simpa using Option.some.inj (ht.symm.trans ht')
    exact hall
  cases step_stepped hs.core he with
  | tick timer ms _ ht hm =>
    have hs0 : ({ k with timer := timer } : Kernel).Sound := ⟨hs.core, hs.system, hs.first, hs.fresh⟩
    rw [htick ht, initialised_sendAll ms hs0 hm]
    exact and_iff_right ((initialised_congr rfl).2 h)
  | switch timer ms k1 tm' ht hm hsw =>
    have hs0 : ({ k with timer := timer } : Kernel).Sound := ⟨hs.core, hs.system, hs.first, hs.fresh⟩
    have hs1 := Sound.sendAll ms hs0 hm
    obtain ⟨tm2, hsw2, hcore, -, htasks, -, -⟩ := hs1.core.switchTask
    obtain rfl := Option.some.inj (hsw.symm.trans hsw2)
    rw [htick ht, initialised_iff (k := { k1 with tm := tm' }) hcore]
    show (∀ t ∈ tm'.tasks, InitOnce t) ↔ _
    rw [htasks, ← initialised_iff hs1.core, initialised_sendAll ms hs0 hm]
    exact and_iff_right ((initialised_congr rfl).2 h)
  | kernelSend id msg _ hm =>
    rw [initialised_send hs hm]
    exact and_iff_right h
  | call t _ pc ht hcur hpc hc =>
    refine iff_of_true ((initialised_congr rfl).2 h) ?_
    cases hc <;> trivial
  | newTask =>
    refine iff_of_true ?_ trivial
    rw [initialised_iff (k := { k with tm := k.tm.newTask.1 }) hs.core.newTask]
    intro u hu
    rcases List.mem_append.1 hu with hu | hu
    · exact (initialised_iff hs.core).1 h u hu
    · obtain rfl := List.mem_singleton.1 hu
      exact ⟨fun _ hr => absurd hr (by simp), by simp, fun _ => rfl⟩
  | createTimer => exact iff_of_true ((initialised_congr rfl).2 h) trivial
  | setName p name =>
    refine iff_of_true ?_ trivial
    have hcore := hs.core.modify p (fun t => { t with name := name }) (fun _ => rfl) (fun _ => rfl) (fun _ => rfl)
    rw [initialised_iff (k := { k with tm := k.tm.modify p fun t => { t with name := name } }) hcore]
    intro u hu
    obtain ⟨t, ht, rfl⟩ := mem_modify.1 hu
    have h0 := (initialised_iff hs.core).1 h t ht
    split <;> exact h0
  | run t _ ht hcur hsec => exact initialised_runs hs h ht hcur hsec

theorem initialised_boot {k : Kernel} (h : boot = some k) : k.Initialised := by
  have hs := sound_boot h
  obtain ⟨tm, he, -, hto⟩ := bootTasks_touches
  obtain ⟨tm', he', rfl⟩ := Option.map_eq_some_iff.1 h
  obtain rfl := Option.some.inj (he.symm.trans he')
  rw [initialised_iff hs.core]
  show ∀ t ∈ tm.tasks, InitOnce t
  rw [hto.tasks]
  simp only [InitOnce]
  decide

/-- **Which runs initialise every task once and in time.** For every run from boot: in each of its states the
tasks in the run queues have had `InitContext` applied and none twice, if and only if no step sends a message to
a task that was created and not started, and no start request names a task that was started. -/
theorem context_init_iff (k : Kernel) (es : List Event) (h : boot = some k) :
    TransitionSystem.States step Initialised k es ↔ TransitionSystem.Along step StartOk k es :=
  (TransitionSystem.along_iff_states (I := Sound) (fun _ _ _ hs he => hs.step he)
    (fun _ _ _ hs hi he => initialised_step hs hi he) es (sound_boot h) (initialised_boot h)).symm

/-! The condition can be evaluated. -/

instance (t : Task) : Decidable (Started t) := inferInstanceAs (Decidable (_ ∨ _))

instance (k : Kernel) (id : UInt64) : Decidable (k.Reaches id) :=
  inferInstanceAs (Decidable (∀ t, k.tm.find id = some t → Started t))

instance decidableStartOk (k : Kernel) : ∀ e : Event, Decidable (StartOk k e)
  | .tick => decidable_of_iff (∀ x, k.timer.tick = some x → ∀ y ∈ x.2.1, k.Reaches y.1)
      ⟨fun h timer ms switch ht => h (timer, ms, switch) ht, fun h x hx => h x.1 x.2.1 x.2.2 hx⟩
  | .kernelSend id _ => inferInstanceAs (Decidable (k.Reaches id))
  | .run => decidable_of_iff (∀ p, k.tm.currentTask = some p → (∀ id, sendsTo (k.pc p) = some id → k.Reaches id) ∧
      ∀ m, handled (k.pc p) = some m → ∀ f, startFunc m.type = some f → ∀ t, k.tm.find m.starttaskId = some t → ¬ Started t)
      (by simp only [handled_eq_some]; exact forall₂_congr fun p _ => and_congr_right fun _ =>
        ⟨fun h m f t hm hf => h m hm f hf t, fun h m hm f hf t => h m f t hm hf⟩)
  | .sysSend .. | .sysOpen .. | .sysClosed .. | .sysNewTask | .sysCreateTimer .. | .setName .. | .sysExit .. =>
    isTrue trivial

/-- Task 4 is created, started by `kStartApp`, and then sent a message. -/
theorem context_init_conversation : ∃ k k', boot = some k ∧ TransitionSystem.States step Initialised k conversation ∧
    TransitionSystem.exec step k conversation = some k' ∧ (k'.tm.deref 3).map (·.inits) = some [⟨.taskApp, 4, 3⟩] ∧
    (k'.sent 3).map (·.2) = [errorRetry 3] := by
  have hrun : boot.any (fun k => decide (TransitionSystem.Along step StartOk k conversation) &&
      (TransitionSystem.exec step k conversation).any fun k' =>
        decide ((k'.tm.deref 3).map (·.inits) = some [⟨.taskApp, 4, 3⟩] ∧ (k'.sent 3).map (·.2) = [errorRetry 3])) = true := by
    decide +kernel
  obtain ⟨k, hb, hk⟩ := (Option.any_eq_true _ _).mp hrun
  obtain ⟨hok, hend⟩ := Bool.and_eq_true_iff.mp hk
  obtain ⟨k', he, hk'⟩ := (Option.any_eq_true _ _).mp hend
  obtain ⟨hinits, hsent⟩ := decide_eq_true_eq.mp hk'
  exact ⟨k, k', hb, (context_init_iff k conversation hb).2 (decide_eq_true_eq.mp hok), he, hinits, hsent⟩

/-- **A task runs without a context.** Task 3 creates task 4 and sends it a message before any start request. -/
theorem context_init_fails : ∃ k, Runs [.run, .sysNewTask, .sysSend ⟨.kReady, 0, .unset⟩ 4, .run] k ∧
    k.tm.running 1 = [2, 3] ∧ (k.tm.deref 3).map (·.inits) = some [] ∧ ¬ k.Initialised := by
  obtain ⟨k, hk, hx⟩ := runs_of_eval (l := [.run, .sysNewTask, .sysSend ⟨.kReady, 0, .unset⟩ 4, .run])
    (f := fun k => (k.tm.running 1, (k.tm.deref 3).map (·.inits))) (x := ([2, 3], some [])) (by decide)
  obtain ⟨hq, hi⟩ := Prod.mk.inj hx
  refine ⟨k, hk, hq, hi, fun h => ?_⟩
  obtain ⟨t, ht, hti⟩ := Option.map_eq_some_iff.1 hi
  obtain ⟨hmem, hp⟩ := deref_some ht
  exact (h t hmem).1 (by rw [hp]; decide) ⟨1, by rw [hq, hp]; simp⟩ hti

end KinOS.Kernel
