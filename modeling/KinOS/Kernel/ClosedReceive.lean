import KinOS.Kernel.MachineSteps

/-!
# What becomes of a message `ClosedReceiveMessage` removes

A closed receive stores the target's messages and answers any other one with `kError`/`retry`, sent to
the id in `src_task`. Whether that answer reaches the task the message came from depends on who
produced it: timers and drivers leave `src_task` 0, `TaskServer` writes 1, and a task may have ended
in the meantime. `Traced` follows every message from its producer through the queue to its fate;
`closed_receive_answers_iff` says which runs lose none.

| here | there |
| --- | --- |
| `Fate`         | the branches of `ClosedReceiveMessage` after `ReceiveMessage` (`syscall.cpp:168-193`) |
| `timeoutMessage` | `Message m{Message::kTimerTimeout}` in `Tick` (`timer.cpp:73-79`), `src_task` 0 |
| `Producer.exitServer` | `TaskServer` (`system.cpp:313-319`), `src_task` 1 |
-/

namespace KinOS.Kernel

open TaskManager

/-- The message a closed receive has removed and not answered yet. -/
def pending : Pc → List Message
  | .closedReject _ _ _ m => [m]
  | _ => []

/-- The message was kept, or its producer, a task, was sent the `kError`. -/
def Answered (who : Producer) : Fate → Prop
  | .kept => True
  | .bounced reached => ∃ q, reached = some q ∧ who.task = some q
  | .dropped => False

/-- The `j`-th message removed from a queue is the `j`-th one sent to it, and it was answered. -/
def NoLoss (k : Kernel) : Prop :=
  ∀ (p : Ptr) (j : Nat) (m : Message) (f : Fate), (k.log p)[j]? = some (m, f) → ∃ who, (k.sent p)[j]? = some (who, m) ∧
    Answered who f

/-- What each producer writes into `src_task`. -/
def Stamped (tm : TaskManager) (m : Message) : Producer → Prop
  | .syscall p _ | .kernel p => p < tm.nextPtr ∧ ∀ t ∈ tm.tasks, t.ptr = p → m.srcTask = t.id
  | .exitServer p => p ≠ systemPtr ∧ m.srcTask = 1
  | .timer | .driver => True

/-- A message a task is about to send carries the task's id. -/
def PcStamped (t : Task) : Pc → Prop
  | .send msg _ | .appExit _ msg _ | .appWait _ msg _ => msg.srcTask = t.id
  | _ => True

structure Traced (k : Kernel) : Prop where
  queue : ∀ t ∈ k.tm.tasks,
    (k.log t.ptr).map Prod.fst ++ pending (k.pc t.ptr) ++ t.msgs = (k.sent t.ptr).map Prod.snd
  logged : ∀ p, (k.log p).map Prod.fst <+: (k.sent p).map Prod.snd
  stamped : ∀ p, ∀ x ∈ k.sent p, Stamped k.tm x.2 x.1
  places : ∀ t ∈ k.tm.tasks, PcStamped t (k.pc t.ptr)

/-! ## The producer of the message in hand -/

/-- The message was sent under a task's own id, and the task is still there. -/
def FromLiveTask (k : Kernel) (p : Ptr) : Prop :=
  ∃ who m, (k.sent p)[(k.log p).length]? = some (who, m) ∧
    ∃ u ∈ k.tm.tasks, k.tm.find u.id = some u ∧ (who = .kernel u.ptr ∨ ∃ id, who = .syscall u.ptr id)

/-- The step rejects no message but one a live task sent under its own id, and starts no task that has one in
hand. -/
def AnswerOk (k : Kernel) (e : Event) : Prop :=
  e = .run → ∀ p, k.tm.currentTask = some p →
    (pending (k.pc p) ≠ [] → FromLiveTask k p) ∧
    ∀ m f t, k.pc p = .systemGot m → startFunc m.type = some f → k.tm.find m.starttaskId = some t →
      t.ptr ≠ p → pending (k.pc t.ptr) = []

namespace Traced

variable {k k' : Kernel}

/-- The message in hand is the next one of the history. -/
theorem inHand (h : k.Traced) {t : Task} (ht : t ∈ k.tm.tasks) {m : Message} (hp : pending (k.pc t.ptr) = [m]) :
    ∃ who, (k.sent t.ptr)[(k.log t.ptr).length]? = some (who, m) := by
  have hq := h.queue t ht
  rw [hp] at hq
  have hm : ((k.sent t.ptr).map Prod.snd)[(k.log t.ptr).length]? = some m := by
    rw [← hq]
    simp
  rw [List.getElem?_map, Option.map_eq_some_iff] at hm
  obtain ⟨⟨who, m'⟩, hx, rfl⟩ := hm
  exact ⟨who, hx⟩

/-- **Who the answer reaches.** Among tasks, only the one that sent the message under its own id. -/
theorem answered_iff (h : k.Traced) (hs : k.Sound) {p : Ptr} {m : Message} {who : Producer}
    (hx : (k.sent p)[(k.log p).length]? = some (who, m)) :
    Answered who (.bounced ((k.tm.find m.srcTask).map (·.ptr))) ↔ FromLiveTask k p := by
  have hst := h.stamped p (who, m) (List.mem_of_getElem? hx)
  constructor
  · rintro ⟨q, hq, hwho⟩
    obtain ⟨u, hf, rfl⟩ := Option.map_eq_some_iff.1 hq
    obtain ⟨hu, hid⟩ := find_some hf
    refine ⟨who, m, hx, u, hu, hid ▸ hf, ?_⟩
    cases who with
    | syscall p id =>
      obtain rfl := Option.some.inj hwho
      exact Or.inr ⟨id, rfl⟩
    | kernel p =>
      obtain rfl := Option.some.inj hwho
      exact Or.inl rfl
    | exitServer p =>
      -- the answer goes to the first task, which is not the server
      obtain rfl := Option.some.inj hwho
      obtain ⟨s, rest, htasks, hsp, hsid⟩ := hs.first
      have hm1 : m.srcTask = 1 := hst.2
      have hfirst : k.tm.find 1 = some s := by simp [TaskManager.find, htasks, hsid]
      rw [hm1, hfirst] at hf
      obtain rfl := Option.some.inj hf
      exact absurd hsp hst.1
    | timer => exact absurd hwho (by simp [Producer.task])
    | driver => exact absurd hwho (by simp [Producer.task])
  · rintro ⟨who', m', hx', u, hu, hf, hwho⟩
    obtain ⟨rfl, rfl⟩ := Prod.mk.inj (Option.some.inj (hx.symm.trans hx'))
    refine ⟨u.ptr, ?_, ?_⟩
    · have hsrc : m.srcTask = u.id := by
        rcases hwho with rfl | ⟨id, rfl⟩ <;> exact hst.2 u hu rfl
      rw [hsrc, hf]
      rfl
    · rcases hwho with rfl | ⟨id, rfl⟩ <;> rfl

end Traced

/-! ## Every step keeps the trace -/

theorem Stamped.mono {tm tm' : TaskManager} (hn : tm.nextPtr ≤ tm'.nextPtr)
    (hids : ∀ u ∈ tm'.tasks, u.ptr < tm.nextPtr → ∃ t ∈ tm.tasks, t.ptr = u.ptr ∧ t.id = u.id) {m : Message}
    {who : Producer} (h : Stamped tm m who) : Stamped tm' m who := by
  have htask : ∀ p : Ptr, (p < tm.nextPtr ∧ ∀ t ∈ tm.tasks, t.ptr = p → m.srcTask = t.id) →
      p < tm'.nextPtr ∧ ∀ t ∈ tm'.tasks, t.ptr = p → m.srcTask = t.id := by
    rintro p ⟨hp, hid⟩
    refine ⟨Nat.lt_of_lt_of_le hp hn, fun u hu hup => ?_⟩
    obtain ⟨t, ht, htp, hti⟩ := hids u hu (hup ▸ hp)
    rw [← hti]
    exact hid t ht (htp.trans hup)
  cases who with
  | syscall p _ => exact htask p h
  | kernel p => exact htask p h
  | exitServer p => exact h
  | timer => trivial
  | driver => trivial

theorem Stamped.touches {tm tm' : TaskManager} {q : Ptr} {f : Task → Task} (hto : Touches tm q f tm')
    (hf : ∀ t, (f t).ptr = t.ptr ∧ (f t).id = t.id) {m : Message} {who : Producer} (h : Stamped tm m who) :
    Stamped tm' m who := by
  refine h.mono (Nat.le_of_eq hto.nextPtr.symm) fun u hu _ => ?_
  obtain ⟨t, ht, hp, hid, -⟩ := hto.of_mem hf hu
  exact ⟨t, ht, hp, hid⟩

theorem PcStamped.of_id {t u : Task} {pc : Pc} (hid : t.id = u.id) (h : PcStamped t pc) : PcStamped u pc := by
  revert h
  cases pc <;> intro h <;> first | trivial | exact Eq.trans h hid

namespace Traced

variable {k k' : Kernel}

/-- A write that leaves pointers, ids and queues alone. -/
theorem touch (h : k.Traced) {tm' : TaskManager} {q : Ptr} {f : Task → Task} (hto : Touches k.tm q f tm')
    (hf : ∀ t, (f t).ptr = t.ptr ∧ (f t).id = t.id ∧ (f t).msgs = t.msgs) : ({ k with tm := tm' } : Kernel).Traced := by
  have hkeep : ∀ t, (f t).ptr = t.ptr ∧ (f t).id = t.id := fun t => ⟨(hf t).1, (hf t).2.1⟩
  refine ⟨fun u hu => ?_, h.logged, fun p x hx => (h.stamped p x hx).touches hto hkeep, fun u hu => ?_⟩
  · obtain ⟨t, ht, hp, -, hue⟩ := hto.of_mem hkeep hu
    have hm : u.msgs = t.msgs := by
      rw [hue]
      split
      · exact (hf t).2.2
      · rfl
    rw [hm]
    exact hp ▸ h.queue t ht
  · obtain ⟨t, ht, hp, hid, -⟩ := hto.of_mem hkeep hu
    exact hp ▸ (h.places t ht).of_id hid

/-- A change of place that leaves the message in hand alone. -/
theorem setPc (h : k.Traced) (hc : k.tm.Core) {t : Task} (ht : t ∈ k.tm.tasks) {pc : Pc}
    (hpend : pending pc = pending (k.pc t.ptr)) (hpc : PcStamped t pc) : (k.setPc t.ptr pc).Traced := by
  refine ⟨fun u hu => ?_, h.logged, h.stamped, fun u hu => ?_⟩ <;> by_cases hut : u.ptr = t.ptr
  · simp only [Kernel.setPc, hut, Function.update_self, hpend]
    exact hut ▸ h.queue u hu
  · simp only [Kernel.setPc, Function.update_of_ne hut]
    exact h.queue u hu
  · obtain rfl := hc.rep.unique hu ht hut
    simpa only [Kernel.setPc, Function.update_self] using hpc
  · simp only [Kernel.setPc, Function.update_of_ne hut]
    exact h.places u hu

theorem send (h : k.Traced) (hs : k.Sound) {who : Producer} {id : UInt64} {msg : Message}
    (hst : Stamped k.tm msg who) (he : k.send who id msg = some k') : k'.Traced := by
  rcases send_spec hs.core he with ⟨-, rfl⟩ | ⟨t, tm', hf, -, hto, rfl⟩
  · exact h
  have hkeep : ∀ t : Task, ({ t with msgs := t.msgs ++ [msg], running := true } : Task).ptr = t.ptr ∧
      ({ t with msgs := t.msgs ++ [msg], running := true } : Task).id = t.id := fun _ => ⟨rfl, rfl⟩
  refine ⟨fun u hu => ?_, fun p => ?_, fun p x hx => ?_, fun u hu => ?_⟩
  · obtain ⟨v, hv, hp, -, hue⟩ := hto.of_mem hkeep hu
    by_cases hq : u.ptr = t.ptr
    · rw [if_pos hq] at hue
      have hum : u.msgs = v.msgs ++ [msg] := by rw [hue]
      simp only [hum, hq, Function.update_self, List.map_append, List.map_cons, List.map_nil]
      rw [← hq, ← hp, ← h.queue v hv]
      simp
    · rw [if_neg hq] at hue
      subst hue
      simp only [Function.update_of_ne hq]
      exact h.queue u hv
  · by_cases hq : p = t.ptr
    · subst hq
      simp only [Function.update_self, List.map_append]
      exact (h.logged t.ptr).trans (List.prefix_append ..)
    · simp only [Function.update_of_ne hq]
      exact h.logged p
  · refine Stamped.touches hto hkeep ?_
    by_cases hq : p = t.ptr
    · subst hq
      simp only [Function.update_self, List.mem_append, List.mem_singleton] at hx
      rcases hx with hx | rfl
      · exact h.stamped t.ptr x hx
      · exact hst
    · simp only [Function.update_of_ne hq] at hx
      exact h.stamped p x hx
  · obtain ⟨v, hv, hp, hid, -⟩ := hto.of_mem hkeep hu
    exact hp ▸ (h.places v hv).of_id hid

theorem sendAll : ∀ (ms : List (UInt64 × Message)) {k k' : Kernel}, k.Traced → k.Sound → k.sendAll ms = some k' →
    k'.Traced
  | [], _, _, h, _, he => Option.some.inj he ▸ h
  | (id, msg) :: ms, k, k', h, hs, he => by
    simp only [Kernel.sendAll, Option.bind_eq_bind, Option.bind_eq_some_iff] at he
    obtain ⟨k1, he1, he2⟩ := he
    exact sendAll ms (h.send hs (show Stamped k.tm msg .timer from trivial) he1) (hs.send he1).1 he2

/-- The message in hand gets its fate. -/
theorem settle (h : k.Traced) (hc : k.tm.Core) {t : Task} (ht : t ∈ k.tm.tasks) {m : Message} (f : Fate) {pc : Pc}
    (hpend : pending (k.pc t.ptr) = [m]) (hnext : pending pc = []) (hpc : PcStamped t pc) :
    ((k.note t.ptr m f).setPc t.ptr pc).Traced := by
  have hq := h.queue t ht
  rw [hpend] at hq
  refine ⟨fun u hu => ?_, fun p => ?_, h.stamped, fun u hu => ?_⟩
  · by_cases hut : u.ptr = t.ptr
    · obtain rfl := hc.rep.unique hu ht hut
      simpa [Kernel.setPc, Kernel.note, hnext] using hq
    · simp only [Kernel.setPc, Kernel.note, Function.update_of_ne hut]
      exact h.queue u hu
  · by_cases hpt : p = t.ptr
    · subst hpt
      simp only [Kernel.setPc, Kernel.note, Function.update_self, List.map_append, List.map_cons, List.map_nil]
      rw [← hq]
      exact List.prefix_append ..
    · simp only [Kernel.setPc, Kernel.note, Function.update_of_ne hpt]
      exact h.logged p
  · by_cases hut : u.ptr = t.ptr
    · obtain rfl := hc.rep.unique hu ht hut
      simpa only [Kernel.setPc, Kernel.note, Function.update_self] using hpc
    · simp only [Kernel.setPc, Kernel.note, Function.update_of_ne hut]
      exact h.places u hu

/-- A pop into the hand. -/
theorem pop (h : k.Traced) (hc : k.tm.Core) {t : Task} (ht : t ∈ k.tm.tasks) {m : Message} {ms : List Message}
    {tm' : TaskManager} (hm : t.msgs = m :: ms) (hto : Touches k.tm t.ptr (fun t => { t with msgs := ms }) tm')
    (hpend : pending (k.pc t.ptr) = []) {pc : Pc} (hnext : pending pc = [m]) (hpc : PcStamped t pc) :
    (({ k with tm := tm' } : Kernel).setPc t.ptr pc).Traced := by
  have hkeep : ∀ t : Task, ({ t with msgs := ms } : Task).ptr = t.ptr ∧ ({ t with msgs := ms } : Task).id = t.id :=
    fun _ => ⟨rfl, rfl⟩
  refine ⟨fun u hu => ?_, h.logged, fun p x hx => (h.stamped p x hx).touches hto hkeep, fun u hu => ?_⟩
  · obtain ⟨v, hv, hp, -, hue⟩ := hto.of_mem hkeep hu
    by_cases hut : u.ptr = t.ptr
    · obtain rfl := hc.rep.unique hv ht (hp.trans hut)
      rw [if_pos hut] at hue
      have hum : u.msgs = ms := by rw [hue]
      have hq := h.queue v hv
      rw [hpend, hm] at hq
      simpa [Kernel.setPc, hut, hnext, hum] using hq
    · rw [if_neg hut] at hue
      subst hue
      simp only [Kernel.setPc, Function.update_of_ne hut]
      exact h.queue u hv
  · obtain ⟨v, hv, hp, hid, -⟩ := hto.of_mem hkeep hu
    by_cases hut : u.ptr = t.ptr
    · obtain rfl := hc.rep.unique hv ht (hp.trans hut)
      simp only [Kernel.setPc, hut, Function.update_self]
      exact hpc.of_id hid
    · simp only [Kernel.setPc, Function.update_of_ne hut]
      exact hp ▸ (h.places v hv).of_id hid

/-- A pop that keeps the message: into the hand, and on to the buffer. -/
theorem keep (h : k.Traced) (hc : k.tm.Core) {t : Task} (ht : t ∈ k.tm.tasks) {m : Message} {ms : List Message}
    {tm' : TaskManager} (hm : t.msgs = m :: ms) (hto : Touches k.tm t.ptr (fun t => { t with msgs := ms }) tm')
    (hcore : tm'.Core) (hpend : pending (k.pc t.ptr) = []) (ret : Ptr → List Message) {pc : Pc}
    (hnext : pending pc = []) (hpc : PcStamped t pc) :
    (∃ who, (k.sent t.ptr)[(k.log t.ptr).length]? = some (who, m)) ∧
    ({ ({ k with tm := tm' } : Kernel).note t.ptr m .kept with returned := ret }.setPc t.ptr pc).Traced := by
  have h1 := h.pop hc ht hm hto hpend (show pending (.closedReject 0 0 0 m) = [m] from rfl) trivial
  have ht1 : ({ t with msgs := ms } : Task) ∈ tm'.tasks := by
    rw [hto.tasks]
    exact mem_modify.2 ⟨t, ht, if_pos rfl⟩
  have hhand : pending ((({ k with tm := tm' } : Kernel).setPc t.ptr (.closedReject 0 0 0 m)).pc t.ptr) = [m] := by
    simp [Kernel.setPc, pending]
  refine ⟨h1.inHand ht1 hhand, ?_⟩
  have h2 := h1.settle hcore ht1 .kept hhand hnext (hpc.of_id (u := { t with msgs := ms }) rfl)
  have hpcs : (Function.update (Function.update k.pc t.ptr (.closedReject 0 0 0 m)) t.ptr pc) =
      Function.update k.pc t.ptr pc := Function.update_idem ..
  simp only [Kernel.setPc, Kernel.note, hpcs] at h2
  exact ⟨h2.queue, h2.logged, h2.stamped, h2.places⟩

theorem newTask (h : k.Traced) (hs : k.Sound) : ({ k with tm := k.tm.newTask.1 } : Kernel).Traced := by
  have hmem : ∀ u ∈ k.tm.newTask.1.tasks, u ∈ k.tm.tasks ∨ (u.ptr = k.tm.nextPtr ∧ u.msgs = []) := by
    intro u hu
    rcases List.mem_append.1 hu with hu | hu
    · exact Or.inl hu
    · obtain rfl := List.mem_singleton.1 hu
      exact Or.inr ⟨rfl, rfl⟩
  refine ⟨fun u hu => ?_, h.logged, fun p x hx => (h.stamped p x hx).mono (Nat.le_succ _) fun u hu hlt => ?_,
    fun u hu => ?_⟩
  · rcases hmem u hu with hu | ⟨hp, hm⟩
    · exact h.queue u hu
    · obtain ⟨hpc, hsent, hlog⟩ := hs.fresh u.ptr (Nat.le_of_eq hp.symm)
      simp [hpc, hsent, hlog, hm, pending]
  · rcases hmem u hu with hu | ⟨hp, -⟩
    · exact ⟨u, hu, rfl, rfl⟩
    · exact absurd hlt (by rw [hp]; exact Nat.lt_irrefl _)
  · rcases hmem u hu with hu | ⟨hp, -⟩
    · exact h.places u hu
    · rw [(hs.fresh u.ptr (Nat.le_of_eq hp.symm)).1]
      trivial

/-- Tasks may leave. -/
theorem sublist (h : k.Traced) {tm' : TaskManager} (hsub : ∀ u ∈ tm'.tasks, u ∈ k.tm.tasks)
    (hn : tm'.nextPtr = k.tm.nextPtr) : ({ k with tm := tm' } : Kernel).Traced :=
  ⟨fun u hu => h.queue u (hsub u hu), h.logged,
    fun p x hx => (h.stamped p x hx).mono (Nat.le_of_eq hn.symm) fun u hu _ => ⟨u, hsub u hu, rfl, rfl⟩,
    fun u hu => h.places u (hsub u hu)⟩

end Traced

/-! ## `NoLoss` along one step -/

/-- Steps that remove no message. -/
theorem NoLoss.frame {k k' : Kernel} (h : k.NoLoss) (hsent : k'.sent = k.sent) (hlog : k'.log = k.log) : k'.NoLoss := by
  intro p j m f hj
  rw [hlog] at hj
  rw [hsent]
  exact h p j m f hj

theorem NoLoss.send {k k' : Kernel} (h : k.NoLoss) (hs : k.Sound) {who : Producer} {id : UInt64} {msg : Message}
    (he : k.send who id msg = some k') : k'.NoLoss := by
  obtain ⟨hlog, hsent⟩ := send_history hs.core he
  intro p j m f hj
  rw [hlog] at hj
  obtain ⟨who, hx, ha⟩ := h p j m f hj
  exact ⟨who, hsent p j _ hx, ha⟩

theorem NoLoss.sendAll : ∀ (ms : List (UInt64 × Message)) {k k' : Kernel}, k.NoLoss → k.Sound →
    k.sendAll ms = some k' → k'.NoLoss
  | [], _, _, h, _, he => Option.some.inj he ▸ h
  | (id, msg) :: ms, k, k', h, hs, he => by
    simp only [Kernel.sendAll, Option.bind_eq_bind, Option.bind_eq_some_iff] at he
    obtain ⟨k1, he1, he2⟩ := he
    exact sendAll ms (h.send hs he1) (hs.send he1).1 he2

/-- The next message of the history gets its fate. -/
theorem NoLoss.note_iff {k : Kernel} (h : k.NoLoss) {p : Ptr} {m : Message} {who : Producer}
    (hx : (k.sent p)[(k.log p).length]? = some (who, m)) (f : Fate) : (k.note p m f).NoLoss ↔ Answered who f := by
  constructor
  · intro h'
    obtain ⟨who', hx', ha⟩ := h' p (k.log p).length m f (by simp [Kernel.note])
    obtain ⟨rfl, -⟩ := Prod.mk.inj (Option.some.inj (hx.symm.trans hx'))
    exact ha
  · intro ha q j m' f' hj
    by_cases hq : q = p
    · subst hq
      simp only [Kernel.note, Function.update_self] at hj
      rcases Nat.lt_trichotomy j (k.log q).length with hlt | rfl | hgt
      · rw [List.getElem?_append_left hlt] at hj
        exact h q j m' f' hj
      · simp only [List.getElem?_concat_length, Option.some.injEq, Prod.mk.injEq] at hj
        obtain ⟨rfl, rfl⟩ := hj
        exact ⟨who, hx, ha⟩
      · rw [List.getElem?_eq_none (by simp; omega)] at hj
        exact absurd hj (by simp)
    · simp only [Kernel.note, Function.update_of_ne hq] at hj
      exact h q j m' f' hj

/-- A place with no message in hand that starts no task. -/
def Quiet (pc : Pc) : Prop := pending pc = [] ∧ ∀ m f, pc = .systemGot m → startFunc m.type ≠ some f

theorem AnswerOk.of_quiet {k : Kernel} {p : Ptr} (hcur : k.tm.currentTask = some p) (h : Quiet (k.pc p)) :
    AnswerOk k .run := by
  intro _ q hq
  obtain rfl := Option.some.inj (hcur.symm.trans hq)
  exact ⟨fun hne => absurd h.1 hne, fun m f t hpc hf => absurd hf (h.2 m f hpc)⟩

theorem AnswerOk.iff_hand {k : Kernel} {p : Ptr} (hcur : k.tm.currentTask = some p) {m : Message}
    (h : pending (k.pc p) = [m]) : AnswerOk k .run ↔ FromLiveTask k p := by
  constructor
  · intro ha
    exact (ha rfl p hcur).1 (by rw [h]; simp)
  · intro hl _ q hq
    obtain rfl := Option.some.inj (hcur.symm.trans hq)
    refine ⟨fun _ => hl, fun m' f t hpc => ?_⟩
    rw [hpc] at h
    exact absurd h (by simp [pending])

theorem AnswerOk.iff_start {k : Kernel} {p : Ptr} (hcur : k.tm.currentTask = some p) {m : Message} {f : TaskFunc}
    (hpc : k.pc p = .systemGot m) (hf : startFunc m.type = some f) :
    AnswerOk k .run ↔ ∀ t, k.tm.find m.starttaskId = some t → t.ptr ≠ p → pending (k.pc t.ptr) = [] := by
  constructor
  · intro ha t ht hne
    exact (ha rfl p hcur).2 m f t hpc hf ht hne
  · intro hl _ q hq
    obtain rfl := Option.some.inj (hcur.symm.trans hq)
    refine ⟨fun hne => absurd (by rw [hpc]; rfl) hne, fun m' f' t hpc' _ ht hne => ?_⟩
    obtain rfl := Pc.systemGot.inj (hpc.symm.trans hpc')
    exact hl t ht hne

theorem Goes.quiet {pc pc' : Pc} (h : Goes pc pc') : Quiet pc ∧ pending pc' = [] ∧ ∀ t, PcStamped t pc' := by
  cases h with
  | opened | closed => exact ⟨⟨rfl, by simp⟩, rfl, fun _ => trivial⟩
  | ignored m hm =>
    refine ⟨⟨rfl, fun m' f he => ?_⟩, rfl, fun _ => trivial⟩
    rw [← Pc.systemGot.inj he, hm]
    simp

theorem Waits.quiet {pc : Pc} {i : Nat} (h : Waits pc i) : Quiet pc := by
  cases h <;> exact ⟨rfl, by simp⟩

theorem Keeps.stamped {m : Message} {pc pc' : Pc} (h : Keeps m pc pc') {t : Task} (ht : PcStamped t pc) :
    pending pc' = [] ∧ PcStamped t pc' := by
  cases h <;> exact ⟨rfl, by trivial⟩

/-- A task's sends carry its id, `TaskServer`'s the id 1. -/
theorem Sends.stamped {k : Kernel} (hs : k.Sound) {t : Task} (ht : t ∈ k.tm.tasks) {pc pc' : Pc} {who : Producer}
    {id : UInt64} {msg : Message} (h : Sends t.ptr t pc who id msg pc') (hpc : k.pc t.ptr = pc) (hst : PcStamped t pc) :
    Stamped k.tm msg who ∧ Quiet pc ∧ pending pc' = [] ∧ PcStamped t pc' := by
  have hown : msg.srcTask = t.id → t.ptr < k.tm.nextPtr ∧ ∀ u ∈ k.tm.tasks, u.ptr = t.ptr → msg.srcTask = u.id :=
    fun hm => ⟨hs.ptr_lt ht, fun u hu hp => by rw [hs.core.rep.unique hu ht hp, hm]⟩
  cases h with
  | call => exact ⟨hown hst, ⟨rfl, by simp⟩, rfl, trivial⟩
  | reply dst =>
    -- only task 1 replies
    have hp : t.ptr = systemPtr := (hs.system _).1 (by rw [hpc]; trivial)
    obtain ⟨s, rest, htasks, hsp, hsid⟩ := hs.first
    have hts : t = s := hs.core.rep.unique ht (by rw [htasks]; simp) (hp.trans hsp.symm)
    exact ⟨hown (by rw [hts, hsid]), ⟨rfl, by simp⟩, rfl, trivial⟩
  | exitApp => exact ⟨hown hst, ⟨rfl, by simp⟩, rfl, hst⟩
  | exitServer =>
    refine ⟨⟨fun hp => ?_, rfl⟩, ⟨rfl, by simp⟩, rfl, trivial⟩
    have := (hs.system _).2 hp
    rw [hpc] at this
    exact this

/-- A task with a message in hand that is started again forgets it. -/
theorem Traced.abandon {k : Kernel} (h : k.Traced) (hc : k.tm.Core) {t : Task} (ht : t ∈ k.tm.tasks) :
    ((k.abandon t.ptr).setPc t.ptr .user).Traced ∧
    (k.NoLoss → ((k.abandon t.ptr).NoLoss ↔ pending (k.pc t.ptr) = [])) := by
  cases hpc : k.pc t.ptr with
  | closedReject len i target m =>
    have hhand : pending (k.pc t.ptr) = [m] := by rw [hpc]; rfl
    have ha : k.abandon t.ptr = k.note t.ptr m .dropped := by simp [Kernel.abandon, hpc]
    obtain ⟨who, hx⟩ := h.inHand ht hhand
    rw [ha]
    exact ⟨h.settle hc ht _ hhand rfl trivial, fun hn => (hn.note_iff hx .dropped).trans (by simp [pending, Answered])⟩
  | _ =>
    have ha : k.abandon t.ptr = k := by simp [Kernel.abandon, hpc]
    rw [ha]
    exact ⟨h.setPc hc ht (by simp [hpc, pending]) trivial, fun hn => iff_of_true hn rfl⟩

/-- A start request handled by the system task. -/
theorem Traced.starts {k k1 : Kernel} (h : k.Traced) (hs : k.Sound) {t : Task} (ht : t ∈ k.tm.tasks)
    (hcur : k.tm.currentTask = some t.ptr) {m : Message} {f : TaskFunc} (hpc : k.pc t.ptr = .systemGot m)
    (hf : startFunc m.type = some f) (he : k.start f m.starttaskId m.srcTask = some k1) :
    (k1.setPc t.ptr .system).Traced ∧ (k.NoLoss → ((k1.setPc t.ptr .system).NoLoss ↔ AnswerOk k .run)) := by
  have hhand : pending (k.pc t.ptr) = [] := by rw [hpc]; rfl
  rw [AnswerOk.iff_start hcur hpc hf]
  rcases start_spec hs.core he with ⟨hnone, rfl⟩ | ⟨v, tm', hv, hcore, hto, rfl⟩
  · refine ⟨h.setPc hs.core ht hhand.symm trivial, fun hn => iff_of_true (hn.frame rfl rfl) fun u hu => ?_⟩
    rw [hnone] at hu
    exact absurd hu (by simp)
  have h1 := h.touch hto fun _ => ⟨rfl, rfl, rfl⟩
  obtain ⟨u, hu, hup, -⟩ := hto.mem (fun _ => ⟨rfl, rfl⟩) ht
  have hfind : (∀ w, k.tm.find m.starttaskId = some w → w.ptr ≠ t.ptr → pending (k.pc w.ptr) = []) ↔
      (v.ptr ≠ t.ptr → pending (k.pc v.ptr) = []) := by
    refine ⟨fun hw => hw v hv, fun hw w hw' => ?_⟩
    obtain rfl := Option.some.inj (hv.symm.trans hw')
    exact hw
  rw [hfind]
  split
  · rename_i hself
    have hvt : v.ptr = t.ptr := Option.some.inj (hself.symm.trans hcur)
    refine ⟨?_, fun hn => iff_of_true (hn.frame rfl rfl) fun hne => absurd hvt hne⟩
    rw [← hup]
    exact h1.setPc hcore hu (by rw [hup]; exact hhand.symm) trivial
  · rename_i hne
    have hvt : v.ptr ≠ t.ptr := fun e => hne (by rw [hcur, e])
    obtain ⟨w, hw, hwp, -⟩ := hto.mem (fun _ => ⟨rfl, rfl⟩) (find_some hv).1
    obtain ⟨h2, hn2⟩ := h1.abandon hcore hw
    have habandon : ∀ q, (({ k with tm := tm' } : Kernel).abandon q).tm = tm' ∧
        (({ k with tm := tm' } : Kernel).abandon q).pc = k.pc := by
      intro q
      unfold Kernel.abandon
      split <;> exact ⟨rfl, rfl⟩
    rw [← hwp] at hvt ⊢
    refine ⟨?_, fun hn => ?_⟩
    · rw [← hup] at hvt ⊢
      have hupd : Function.update k.pc w.ptr .user u.ptr = k.pc t.ptr := by rw [Function.update_of_ne (Ne.symm hvt), hup]
      refine h2.setPc (by rw [Kernel.setPc, (habandon _).1]; exact hcore)
        (by rw [Kernel.setPc, (habandon _).1]; exact hu) ?_ trivial
      rw [Kernel.setPc, (habandon _).2]
      show [] = pending (Function.update k.pc w.ptr .user u.ptr)
      rw [hupd, hhand]
    · have : (∀ k2 : Kernel, k2.NoLoss ↔ ((k2.setPc w.ptr .user).setPc t.ptr .system).NoLoss) :=
        fun k2 => ⟨fun hk => hk.frame rfl rfl, fun hk => hk.frame rfl rfl⟩
      rw [← this, hn2 (hn.frame rfl rfl)]
      exact ⟨fun hk _ => hk, fun hk => hk hvt⟩

/-- **One section of the current task.** The trace is kept, and a loss-free history stays so exactly when
the step is `AnswerOk`. -/
theorem Traced.runs {k k' : Kernel} (h : k.Traced) (hs : k.Sound) {t : Task} (ht : t ∈ k.tm.tasks)
    (hcur : k.tm.currentTask = some t.ptr) (hsec : Section k t.ptr t k') :
    k'.Traced ∧ (k.NoLoss → (k'.NoLoss ↔ AnswerOk k .run)) := by
  have hplace := h.places t ht
  cases hsec with
  | go pc hg =>
    obtain ⟨hq, hnext, hst⟩ := hg.quiet
    exact ⟨h.setPc hs.core ht (hnext.trans hq.1.symm) (hst t),
      fun hn => iff_of_true (hn.frame rfl rfl) (.of_quiet hcur hq)⟩
  | send who id msg pc k1 hsd he =>
    obtain ⟨hwho, hq, hnext, hst⟩ := hsd.stamped hs ht rfl hplace
    obtain ⟨u, hu, hup, hid⟩ := send_mem hs.core he ht
    obtain ⟨hs1, hpc1, -⟩ := hs.send he
    refine ⟨?_, fun hn => iff_of_true ((hn.send hs he).frame rfl rfl) (.of_quiet hcur hq)⟩
    rw [← hup]
    refine (h.send hs hwho he).setPc hs1.core hu ?_ (hst.of_id hid.symm)
    rw [hpc1, hup, hnext, hq.1]
  | reject len i target m k1 hpc he =>
    have hhand : pending (k.pc t.ptr) = [m] := by rw [hpc]; rfl
    obtain ⟨u, hu, hup, hid⟩ := send_mem hs.core he ht
    obtain ⟨hs1, hpc1, -⟩ := hs.send he
    have hwho : Stamped k.tm (errorRetry t.id) (.kernel t.ptr) :=
      ⟨hs.ptr_lt ht, fun u hu hp => by rw [hs.core.rep.unique hu ht hp]; rfl⟩
    have h1 := h.send hs hwho he
    refine ⟨?_, fun hn => ?_⟩
    · rw [← hup]
      exact h1.settle hs1.core hu _ (by rw [hpc1, hup, hhand]) rfl trivial
    · obtain ⟨who, hx⟩ := h.inHand ht hhand
      obtain ⟨hlog, hsent⟩ := send_history hs.core he
      have hx1 : (k1.sent t.ptr)[(k1.log t.ptr).length]? = some (who, m) := by
        rw [hlog]
        exact hsent _ _ _ hx
      calc _ ↔ Answered who (.bounced ((k.tm.find m.srcTask).map (·.ptr))) := (hn.send hs he).note_iff hx1 _
        _ ↔ FromLiveTask k t.ptr := h.answered_iff hs hx
        _ ↔ AnswerOk k .run := (AnswerOk.iff_hand hcur hhand).symm
  | sleep i tm' hw he =>
    rcases hs.core.takeMessage_spec ht he with ⟨m, ms, -, hr, -, -⟩ | ⟨-, -, -, -, -, hto⟩ | ⟨-, -, hr, -⟩
    · exact absurd hr (by simp)
    · exact ⟨h.touch hto fun _ => ⟨rfl, rfl, rfl⟩, fun hn => iff_of_true (hn.frame rfl rfl) (.of_quiet hcur hw.quiet)⟩
    · exact absurd hr (by simp)
  | keep i tm' m pc ret hw hk he =>
    obtain ⟨hnext, hst⟩ := hk.stamped hplace
    rcases hs.core.takeMessage_spec ht he with ⟨m', ms, hm, hr, hcore, hto⟩ | ⟨-, -, hr, -, -, -⟩ | ⟨-, -, hr, -⟩
    · obtain rfl := Taken.got.inj hr
      obtain ⟨⟨who, hx⟩, h1⟩ := h.keep hs.core ht hm hto hcore hw.quiet.1 ret hnext hst
      exact ⟨h1, fun hn => iff_of_true ((NoLoss.note_iff hn hx .kept).2 trivial |>.frame rfl rfl)
        (.of_quiet hcur hw.quiet)⟩
    · exact absurd hr (by simp)
    · exact absurd hr (by simp)
  | refuse len i target tm' m hpc _ he =>
    have hq : Quiet (k.pc t.ptr) := by rw [hpc]; exact ⟨rfl, by simp⟩
    rcases hs.core.takeMessage_spec ht he with ⟨m', ms, hm, hr, hcore, hto⟩ | ⟨-, -, hr, -, -, -⟩ | ⟨-, -, hr, -⟩
    · obtain rfl := Taken.got.inj hr
      exact ⟨h.pop hs.core ht hm hto hq.1 rfl trivial,
        fun hn => iff_of_true (hn.frame rfl rfl) (.of_quiet hcur hq)⟩
    · exact absurd hr (by simp)
    · exact absurd hr (by simp)
  | expand m hpc hm =>
    have hq : Quiet (k.pc t.ptr) := by
      rw [hpc]
      refine ⟨rfl, fun m' f he => ?_⟩
      rw [← Pc.systemGot.inj he, hm]
      simp
    refine ⟨?_, fun hn => iff_of_true (hn.frame rfl rfl) (.of_quiet hcur hq)⟩
    unfold TaskManager.expandTaskBuffer
    split
    · exact h.setPc hs.core ht hq.1.symm trivial
    · rename_i v hv
      have hto : Touches k.tm v.ptr (fun t => { t with buf := resize t.buf m.expandBytes.toNat })
        (k.tm.modify v.ptr fun t => { t with buf := resize t.buf m.expandBytes.toNat }) := ⟨rfl, rfl, rfl⟩
      obtain ⟨u, hu, hup, -⟩ := hto.mem (fun _ => ⟨rfl, rfl⟩) ht
      rw [← hup]
      refine (h.touch hto fun _ => ⟨rfl, rfl, rfl⟩).setPc ?_ hu (by rw [hup]; exact hq.1.symm) trivial
      exact hs.core.modify _ _ (fun _ => rfl) (fun _ => rfl) (fun _ => rfl)
  | start m f k1 hpc hf he => exact h.starts hs ht hcur hpc hf he
  | finish ec tm' hpc he =>
    obtain ⟨c, -, -, hspec, -⟩ := hs.core.finish ec
    obtain ⟨-, -, htasks, -, hn⟩ := hspec tm' he
    refine ⟨h.sublist (fun u hu => ?_) hn, fun hn => iff_of_true (hn.frame rfl rfl) (.of_quiet hcur ?_)⟩
    · rw [htasks] at hu
      exact (List.mem_filter.1 hu).1
    · rw [hpc]
      exact ⟨rfl, by simp⟩

/-- **One step.** -/
theorem Traced.step {k k' : Kernel} (h : k.Traced) (hs : k.Sound) {e : Event} (he : k.step e = some k') :
    k'.Traced ∧ (k.NoLoss → (k'.NoLoss ↔ AnswerOk k e)) := by
  have hother : e ≠ .run → AnswerOk k e := fun hne hrun => absurd hrun hne
  cases step_stepped hs.core he with
  | tick timer ms _ _ hm =>
    have h0 : ({ k with timer := timer } : Kernel).Traced := ⟨h.queue, h.logged, h.stamped, h.places⟩
    have hs0 : ({ k with timer := timer } : Kernel).Sound := ⟨hs.core, hs.system, hs.first, hs.fresh⟩
    exact ⟨Traced.sendAll ms h0 hs0 hm,
      fun hn => iff_of_true (NoLoss.sendAll ms (k := { k with timer := timer }) (hn.frame rfl rfl) hs0 hm)
        (hother (by simp))⟩
  | switch timer ms k1 tm' _ hm hsw =>
    have h0 : ({ k with timer := timer } : Kernel).Traced := ⟨h.queue, h.logged, h.stamped, h.places⟩
    have hs0 : ({ k with timer := timer } : Kernel).Sound := ⟨hs.core, hs.system, hs.first, hs.fresh⟩
    have hs1 := Sound.sendAll ms hs0 hm
    obtain ⟨tm2, hsw2, -, -, htasks, -, hn2⟩ := hs1.core.switchTask
    obtain rfl := Option.some.inj (hsw.symm.trans hsw2)
    exact ⟨(Traced.sendAll ms h0 hs0 hm).sublist (fun u hu => htasks ▸ hu) hn2,
      fun hn => iff_of_true ((NoLoss.sendAll ms (k := { k with timer := timer }) (hn.frame rfl rfl) hs0 hm).frame rfl rfl)
        (hother (by simp))⟩
  | kernelSend id msg _ hm =>
    exact ⟨h.send hs (show Stamped k.tm msg .driver from trivial) hm, fun hn => iff_of_true (hn.send hs hm)
      (hother (by simp))⟩
  | call t _ pc ht hcur hpc hc =>
    have hpend : pending pc = [] ∧ PcStamped t pc := by
      cases hc with
      | exit ec arg =>
        unfold exitPc
        split <;> exact ⟨rfl, by trivial⟩
      | send | opened | closed => exact ⟨rfl, by trivial⟩
    refine ⟨h.setPc hs.core ht (by rw [hpend.1, hpc]; rfl) hpend.2, fun hn => iff_of_true (hn.frame rfl rfl) (hother ?_)⟩
    cases hc <;> simp
  | newTask => exact ⟨h.newTask hs, fun hn => iff_of_true (hn.frame rfl rfl) (hother (by simp))⟩
  | createTimer =>
    exact ⟨⟨h.queue, h.logged, h.stamped, h.places⟩, fun hn => iff_of_true (hn.frame rfl rfl) (hother (by simp))⟩
  | setName p name =>
    exact ⟨h.touch (q := p) (f := fun t => { t with name := name }) ⟨rfl, rfl, rfl⟩ fun _ => ⟨rfl, rfl, rfl⟩,
      fun hn => iff_of_true (hn.frame rfl rfl) (hother (by simp))⟩
  | run t _ ht hcur hsec => exact h.runs hs ht hcur hsec

/-! ## Every run -/

theorem traced_boot {k : Kernel} (h : boot = some k) : k.Traced ∧ k.NoLoss := by
  obtain ⟨tm, he, -, hto⟩ := bootTasks_touches
  obtain ⟨tm', he', rfl⟩ := Option.map_eq_some_iff.1 h
  obtain rfl := Option.some.inj (he.symm.trans he')
  have hpc : ∀ p t, pending ((atBoot tm).pc p) = [] ∧ PcStamped t ((atBoot tm).pc p) := by
    intro p t
    simp only [atBoot]
    split_ifs <;> exact ⟨rfl, trivial⟩
  refine ⟨⟨fun t ht => ?_, fun p => List.prefix_rfl, fun p x hx => absurd hx List.not_mem_nil, fun t _ => (hpc _ t).2⟩,
    fun p j m f hj => absurd hj (by simp [atBoot])⟩
  have hmsgs : ∀ u ∈ tm.tasks, u.msgs = [] := by
    rw [hto.tasks]
    decide
  rw [(hpc t.ptr t).1, hmsgs t ht]
  rfl

/-- **Which runs lose no message.** For every run from boot: in each of its states every message a receive
removed was kept or answered to the task that produced it, if and only if every rejected message had been
sent by a task under its own id that is still live, and no start request hit a task with a message in hand. -/
theorem closed_receive_answers_iff (k : Kernel) (es : List Event) (h : boot = some k) :
    TransitionSystem.States step NoLoss k es ↔ TransitionSystem.Along step AnswerOk k es := by
  obtain ⟨htr, hn⟩ := traced_boot h
  refine (TransitionSystem.along_iff_states (I := fun k => k.Sound ∧ k.Traced) (fun k e k' hI he => ?_)
    (fun k e k' hI hn he => ?_) es ⟨sound_boot h, htr⟩ hn).symm
  · exact ⟨hI.1.step he, (hI.2.step hI.1 he).1⟩
  · exact (hI.2.step hI.1 he).2 hn

/-! The condition can be evaluated. -/

/-- The task that has sent the message under its own id. -/
def sender : Producer → Option Ptr
  | .syscall p _ | .kernel p => some p
  | _ => none

theorem sender_eq_some {who : Producer} {p : Ptr} :
    sender who = some p ↔ who = .kernel p ∨ ∃ id, who = .syscall p id := by
  cases who <;> simp [sender]

instance (k : Kernel) (p : Ptr) : Decidable (FromLiveTask k p) :=
  decidable_of_iff (∃ x ∈ (k.sent p)[(k.log p).length]?, ∃ u ∈ k.tm.tasks, k.tm.find u.id = some u ∧
      sender x.1 = some u.ptr) (by simp only [sender_eq_some, Prod.exists]; rfl)

instance (k : Kernel) (e : Event) : Decidable (AnswerOk k e) :=
  decidable_of_iff (e = .run → ∀ p, k.tm.currentTask = some p → (pending (k.pc p) ≠ [] → FromLiveTask k p) ∧
      ∀ m, handled (k.pc p) = some m → ∀ f, startFunc m.type = some f → ∀ t, k.tm.find m.starttaskId = some t →
        t.ptr ≠ p → pending (k.pc t.ptr) = [])
    (by simp only [handled_eq_some]; exact imp_congr_right fun _ => forall₂_congr fun p _ => and_congr_right fun _ =>
      ⟨fun h m f t hm hf => h m hm f hf t, fun h m hm f hf t => h m f t hm hf⟩)

/-- Task 3 rejects the message of task 4 while it waits for task 1, and task 4 is answered. -/
theorem closed_receive_answers_conversation : ∃ k k', boot = some k ∧
    TransitionSystem.States step NoLoss k conversation ∧ TransitionSystem.exec step k conversation = some k' ∧
    k'.log initPtr = [(⟨.kReady, 4, .unset⟩, .bounced (some 3))] ∧ k'.returned 3 = [errorRetry 3] := by
  have hrun : boot.any (fun k => decide (TransitionSystem.Along step AnswerOk k conversation) &&
      (TransitionSystem.exec step k conversation).any fun k' =>
        decide (k'.log initPtr = [(⟨.kReady, 4, .unset⟩, .bounced (some 3))] ∧ k'.returned 3 = [errorRetry 3])) = true := by
    decide +kernel
  obtain ⟨k, hb, hk⟩ := (Option.any_eq_true _ _).mp hrun
  obtain ⟨hok, hend⟩ := Bool.and_eq_true_iff.mp hk
  obtain ⟨k', he, hk'⟩ := (Option.any_eq_true _ _).mp hend
  obtain ⟨hlog, hret⟩ := decide_eq_true_eq.mp hk'
  exact ⟨k, k', hb, (closed_receive_answers_iff k conversation hb).2 (decide_eq_true_eq.mp hok), he, hlog, hret⟩

/-- Task 3 sets a timer and waits for task 1; the timer fires. -/
def timerRun : List Event := [.run, .sysCreateTimer 1 1 0, .sysClosed 1 1, .tick, .run, .run]

/-- **A timer message is lost.** The closed receive answers `src_task` 0, and no task has that id. -/
theorem closed_receive_loses_timeout : ∃ k, Runs timerRun k ∧
    k.log initPtr = [(⟨.kTimerTimeout, 0, .timer 0 (-1)⟩, .bounced none)] ∧ ¬ k.NoLoss := by
  obtain ⟨k, hk, hlog⟩ := runs_of_eval (l := timerRun) (f := fun k => k.log initPtr)
    (x := [(⟨.kTimerTimeout, 0, .timer 0 (-1)⟩, .bounced none)]) rfl
  refine ⟨k, hk, hlog, fun hn => ?_⟩
  obtain ⟨who, -, q, hq, -⟩ := hn initPtr 0 ⟨.kTimerTimeout, 0, .timer 0 (-1)⟩ (.bounced none) (by rw [hlog]; rfl)
  exact absurd hq (by simp)

end KinOS.Kernel
