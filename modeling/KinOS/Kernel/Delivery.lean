import KinOS.Kernel.Machine

/-!
# Message delivery through `OpenReceiveMessage`

Runs of the machine made of `SendMessage` and `OpenReceiveMessage` system calls by any tasks,
kernel-side `SendMessage` calls and timer ticks, from any scheduler state in which no sleeping task
has a message. The invariant `Delivers` says, for every task: what it was returned followed by what
is queued is what was sent; a task out of the run queues has an empty queue; and what the
`SendMessage` system call pushed is stamped with the caller.
-/

namespace KinOS.Kernel

open TaskManager

/-- The events the runs are made of. -/
def IsDelivery : Event → Prop
  | .tick | .kernelSend _ _ | .sysSend _ _ | .run => True
  | .sysOpen len => 1 ≤ len
  | _ => False

def DeliveryStep (k k' : Kernel) : Prop := ∃ e : Event, IsDelivery e ∧ k.step e = some k'

/-- A start state: no system call is in progress and no sleeping task has a message. What is queued
counts as sent. -/
structure DeliveryStart (k : Kernel) : Prop where
  core : k.tm.Core
  pc : ∀ p, k.pc p = .user ∨ k.pc p = .halted
  quiet : ∀ t ∈ k.tm.tasks, t.running = false → t.msgs = []
  sent : ∀ t ∈ k.tm.tasks, (k.sent t.ptr).map Prod.snd = t.msgs
  returned : ∀ p, k.returned p = []
  notSyscall : ∀ p, ∀ x ∈ k.sent p, ∀ q c, x.1 ≠ .syscall q c

/-- The places the runs can be in; a pending `SendMessage` carries the caller's id. -/
def PcOk (k : Kernel) (p : Ptr) : Prop :=
  match k.pc p with
  | .user | .halted | .openReceive _ _ => True
  | .send msg _ => ∀ t ∈ k.tm.tasks, t.ptr = p → msg.srcTask = t.id
  | _ => False

structure Delivers (k : Kernel) : Prop where
  core : k.tm.Core
  pc : ∀ p, k.PcOk p
  quiet : ∀ t ∈ k.tm.tasks, t.running = false → t.msgs = []
  fifo : ∀ t ∈ k.tm.tasks, k.returned t.ptr ++ t.msgs = (k.sent t.ptr).map Prod.snd
  stamped : ∀ p, ∀ x ∈ k.sent p, ∀ q c, x.1 = .syscall q c → x.2.srcTask = c

theorem DeliveryStart.delivers {k : Kernel} (h : k.DeliveryStart) : k.Delivers where
  core := h.core
  pc := by
    intro p
    unfold PcOk
    rcases h.pc p with he | he <;> rw [he] <;> trivial
  quiet := h.quiet
  fifo := by
    intro t ht
    rw [h.returned, h.sent t ht, List.nil_append]
  stamped := by
    intro p x hx q c hc
    exact absurd hc (h.notSyscall p x hx q c)

/-! ## Every step keeps the invariant -/

/-- An operation that keeps pointers and ids keeps the pending stamps. -/
theorem PcOk.touches {k k' : Kernel} {q : Ptr} {f : Task → Task} (hto : Touches k.tm q f k'.tm)
    (hf : ∀ t, (f t).ptr = t.ptr ∧ (f t).id = t.id) {p : Ptr} (hpc : k'.pc p = k.pc p) (h : k.PcOk p) :
    k'.PcOk p := by
  unfold PcOk at h ⊢
  rw [hpc]
  revert h
  cases k.pc p <;> intro h <;> try exact h
  rename_i msg dst
  intro u hu hup
  obtain ⟨t, ht, hp, hid, -⟩ := hto.of_mem hf hu
  rw [← hid]
  exact h t ht (hp.trans hup)

/-- **A send.** The message goes to the back of the queue of the live task with the id, which wakes up;
without such a task nothing changes. -/
theorem Delivers.send {k : Kernel} (h : k.Delivers) (who : Producer) (id : UInt64) (msg : Message)
    (hwho : ∀ q c, who = .syscall q c → msg.srcTask = c) :
    ∃ k', k.send who id msg = some k' ∧ k'.Delivers ∧ k'.pc = k.pc ∧ k'.timer = k.timer := by
  cases hf : k.tm.find id with
  | none =>
    exact ⟨k, by simp [Kernel.send, sendMessage_none hf, hf], h, rfl, rfl⟩
  | some t =>
    have ht := (find_some hf).1
    obtain ⟨tm', he, hcore, hto⟩ := h.core.sendMessage_touches hf msg
    have hkeep : ∀ t : Task, ({ t with msgs := t.msgs ++ [msg], running := true } : Task).ptr = t.ptr ∧
        ({ t with msgs := t.msgs ++ [msg], running := true } : Task).id = t.id := fun _ => ⟨rfl, rfl⟩
    refine ⟨{ k with tm := tm', sent := Function.update k.sent t.ptr (k.sent t.ptr ++ [(who, msg)]) },
      by simp [Kernel.send, he, hf], ⟨hcore, fun p => ?_, ?_, ?_, ?_⟩, rfl, rfl⟩
    · exact @PcOk.touches k { k with tm := tm', sent := _ } _ _ hto hkeep _ rfl (h.pc p)
    · intro u hu hrun
      obtain ⟨v, hv, hp, -, hue⟩ := hto.of_mem hkeep hu
      by_cases hq : u.ptr = t.ptr
      · rw [if_pos hq] at hue; rw [hue] at hrun; exact absurd hrun (by simp)
      · rw [if_neg hq] at hue; subst hue; exact h.quiet u hv hrun
    · intro u hu
      obtain ⟨v, hv, hp, -, hue⟩ := hto.of_mem hkeep hu
      show k.returned u.ptr ++ u.msgs = _
      by_cases hq : u.ptr = t.ptr
      · rw [if_pos hq] at hue
        obtain rfl := h.core.rep.unique hv ht (hp.trans hq)
        have hm : u.msgs = v.msgs ++ [msg] := by rw [hue]
        simp only [hq, Function.update_self, List.map_append, List.map_cons, List.map_nil, hm]
        rw [← h.fifo v hv, List.append_assoc]
      · rw [if_neg hq] at hue
        subst hue
        simp only [Function.update_of_ne hq]
        exact h.fifo u hv
    · intro p x hx q c hc
      by_cases hq : p = t.ptr
      · subst hq
        simp only [Function.update_self, List.mem_append, List.mem_singleton] at hx
        rcases hx with hx | rfl
        · exact h.stamped _ x hx q c hc
        · exact hwho q c hc
      · simp only [Function.update_of_ne hq] at hx
        exact h.stamped p x hx q c hc

theorem Delivers.sendAll : ∀ (ms : List (UInt64 × Message)) {k : Kernel}, k.Delivers →
    ∃ k', k.sendAll ms = some k' ∧ k'.Delivers
  | [], k, h => ⟨k, rfl, h⟩
  | (id, msg) :: ms, k, h => by
    obtain ⟨k1, he, h1, -⟩ := h.send .timer id msg (fun _ _ hc => absurd hc (by simp))
    obtain ⟨k2, he2, h2⟩ := Delivers.sendAll ms h1
    exact ⟨k2, by simp [Kernel.sendAll, he, he2], h2⟩

/-- **A tick** is a sequence of sends, and perhaps a task switch. -/
theorem Delivers.onTick {k k' : Kernel} (h : k.Delivers) (he : k.onTick = some k') : k'.Delivers := by
  simp only [Kernel.onTick, Option.bind_eq_bind, Option.bind_eq_some_iff] at he
  obtain ⟨⟨timer, ms, switch⟩, -, k1, hs, he⟩ := he
  have h0 : ({ k with timer := timer } : Kernel).Delivers := ⟨h.core, h.pc, h.quiet, h.fifo, h.stamped⟩
  obtain ⟨k2, hs2, h2⟩ := Delivers.sendAll ms h0
  obtain rfl := Option.some.inj (hs.symm.trans hs2)
  cases switch with
  | false =>
    simp only [Bool.false_eq_true, if_false, pure, Option.some.injEq] at he
    exact he ▸ h2
  | true =>
    obtain ⟨tm', hsw, hcore, -, htasks, -, -⟩ := h2.core.switchTask
    simp only [if_true, hsw, Option.bind_some, pure, Option.some.injEq] at he
    subst he
    refine ⟨hcore, fun p => ?_, ?_, ?_, h2.stamped⟩
    · have := h2.pc p
      unfold PcOk at this ⊢
      simpa [htasks] using this
    · simpa [htasks] using h2.quiet
    · simpa [htasks] using h2.fifo

theorem Delivers.setPc {k : Kernel} (h : k.Delivers) {p : Ptr} (pc : Pc)
    (hpc : (k.setPc p pc).PcOk p) : (k.setPc p pc).Delivers := by
  refine ⟨h.core, fun q => ?_, h.quiet, h.fifo, h.stamped⟩
  by_cases hq : q = p
  · exact hq ▸ hpc
  · have := h.pc q
    unfold PcOk Kernel.setPc at *
    simpa [Function.update_of_ne hq] using this

/-- **The section of `OpenReceiveMessage`.** A popped message goes to the buffer; sleeping needs an empty
queue. -/
theorem Delivers.openSection {k k' : Kernel} (h : k.Delivers) {t : Task} (ht : t ∈ k.tm.tasks)
    {len i : Nat} (hpc : k.pc t.ptr = .openReceive len i)
    (he : k.runSection t.ptr = some k') : k'.Delivers := by
  have hopen : ∀ (k1 : Kernel) (pc : Pc), pc = .user ∨ (∃ l j, pc = .openReceive l j) →
      (k1.setPc t.ptr pc).PcOk t.ptr := by
    rintro k1 pc (rfl | ⟨l, j, rfl⟩) <;> simp [PcOk, Kernel.setPc]
  by_cases hlen : len ≤ i
  · simp only [Kernel.runSection, h.core.rep.deref_eq ht, hpc, hlen, Option.bind_eq_bind, Option.bind_some, if_true,
      pure, Option.some.injEq] at he
    exact he ▸ h.setPc _ (hopen k _ (Or.inl rfl))
  simp only [Kernel.runSection, h.core.rep.deref_eq ht, hpc, hlen, Option.bind_eq_bind, Option.bind_some,
    if_false, pure, Option.bind_eq_some_iff] at he
  obtain ⟨⟨tm', r⟩, htake, he⟩ := he
  rcases h.core.takeMessage_spec ht htake with ⟨m, ms, hm, rfl, hcore, hto⟩ | ⟨hm, -, rfl, -, hcore, hto⟩ |
    ⟨hm, -, rfl, rfl⟩
  · -- popped and stored
    obtain rfl := Option.some.inj he
    have hkeep : ∀ t : Task, ({ t with msgs := ms } : Task).ptr = t.ptr ∧ ({ t with msgs := ms } : Task).id = t.id :=
      fun _ => ⟨rfl, rfl⟩
    have h1 : (({ k with tm := tm' } : Kernel).store t.ptr m).Delivers := by
      refine ⟨hcore, fun p => @PcOk.touches k (({ k with tm := tm' } : Kernel).store t.ptr m) _ _ hto hkeep _ rfl (h.pc p),
        ?_, ?_, h.stamped⟩
      · intro u hu hrun
        obtain ⟨v, hv, hvp, -, hue⟩ := hto.of_mem hkeep hu
        by_cases hq : u.ptr = t.ptr
        · rw [if_pos hq] at hue
          obtain rfl := h.core.rep.unique hv ht (hvp.trans hq)
          have hrv : v.running = false := by rw [hue] at hrun; exact hrun
          have := h.quiet v hv hrv
          rw [hm] at this
          exact absurd this (by simp)
        · rw [if_neg hq] at hue; subst hue; exact h.quiet u hv hrun
      · intro u hu
        obtain ⟨v, hv, hvp, -, hue⟩ := hto.of_mem hkeep hu
        simp only [Kernel.store, Kernel.note]
        by_cases hq : u.ptr = t.ptr
        · rw [if_pos hq] at hue
          obtain rfl := h.core.rep.unique hv ht (hvp.trans hq)
          have hum : u.msgs = ms := by rw [hue]
          have hf := h.fifo v hv
          rw [hm] at hf
          simp [hq, hum, ← hf]
        · rw [if_neg hq] at hue
          subst hue
          simp only [Function.update_of_ne hq]
          exact h.fifo u hv
    exact h1.setPc _ (hopen _ _ (Or.inr ⟨_, _, rfl⟩))
  · -- asleep: nothing was queued
    obtain rfl := Option.some.inj he
    have hkeep : ∀ t : Task, ({ t with running := false } : Task).ptr = t.ptr ∧
        ({ t with running := false } : Task).id = t.id := fun _ => ⟨rfl, rfl⟩
    refine ⟨hcore, fun p => @PcOk.touches k { k with tm := tm' } _ _ hto hkeep _ rfl (h.pc p), ?_, ?_, h.stamped⟩
    · intro u hu hrun
      obtain ⟨v, hv, hvp, -, hue⟩ := hto.of_mem hkeep hu
      by_cases hq : u.ptr = t.ptr
      · rw [if_pos hq] at hue
        obtain rfl := h.core.rep.unique hv ht (hvp.trans hq)
        rw [hue]; exact hm
      · rw [if_neg hq] at hue; subst hue; exact h.quiet u hv hrun
    · intro u hu
      obtain ⟨v, hv, hvp, -, hue⟩ := hto.of_mem hkeep hu
      have hum : u.msgs = v.msgs := by rw [hue]; split <;> rfl
      show k.returned u.ptr ++ u.msgs = _
      rw [hum, ← hvp]
      exact h.fifo v hv
  · -- nothing left: the call returns
    exact Option.some.inj he ▸ h.setPc _ (hopen k _ (Or.inl rfl))

/-- **Every step of such a run keeps the invariant.** -/
theorem Delivers.step {k k' : Kernel} (h : k.Delivers) (hs : DeliveryStep k k') : k'.Delivers := by
  obtain ⟨e, hd, he⟩ := hs
  obtain ⟨t, rest, ht, -, -, -, hcur⟩ := h.core.currentTask_live
  cases e with
  | tick => exact h.onTick he
  | kernelSend id msg =>
    obtain ⟨k1, he1, h1, -⟩ := h.send .driver id msg (fun _ _ hc => absurd hc (by simp))
    obtain rfl := Option.some.inj (he1.symm.trans he)
    exact h1
  | sysSend buf dst =>
    simp only [Kernel.step, hcur, Option.bind_eq_bind, Option.bind_some, Kernel.sysCall, h.core.rep.deref_eq ht] at he
    by_cases hpc : k.pc t.ptr = .user
    · simp only [hpc, ne_eq, not_true, if_false, pure, Option.some.injEq] at he
      subst he
      refine h.setPc _ ?_
      simp only [PcOk, Kernel.setPc, Function.update_self]
      intro u hu hup
      rw [h.core.rep.unique hu ht hup]
    · simp [hpc] at he
  | sysOpen len =>
    simp only [Kernel.step, hcur, Option.bind_eq_bind, Option.bind_some, Kernel.sysCall, h.core.rep.deref_eq ht] at he
    by_cases hpc : k.pc t.ptr = .user
    · simp only [hpc, ne_eq, not_true, if_false, pure, Option.some.injEq] at he
      subst he
      exact h.setPc _ (by simp [PcOk, Kernel.setPc])
    · simp [hpc] at he
  | run =>
    simp only [Kernel.step, hcur, Option.bind_eq_bind, Option.bind_some] at he
    have hok := h.pc t.ptr
    unfold PcOk at hok
    cases hpc : k.pc t.ptr <;> rw [hpc] at hok <;> try exact hok.elim
    case user => simp [Kernel.runSection, h.core.rep.deref_eq ht, hpc] at he
    case halted => simp [Kernel.runSection, h.core.rep.deref_eq ht, hpc] at he
    case send msg dst =>
      have hid := hok t ht rfl
      obtain ⟨k1, he1, h1, -⟩ := h.send (.syscall t.ptr t.id) dst msg (fun q c hc => by
        rw [hid]
        exact (Producer.syscall.inj hc).2)
      simp only [Kernel.runSection, h.core.rep.deref_eq ht, hpc, Option.bind_eq_bind, Option.bind_some, he1, pure,
        Option.some.injEq] at he
      subst he
      exact h1.setPc _ (by simp [PcOk, Kernel.setPc])
    case openReceive len i => exact h.openSection ht hpc he
  | sysClosed _ _ | sysNewTask | sysCreateTimer _ _ _ | setName _ | sysExit _ _ => exact hd.elim

/-- After the constructor, with task 1 in user code. -/
def bootUser : Kernel where
  tm := TaskManager.boot
  timer := .init
  pc := fun p => if p = idlePtr then .halted else .user
  sent := fun _ => []
  returned := fun _ => []
  log := fun _ => []

theorem deliveryStart_bootUser : bootUser.DeliveryStart where
  core := inv_boot.toCore
  pc := by
    intro p
    by_cases hp : p = idlePtr
    · exact Or.inr (if_pos hp)
    · exact Or.inl (if_neg hp)
  quiet := by simp [bootUser, boot_tasks]
  sent := by simp [bootUser, boot_tasks]
  returned := fun _ => rfl
  notSyscall := by simp [bootUser]

def selfSend : List Event := [.sysSend ⟨.kReady, 99, .unset⟩ 1, .run, .sysOpen 1, .run]

end KinOS.Kernel
