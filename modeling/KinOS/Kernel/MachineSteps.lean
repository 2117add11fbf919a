import KinOS.Kernel.Machine

/-!
# What a step of the machine can do

`runSection` has one branch for each place a task can be in; `Section` sorts them by effect: a bare
change of place, a send, a rejection, a pop, going to sleep, a buffer resize, a start, a finish.
`runSection_section` is the one place that looks at every branch. `Sound` is what every step keeps,
whatever the tasks do.
-/

namespace KinOS.Kernel

open TaskManager

@[simp]
theorem setPc_pc_self (k : Kernel) (p : Ptr) (pc : Pc) : (k.setPc p pc).pc p = pc := Function.update_self ..

theorem setPc_pc_other (k : Kernel) {p q : Ptr} (pc : Pc) (h : q ≠ p) : (k.setPc p pc).pc q = k.pc q :=
  Function.update_of_ne h ..

theorem store_returned (k : Kernel) (p : Ptr) (m : Message) : (k.store p m).returned p = k.returned p ++ [m] :=
  Function.update_self ..

/-- The entry point a start request asks for. -/
def startFunc : MsgType → Option TaskFunc
  | .kStartServer => some .taskServer
  | .kStartApp => some .taskApp
  | _ => none

/-- A change of place and nothing else. -/
inductive Goes : Pc → Pc → Prop
  | opened (len i : Nat) : len ≤ i ∨ i ≠ 0 → Goes (.openReceive len i) .user
  | closed (len i : Nat) (target : UInt64) : len ≤ i ∨ i ≠ 0 → Goes (.closedReceive len i target) .user
  | ignored (m : Message) : startFunc m.type = none → Goes (.systemGot m) .system

/-- The places that call `SendMessage` and move on. -/
inductive Sends (p : Ptr) (t : Task) : Pc → Producer → UInt64 → Message → Pc → Prop
  | call (msg : Message) (dst : UInt64) : Sends p t (.send msg dst) (.syscall p t.id) dst msg .user
  | reply (dst : UInt64) : Sends p t (.systemReply dst) (.kernel p) dst ⟨.kExpandTaskBuffer, 1, .unset⟩ .system
  | exitApp (amId : UInt64) (msg : Message) (ec : Int) :
    Sends p t (.appExit amId msg ec) (.kernel p) amId msg (.appWait amId msg ec)
  | exitServer (initId : UInt64) (name : List UInt8) :
    Sends p t (.serverExit initId name) (.exitServer p) initId ⟨.kExitServer, 1, .exitserver name⟩ (.finishing 1)

/-- The loops that sleep on an empty queue. -/
inductive Waits : Pc → Nat → Prop
  | opened (len i : Nat) : i < len → Waits (.openReceive len i) i
  | closed (len i : Nat) (target : UInt64) : i < len → Waits (.closedReceive len i target) i
  | system : Waits .system 0
  | app (amId : UInt64) (msg : Message) (ec : Int) : Waits (.appWait amId msg ec) 0

/-- Where a popped message is kept, and the place after. -/
inductive Keeps (m : Message) : Pc → Pc → Prop
  | opened (len i : Nat) : Keeps m (.openReceive len i) (.openReceive len (i + 1))
  | closed (len i : Nat) (target : UInt64) : m.srcTask = target →
    Keeps m (.closedReceive len i target) (.closedReceive len (i + 1) target)
  | system : Keeps m .system (.systemGot m)
  | retry (amId : UInt64) (msg : Message) (ec : Int) : Keeps m (.appWait amId msg ec) (.appExit amId msg ec)
  | received (amId : UInt64) (msg : Message) (ec : Int) : Keeps m (.appWait amId msg ec) (.finishing ec)
  | other (amId : UInt64) (msg : Message) (ec : Int) : Keeps m (.appWait amId msg ec) (.appWait amId msg ec)

/-- The sections of task `t`, at pointer `p`, sorted by what they do. -/
inductive Section (k : Kernel) (p : Ptr) (t : Task) : Kernel → Prop
  | go (pc : Pc) : Goes (k.pc p) pc → Section k p t (k.setPc p pc)
  | send (who : Producer) (id : UInt64) (msg : Message) (pc : Pc) (k' : Kernel) :
    Sends p t (k.pc p) who id msg pc → k.send who id msg = some k' → Section k p t (k'.setPc p pc)
  | reject (len i : Nat) (target : UInt64) (m : Message) (k' : Kernel) :
    k.pc p = .closedReject len i target m → k.send (.kernel p) m.srcTask (errorRetry t.id) = some k' →
    Section k p t ((k'.note p m (.bounced ((k.tm.find m.srcTask).map (·.ptr)))).setPc p (.closedReceive len i target))
  | sleep (i : Nat) (tm' : TaskManager) : Waits (k.pc p) i → k.tm.takeMessage p i = some (tm', .slept) →
    Section k p t { k with tm := tm' }
  | keep (i : Nat) (tm' : TaskManager) (m : Message) (pc : Pc) (ret : Ptr → List Message) : Waits (k.pc p) i →
    Keeps m (k.pc p) pc → k.tm.takeMessage p i = some (tm', .got m) →
    Section k p t ({ ({ k with tm := tm' } : Kernel).note p m .kept with returned := ret }.setPc p pc)
  | refuse (len i : Nat) (target : UInt64) (tm' : TaskManager) (m : Message) :
    k.pc p = .closedReceive len i target → m.srcTask ≠ target → k.tm.takeMessage p i = some (tm', .got m) →
    Section k p t ({ k with tm := tm' }.setPc p (.closedReject len i target m))
  | expand (m : Message) : k.pc p = .systemGot m → startFunc m.type = none →
    Section k p t ({ k with tm := (k.tm.expandTaskBuffer m.expandId m.expandBytes).1 }.setPc p (.systemReply m.srcTask))
  | start (m : Message) (f : TaskFunc) (k' : Kernel) : k.pc p = .systemGot m → startFunc m.type = some f →
    k.start f m.starttaskId m.srcTask = some k' → Section k p t (k'.setPc p .system)
  | finish (ec : Int) (tm' : TaskManager) : k.pc p = .finishing ec → k.tm.finish ec = some tm' →
    Section k p t { k with tm := tm' }

/-- An empty queue ends the section without sleeping only after something was stored. -/
theorem takeMessage_empty {tm tm' : TaskManager} {p : Ptr} {i : Nat} (h : tm.takeMessage p i = some (tm', .empty)) :
    tm' = tm ∧ i ≠ 0 := by
  simp only [takeMessage, Option.bind_eq_bind, Option.bind_eq_some_iff, Task.receiveMessage] at h
  obtain ⟨t, -, h⟩ := h
  cases hm : t.msgs with
  | cons m ms => simp [hm] at h
  | nil =>
    by_cases hi : i = 0
    · simp only [hm, hi, if_true, Option.bind_eq_some_iff, pure, Option.some.injEq, Prod.mk.injEq, reduceCtorEq,
        and_false, exists_false] at h
    · simp only [hm, hi, if_false, pure, Option.some.injEq, Prod.mk.injEq, and_true] at h
      exact ⟨h.symm, hi⟩

/-- **Every branch of `runSection`.** -/
theorem runSection_section {k k' : Kernel} {p : Ptr} {t : Task} (ht : k.tm.deref p = some t)
    (he : k.runSection p = some k') : Section k p t k' := by
  simp only [runSection, ht, Option.bind_eq_bind, Option.bind_some] at he
  cases hpc : k.pc p <;> simp only [hpc, pure, reduceCtorEq, Option.bind_eq_some_iff, Option.some.injEq] at he
  case send msg dst =>
    obtain ⟨k1, hs, rfl⟩ := he
    exact .send _ _ _ _ _ (hpc ▸ .call msg dst) hs
  case openReceive len i =>
    split at he
    · rename_i hlen
      obtain rfl := Option.some.inj he
      exact .go _ (hpc ▸ .opened len i (Or.inl hlen))
    rename_i hlen
    have hw : Waits (k.pc p) i := hpc ▸ .opened len i (Nat.lt_of_not_le hlen)
    obtain ⟨⟨tm, r⟩, htake, he⟩ := Option.bind_eq_some_iff.1 he
    cases r <;> obtain rfl := Option.some.inj he
    · exact .sleep i _ hw htake
    · obtain ⟨rfl, hi⟩ := takeMessage_empty htake
      exact .go _ (hpc ▸ .opened len i (Or.inr hi))
    · exact .keep i _ _ _ _ hw (hpc ▸ .opened len i) htake
  case closedReceive len i target =>
    split at he
    · rename_i hlen
      obtain rfl := Option.some.inj he
      exact .go _ (hpc ▸ .closed len i target (Or.inl hlen))
    rename_i hlen
    have hw : Waits (k.pc p) i := hpc ▸ .closed len i target (Nat.lt_of_not_le hlen)
    obtain ⟨⟨tm, r⟩, htake, he⟩ := Option.bind_eq_some_iff.1 he
    cases r with
    | slept => exact Option.some.inj he ▸ .sleep i _ hw htake
    | empty =>
      obtain ⟨rfl, hi⟩ := takeMessage_empty htake
      exact Option.some.inj he ▸ .go _ (hpc ▸ .closed len i target (Or.inr hi))
    | got m =>
      by_cases hm : m.srcTask = target
      · simp only [hm, ne_eq, not_true, if_false, Option.some.injEq] at he
        subst he
        exact .keep i _ _ _ _ hw (hpc ▸ .closed len i target hm) htake
      · simp only [ne_eq, hm, not_false_eq_true, if_true, Option.some.injEq] at he
        exact he ▸ .refuse len i target _ m hpc hm htake
  case closedReject len i target m =>
    obtain ⟨k1, hs, rfl⟩ := he
    exact .reject len i target m k1 hpc hs
  case system =>
    obtain ⟨⟨tm, r⟩, htake, he⟩ := he
    cases r <;> obtain rfl := Option.some.inj he
    · exact .sleep 0 _ (hpc ▸ .system) htake
    · exact absurd rfl (takeMessage_empty htake).2
    · exact .keep 0 _ _ _ _ (hpc ▸ .system) (hpc ▸ .system) htake
  case systemGot m =>
    unfold systemHandle at he
    split at he <;> rename_i hty
    · exact Option.some.inj he ▸ .expand m hpc (by rw [hty]; rfl)
    · obtain ⟨k1, hs, rfl⟩ := Option.map_eq_some_iff.1 he
      exact .start m _ k1 hpc (by rw [hty]; rfl) hs
    · obtain ⟨k1, hs, rfl⟩ := Option.map_eq_some_iff.1 he
      exact .start m _ k1 hpc (by rw [hty]; rfl) hs
    · refine Option.some.inj he ▸ .go _ (hpc ▸ .ignored m ?_)
      unfold startFunc
      split <;> simp_all
  case systemReply dst =>
    obtain ⟨k1, hs, rfl⟩ := he
    exact .send _ _ _ _ _ (hpc ▸ .reply dst) hs
  case appExit amId msg ec =>
    obtain ⟨k1, hs, rfl⟩ := he
    exact .send _ _ _ _ _ (hpc ▸ .exitApp amId msg ec) hs
  case appWait amId msg ec =>
    obtain ⟨⟨tm, r⟩, htake, he⟩ := he
    have hw : Waits (k.pc p) 0 := hpc ▸ .app amId msg ec
    cases r with
    | slept => exact Option.some.inj he ▸ .sleep 0 _ hw htake
    | empty => exact absurd rfl (takeMessage_empty htake).2
    | got m =>
      simp only at he
      split at he
      · exact Option.some.inj he ▸ .keep 0 _ _ _ _ hw (hpc ▸ .retry amId msg ec) htake
      split at he
      · exact Option.some.inj he ▸ .keep 0 _ _ _ _ hw (hpc ▸ .received amId msg ec) htake
      · have hk : Keeps m (k.pc p) (.appWait amId msg ec) := by rw [hpc]; exact .other amId msg ec
        exact Option.some.inj he ▸ .keep 0 _ _ _ _ hw hk htake
  case serverExit initId name =>
    obtain ⟨k1, hs, rfl⟩ := he
    exact .send _ _ _ _ _ (hpc ▸ .exitServer initId name) hs
  case finishing ec =>
    obtain ⟨tm', hf, rfl⟩ := he
    exact .finish ec tm' hpc hf

/-- The system calls that only change the caller's place. -/
inductive Calls (t : Task) : Event → Pc → Prop
  | send (buf : Message) (dst : UInt64) : Calls t (.sysSend buf dst) (.send { buf with srcTask := t.id } dst)
  | opened (len : Nat) : Calls t (.sysOpen len) (.openReceive len 0)
  | closed (len : Nat) (target : UInt64) : Calls t (.sysClosed len target) (.closedReceive len 0 target)
  | exit (ec : Int) (arg : List UInt8) : Calls t (.sysExit ec arg) (exitPc t ec arg)

/-- The steps of the machine, sorted by what they do. -/
inductive Stepped (k : Kernel) : Event → Kernel → Prop
  | tick (timer : TimerManager) (ms : List (UInt64 × Message)) (k' : Kernel) :
    k.timer.tick = some (timer, ms, false) → { k with timer := timer }.sendAll ms = some k' → Stepped k .tick k'
  | switch (timer : TimerManager) (ms : List (UInt64 × Message)) (k' : Kernel) (tm' : TaskManager) :
    k.timer.tick = some (timer, ms, true) → { k with timer := timer }.sendAll ms = some k' → k'.tm.switchTask = some tm' →
    Stepped k .tick { k' with tm := tm' }
  | kernelSend (id : UInt64) (msg : Message) (k' : Kernel) : k.send .driver id msg = some k' →
    Stepped k (.kernelSend id msg) k'
  | call (t : Task) (e : Event) (pc : Pc) : t ∈ k.tm.tasks → k.tm.currentTask = some t.ptr → k.pc t.ptr = .user →
    Calls t e pc → Stepped k e (k.setPc t.ptr pc)
  | newTask : Stepped k .sysNewTask { k with tm := k.tm.newTask.1 }
  | createTimer (mode ms : UInt64) (v : Int) (timer : TimerManager) :
    Stepped k (.sysCreateTimer mode v ms) { k with timer := timer }
  | setName (p : Ptr) (name : String) :
    Stepped k (.setName name) { k with tm := k.tm.modify p fun t => { t with name := name } }
  | run (t : Task) (k' : Kernel) : t ∈ k.tm.tasks → k.tm.currentTask = some t.ptr → Section k t.ptr t k' →
    Stepped k .run k'

theorem sysCall_stepped {k k' : Kernel} {e : Event} {t : Task} (h : k.tm.Core) (ht : t ∈ k.tm.tasks)
    (hcur : k.tm.currentTask = some t.ptr) (he : k.sysCall t.ptr e = some k') : Stepped k e k' := by
  have hd := h.rep.deref_eq ht
  have hpc : k.pc t.ptr = .user := by
    by_contra hpc
    simp [sysCall, hd, hpc] at he
  simp only [sysCall, hd, hpc, Option.bind_eq_bind, Option.bind_some, ne_eq, not_true, if_false] at he
  cases e <;> simp only [pure, Option.some.injEq, reduceCtorEq] at he <;> subst he
  case sysSend buf dst => exact .call t _ _ ht hcur hpc (.send buf dst)
  case sysOpen len => exact .call t _ _ ht hcur hpc (.opened len)
  case sysClosed len target => exact .call t _ _ ht hcur hpc (.closed len target)
  case sysExit ec arg => exact .call t _ _ ht hcur hpc (.exit ec arg)
  case sysNewTask => exact .newTask
  case sysCreateTimer mode v ms => exact .createTimer mode ms v _
  case setName name => exact .setName t.ptr name

/-- **Every branch of `step`.** -/
theorem step_stepped {k k' : Kernel} {e : Event} (h : k.tm.Core) (he : k.step e = some k') : Stepped k e k' := by
  obtain ⟨t, -, ht, -, -, -, hcur⟩ := h.currentTask_live
  cases e with
  | tick =>
    simp only [step, onTick, Option.bind_eq_bind, Option.bind_eq_some_iff] at he
    obtain ⟨⟨timer, ms, switch⟩, htick, k1, hs, he⟩ := he
    cases switch with
    | false => exact Option.some.inj he ▸ .tick timer ms k1 htick hs
    | true =>
      obtain ⟨tm', hsw, he⟩ := Option.bind_eq_some_iff.1 he
      exact Option.some.inj he ▸ .switch timer ms k1 tm' htick hs hsw
  | kernelSend id msg => exact .kernelSend id msg k' he
  | run =>
    simp only [step, hcur, Option.bind_eq_bind, Option.bind_some] at he
    exact .run t k' ht hcur (runSection_section (h.rep.deref_eq ht) he)
  | sysSend _ _ | sysOpen _ | sysClosed _ _ | sysExit _ _ | sysNewTask | sysCreateTimer _ _ _ | setName _ =>
    simp only [step, hcur, Option.bind_eq_bind, Option.bind_some] at he
    exact sysCall_stepped h ht hcur he

/-! ## What every step keeps -/

/-- The places of the system task. -/
def IsSystem : Pc → Prop
  | .system | .systemGot _ | .systemReply _ => True
  | _ => False

theorem Goes.isSystem {pc pc' : Pc} (h : Goes pc pc') : IsSystem pc' ↔ IsSystem pc := by
  cases h <;> simp [IsSystem]

theorem Sends.isSystem {p : Ptr} {t : Task} {pc pc' : Pc} {who : Producer} {id : UInt64} {msg : Message}
    (h : Sends p t pc who id msg pc') : IsSystem pc' ↔ IsSystem pc := by
  cases h <;> simp [IsSystem]

theorem Keeps.isSystem {m : Message} {pc pc' : Pc} (h : Keeps m pc pc') : IsSystem pc' ↔ IsSystem pc := by
  cases h <;> simp [IsSystem]

theorem exitPc_not_system (t : Task) (ec : Int) (arg : List UInt8) : ¬ IsSystem (exitPc t ec arg) := by
  unfold exitPc
  split <;> simp [IsSystem]

theorem Calls.not_system {t : Task} {e : Event} {pc : Pc} (h : Calls t e pc) : ¬ IsSystem pc := by
  cases h with
  | exit ec arg => exact exitPc_not_system t ec arg
  | send | opened | closed => exact id

/-- The scheduler is well formed, task 1 is the first of `tasks_` and alone in the system task's loop, and a
pointer not handed out yet has no history. -/
structure Sound (k : Kernel) : Prop where
  core : k.tm.Core
  system : ∀ p, IsSystem (k.pc p) ↔ p = systemPtr
  first : ∃ s rest, k.tm.tasks = s :: rest ∧ s.ptr = systemPtr ∧ s.id = 1
  fresh : ∀ p, k.tm.nextPtr ≤ p → k.pc p = .fresh ∧ k.sent p = [] ∧ k.log p = []

/-- `SendMessage`, in full. -/
theorem send_spec {k k' : Kernel} {who : Producer} {id : UInt64} {msg : Message} (h : k.tm.Core)
    (he : k.send who id msg = some k') :
    (k.tm.find id = none ∧ k' = k) ∨
    ∃ t tm', k.tm.find id = some t ∧ tm'.Core ∧
      Touches k.tm t.ptr (fun t => { t with msgs := t.msgs ++ [msg], running := true }) tm' ∧
      k' = { k with tm := tm', sent := Function.update k.sent t.ptr (k.sent t.ptr ++ [(who, msg)]) } := by
  cases hf : k.tm.find id with
  | none =>
    refine Or.inl ⟨rfl, ?_⟩
    simp only [Kernel.send, sendMessage_none hf, hf, Option.bind_eq_bind, Option.bind_some, pure] at he
    exact (Option.some.inj he).symm
  | some t =>
    obtain ⟨tm', hs, hcore, hto⟩ := h.sendMessage_touches hf msg
    refine Or.inr ⟨t, tm', rfl, hcore, hto, ?_⟩
    simpa [Kernel.send, hs, hf, eq_comm] using he

/-- `StartAppTask` and `StartServerTask`, in full. -/
theorem start_spec {k k' : Kernel} {f : TaskFunc} {id data : UInt64} (h : k.tm.Core)
    (he : k.start f id data = some k') :
    (k.tm.find id = none ∧ k' = k) ∨
    ∃ t tm', k.tm.find id = some t ∧ tm'.Core ∧
      Touches k.tm t.ptr (fun t => { t.initContext f data with running := true }) tm' ∧
      k' = if k.tm.currentTask = some t.ptr then { k with tm := tm' }
        else (({ k with tm := tm' } : Kernel).abandon t.ptr).setPc t.ptr .user := by
  cases hf : k.tm.find id with
  | none =>
    refine Or.inl ⟨rfl, ?_⟩
    have hs : k.tm.startTask f id data = some (k.tm, .kNoSuchTask) := by simp [TaskManager.startTask, hf]
    simp only [Kernel.start, hs, hf, Option.bind_eq_bind, Option.bind_some, pure] at he
    exact (Option.some.inj he).symm
  | some t =>
    obtain ⟨tm', hs, hcore, hto⟩ := h.startTask_touches hf f data
    refine Or.inr ⟨t, tm', rfl, hcore, hto, ?_⟩
    simpa [Kernel.start, hs, hf, eq_comm] using he

theorem send_mem {k k' : Kernel} {who : Producer} {id : UInt64} {msg : Message} (h : k.tm.Core)
    (he : k.send who id msg = some k') {t : Task} (ht : t ∈ k.tm.tasks) :
    ∃ u ∈ k'.tm.tasks, u.ptr = t.ptr ∧ u.id = t.id := by
  rcases send_spec h he with ⟨-, rfl⟩ | ⟨v, tm', -, -, hto, rfl⟩
  · exact ⟨t, ht, rfl, rfl⟩
  · exact hto.mem (fun _ => ⟨rfl, rfl⟩) ht

/-- A send only appends to the history. -/
theorem send_history {k k' : Kernel} {who : Producer} {id : UInt64} {msg : Message} (h : k.tm.Core)
    (he : k.send who id msg = some k') :
    k'.log = k.log ∧ ∀ (p : Ptr) (j : Nat) (x : Producer × Message), (k.sent p)[j]? = some x → (k'.sent p)[j]? = some x := by
  rcases send_spec h he with ⟨-, rfl⟩ | ⟨t, tm', -, -, -, rfl⟩
  · exact ⟨rfl, fun _ _ _ hx => hx⟩
  refine ⟨rfl, fun p j x hx => ?_⟩
  by_cases hp : p = t.ptr
  · subst hp
    simp only [Function.update_self]
    rw [List.getElem?_append_left (List.getElem?_eq_some_iff.1 hx).1]
    exact hx
  · simp only [Function.update_of_ne hp]
    exact hx

namespace Sound

variable {k k' : Kernel}

theorem ptr_lt (h : k.Sound) {t : Task} (ht : t ∈ k.tm.tasks) : t.ptr < k.tm.nextPtr := h.core.rep.fresh t ht

/-- An operation on one task that keeps its pointer and id. -/
theorem touch (h : k.Sound) {tm' : TaskManager} (hcore : tm'.Core) {q : Ptr} {f : Task → Task}
    (hto : Touches k.tm q f tm') (hf : ∀ t, (f t).ptr = t.ptr ∧ (f t).id = t.id) :
    ({ k with tm := tm' } : Kernel).Sound := by
  refine ⟨hcore, h.system, ?_, fun p hp => h.fresh p (by rwa [hto.nextPtr] at hp)⟩
  obtain ⟨s, rest, hs, hp, hid⟩ := h.first
  refine ⟨_, _, by rw [hto.tasks, TaskManager.modify, hs, List.map_cons], ?_, ?_⟩
  · split
    · rw [(hf s).1, hp]
    · exact hp
  · split
    · rw [(hf s).2, hid]
    · exact hid

theorem setPc (h : k.Sound) {p : Ptr} (hp : p < k.tm.nextPtr) {pc : Pc} (hpc : IsSystem pc ↔ IsSystem (k.pc p)) :
    (k.setPc p pc).Sound := by
  refine ⟨h.core, fun q => ?_, h.first, fun q hq => ?_⟩
  · by_cases hqp : q = p
    · subst hqp
      simp only [Kernel.setPc, Function.update_self]
      rw [hpc, h.system]
    · simp only [Kernel.setPc, Function.update_of_ne hqp]
      exact h.system q
  · have hqp : q ≠ p := fun e => absurd hp (by rw [← e]; exact Nat.not_lt.2 hq)
    simp only [Kernel.setPc, Function.update_of_ne hqp]
    exact h.fresh q hq

theorem note (h : k.Sound) {p : Ptr} (hp : p < k.tm.nextPtr) (m : Message) (f : Fate) : (k.note p m f).Sound := by
  refine ⟨h.core, h.system, h.first, fun q hq => ?_⟩
  have hqp : q ≠ p := fun e => absurd hp (by rw [← e]; exact Nat.not_lt.2 hq)
  simp only [Kernel.note, Function.update_of_ne hqp]
  exact h.fresh q hq

theorem send (h : k.Sound) {who : Producer} {id : UInt64} {msg : Message} (he : k.send who id msg = some k') :
    k'.Sound ∧ k'.pc = k.pc ∧ k'.tm.nextPtr = k.tm.nextPtr := by
  rcases send_spec h.core he with ⟨-, rfl⟩ | ⟨t, tm', hf, hcore, hto, rfl⟩
  · exact ⟨h, rfl, rfl⟩
  · have h1 := h.touch hcore hto (fun _ => ⟨rfl, rfl⟩)
    refine ⟨⟨h1.core, h1.system, h1.first, fun q hq => ?_⟩, rfl, hto.nextPtr⟩
    have hlt := h.ptr_lt (find_some hf).1
    have hq' : k.tm.nextPtr ≤ q := by rwa [← hto.nextPtr]
    have hqp : q ≠ t.ptr := fun e => absurd hlt (by rw [← e]; exact Nat.not_lt.2 hq')
    simp only [Function.update_of_ne hqp]
    exact h1.fresh q hq

theorem sendAll : ∀ (ms : List (UInt64 × Message)) {k k' : Kernel}, k.Sound → k.sendAll ms = some k' → k'.Sound
  | [], _, _, h, he => Option.some.inj he ▸ h
  | (id, msg) :: ms, k, k', h, he => by
    simp only [Kernel.sendAll, Option.bind_eq_bind, Option.bind_eq_some_iff] at he
    obtain ⟨k1, he1, he2⟩ := he
    exact sendAll ms (h.send he1).1 he2

/-- A pop, or going to sleep. -/
theorem take (h : k.Sound) {t : Task} (ht : t ∈ k.tm.tasks) {i : Nat} {tm' : TaskManager} {r : Taken}
    (he : k.tm.takeMessage t.ptr i = some (tm', r)) :
    ({ k with tm := tm' } : Kernel).Sound ∧ tm'.nextPtr = k.tm.nextPtr := by
  rcases h.core.takeMessage_spec ht he with ⟨m, ms, -, -, hcore, hto⟩ | ⟨-, -, -, -, hcore, hto⟩ | ⟨-, -, -, rfl⟩
  · exact ⟨h.touch hcore hto (fun _ => ⟨rfl, rfl⟩), hto.nextPtr⟩
  · exact ⟨h.touch hcore hto (fun _ => ⟨rfl, rfl⟩), hto.nextPtr⟩
  · exact ⟨h, rfl⟩

theorem abandon (h : k.Sound) {p : Ptr} (hp : p < k.tm.nextPtr) :
    (k.abandon p).Sound ∧ (k.abandon p).pc = k.pc ∧ (k.abandon p).tm = k.tm := by
  unfold Kernel.abandon
  split
  · exact ⟨h.note hp _ _, rfl, rfl⟩
  · exact ⟨h, rfl, rfl⟩

/-- A start never moves the system task: it is the one that runs. -/
theorem start (h : k.Sound) (hcur : k.tm.currentTask = some systemPtr) {f : TaskFunc} {id data : UInt64}
    (he : k.start f id data = some k') :
    k'.Sound ∧ k'.tm.nextPtr = k.tm.nextPtr ∧ k'.pc systemPtr = k.pc systemPtr := by
  rcases start_spec h.core he with ⟨-, rfl⟩ | ⟨t, tm', hf, hcore, hto, rfl⟩
  · exact ⟨h, rfl, rfl⟩
  have h1 := h.touch hcore hto (fun _ => ⟨rfl, rfl⟩)
  split
  · exact ⟨h1, hto.nextPtr, rfl⟩
  · rename_i hne
    have hsys : systemPtr ≠ t.ptr := fun e => hne (by rw [hcur, e])
    have hlt : t.ptr < tm'.nextPtr := by rw [hto.nextPtr]; exact h.ptr_lt (find_some hf).1
    obtain ⟨h2, hpc, htm⟩ := h1.abandon (p := t.ptr) hlt
    refine ⟨h2.setPc (by rw [htm]; exact hlt) ?_, ?_, ?_⟩
    · rw [hpc]
      exact ⟨False.elim, fun hs => hsys ((h.system _).1 hs).symm⟩
    · show (({ k with tm := tm' } : Kernel).abandon t.ptr).tm.nextPtr = _
      rw [htm]
      exact hto.nextPtr
    · simp only [Kernel.setPc, Function.update_of_ne hsys, hpc]

theorem modify (h : k.Sound) (p : Ptr) {f : Task → Task} (hf : ∀ t, (f t).ptr = t.ptr ∧ (f t).id = t.id)
    (hr : ∀ t, (f t).running = t.running) (hl : ∀ t, (f t).level = t.level) :
    ({ k with tm := k.tm.modify p f } : Kernel).Sound :=
  h.touch (h.core.modify p f (fun t => (hf t).1) hr hl) ⟨rfl, rfl, rfl⟩ hf

theorem expand (h : k.Sound) (id : UInt64) (bytes : UInt32) :
    ({ k with tm := (k.tm.expandTaskBuffer id bytes).1 } : Kernel).Sound ∧
      (k.tm.expandTaskBuffer id bytes).1.nextPtr = k.tm.nextPtr := by
  unfold TaskManager.expandTaskBuffer
  split
  · exact ⟨h, rfl⟩
  · exact ⟨h.modify _ (fun _ => ⟨rfl, rfl⟩) (fun _ => rfl) (fun _ => rfl), rfl⟩

/-- Every section of the current task. -/
theorem runs (h : k.Sound) {t : Task} (ht : t ∈ k.tm.tasks) (hcur : k.tm.currentTask = some t.ptr)
    (hs : Section k t.ptr t k') : k'.Sound := by
  have hlt := h.ptr_lt ht
  cases hs with
  | go pc hg => exact h.setPc hlt hg.isSystem
  | send who id msg pc k1 hsd he =>
    obtain ⟨h1, hpc, hn⟩ := h.send he
    exact h1.setPc (by rwa [hn]) (by rw [hpc]; exact hsd.isSystem)
  | reject len i target m k1 hpc he =>
    obtain ⟨h1, hpc1, hn⟩ := h.send he
    refine (h1.note (by rwa [hn]) _ _).setPc (by rwa [← hn] at hlt) ?_
    show _ ↔ IsSystem (k1.pc t.ptr)
    rw [hpc1, hpc]
    simp [IsSystem]
  | sleep i tm' _ he => exact (h.take ht he).1
  | keep i tm' m pc ret _ hk he =>
    obtain ⟨h1, hn⟩ := h.take ht he
    have h2 := h1.note (p := t.ptr) (by rwa [← hn] at hlt) m .kept
    have h3 : ({ ({ k with tm := tm' } : Kernel).note t.ptr m .kept with returned := ret } : Kernel).Sound :=
      ⟨h2.core, h2.system, h2.first, h2.fresh⟩
    exact h3.setPc (by rwa [← hn] at hlt) hk.isSystem
  | refuse len i target tm' m hpc _ he =>
    obtain ⟨h1, hn⟩ := h.take ht he
    refine h1.setPc (by rwa [← hn] at hlt) ?_
    show _ ↔ IsSystem (k.pc t.ptr)
    rw [hpc]
    simp [IsSystem]
  | expand m hpc _ =>
    obtain ⟨h1, hn⟩ := h.expand m.expandId m.expandBytes
    refine h1.setPc (by rwa [← hn] at hlt) ?_
    show _ ↔ IsSystem (k.pc t.ptr)
    rw [hpc]
    simp [IsSystem]
  | start m f k1 hpc _ he =>
    have hp : t.ptr = systemPtr := (h.system _).1 (by rw [hpc]; trivial)
    obtain ⟨h1, hn, hpc1⟩ := h.start (hp ▸ hcur) he
    refine h1.setPc (by rwa [← hn] at hlt) ?_
    rw [hp, hpc1, ← hp, hpc]
    simp [IsSystem]
  | finish ec tm' hpc he =>
    obtain ⟨c, hc, hcc, hspec, -⟩ := h.core.finish ec
    obtain ⟨hcore, -, htasks, -, hn⟩ := hspec tm' he
    obtain rfl := h.core.rep.unique ht hc (Option.some.inj (hcur.symm.trans hcc))
    refine ⟨hcore, h.system, ?_, fun p hp => h.fresh p (by rwa [hn] at hp)⟩
    -- the task that ends is not the system task
    have hsys : t.ptr ≠ systemPtr := fun e => by
      have := (h.system t.ptr).2 e
      rw [hpc] at this
      exact this
    obtain ⟨s, rest, hs, hp, hid⟩ := h.first
    refine ⟨s, rest.filter (·.ptr ≠ t.ptr), ?_, hp, hid⟩
    rw [htasks, hs, List.filter_cons_of_pos]
    simpa [hp] using Ne.symm hsys

/-- **Every step keeps the machine sound.** -/
theorem step (h : k.Sound) {e : Event} (he : k.step e = some k') : k'.Sound := by
  cases step_stepped h.core he with
  | tick timer ms _ _ hs => exact sendAll ms (k := { k with timer := timer }) ⟨h.core, h.system, h.first, h.fresh⟩ hs
  | switch timer ms k1 tm' _ hs hsw =>
    have h1 : k1.Sound := sendAll ms (k := { k with timer := timer }) ⟨h.core, h.system, h.first, h.fresh⟩ hs
    obtain ⟨tm2, hsw2, hcore, -, htasks, -, hn⟩ := h1.core.switchTask
    obtain rfl := Option.some.inj (hsw.symm.trans hsw2)
    exact ⟨hcore, h1.system, htasks ▸ h1.first, fun p hp => h1.fresh p (by rwa [hn] at hp)⟩
  | kernelSend id msg _ hs => exact (h.send hs).1
  | call t _ pc ht hcur hpc hc =>
    refine h.setPc (h.ptr_lt ht) ?_
    rw [hpc]
    exact iff_of_false hc.not_system id
  | newTask =>
    obtain ⟨s, rest, hs, hp, hid⟩ := h.first
    refine ⟨h.core.newTask, h.system, ⟨s, rest ++ [{ ptr := k.tm.nextPtr, id := k.tm.latestId + 1 }], ?_, hp, hid⟩,
      fun p hp => h.fresh p (Nat.le_of_succ_le hp)⟩
    show k.tm.tasks ++ [_] = _
    rw [hs, List.cons_append]
  | createTimer => exact ⟨h.core, h.system, h.first, h.fresh⟩
  | setName p name => exact h.modify p (fun _ => ⟨rfl, rfl⟩) (fun _ => rfl) (fun _ => rfl)
  | run t _ ht hcur hs => exact h.runs ht hcur hs

end Sound

theorem bootTasks_touches : ∃ tm, bootTasks = some tm ∧ tm.Core ∧
    Touches (TaskManager.boot.modify systemPtr fun t => { t with name := "systemtask" }).newTask.1 initPtr
      (fun t => { t.initContext .taskInitServer 0 with running := true }) tm := by
  have h0 := (inv_boot.toCore.modify systemPtr (fun t => { t with name := "systemtask" }) (fun _ => rfl) (fun _ => rfl)
    (fun _ => rfl)).newTask
  exact h0.modifyWakeup_touches (t := { ptr := initPtr, id := 3 }) (List.mem_append_right _ (by decide))
    (fun t => t.initContext .taskInitServer 0) (fun _ => rfl) (fun _ => rfl) (fun _ => rfl)

/-- The booted machine is sound. -/
theorem sound_boot {k : Kernel} (h : boot = some k) : k.Sound := by
  obtain ⟨tm, he, hcore, hto⟩ := bootTasks_touches
  obtain ⟨tm', he', rfl⟩ := Option.map_eq_some_iff.1 h
  obtain rfl := Option.some.inj (he.symm.trans he')
  refine ⟨hcore, fun p => ?_, ?_, fun p hp => ⟨?_, rfl, rfl⟩⟩
  · simp only [atBoot]
    split_ifs <;> simp_all [IsSystem, systemPtr]
  · show ∃ s rest, tm.tasks = s :: rest ∧ _
    rw [hto.tasks]
    exact ⟨_, _, rfl, rfl, rfl⟩
  · replace hp : tm.nextPtr ≤ p := hp
    rw [hto.nextPtr] at hp
    have hne : ∀ n, n < 3 → p ≠ n := fun n hn e => Nat.not_le.2 hn (e ▸ hp)
    simp only [atBoot]
    rw [if_neg (hne _ (by decide)), if_neg (hne _ (by decide)), if_neg (hne _ (by decide))]

/-- The machine reaches `k` from boot by the events `es`. -/
def Runs (es : List Event) (k : Kernel) : Prop := ∃ k₀, boot = some k₀ ∧ TransitionSystem.exec step k₀ es = some k

theorem Runs.sound {es : List Event} {k : Kernel} (h : Runs es k) : k.Sound := by
  obtain ⟨k₀, hb, he⟩ := h
  exact TransitionSystem.exec_invariant step (fun s e s' hs hst => hs.step hst) es (sound_boot hb) he

/-- The message the system task has taken. -/
def handled : Pc → Option Message
  | .systemGot m => some m
  | _ => none

theorem handled_eq_some {pc : Pc} {m : Message} : handled pc = some m ↔ pc = .systemGot m := by
  cases pc <;> simp [handled]

/-- Task 3 creates task 4, has it started and waits for task 1; task 4 sends it a message meanwhile, is told to send it
again, and takes that. -/
def conversation : List Event :=
  [.run, .sysNewTask, .sysSend ⟨.kStartApp, 0, .starttask 4⟩ 1, .run, .sysClosed 1 1, .run, .run, .run, .run,
    .sysSend ⟨.kReady, 0, .unset⟩ 3, .run, .sysOpen 1, .run, .run, .run, .run, .run]

/-- A run that can be evaluated. -/
theorem runs_of_eval {α : Type} {l : List Event} {f : Kernel → α} {x : α}
    (h : (boot.bind fun k => (TransitionSystem.exec step k l).map f) = some x) : ∃ k, Runs l k ∧ f k = x := by
  obtain ⟨k₀, hk₀, h⟩ := Option.bind_eq_some_iff.1 h
  obtain ⟨k, hk, h⟩ := Option.map_eq_some_iff.1 h
  exact ⟨k, ⟨k₀, hk₀, hk⟩, h⟩

end KinOS.Kernel
