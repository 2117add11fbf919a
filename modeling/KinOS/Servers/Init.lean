import KinOS.Servers.Peers

/-!
# init and the servers it starts

| here | there |
| --- | --- |
| `InitServer.turn`   | what init does between two system calls: `main`, `WaitingForMessage`, `StartServers` (`servers/init/init.cpp:32-82`, `210-221`) |
| `startServers`      | `StartServers` up to `SyscallCreateNewTask` |
| `Phase`             | which system call of these functions init has made last |
| `received`          | `received_message_`: the last message a receive call stored |
| `servers`           | `servers` (`init.hpp:74-78`) |
| `serverExit`, `systemReply` | `TaskServer` (`kernel/system.cpp:302-324`) and the answer to `kExpandTaskBuffer` (`main.cpp:91-99`), both under the source id 1 |

init runs on the machine; the other tasks do what they like. The volume may change between two starts, so each look-up has
the outcome its event says: no file, or the size of one. The copy of the file into the task's buffer neither sends nor
receives and is left out, and so is `SyscallSetArgument`: on a restart `server_name` points into `received_message_`, the
closed receive overwrites its bytes, and the task is not given the server's name. `restarts` and `outcomes` are history:
the names `WaitingForMessage` has called `StartServers` with, and how each call of `StartServers` has ended.

`StartServers` waits for the kernel's answer in a closed receive on task 1, and takes any message from there. A `kExitServer`
it takes is not acted on, and the call ends without a start.
-/

namespace KinOS

open TransitionSystem TaskManager

/-- `received_message_.arg.exitserver.name`. -/
def Message.exitserverName (m : Message) : List UInt8 :=
  match m.arg with
  | .exitserver name => name
  | _ => []

inductive Phase
  | idle
  | created (name : List UInt8) (id : UInt64) (size : UInt32)
  | asked (name : List UInt8) (id : UInt64)
  | answered (name : List UInt8) (id : UInt64)
  | waiting
deriving DecidableEq, Repr

/-- How a call of `StartServers` has ended. -/
inductive Outcome
  | notFound
  /-- the message received is no `kExpandTaskBuffer` -/
  | dropped
  | started (id : UInt64)
deriving DecidableEq, Repr

structure InitServer where
  k : Kernel
  /-- what the loop of `main` has still to start -/
  todo : List (List UInt8)
  phase : Phase
  restarts : List (List UInt8)
  outcomes : List (List UInt8 × Outcome)

inductive InitAct
  | kernel (e : Event)
  | init (file : Option UInt32)
deriving DecidableEq, Repr

namespace InitServer

open Kernel

def received (x : InitServer) : Option Message := (x.k.returned initPtr).getLast?

def startServers (x : InitServer) (serverName : List UInt8) (file : Option UInt32) : Option InitServer :=
  match file with
  | none => some { x with phase := .idle, outcomes := x.outcomes ++ [(serverName, .notFound)] }
  | some size =>
    (x.k.step .sysNewTask).map fun k => { x with k := k, phase := .created serverName (x.k.tm.latestId + 1) size }

/-- init goes on to its next system call. -/
def turn (x : InitServer) (file : Option UInt32) : Option InitServer :=
  match x.phase with
  | .idle =>
    match x.todo with
    | name :: todo => { x with todo := todo }.startServers name file
    | [] => (x.k.step (.sysOpen 1)).map fun k => { x with k := k, phase := .waiting }
  | .created name id size =>
    (x.k.step (.sysSend ⟨.kExpandTaskBuffer, 0, .expand id size⟩ 1)).map fun k => { x with k := k, phase := .asked name id }
  | .asked name id => (x.k.step (.sysClosed 1 1)).map fun k => { x with k := k, phase := .answered name id }
  | .answered name id =>
    if x.received.map (·.type) = some .kExpandTaskBuffer then
      (x.k.step (.sysSend ⟨.kStartServer, 0, .starttask id⟩ 1)).map fun k =>
        { x with k := k, phase := .idle, outcomes := x.outcomes ++ [(name, .started id)] }
    else some { x with phase := .idle, outcomes := x.outcomes ++ [(name, .dropped)] }
  | .waiting =>
    match x.received with
    | some m =>
      if m.type = .kExitServer then
        { x with restarts := x.restarts ++ [m.exitserverName] }.startServers m.exitserverName file
      else some { x with phase := .idle }
    | none => some { x with phase := .idle }

/-- The system calls, which for init `turn` chooses. -/
def isCall : Event → Bool
  | .tick | .kernelSend .. | .run => false
  | _ => true

def next (x : InitServer) : InitAct → Option InitServer
  | .kernel e =>
    if x.k.tm.currentTask = some initPtr ∧ isCall e = true then none
    else (x.k.step e).map fun k => { x with k := k }
  | .init file => if x.k.tm.currentTask = some initPtr ∧ x.k.pc initPtr = .user then x.turn file else none

/-- The bytes of a name. -/
def bytes (s : String) : List UInt8 := s.toUTF8.data.toList

def servers : List (List UInt8) :=
  [bytes "servers/gui", bytes "servers/log", bytes "servers/am", bytes "servers/fs", bytes "servers/terminal"]

def atBoot (k : Kernel) : InitServer := ⟨k, servers, .idle, [], []⟩

end InitServer

namespace Kernel

/-! ## Steps of the other tasks -/

/-- What a step of another task leaves alone. -/
structure Apart (k k' : Kernel) : Prop where
  pc : k'.pc initPtr = k.pc initPtr
  returned : k'.returned initPtr = k.returned initPtr
  sent : ∀ p, ∀ x ∈ k.sent p, x ∈ k'.sent p

theorem Apart.trans {k k' k'' : Kernel} (h : Apart k k') (h' : Apart k' k'') : Apart k k'' :=
  ⟨h'.pc.trans h.pc, h'.returned.trans h.returned, fun p x hx => h'.sent p x (h.sent p x hx)⟩

theorem Apart.send {k k' : Kernel} (h : k.tm.Core) {who : Producer} {id : UInt64} {msg : Message}
    (he : k.send who id msg = some k') : Apart k k' := by
  have hsent := (send_history h he).2
  rcases send_spec h he with ⟨-, rfl⟩ | ⟨t, tm', -, -, -, rfl⟩
  · exact ⟨rfl, rfl, fun _ _ hx => hx⟩
  · refine ⟨rfl, rfl, fun p x hx => ?_⟩
    obtain ⟨j, hj⟩ := List.mem_iff_getElem?.1 hx
    exact List.mem_iff_getElem?.2 ⟨j, hsent p j x hj⟩

theorem Apart.sendAll : ∀ (ms : List (UInt64 × Message)) {k k' : Kernel}, k.Sound → k.sendAll ms = some k' → Apart k k'
  | [], _, _, _, he => Option.some.inj he ▸ ⟨rfl, rfl, fun _ _ hx => hx⟩
  | (id, msg) :: ms, k, k', h, he => by
    simp only [Kernel.sendAll, Option.bind_eq_bind, Option.bind_eq_some_iff] at he
    obtain ⟨k1, he1, he2⟩ := he
    exact (Apart.send h.core he1).trans (Apart.sendAll ms (h.send he1).1 he2)

/-- A section of another task that does not start init's task again. -/
theorem Apart.section {k k' : Kernel} (h : k.Sound) {t : Task} (hne : t.ptr ≠ initPtr)
    (hstart : ∀ m, k.pc t.ptr = .systemGot m → startFunc m.type ≠ none →
      ∀ u, k.tm.find m.starttaskId = some u → u.ptr ≠ initPtr)
    (hret : k'.returned initPtr = k.returned initPtr) (hs : Section k t.ptr t k') : Apart k k' := by
  have hpc : ∀ (k1 : Kernel) (pc : Pc), (k1.setPc t.ptr pc).pc initPtr = k1.pc initPtr := fun k1 pc =>
    Function.update_of_ne (Ne.symm hne) ..
  cases hs with
  | go pc _ => exact ⟨hpc _ _, rfl, fun _ _ hx => hx⟩
  | send who id msg pc k1 _ he =>
    have ha := Apart.send h.core he
    exact ⟨(hpc _ _).trans ha.pc, ha.returned, ha.sent⟩
  | reject len i target m k1 _ he =>
    have ha := Apart.send h.core he
    exact ⟨(hpc _ _).trans ha.pc, ha.returned, ha.sent⟩
  | sleep i tm' _ he => exact ⟨rfl, rfl, fun _ _ hx => hx⟩
  | keep i tm' m pc ret _ _ he => exact ⟨hpc _ _, hret, fun _ _ hx => hx⟩
  | refuse len i target tm' m _ _ he => exact ⟨hpc _ _, rfl, fun _ _ hx => hx⟩
  | expand m _ _ => exact ⟨hpc _ _, rfl, fun _ _ hx => hx⟩
  | start m f k1 hgot hf he =>
    rcases start_spec h.core he with ⟨-, rfl⟩ | ⟨u, tm', hu, -, -, rfl⟩
    · exact ⟨hpc _ _, rfl, fun _ _ hx => hx⟩
    · have hui : u.ptr ≠ initPtr := hstart m hgot (by simp [hf]) u hu
      split
      · exact ⟨hpc _ _, rfl, fun _ _ hx => hx⟩
      · refine ⟨(hpc _ _).trans ?_, ?_, fun p x hx => ?_⟩
        · simp only [setPc, Function.update_of_ne (Ne.symm hui), (abandon_frame _ _).2]
        · unfold setPc abandon
          split <;> rfl
        · unfold setPc abandon
          split <;> exact hx
  | finish ec tm' _ he => exact ⟨rfl, rfl, fun _ _ hx => hx⟩

/-- A receive call stores in the buffers of the task that makes it. -/
theorem runSection_returned {k k' : Kernel} (h : k.Sound) {p q : Ptr} (hne : q ≠ p) (he : k.runSection p = some k') :
    k'.returned q = k.returned q := by
  have hsend : ∀ {who id msg k1}, k.send who id msg = some k1 → k1.returned q = k.returned q := by
    intro who id msg k1 hs
    rcases send_spec h.core hs with ⟨-, rfl⟩ | ⟨t, tm', -, -, -, rfl⟩ <;> rfl
  simp only [runSection, Option.bind_eq_bind, Option.bind_eq_some_iff] at he
  obtain ⟨t, -, he⟩ := he
  cases hpc : k.pc p <;> simp only [hpc, pure, reduceCtorEq, Option.bind_eq_some_iff, Option.some.injEq] at he
  case send | serverExit | appExit | systemReply | closedReject =>
    obtain ⟨k1, hs, rfl⟩ := he
    have hr := hsend hs
    exact hr
  case openReceive =>
    split at he
    · exact Option.some.inj he ▸ rfl
    obtain ⟨⟨tm, r⟩, -, he⟩ := Option.bind_eq_some_iff.1 he
    cases r <;> obtain rfl := Option.some.inj he
    · rfl
    · rfl
    · exact Function.update_of_ne hne ..
  case closedReceive =>
    split at he
    · exact Option.some.inj he ▸ rfl
    obtain ⟨⟨tm, r⟩, -, he⟩ := Option.bind_eq_some_iff.1 he
    cases r with
    | slept => exact Option.some.inj he ▸ rfl
    | empty => exact Option.some.inj he ▸ rfl
    | got m =>
      simp only at he
      split at he <;> obtain rfl := Option.some.inj he
      · rfl
      · exact Function.update_of_ne hne ..
  case system =>
    obtain ⟨⟨tm, r⟩, -, he⟩ := he
    cases r <;> obtain rfl := Option.some.inj he <;> rfl
  case systemGot m =>
    have hstart : ∀ {f id data k1}, k.start f id data = some k1 → k1.returned q = k.returned q := by
      intro f id data k1 hs
      rcases start_spec h.core hs with ⟨-, rfl⟩ | ⟨u, tm', -, -, -, rfl⟩
      · rfl
      · split
        · rfl
        · unfold setPc abandon
          split <;> rfl
    unfold systemHandle at he
    split at he
    · exact Option.some.inj he ▸ rfl
    · obtain ⟨k1, hs, rfl⟩ := Option.map_eq_some_iff.1 he
      have hr := hstart hs
      exact hr
    · obtain ⟨k1, hs, rfl⟩ := Option.map_eq_some_iff.1 he
      have hr := hstart hs
      exact hr
    · exact Option.some.inj he ▸ rfl
  case appWait =>
    obtain ⟨⟨tm, r⟩, -, he⟩ := he
    cases r with
    | slept => exact Option.some.inj he ▸ rfl
    | empty => exact Option.some.inj he ▸ rfl
    | got m =>
      simp only at he
      split at he
      · exact Option.some.inj he ▸ rfl
      split at he <;> exact Option.some.inj he ▸ rfl
  case finishing =>
    obtain ⟨tm', -, rfl⟩ := he
    rfl

/-- **A step of another task**, or of nobody. -/
theorem Apart.step {k k' : Kernel} (h : k.Sound) {e : Event} (hcur : k.tm.currentTask = some initPtr →
      e = .tick ∨ ∃ id m, e = .kernelSend id m)
    (hstart : e = .run → k.tm.currentTask = some systemPtr → ∀ m, k.pc systemPtr = .systemGot m →
      startFunc m.type ≠ none → ∀ u, k.tm.find m.starttaskId = some u → u.ptr ≠ initPtr)
    (he : k.step e = some k') : Apart k k' := by
  cases step_stepped h.core he with
  | tick timer ms _ _ hs =>
    have ha := Apart.sendAll ms (k := { k with timer := timer }) ⟨h.core, h.system, h.first, h.fresh⟩ hs
    exact ⟨ha.pc, ha.returned, ha.sent⟩
  | switch timer ms k1 tm' _ hs hsw =>
    have ha := Apart.sendAll ms (k := { k with timer := timer }) ⟨h.core, h.system, h.first, h.fresh⟩ hs
    exact ⟨ha.pc, ha.returned, ha.sent⟩
  | kernelSend id msg _ hs => exact Apart.send h.core hs
  | call t _ pc ht hct hpc hc =>
    have hne : t.ptr ≠ initPtr := fun hi => by
      rcases hcur (hi ▸ hct) with rfl | ⟨id, m, rfl⟩ <;> cases hc
    exact ⟨Function.update_of_ne (Ne.symm hne) .., rfl, fun _ _ hx => hx⟩
  | newTask => exact ⟨rfl, rfl, fun _ _ hx => hx⟩
  | createTimer => exact ⟨rfl, rfl, fun _ _ hx => hx⟩
  | setName p name => exact ⟨rfl, rfl, fun _ _ hx => hx⟩
  | run t _ ht hct hs =>
    have hne : t.ptr ≠ initPtr := fun hi => by
      rcases hcur (hi ▸ hct) with h' | ⟨id, m, h'⟩ <;> cases h'
    refine Apart.section h hne (fun m hgot hf u hu => ?_) ?_ hs
    · have hsys : t.ptr = systemPtr := (h.system t.ptr).1 (by rw [hgot]; trivial)
      exact hstart rfl (hsys ▸ hct) m (hsys ▸ hgot) hf u hu
    · simp only [Kernel.step, hct, Option.bind_eq_bind, Option.bind_some] at he
      exact runSection_returned h (Ne.symm hne) he

/-! ## The answer is on its way -/

/-- `m` lies in the queue of task `p`. -/
def Queued (k : Kernel) (p : Ptr) (m : Message) : Prop := ∃ t, k.tm.deref p = some t ∧ m ∈ t.msgs

variable {k k' : Kernel} {p : Ptr} {m : Message}

theorem Queued.touch {q : Ptr} {f : Task → Task} (hq : Queued k p m) (hto : Touches k.tm q f k'.tm)
    (hf : ∀ t, (f t).ptr = t.ptr) (hm : p = q → ∀ t, k.tm.deref q = some t → m ∈ t.msgs → m ∈ (f t).msgs) :
    Queued k' p m := by
  obtain ⟨t, ht, hmem⟩ := hq
  by_cases hpq : p = q
  · subst hpq
    exact ⟨f t, hto.deref_self hf ht, hm rfl t ht hmem⟩
  · exact ⟨t, (hto.deref_other hf hpq).trans ht, hmem⟩

theorem Queued.send (hq : Queued k p m) (h : k.tm.Core) {who : Producer} {id : UInt64} {msg : Message}
    (he : k.send who id msg = some k') : Queued k' p m := by
  rcases send_spec h he with ⟨-, rfl⟩ | ⟨t, tm', -, -, hto, rfl⟩
  · exact hq
  · exact hq.touch hto (fun _ => rfl) fun _ _ _ hm => List.mem_append_left _ hm

/-- What is sent lies in the queue. -/
theorem queued_of_send (h : k.tm.Core) {t : Task} {id : UInt64} (ht : k.tm.find id = some t) {who : Producer} {msg : Message}
    (he : k.send who id msg = some k') : Queued k' t.ptr msg := by
  rcases send_spec h he with ⟨hn, -⟩ | ⟨u, tm', hu, -, hto, rfl⟩
  · rw [ht] at hn
    cases hn
  · obtain rfl := Option.some.inj (ht.symm.trans hu)
    have hd := h.rep.deref_eq (find_some ht).1
    exact ⟨_, hto.deref_self (fun _ => rfl) hd, List.mem_append_right _ List.mem_cons_self⟩

theorem Queued.sendAll : ∀ (ms : List (UInt64 × Message)) {k k' : Kernel}, k.Sound → Queued k p m →
    k.sendAll ms = some k' → Queued k' p m
  | [], _, _, _, hq, he => Option.some.inj he ▸ hq
  | (id, msg) :: ms, k, k', h, hq, he => by
    simp only [Kernel.sendAll, Option.bind_eq_bind, Option.bind_eq_some_iff] at he
    obtain ⟨k1, he1, he2⟩ := he
    exact Queued.sendAll ms (h.send he1).1 (hq.send h.core he1) he2

/-- Only the task itself takes from its queue. -/
theorem Queued.section (hq : Queued k p m) (h : k.Sound) {t : Task} (ht : t ∈ k.tm.tasks)
    (hcur : k.tm.currentTask = some t.ptr) (hne : p ≠ t.ptr ∨ takes (k.pc t.ptr) = false ∧ ∀ ec, k.pc t.ptr ≠ .finishing ec)
    (hs : Section k t.ptr t k') : Queued k' p m := by
  rcases section_tasks h ht hcur hs with ⟨q, f, hto, hf⟩ | ⟨ec, hpc, hcore, htasks⟩
  · exact hq.touch hto (fun u => (hf.frame u).1) fun hpq u _ hm => hf.queue (hpq ▸ hne.imp id And.left) u m hm
  · replace hne : p ≠ t.ptr := hne.resolve_right fun hr => hr.2 ec hpc
    obtain ⟨u, hu, hm⟩ := hq
    obtain ⟨humem, hup⟩ := deref_some hu
    have hmem : u ∈ k'.tm.tasks := by
      rw [htasks]
      exact List.mem_filter.2 ⟨humem, by simpa [hup] using hne⟩
    exact ⟨u, hup ▸ hcore.rep.deref_eq hmem, hm⟩

/-- Only the system task leaves its loop's places. -/
theorem Section.system_pc (h : k.Sound) {t : Task} (hne : t.ptr ≠ systemPtr) (hs : Section k t.ptr t k') :
    k'.pc systemPtr = k.pc systemPtr := by
  have hpc : ∀ (k1 : Kernel) (pc : Pc), (k1.setPc t.ptr pc).pc systemPtr = k1.pc systemPtr := fun k1 pc =>
    Function.update_of_ne (Ne.symm hne) ..
  cases hs with
  | go pc _ => exact hpc _ _
  | send who id msg pc k1 _ he => exact (hpc _ _).trans (congrFun (Comes.send h.core he).2 _)
  | reject len i target m' k1 _ he => exact (hpc _ _).trans (congrFun (Comes.send h.core he).2 _)
  | sleep i tm' _ he => rfl
  | keep i tm' m' pc ret _ _ he => exact hpc _ _
  | refuse len i target tm' m' _ _ he => exact hpc _ _
  | expand m' hgot _ => exact absurd ((h.system t.ptr).1 (by rw [hgot]; trivial)) hne
  | start m' f k1 hgot _ he => exact absurd ((h.system t.ptr).1 (by rw [hgot]; trivial)) hne
  | finish ec tm' _ he => rfl

/-- init's task, the first one of id 3. -/
def InitHere (k : Kernel) : Prop := ∃ t, k.tm.find 3 = some t ∧ t.ptr = initPtr

theorem InitHere.touch (hi : InitHere k) {q : Ptr} {f : Task → Task} (hto : Touches k.tm q f k'.tm)
    (hf : ∀ t, (f t).ptr = t.ptr ∧ (f t).id = t.id) : InitHere k' := by
  obtain ⟨t, ht, hp⟩ := hi
  refine ⟨_, by rw [hto.find (fun t => (hf t).2), ht, Option.map_some], ?_⟩
  split
  · exact (hf t).1.trans hp
  · exact hp

theorem InitHere.send (hi : InitHere k) (h : k.tm.Core) {who : Producer} {id : UInt64} {msg : Message}
    (he : k.send who id msg = some k') : InitHere k' := by
  rcases send_spec h he with ⟨-, rfl⟩ | ⟨t, tm', -, -, hto, rfl⟩
  · exact hi
  · exact hi.touch hto fun _ => ⟨rfl, rfl⟩

theorem InitHere.sendAll : ∀ (ms : List (UInt64 × Message)) {k k' : Kernel}, k.Sound → InitHere k →
    k.sendAll ms = some k' → InitHere k'
  | [], _, _, _, hi, he => Option.some.inj he ▸ hi
  | (id, msg) :: ms, k, k', h, hi, he => by
    simp only [Kernel.sendAll, Option.bind_eq_bind, Option.bind_eq_some_iff] at he
    obtain ⟨k1, he1, he2⟩ := he
    exact InitHere.sendAll ms (h.send he1).1 (hi.send h.core he1) he2

theorem InitHere.newTask {k : Kernel} (hi : InitHere k) : InitHere { k with tm := k.tm.newTask.1 } := by
  obtain ⟨t, ht, hp⟩ := hi
  exact ⟨t, List.find?_append.trans (by rw [show k.tm.tasks.find? _ = some t from ht]; rfl), hp⟩

/-- init's task stays unless it ends. -/
theorem InitHere.section (hi : InitHere k) (h : k.Sound) {t : Task} (ht : t ∈ k.tm.tasks)
    (hcur : k.tm.currentTask = some t.ptr) (hend : ∀ ec, k.pc initPtr ≠ .finishing ec)
    (hs : Section k t.ptr t k') : InitHere k' := by
  rcases section_tasks h ht hcur hs with ⟨q, f, hto, hf⟩ | ⟨ec, hpc, -, htasks⟩
  · exact hi.touch hto fun u => ⟨(hf.frame u).1, (hf.frame u).2.1⟩
  · obtain ⟨u, hu, hup⟩ := hi
    have hne : u.ptr ≠ t.ptr := fun e => hend ec (hup ▸ e ▸ hpc)
    refine ⟨u, ?_, hup⟩
    obtain ⟨hid, pre, post, htm, hpre⟩ := List.find?_eq_some_iff_append.1 hu
    simp only [find, htasks, htm, List.filter_append, List.filter_cons]
    rw [if_pos (by simpa using hne)]
    refine List.find?_eq_some_iff_append.2 ⟨hid, _, _, rfl, fun v hv => hpre v (List.mem_filter.1 hv).1⟩

theorem InitHere.deref (hi : InitHere k) (h : k.tm.Core) : ∃ t ∈ k.tm.tasks, k.tm.deref initPtr = some t ∧
    t.ptr = initPtr ∧ t.id = 3 := by
  obtain ⟨t, ht, hp⟩ := hi
  obtain ⟨hmem, hid⟩ := find_some ht
  exact ⟨t, hmem, hp ▸ h.rep.deref_eq hmem, hp, hid⟩

theorem find_system (h : k.Sound) : ∃ s ∈ k.tm.tasks, k.tm.find 1 = some s ∧ s.ptr = systemPtr := by
  obtain ⟨s, rest, hs, hp, hid⟩ := h.first
  exact ⟨s, hs ▸ List.mem_cons_self, by simp [find, hs, hid], hp⟩

/-- init's request to the kernel, the answer the system task is about to send, or the answer in init's queue. -/
def Coming (k : Kernel) : Prop :=
  (∃ m, Queued k systemPtr m ∧ m.srcTask = 3 ∧ m.type = .kExpandTaskBuffer) ∨
  (∃ m, k.pc systemPtr = .systemGot m ∧ m.srcTask = 3 ∧ m.type = .kExpandTaskBuffer) ∨
  k.pc systemPtr = .systemReply 3 ∨
  ∃ m, Queued k initPtr m ∧ m.srcTask = 1 ∧ m.type = .kExpandTaskBuffer

theorem Coming.mono (hc : Coming k) (hsys : ∀ m, Queued k systemPtr m → Queued k' systemPtr m)
    (hinit : ∀ m, Queued k initPtr m → Queued k' initPtr m) (hpc : k'.pc systemPtr = k.pc systemPtr) : Coming k' := by
  unfold Coming
  rw [hpc]
  rcases hc with ⟨m, hq, hm⟩ | hgot | hreply | ⟨m, hq, hm⟩
  · exact .inl ⟨m, hsys m hq, hm⟩
  · exact .inr (.inl hgot)
  · exact .inr (.inr (.inl hreply))
  · exact .inr (.inr (.inr ⟨m, hinit m hq, hm⟩))

theorem Coming.sendAll (hc : Coming k) (h : k.Sound) {ms : List (UInt64 × Message)} (he : k.sendAll ms = some k') :
    Coming k' :=
  hc.mono (fun _ hq => hq.sendAll ms h he) (fun _ hq => hq.sendAll ms h he) (congrFun (Comes.sendAll ms h he).2 _)

/-- The system task takes the request, works on it and answers. -/
theorem Coming.system (hc : Coming k) (h : k.Sound) (hi : InitHere k) (he : k.runSection systemPtr = some k')
    {t : Task} (ht : t ∈ k.tm.tasks) (hp : t.ptr = systemPtr) (hcur : k.tm.currentTask = some systemPtr) : Coming k' := by
  have hd : k.tm.deref systemPtr = some t := hp ▸ h.core.rep.deref_eq ht
  have hs : Section k t.ptr t k' := by
    rw [hp]
    exact runSection_section hd he
  have hin : IsSystem (k.pc systemPtr) := (h.system _).2 rfl
  rcases hc with ⟨m, hq, hm⟩ | ⟨m, hgot, hsrc, hty⟩ | hreply | ⟨m, hq, hm⟩
  · by_cases hpc : k.pc systemPtr = .system
    · simp only [runSection, hd, hpc, Option.bind_eq_bind, Option.bind_some, Option.bind_eq_some_iff] at he
      obtain ⟨⟨tm, r⟩, htake, he⟩ := he
      obtain ⟨u, hu, hmem⟩ := hq
      obtain rfl := Option.some.inj (hu.symm.trans hd)
      rcases h.core.takeMessage_spec ht (hp ▸ htake) with ⟨m', ms, hms, rfl, -, hto⟩ | ⟨hms, -, -, -, -, -⟩ | ⟨hms, -, -, -⟩
      · obtain rfl := Option.some.inj he
        rw [hms] at hmem
        rcases List.mem_cons.1 hmem with rfl | hmem
        · exact .inr (.inl ⟨m, setPc_pc_self .., hm⟩)
        · exact .inl ⟨m, ⟨_, hp ▸ hto.deref_self (fun _ => rfl) (hp ▸ hd), hmem⟩, hm⟩
      all_goals
        rw [hms] at hmem
        cases hmem
    · refine .inl ⟨m, hq.section h ht (hp ▸ hcur) (.inr ?_) hs, hm⟩
      rw [hp]
      generalize k.pc systemPtr = pc at hin hpc
      cases pc <;> simp_all [IsSystem, takes]
  · simp only [runSection, hd, hgot, systemHandle, hty, hsrc, Option.bind_eq_bind, Option.bind_some, Option.some.injEq] at he
    subst he
    exact .inr (.inr (.inl (setPc_pc_self ..)))
  · simp only [runSection, hd, hreply, Option.bind_eq_bind, Option.bind_some, pure, Option.bind_eq_some_iff,
      Option.some.injEq] at he
    obtain ⟨k1, hsend, rfl⟩ := he
    obtain ⟨v, hv, hvp⟩ := hi
    exact .inr (.inr (.inr ⟨_, hvp ▸ queued_of_send h.core hv hsend, rfl, rfl⟩))
  · exact .inr (.inr (.inr ⟨m, hq.section h ht (hp ▸ hcur) (.inl (hp ▸ by decide)) hs, hm⟩))

/-- What the steps of the others do to init's task and to the answer it waits for. -/
structure Others (k k' : Kernel) : Prop where
  apart : Apart k k'
  here : InitHere k'
  coming : Coming k → Coming k'

theorem Others.sendAll (hi : InitHere k) (h : k.Sound) {ms : List (UInt64 × Message)} (he : k.sendAll ms = some k') :
    Others k k' :=
  ⟨.sendAll ms h he, hi.sendAll ms h he, fun hc => hc.sendAll h he⟩

/-- **A step of another task**, or of nobody. -/
theorem Others.step (hi : InitHere k) (h : k.Sound) {e : Event} (hcur : k.tm.currentTask = some initPtr →
      e = .tick ∨ ∃ id m, e = .kernelSend id m)
    (hend : ∀ ec, k.pc initPtr ≠ .finishing ec)
    (hstart : e = .run → k.tm.currentTask = some systemPtr → ∀ m, k.pc systemPtr = .systemGot m →
      startFunc m.type ≠ none → ∀ u, k.tm.find m.starttaskId = some u → u.ptr ≠ initPtr)
    (he : k.step e = some k') : Others k k' := by
  have ha := Apart.step h hcur hstart he
  suffices hs : InitHere k' ∧ (Coming k → Coming k') from ⟨ha, hs.1, hs.2⟩
  cases step_stepped h.core he with
  | tick timer ms _ _ hs =>
    have ho := Others.sendAll (k := { k with timer := timer }) hi ⟨h.core, h.system, h.first, h.fresh⟩ hs
    exact ⟨ho.here, ho.coming⟩
  | switch timer ms k1 tm' _ hs hsw =>
    have hsound : ({ k with timer := timer } : Kernel).Sound := ⟨h.core, h.system, h.first, h.fresh⟩
    have ho := Others.sendAll (k := { k with timer := timer }) hi hsound hs
    obtain ⟨tm2, hsw2, -, -, htasks, -, -⟩ := (Sound.sendAll ms hsound hs).core.switchTask
    obtain rfl := Option.some.inj (hsw.symm.trans hsw2)
    have hq : ∀ p m, Queued k1 p m → Queued { k1 with tm := tm' } p m := by
      intro p m hq
      simpa only [Queued, deref, htasks] using hq
    refine ⟨?_, fun hc => (ho.coming hc).mono (hq _) (hq _) rfl⟩
    simpa only [InitHere, find, htasks] using ho.here
  | kernelSend id msg _ hs =>
    exact ⟨hi.send h.core hs, fun hc => hc.mono (fun _ hq => hq.send h.core hs) (fun _ hq => hq.send h.core hs)
      (congrFun (Comes.send h.core hs).2 _)⟩
  | call t _ pc ht hct hpc hc =>
    refine ⟨hi, fun hc => hc.mono (fun _ hq => hq) (fun _ hq => hq) (Function.update_of_ne (fun hs => ?_) ..)⟩
    have hin := (h.system t.ptr).2 hs.symm
    rw [hpc] at hin
    exact hin
  | newTask =>
    have hq : ∀ p m, Queued k p m → Queued { k with tm := k.tm.newTask.1 } p m := by
      rintro p m ⟨t, ht, hm⟩
      exact ⟨t, List.find?_append.trans (by rw [show k.tm.tasks.find? _ = some t from ht]; rfl), hm⟩
    exact ⟨hi.newTask, fun hc => hc.mono (hq _) (hq _) rfl⟩
  | createTimer => exact ⟨hi, fun hc => hc.mono (fun _ hq => hq) (fun _ hq => hq) rfl⟩
  | setName p name =>
    have hto : Touches k.tm p (fun t => { t with name := name }) (k.tm.modify p fun t => { t with name := name }) :=
      ⟨rfl, rfl, rfl⟩
    have hq : ∀ q m, Queued k q m → Queued { k with tm := k.tm.modify p fun t => { t with name := name } } q m :=
      fun _ _ hq => hq.touch hto (fun _ => rfl) fun _ _ _ hm => hm
    exact ⟨hi.touch hto fun _ => ⟨rfl, rfl⟩, fun hc => hc.mono (hq _) (hq _) rfl⟩
  | run t _ ht hct hs =>
    have hne : t.ptr ≠ initPtr := fun hi => by
      rcases hcur (hi ▸ hct) with h' | ⟨id, m, h'⟩ <;> cases h'
    refine ⟨hi.section h ht hct hend hs, fun hc => ?_⟩
    by_cases hsys : t.ptr = systemPtr
    · simp only [Kernel.step, hct, Option.bind_eq_bind, Option.bind_some, hsys] at he
      exact hc.system h hi he ht hsys (hsys ▸ hct)
    · exact hc.mono (fun _ hq => hq.section h ht hct (.inl (Ne.symm hsys)) hs)
        (fun _ hq => hq.section h ht hct (.inl (Ne.symm hne)) hs) (hs.system_pc h hsys)

/-! ## Steps of init -/

/-- What init takes from its own queue under another source than the kernel's is not the answer. -/
theorem Coming.own (hc : Coming k) {f : Task → Task} (hto : Touches k.tm initPtr f k'.tm) (hf : ∀ t, (f t).ptr = t.ptr)
    (hm : ∀ t, k.tm.deref initPtr = some t → ∀ m ∈ t.msgs, m.srcTask = 1 → m ∈ (f t).msgs)
    (hpc : k'.pc systemPtr = k.pc systemPtr) : Coming k' := by
  unfold Coming
  rw [hpc]
  rcases hc with ⟨m, hq, hm'⟩ | hgot | hreply | ⟨m, ⟨t, ht, hmem⟩, hsrc, hty⟩
  · exact .inl ⟨m, hq.touch hto hf (fun hp => absurd hp (by decide)), hm'⟩
  · exact .inr (.inl hgot)
  · exact .inr (.inr (.inl hreply))
  · exact .inr (.inr (.inr ⟨m, ⟨f t, hto.deref_self hf ht, hm t ht m hmem hsrc⟩, hsrc, hty⟩))

/-- init sends to the kernel. -/
theorem init_send (h : k.Sound) (hi : InitHere k) {msg : Message} (hpc : k.pc initPtr = .send msg 1)
    (he : k.runSection initPtr = some k') :
    Apart k { k' with pc := k.pc } ∧ k'.pc initPtr = .user ∧ InitHere k' ∧ Queued k' systemPtr msg ∧
      (Producer.syscall initPtr 3, msg) ∈ k'.sent systemPtr := by
  obtain ⟨t, ht, hd, hp, hid⟩ := hi.deref h.core
  obtain ⟨s, -, hs, hsp⟩ := find_system h
  simp only [runSection, hd, hpc, hid, Option.bind_eq_bind, Option.bind_some, pure, Option.bind_eq_some_iff,
    Option.some.injEq] at he
  obtain ⟨k1, hsend, rfl⟩ := he
  have ha := Apart.send h.core hsend
  have hq : Queued k1 systemPtr msg := hsp ▸ queued_of_send h.core hs hsend
  have hi' : InitHere k1 := hi.send h.core hsend
  refine ⟨⟨rfl, ha.returned, ha.sent⟩, setPc_pc_self .., hi', hq, ?_⟩
  rcases send_spec h.core hsend with ⟨hn, -⟩ | ⟨u, tm', hu, -, -, rfl⟩
  · rw [hs] at hn
    cases hn
  · obtain rfl := Option.some.inj (hs.symm.trans hu)
    simp only [setPc, hsp, Function.update_self]
    exact List.mem_append_right _ List.mem_cons_self

/-- init sleeps, or takes the first message of its queue. -/
theorem init_take (h : k.Sound) (hi : InitHere k) {i : Nat} {tm' : TaskManager} {r : Taken}
    (he : k.tm.takeMessage initPtr i = some (tm', r)) :
    InitHere { k with tm := tm' } ∧ ∃ t, k.tm.deref initPtr = some t ∧
      ((∃ m ms, t.msgs = m :: ms ∧ r = .got m ∧ (m.srcTask ≠ 1 → Coming k → Coming { k with tm := tm' })) ∨
        r = .slept ∧ (Coming k → Coming { k with tm := tm' }) ∨ r = .empty ∧ i ≠ 0) := by
  obtain ⟨t, ht, hd, hp, -⟩ := hi.deref h.core
  rcases h.core.takeMessage_spec ht (hp ▸ he) with ⟨m, ms, hms, rfl, -, hto⟩ | ⟨hms, -, rfl, -, -, hto⟩ | ⟨-, hi0, rfl, rfl⟩
  · refine ⟨hi.touch hto fun _ => ⟨rfl, rfl⟩, t, hd, .inl ⟨m, ms, hms, rfl, fun hsrc hc => ?_⟩⟩
    refine hc.own (f := fun t => { t with msgs := ms }) (hp ▸ hto) (fun _ => rfl) (fun u hu m' hm' hsrc' => ?_) rfl
    obtain rfl := Option.some.inj (hd.symm.trans hu)
    rw [hms] at hm'
    exact (List.mem_cons.1 hm').resolve_left fun e => hsrc (e ▸ hsrc')
  · exact ⟨hi.touch hto fun _ => ⟨rfl, rfl⟩, t, hd, .inr (.inl ⟨rfl, fun hc =>
      hc.own (f := fun t => { t with running := false }) (hp ▸ hto) (fun _ => rfl) (fun _ _ _ hm _ => hm) rfl⟩)⟩
  · exact ⟨hi, t, hd, .inr (.inr ⟨rfl, hi0⟩)⟩

end Kernel

end KinOS
