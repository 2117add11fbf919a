import KinOS.Servers.Init

/-!
# Exits that are told to init

| here | there |
| --- | --- |
| `InitServer.Heeded`      | `WaitingForMessage` calls `StartServers` for every `kExitServer` (`servers/init/init.cpp:76-82`), which ends with `kStartServer` (`:69-72`) |
| `InitServer.TakesAnswer` | `received_message_.type == Message::kExpandTaskBuffer` (`:45`), which has no `else` |

The exits of servers and the answers of the system task reach init's queue under one source id, so which of them
`StartServers` takes depends on which was pushed first.
-/

namespace KinOS

open TransitionSystem TaskManager

namespace InitServer

open Kernel

/-! ## What is asked of init -/

/-- The names of the servers whose exit a list of messages tells. -/
def exitNames (ms : List Message) : List (List UInt8) :=
  (ms.filter fun m => m.type = .kExitServer).map Message.exitserverName

/-- The receive call under way has stored its message. -/
def got : Pc → Bool
  | .openReceive _ 0 | .closedReceive _ 0 _ | .closedReject .. => false
  | _ => true

/-- The exit that `WaitingForMessage` has received and not yet looked at. -/
def toRestart (x : InitServer) : List (List UInt8) :=
  if x.phase = .waiting ∧ got (x.k.pc initPtr) = true then exitNames x.received.toList else []

/-- The call of `StartServers` that has not ended. -/
def underWay (x : InitServer) : List (List UInt8) :=
  match x.phase with
  | .created name _ _ | .asked name _ | .answered name _ => [name]
  | .idle | .waiting => []

/-- Every exit told to init has led to a call of `StartServers`, and every call that has found its file has sent
`kStartServer` for the new task, or is under way with the kernel's answer to come. -/
structure Heeded (x : InitServer) : Prop where
  exits : exitNames (x.k.returned initPtr) = x.restarts ++ x.toRestart
  calls : ∃ done, done ++ x.todo = servers ∧ x.outcomes.map (·.1) ++ x.underWay = done ++ x.restarts
  kept : ∀ o ∈ x.outcomes, o.2 ≠ .dropped
  launched : ∀ name id, (name, Outcome.started id) ∈ x.outcomes → ∃ src,
    (Producer.syscall initPtr src, ⟨.kStartServer, src, .starttask id⟩) ∈ x.k.sent systemPtr ∨
      x.k.pc initPtr = .send ⟨.kStartServer, src, .starttask id⟩ 1
  awaited : ∀ name id, x.phase = .answered name id → got (x.k.pc initPtr) = false → x.k.Coming

/-- What `StartServers` takes from task 1 is the answer to its request. -/
def TakesAnswer (x : InitServer) : InitAct → Prop
  | .kernel .run => x.k.tm.currentTask = some initPtr → x.k.pc initPtr = .closedReceive 1 0 1 →
    ∀ t, x.k.tm.deref initPtr = some t → ∀ m, t.msgs.head? = some m → m.srcTask = 1 → m.type = .kExpandTaskBuffer
  | _ => True

/-- Nobody asks for init's own task to be started again. -/
def LeavesInit (x : InitServer) : InitAct → Prop
  | .kernel .run => x.k.tm.currentTask = some systemPtr → ∀ m, x.k.pc systemPtr = .systemGot m →
    startFunc m.type ≠ none → ∀ t, x.k.tm.find m.starttaskId = some t → t.ptr ≠ initPtr
  | _ => True

/-! ## Where init is -/

/-- The places of init in each phase. -/
inductive Placed : Phase → Pc → Prop
  | idle : Placed .idle .user
  | starting (id : UInt64) : Placed .idle (.send ⟨.kStartServer, 3, .starttask id⟩ 1)
  | created (name : List UInt8) (id : UInt64) (size : UInt32) : Placed (.created name id size) .user
  | asking (name : List UInt8) (id : UInt64) (size : UInt32) :
    Placed (.asked name id) (.send ⟨.kExpandTaskBuffer, 3, .expand id size⟩ 1)
  | asked (name : List UInt8) (id : UInt64) : Placed (.asked name id) .user
  | answer (name : List UInt8) (id : UInt64) : Placed (.answered name id) (.closedReceive 1 0 1)
  | reject (name : List UInt8) (id : UInt64) (m : Message) : Placed (.answered name id) (.closedReject 1 0 1 m)
  | stored (name : List UInt8) (id : UInt64) : Placed (.answered name id) (.closedReceive 1 1 1)
  | answered (name : List UInt8) (id : UInt64) : Placed (.answered name id) .user
  | wait : Placed .waiting (.openReceive 1 0)
  | heard : Placed .waiting (.openReceive 1 1)
  | waiting : Placed .waiting .user

theorem Placed.not_finishing {ph : Phase} {pc : Pc} (h : Placed ph pc) (ec : Int) : pc ≠ .finishing ec := by
  cases h <;> simp

structure Inv (x : InitServer) : Prop extends Heeded x where
  sound : x.k.Sound
  here : InitHere x.k
  placed : Placed x.phase (x.k.pc initPtr)
  /-- the loop of `main` is over before init waits for exits -/
  later : x.restarts ≠ [] ∨ x.phase = .waiting → x.todo = []
  asked : ∀ name id, x.phase = .asked name id → x.k.pc initPtr = .user → x.k.Coming
  answer : ∀ name id, x.phase = .answered name id → got (x.k.pc initPtr) = true →
    x.received.map (·.type) = some .kExpandTaskBuffer

variable {x x' : InitServer}

/-- A step of the others. -/
theorem Inv.others (h : x.Inv) {k' : Kernel} (hs : k'.Sound) (ho : Others x.k k') : Inv { x with k := k' } := by
  have hpc := ho.apart.pc
  have hret := ho.apart.returned
  refine ⟨⟨?_, h.calls, h.kept, fun name id hm => ?_, fun name id hp hg => ?_⟩, hs, ho.here, ?_, h.later,
    fun name id hp hu => ?_, fun name id hp hg => ?_⟩
  · simpa only [toRestart, received, hpc, hret] using h.exits
  · obtain ⟨src, hsent | hsend⟩ := h.launched name id hm
    · exact ⟨src, .inl (ho.apart.sent _ _ hsent)⟩
    · exact ⟨src, .inr (hpc.trans hsend)⟩
  · exact ho.coming (h.awaited name id hp (hpc ▸ hg))
  · exact hpc ▸ h.placed
  · exact ho.coming (h.asked name id hp (hpc ▸ hu))
  · simpa only [received, hret] using h.answer name id hp (hpc ▸ hg)

theorem exitNames_append (ms : List Message) (m : Message) : exitNames (ms ++ [m]) = exitNames ms ++ exitNames [m] := by
  simp [exitNames]

/-- A section of init. `exits`, `asked` and what follows are what depends on the section. -/
theorem Inv.own (h : x.Inv) {k' : Kernel} (hs : k'.Sound) (hi : InitHere k') (hpl : Placed x.phase (k'.pc initPtr))
    (hsent : ∀ p, ∀ y ∈ x.k.sent p, y ∈ k'.sent p)
    (hstart : ∀ src id, x.k.pc initPtr = .send ⟨.kStartServer, src, .starttask id⟩ 1 →
      (Producer.syscall initPtr src, ⟨.kStartServer, src, .starttask id⟩) ∈ k'.sent systemPtr)
    (hexits : exitNames (k'.returned initPtr) = x.restarts ++ toRestart { x with k := k' })
    (hasked : ∀ name id, x.phase = .asked name id → k'.pc initPtr = .user → k'.Coming)
    (hawaited : ∀ name id, x.phase = .answered name id → got (k'.pc initPtr) = false → k'.Coming)
    (hanswer : ∀ name id, x.phase = .answered name id → got (k'.pc initPtr) = true →
      (k'.returned initPtr).getLast?.map (·.type) = some .kExpandTaskBuffer) : Inv { x with k := k' } := by
  refine ⟨⟨hexits, h.calls, h.kept, fun name id hm => ?_, hawaited⟩, hs, hi, hpl, h.later, hasked, hanswer⟩
  obtain ⟨src, hm | hm⟩ := h.launched name id hm
  · exact ⟨src, .inl (hsent _ _ hm)⟩
  · exact ⟨src, .inl (hstart src id hm)⟩

/-- A section of init. -/
theorem Inv.run (h : x.Inv) (hcur : x.k.tm.currentTask = some initPtr) (hp : TakesAnswer x (.kernel .run)) {k' : Kernel}
    (he : x.k.runSection initPtr = some k') : Inv { x with k := k' } := by
  have hs' : k'.Sound := h.sound.step (e := .run) (by simp [step, hcur, he])
  obtain ⟨t, -, hd, htp, -⟩ := h.here.deref h.sound.core
  obtain ⟨k, todo, phase, restarts, outcomes⟩ := x
  have hex := h.exits
  have hpl := h.placed
  simp only at hcur he hd hex hpl
  generalize hpc : k.pc initPtr = pc at hpl
  cases hpl with
  | idle | created | asked | answered | waiting => simp [runSection, hd, hpc] at he
  | starting id =>
    obtain ⟨ha, hpc', hi', -, hsent⟩ := init_send h.sound h.here hpc he
    refine h.own hs' hi' (by rw [hpc']; exact .idle) ha.sent (fun src id' hm => ?_) ?_ (by simp) (by simp) (by simp)
    · obtain ⟨rfl, rfl⟩ : 3 = src ∧ id = id' := by simpa [hpc] using hm
      exact hsent
    · rw [show k'.returned initPtr = _ from ha.returned, hex]
      simp [toRestart]
  | asking name id size =>
    obtain ⟨ha, hpc', hi', hq, -⟩ := init_send h.sound h.here hpc he
    refine h.own hs' hi' (by rw [hpc']; exact .asked name id) ha.sent (by simp [hpc]) ?_
      (fun _ _ _ _ => .inl ⟨_, hq, rfl, rfl⟩) (by simp) (by simp)
    rw [show k'.returned initPtr = _ from ha.returned, hex]
    simp [toRestart]
  | answer name id =>
    have hc : k.Coming := h.awaited name id rfl (by rw [hpc]; rfl)
    simp only [runSection, hd, hpc, Option.bind_eq_bind, Option.bind_some] at he
    rw [if_neg (by decide)] at he
    obtain ⟨⟨tm, r⟩, htake, he⟩ := Option.bind_eq_some_iff.1 he
    obtain ⟨hi', u, hu, ⟨m, ms, hms, rfl, hco⟩ | ⟨rfl, hco⟩ | ⟨-, hne⟩⟩ := init_take h.sound h.here htake
    · simp only at he
      split at he
      · rename_i hsrc
        obtain rfl := Option.some.inj he
        refine h.own hs' hi' (by rw [setPc_pc_self]; exact .reject name id m) (fun _ _ hy => hy) (by simp [hpc]) ?_ (by simp)
          (fun _ _ _ _ => (hco hsrc hc).mono (fun _ hq => hq) (fun _ hq => hq) (setPc_pc_other _ _ (by decide)))
            (by simp [got])
        exact hex.trans (by simp [toRestart])
      · rename_i hsrc
        have hty : m.type = .kExpandTaskBuffer :=
          hp hcur hpc u hu m (by rw [hms]; rfl) (not_not.1 hsrc)
        obtain rfl := Option.some.inj he
        have hret := store_returned { k with tm := tm } initPtr m
        refine h.own hs' hi' (by rw [setPc_pc_self]; exact .stored name id) (fun _ _ hy => hy) (by simp [hpc]) ?_ (by simp)
          (by simp [got]) (fun _ _ _ _ => ?_)
        · show exitNames (store { k with tm := tm } initPtr m |>.returned initPtr) = _
          rw [hret, exitNames_append, hex]
          simp [toRestart, exitNames, hty]
        · show (store { k with tm := tm } initPtr m |>.returned initPtr).getLast?.map _ = _
          rw [hret]
          simp [hty]
    · obtain rfl := Option.some.inj he
      refine h.own hs' hi' (by rw [hpc]; exact .answer name id) (fun _ _ hy => hy) (by simp [hpc]) hex (by simp)
        (fun _ _ _ _ => hco hc) (fun _ _ _ hg => ?_)
      simp only [hpc] at hg
      cases hg
    · exact absurd rfl hne
  | reject name id m =>
    have hc : k.Coming := h.awaited name id rfl (by rw [hpc]; rfl)
    simp only [runSection, hd, hpc, Option.bind_eq_bind, Option.bind_some, pure, Option.bind_eq_some_iff,
      Option.some.injEq] at he
    obtain ⟨k1, hsend, rfl⟩ := he
    have ha := Apart.send h.sound.core hsend
    have hi' : InitHere k1 := h.here.send h.sound.core hsend
    have hc' : Coming k1 := hc.mono (fun _ hq => hq.send h.sound.core hsend) (fun _ hq => hq.send h.sound.core hsend)
      (congrFun (Comes.send h.sound.core hsend).2 _)
    refine h.own hs' hi' (by rw [setPc_pc_self]; exact .answer name id) ha.sent (by simp [hpc]) ?_ (by simp)
      (fun _ _ _ _ => hc'.mono (fun _ hq => hq) (fun _ hq => hq) (setPc_pc_other _ _ (by decide))) (by simp [got])
    exact (congrArg exitNames ha.returned).trans (hex.trans (by simp [toRestart]))
  | stored name id =>
    have hty := h.answer name id rfl (by rw [hpc]; rfl)
    simp only [runSection, hd, hpc, Option.bind_eq_bind, Option.bind_some, Nat.le_refl, if_true, pure] at he
    obtain rfl := Option.some.inj he
    exact h.own hs' h.here (by rw [setPc_pc_self]; exact .answered name id) (fun _ _ hy => hy) (by simp [hpc])
      (hex.trans (by simp [toRestart])) (by simp) (by simp [got]) (fun _ _ _ _ => hty)
  | wait =>
    simp only [runSection, hd, hpc, Option.bind_eq_bind, Option.bind_some] at he
    rw [if_neg (by decide)] at he
    obtain ⟨⟨tm, r⟩, htake, he⟩ := Option.bind_eq_some_iff.1 he
    obtain ⟨hi', u, hu, ⟨m, ms, hms, rfl, -⟩ | ⟨rfl, -⟩ | ⟨-, hne⟩⟩ := init_take h.sound h.here htake
    · obtain rfl := Option.some.inj he
      have hret := store_returned { k with tm := tm } initPtr m
      refine h.own hs' hi' (by rw [setPc_pc_self]; exact .heard) (fun _ _ hy => hy) (by simp [hpc]) ?_ (by simp) (by simp)
        (by simp)
      show exitNames (store { k with tm := tm } initPtr m |>.returned initPtr) =
        restarts ++ if _ then exitNames (store { k with tm := tm } initPtr m |>.returned initPtr).getLast?.toList else []
      rw [hret, exitNames_append, hex]
      simp [toRestart, hpc, got]
    · obtain rfl := Option.some.inj he
      exact h.own hs' hi' (by rw [hpc]; exact .wait) (fun _ _ hy => hy) (by simp [hpc]) hex (by simp) (by simp) (by simp)
    · exact absurd rfl hne
  | heard =>
    simp only [runSection, hd, hpc, Option.bind_eq_bind, Option.bind_some, Nat.le_refl, if_true, pure] at he
    obtain rfl := Option.some.inj he
    refine h.own hs' h.here (by rw [setPc_pc_self]; exact .waiting) (fun _ _ hy => hy) (by simp [hpc]) ?_ (by simp) (by simp)
      (by simp)
    refine hex.trans ?_
    simp [toRestart, hpc, got, received, setPc]

/-- A system call of init. -/
theorem init_call {k k' : Kernel} (h : k.Sound) (hi : InitHere k) (hcur : k.tm.currentTask = some initPtr)
    (hpc : k.pc initPtr = .user) {e : Event} (he : k.step e = some k') :
    (∀ buf dst, e = .sysSend buf dst → k' = k.setPc initPtr (.send { buf with srcTask := 3 } dst)) ∧
    (∀ len, e = .sysOpen len → k' = k.setPc initPtr (.openReceive len 0)) ∧
    (∀ len target, e = .sysClosed len target → k' = k.setPc initPtr (.closedReceive len 0 target)) ∧
    (e = .sysNewTask → k' = { k with tm := k.tm.newTask.1 }) := by
  obtain ⟨t, -, hd, -, hid⟩ := hi.deref h.core
  refine ⟨fun buf dst hev => ?_, fun len hev => ?_, fun len target hev => ?_, fun hev => ?_⟩
  all_goals
    subst hev
    simpa [step, hcur, sysCall, hd, hpc, hid, eq_comm] using he

/-- A turn of init: the machine is as before but for init's place, and maybe a new task. -/
theorem Inv.moved (h : x.Inv) (hu : x.k.pc initPtr = .user) (hs : x'.k.Sound) (hi : InitHere x'.k)
    (hret : x'.k.returned = x.k.returned) (hsent : x'.k.sent = x.k.sent) (hpl : Placed x'.phase (x'.k.pc initPtr))
    (hexits : exitNames (x.k.returned initPtr) = x'.restarts ++ x'.toRestart)
    (hcalls : ∃ done, done ++ x'.todo = servers ∧ x'.outcomes.map (·.1) ++ x'.underWay = done ++ x'.restarts)
    (hout : ∀ o ∈ x'.outcomes, o ∈ x.outcomes ∨ o.2 = .notFound ∨ ∃ id, o.2 = .started id ∧
      x'.k.pc initPtr = .send ⟨.kStartServer, 3, .starttask id⟩ 1)
    (hlater : x'.restarts ≠ [] ∨ x'.phase = .waiting → x'.todo = [])
    (hasked : ∀ name id, x'.phase = .asked name id → x'.k.pc initPtr ≠ .user)
    (hawaited : ∀ name id, x'.phase = .answered name id → x'.k.Coming ∧ got (x'.k.pc initPtr) = false) : x'.Inv := by
  refine ⟨⟨hret ▸ hexits, hcalls, fun o ho => ?_, fun name id ho => ?_, fun name id hp _ => (hawaited name id hp).1⟩,
    hs, hi, hpl, hlater, fun name id hp hpc => absurd hpc (hasked name id hp), fun name id hp hg => ?_⟩
  · rcases hout o ho with ho | ho | ⟨id, ho, -⟩
    · exact h.kept o ho
    · simp [ho]
    · simp [ho]
  · rcases hout _ ho with ho | ho | ⟨id', ho, hpc⟩
    · obtain ⟨src, hm | hm⟩ := h.launched name id ho
      · exact ⟨src, .inl (hsent ▸ hm)⟩
      · rw [hu] at hm
        cases hm
    · cases ho
    · cases ho
      exact ⟨3, .inr hpc⟩
  · rw [(hawaited name id hp).2] at hg
    cases hg

/-- `StartServers` looks for the file and asks for a task. -/
theorem Inv.startServers (h : x.Inv) (hcur : x.k.tm.currentTask = some initPtr) (hu : x.k.pc initPtr = .user)
    {todo restarts : List (List UInt8)} {name : List UInt8} {file : Option UInt32}
    (hexits : exitNames (x.k.returned initPtr) = restarts)
    (hcalls : ∃ done, done ++ todo = servers ∧ x.outcomes.map (·.1) ++ [name] = done ++ restarts)
    (hlater : restarts ≠ [] → todo = [])
    (he : { x with todo := todo, restarts := restarts }.startServers name file = some x') : x'.Inv := by
  unfold InitServer.startServers at he
  cases file with
  | none =>
    obtain rfl := Option.some.inj he
    refine h.moved hu h.sound h.here rfl rfl (by simpa only [hu] using .idle)
      (by simp [hexits, toRestart]) ?_ (fun o ho => ?_) (by simpa using hlater) (by simp) (by simp)
    · simpa [underWay] using hcalls
    · rcases List.mem_append.1 ho with ho | ho
      · exact .inl ho
      · obtain rfl := List.mem_singleton.1 ho
        exact .inr (.inl rfl)
  | some size =>
    obtain ⟨k', hk, rfl⟩ := Option.map_eq_some_iff.1 he
    have hs' := h.sound.step hk
    obtain rfl := (init_call h.sound h.here hcur hu hk).2.2.2 rfl
    exact h.moved hu hs' h.here.newTask rfl rfl (by simpa only [hu] using .created ..) (by simp [hexits, toRestart])
      (by simpa [underWay] using hcalls) (fun o ho => .inl ho) (by simpa using hlater) (by simp) (by simp)

/-- **What init does between two system calls.** -/
theorem Inv.turn (h : x.Inv) (hcur : x.k.tm.currentTask = some initPtr) (hu : x.k.pc initPtr = .user)
    {file : Option UInt32} (he : x.turn file = some x') : x'.Inv := by
  obtain ⟨k, todo, phase, restarts, outcomes⟩ := x
  have hex := h.exits
  have hcalls := h.calls
  have hlater := h.later
  unfold InitServer.turn at he
  cases phase with
  | idle =>
    obtain ⟨done, hdone, hc⟩ := hcalls
    simp only [toRestart, underWay, reduceCtorEq, false_and, if_false, List.append_nil] at hex hc
    cases todo with
    | cons name todo =>
      have hr : restarts = [] := by
        by_contra hr
        exact absurd (hlater (.inl hr)) (by simp)
      subst hr
      refine h.startServers hcur hu hex ⟨done ++ [name], by simpa using hdone, ?_⟩ (by simp) he
      rw [hc]
      simp
    | nil =>
      obtain ⟨k', hk, rfl⟩ := Option.map_eq_some_iff.1 he
      have hs' := h.sound.step hk
      obtain rfl := (init_call h.sound h.here hcur hu hk).2.1 _ rfl
      refine h.moved hu hs' h.here rfl rfl (by simpa using .wait) ?_ ⟨done, hdone, by simpa [underWay] using hc⟩
        (fun o ho => .inl ho) (by simp) (by simp) (by simp)
      simpa [toRestart, got] using hex
  | created name id size =>
    obtain ⟨k', hk, rfl⟩ := Option.map_eq_some_iff.1 he
    have hs' := h.sound.step hk
    obtain rfl := (init_call h.sound h.here hcur hu hk).1 _ _ rfl
    exact h.moved hu hs' h.here rfl rfl (by simpa using .asking ..) (by simpa [toRestart] using hex) hcalls
      (fun o ho => .inl ho) (by simpa using hlater) (by simp) (by simp)
  | asked name id =>
    obtain ⟨k', hk, rfl⟩ := Option.map_eq_some_iff.1 he
    have hs' := h.sound.step hk
    obtain rfl := (init_call h.sound h.here hcur hu hk).2.2.1 _ _ rfl
    have hc : k.Coming := h.asked name id rfl hu
    exact h.moved hu hs' h.here rfl rfl (by simpa using .answer ..) (by simpa [toRestart] using hex) hcalls
      (fun o ho => .inl ho) (by simpa using hlater) (by simp)
      (fun _ _ _ => ⟨hc.mono (fun _ hq => hq) (fun _ hq => hq) (setPc_pc_other _ _ (by decide)), by simp [got]⟩)
  | answered name id =>
    have hty := h.answer name id rfl (by rw [hu]; rfl)
    simp only [hty, if_true] at he
    obtain ⟨k', hk, rfl⟩ := Option.map_eq_some_iff.1 he
    have hs' := h.sound.step hk
    obtain rfl := (init_call h.sound h.here hcur hu hk).1 _ _ rfl
    obtain ⟨done, hdone, hc⟩ := hcalls
    refine h.moved hu hs' h.here rfl rfl (by simpa using .starting id) (by simpa [toRestart] using hex)
      ⟨done, hdone, by simpa [underWay] using hc⟩ (fun o ho => ?_) (by simpa using hlater) (by simp) (by simp)
    rcases List.mem_append.1 ho with ho | ho
    · exact .inl ho
    · obtain rfl := List.mem_singleton.1 ho
      exact .inr (.inr ⟨id, rfl, setPc_pc_self ..⟩)
  | waiting =>
    have htodo := hlater (.inr rfl)
    have hu' : k.pc initPtr = .user := hu
    obtain ⟨done, hdone, hc⟩ := hcalls
    simp only [underWay, List.append_nil] at hc
    have hidle : exitNames (k.returned initPtr) = restarts →
        some { k := k, todo := todo, phase := .idle, restarts := restarts, outcomes := outcomes } = some x' → x'.Inv := by
      intro hex he
      obtain rfl := Option.some.inj he
      exact h.moved hu h.sound h.here rfl rfl (by simpa only [hu'] using .idle) (by simpa [toRestart] using hex)
        ⟨done, hdone, by simpa [underWay] using hc⟩ (fun o ho => .inl ho) (fun _ => htodo) (by simp) (by simp)
    cases hm : (k.returned initPtr).getLast? with
    | none =>
      simp only [received, hm] at he
      exact hidle (hex.trans (by simp [toRestart, received, hm, exitNames])) he
    | some m =>
      simp only [received, hm] at he
      split at he
      · rename_i hty
        refine h.startServers hcur hu (hex.trans ?_) ⟨done, hdone, ?_⟩ (fun _ => htodo) he
        · simp [toRestart, hu', got, received, hm, exitNames, hty]
        · rw [hc, List.append_assoc]
      · rename_i hty
        exact hidle (hex.trans (by simp [toRestart, received, hm, exitNames, hty])) he

theorem Inv.next (h : x.Inv) {a : InitAct} (hp : TakesAnswer x a ∧ LeavesInit x a) (he : x.next a = some x') : x'.Inv := by
  cases a with
  | init file =>
    simp only [InitServer.next] at he
    split at he
    · rename_i hc
      exact h.turn hc.1 hc.2 he
    · cases he
  | kernel e =>
    simp only [InitServer.next] at he
    split at he
    · cases he
    rename_i hno
    obtain ⟨k', hk, rfl⟩ := Option.map_eq_some_iff.1 he
    by_cases hown : x.k.tm.currentTask = some initPtr ∧ e = .run
    · obtain ⟨hcur, rfl⟩ := hown
      simp only [step, hcur, Option.bind_eq_bind, Option.bind_some] at hk
      exact h.run hcur hp.1 hk
    · refine h.others (h.sound.step hk) (Others.step h.here h.sound (fun hcur => ?_) h.placed.not_finishing ?_ hk)
      · cases e with
        | tick => exact .inl rfl
        | kernelSend id m => exact .inr ⟨id, m, rfl⟩
        | run => exact absurd ⟨hcur, rfl⟩ hown
        | _ => exact absurd ⟨hcur, rfl⟩ hno
      · rintro rfl
        exact hp.2

theorem inv_boot {k : Kernel} (hk : Kernel.boot = some k) : (atBoot k).Inv := by
  have hhere : InitHere k := by
    have hrun : (Kernel.boot.all fun k => decide ((k.tm.find 3).map (·.ptr) = some initPtr)) = true := by decide +kernel
    have hfind := of_decide_eq_true ((Option.all_eq_true _ _).1 hrun k hk)
    exact Option.map_eq_some_iff.1 hfind
  have hs := sound_boot hk
  obtain ⟨tm, -, rfl⟩ := Option.map_eq_some_iff.1 hk
  exact ⟨⟨rfl, ⟨[], rfl, rfl⟩, by simp [atBoot], by simp [atBoot], by simp [atBoot]⟩, hs, hhere, .idle, by simp [atBoot],
    by simp [atBoot], by simp [atBoot]⟩

/-- **No exit is forgotten and every server is started**, as long as `StartServers` takes the answer it waits for and init
is left alone. -/
theorem heeded_along {k : Kernel} {as : List InitAct} (hk : Kernel.boot = some k)
    (h : Along next (fun x a => TakesAnswer x a ∧ LeavesInit x a) (atBoot k) as) : States next Heeded (atBoot k) as := by
  exact (h.states (fun s a s' hs hp he => hs.next hp he) as (inv_boot hk)).mono (fun s hs => hs.toHeeded) as

instance : ∀ a, Decidable (TakesAnswer x a)
  | .kernel .run => decidable_of_iff (x.k.tm.currentTask = some initPtr → x.k.pc initPtr = .closedReceive 1 0 1 →
      ∀ m, ((x.k.tm.deref initPtr).bind fun t => t.msgs.head?) = some m → m.srcTask = 1 → m.type = .kExpandTaskBuffer) (by
        simp only [TakesAnswer, Option.bind_eq_some_iff]
        exact forall₂_congr fun _ _ => ⟨fun h t ht m hm => h m ⟨t, ht, hm⟩, fun h m ⟨t, ht, hm⟩ => h t ht m hm⟩)
  | .init _ | .kernel .tick | .kernel (.kernelSend ..) | .kernel (.sysSend ..) | .kernel (.sysOpen ..)
  | .kernel (.sysClosed ..) | .kernel .sysNewTask | .kernel (.sysCreateTimer ..) | .kernel (.setName ..)
  | .kernel (.sysExit ..) => inferInstanceAs (Decidable True)

instance : ∀ a, Decidable (LeavesInit x a)
  | .kernel .run =>
    match hm : x.k.pc systemPtr with
    | .systemGot m => decidable_of_iff (x.k.tm.currentTask = some systemPtr → startFunc m.type ≠ none →
        ∀ t, x.k.tm.find m.starttaskId = some t → t.ptr ≠ initPtr) (by
          simp only [LeavesInit, hm, Pc.systemGot.injEq]
          exact forall_congr' fun _ => ⟨fun h _ he => he ▸ h, fun h => h m rfl⟩)
    | .fresh | .halted | .user | .send .. | .openReceive .. | .closedReceive .. | .closedReject .. | .system
    | .systemReply _ | .appExit .. | .appWait .. | .serverExit .. | .finishing _ =>
      isTrue (by simp [LeavesInit, hm])
  | .init _ | .kernel .tick | .kernel (.kernelSend ..) | .kernel (.sysSend ..) | .kernel (.sysOpen ..)
  | .kernel (.sysClosed ..) | .kernel .sysNewTask | .kernel (.sysCreateTimer ..) | .kernel (.setName ..)
  | .kernel (.sysExit ..) => inferInstanceAs (Decidable True)

/-- init starts task `id`: it asks for the buffer, takes the answer and sends `kStartServer`. -/
def startup : List InitAct :=
  [.init (some 9), .init none, .kernel .run, .init none] ++ .replicate 7 (.kernel .run) ++ [.init none, .kernel .run]

/-- The first server is started, the files of the others are missing. -/
def started : List InitAct :=
  [.kernel .run] ++ startup ++ [.kernel .tick, .kernel .tick, .kernel .run, .kernel .run, .kernel .run]

/-- The server exits when init waits for messages, and is started again. -/
def restarted : List InitAct :=
  started ++ .replicate 5 (.init none) ++ [.kernel .run, .kernel (.sysExit 1 (bytes "servers/gui"))] ++
    .replicate 4 (.kernel .run) ++ startup

theorem heeded_along_restarted : ∃ k, Kernel.boot = some k ∧ States next Heeded (atBoot k) restarted := by
  have hrun : (Kernel.boot.any fun k =>
      decide (Along next (fun x a => TakesAnswer x a ∧ LeavesInit x a) (atBoot k) restarted)) = true := by decide +kernel
  obtain ⟨k, hk, ha⟩ := (Option.any_eq_true _ _).mp hrun
  exact ⟨k, hk, heeded_along hk (of_decide_eq_true ha)⟩

/-- The server exits before init asks for the second one. -/
def exited : List InitAct :=
  started ++ [.kernel .tick, .kernel .tick, .kernel (.sysExit 1 (bytes "servers/gui")), .kernel .run, .kernel .run,
    .init (some 9), .init none, .kernel .run, .init none, .kernel .run, .kernel .run, .init none]

/-- **The exit is taken for the kernel's answer**: the first server is not restarted, the second never started. -/
theorem heeded_broken : ¬ ∀ (k : Kernel) (as : List InitAct), Kernel.boot = some k → Along next LeavesInit (atBoot k) as →
    States next Heeded (atBoot k) as := by
  intro h
  have hrun : (Kernel.boot.any fun k => decide (Along next LeavesInit (atBoot k) exited) &&
      (exec next (atBoot k) exited).any fun x =>
        x.outcomes.any fun o => decide (o = (bytes "servers/log", Outcome.dropped))) = true := by decide +kernel
  obtain ⟨k, hk, hrun⟩ := (Option.any_eq_true _ _).mp hrun
  obtain ⟨ha, hrun⟩ := Bool.and_eq_true_iff.1 hrun
  obtain ⟨x, hx, hout⟩ := (Option.any_eq_true _ _).mp hrun
  obtain ⟨o, ho, hdrop⟩ := List.any_eq_true.1 hout
  have hkept := ((h k exited hk (of_decide_eq_true ha)).last hx).kept o ho
  rw [of_decide_eq_true hdrop] at hkept
  exact hkept rfl

end InitServer

end KinOS
