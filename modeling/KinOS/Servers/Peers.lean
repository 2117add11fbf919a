import KinOS.Kernel.MachineSteps

/-!
# Servers that learn each other's ids

| here | there |
| --- | --- |
| `Act.initializeFs` | `FileSystemServer::Initialize` (`servers/fs/fs.cpp:28-62`): `am_id_` is looked up here and nowhere else |
| `Act.initializeAm` | `ApplicationManagementServer::Initialize` (`servers/am/am.cpp`) |
| `Peers.allows`     | `SyscallClosedReceiveMessage(&rm_, 1, am_id_)` in every state of `servers/fs/serverstate.cpp` |
| `amName`, `fsName` | the names `TaskServer` runs under (`SetName` in `ExecuteServer`, `kernel/system.cpp:193`) |

The servers run on the machine; `amId` and `ready` is what a server has set up in its own memory, so it goes when the
task is started anew. am asks for the file server's id at every request, the file server asks for am's once. The two talk
as long as no am comes to its name after the file server has asked. Which name a task takes is left to the events: init
does not hand its name to a server it starts again (`Init`).
-/

namespace KinOS

open TransitionSystem TaskManager

namespace Kernel

/-! ## Where the tasks of a step come from -/

/-- Every task is an earlier one under the same id and name. -/
def Comes (k k' : Kernel) : Prop :=
  ∀ u ∈ k'.tm.tasks, ∃ t ∈ k.tm.tasks, t.ptr = u.ptr ∧ t.id = u.id ∧ t.name = u.name

theorem Comes.refl (k : Kernel) : Comes k k := fun u hu => ⟨u, hu, rfl, rfl, rfl⟩

theorem Comes.trans {k k' k'' : Kernel} (h : Comes k k') (h' : Comes k' k'') : Comes k k'' := by
  intro u hu
  obtain ⟨t, ht, hp, hi, hn⟩ := h' u hu
  obtain ⟨s, hs, hp', hi', hn'⟩ := h t ht
  exact ⟨s, hs, hp'.trans hp, hi'.trans hi, hn'.trans hn⟩

theorem Comes.touch {k : Kernel} {tm' : TaskManager} {p : Ptr} {f : Task → Task} (h : Touches k.tm p f tm')
    (hf : ∀ t, (f t).ptr = t.ptr ∧ (f t).id = t.id ∧ (f t).name = t.name) {k' : Kernel} (hk : k'.tm = tm') :
    Comes k k' := by
  intro u hu
  rw [hk] at hu
  obtain ⟨t, ht, hp, hi, hu⟩ := h.of_mem (fun t => ⟨(hf t).1, (hf t).2.1⟩) hu
  refine ⟨t, ht, hp, hi, ?_⟩
  rw [hu]
  split
  · exact (hf t).2.2.symm
  · rfl

theorem Comes.send {k k' : Kernel} (h : k.tm.Core) {who : Producer} {id : UInt64} {msg : Message}
    (he : k.send who id msg = some k') : Comes k k' ∧ k'.pc = k.pc := by
  rcases send_spec h he with ⟨-, rfl⟩ | ⟨t, tm', -, -, hto, rfl⟩
  · exact ⟨.refl _, rfl⟩
  · exact ⟨.touch hto (fun _ => ⟨rfl, rfl, rfl⟩) rfl, rfl⟩

theorem Comes.sendAll : ∀ (ms : List (UInt64 × Message)) {k k' : Kernel}, k.Sound → k.sendAll ms = some k' →
    Comes k k' ∧ k'.pc = k.pc
  | [], _, _, _, he => Option.some.inj he ▸ ⟨.refl _, rfl⟩
  | (id, msg) :: ms, k, k', h, he => by
    simp only [Kernel.sendAll, Option.bind_eq_bind, Option.bind_eq_some_iff] at he
    obtain ⟨k1, he1, he2⟩ := he
    obtain ⟨hc, hpc⟩ := Comes.send h.core he1
    obtain ⟨hc', hpc'⟩ := Comes.sendAll ms (h.send he1).1 he2
    exact ⟨hc.trans hc', hpc'.trans hpc⟩

theorem abandon_frame (k : Kernel) (p : Ptr) : (k.abandon p).tm = k.tm ∧ (k.abandon p).pc = k.pc := by
  unfold abandon
  split
  · exact ⟨rfl, rfl⟩
  · exact ⟨rfl, rfl⟩

/-- The places that take a message from the queue. -/
def takes : Pc → Bool
  | .openReceive .. | .closedReceive .. | .system | .appWait .. => true
  | _ => false

theorem Waits.takes {pc : Pc} {i : Nat} (h : Waits pc i) : takes pc = true := by
  cases h <;> rfl

/-- A change of task `q` by task `p`, which is at `pc`: only the task itself takes from its queue. -/
structure Edits (pc : Pc) (p q : Ptr) (f : Task → Task) : Prop where
  frame : ∀ u, (f u).ptr = u.ptr ∧ (f u).id = u.id ∧ (f u).name = u.name
  queue : q ≠ p ∨ takes pc = false → ∀ u, ∀ m ∈ u.msgs, m ∈ (f u).msgs

theorem Edits.id (pc : Pc) (p q : Ptr) : Edits pc p q (fun u => u) := ⟨fun _ => ⟨rfl, rfl, rfl⟩, fun _ _ _ hm => hm⟩

/-- **What a section does to the tasks**: it changes one of them, or the current task ends. -/
theorem section_tasks {k k' : Kernel} (h : k.Sound) {t : Task} (ht : t ∈ k.tm.tasks)
    (hcur : k.tm.currentTask = some t.ptr) (hs : Section k t.ptr t k') :
    (∃ q f, Touches k.tm q f k'.tm ∧ Edits (k.pc t.ptr) t.ptr q f) ∨
      ∃ ec, k.pc t.ptr = .finishing ec ∧ k'.tm.Core ∧ k'.tm.tasks = k.tm.tasks.filter (·.ptr ≠ t.ptr) := by
  have hkeep : ∀ {k1 : Kernel}, k1.tm = k.tm → ∃ q f, Touches k.tm q f k1.tm ∧ Edits (k.pc t.ptr) t.ptr q f := fun hk =>
    ⟨t.ptr, _, hk ▸ .refl .., .id ..⟩
  have hsend : ∀ {who id msg} {k1 : Kernel}, k.send who id msg = some k1 →
      ∃ q f, Touches k.tm q f k1.tm ∧ Edits (k.pc t.ptr) t.ptr q f := by
    intro who id msg k1 he
    rcases send_spec h.core he with ⟨-, rfl⟩ | ⟨u, tm', -, -, hto, rfl⟩
    · exact hkeep rfl
    · exact ⟨_, _, hto, fun _ => ⟨rfl, rfl, rfl⟩, fun _ _ _ hm => List.mem_append_left _ hm⟩
  have htake : ∀ {i : Nat} {tm' : TaskManager} {r : Taken}, takes (k.pc t.ptr) = true →
      k.tm.takeMessage t.ptr i = some (tm', r) → ∃ q f, Touches k.tm q f tm' ∧ Edits (k.pc t.ptr) t.ptr q f := by
    intro i tm' r hpc he
    have hown : ¬ (t.ptr ≠ t.ptr ∨ takes (k.pc t.ptr) = false) := by simp [hpc]
    rcases h.core.takeMessage_spec ht he with ⟨m, ms, -, -, -, hto⟩ | ⟨-, -, -, -, -, hto⟩ | ⟨-, -, -, rfl⟩
    · exact ⟨_, _, hto, fun _ => ⟨rfl, rfl, rfl⟩, fun hne => absurd hne hown⟩
    · exact ⟨_, _, hto, fun _ => ⟨rfl, rfl, rfl⟩, fun hne => absurd hne hown⟩
    · exact ⟨t.ptr, _, .refl .., .id ..⟩
  cases hs with
  | go pc _ => exact .inl (hkeep rfl)
  | send who id msg pc k1 _ he =>
    have h1 := hsend he
    exact .inl h1
  | reject len i target m k1 _ he =>
    have h1 := hsend he
    exact .inl h1
  | sleep i tm' hw he => exact .inl (htake hw.takes he)
  | keep i tm' m pc ret hw _ he => exact .inl (htake hw.takes he)
  | refuse len i target tm' m hpc _ he => exact .inl (htake (by rw [hpc]; rfl) he)
  | expand m _ _ =>
    refine .inl ?_
    simp only [setPc, expandTaskBuffer]
    split
    · exact ⟨t.ptr, _, .refl .., .id ..⟩
    · exact ⟨_, fun t => { t with buf := resize t.buf m.expandBytes.toNat }, ⟨rfl, rfl, rfl⟩,
        fun _ => ⟨rfl, rfl, rfl⟩, fun _ _ _ hm => hm⟩
  | start m f k1 _ _ he =>
    rcases start_spec h.core he with ⟨-, rfl⟩ | ⟨u, tm', -, -, hto, rfl⟩
    · exact .inl (hkeep rfl)
    · refine .inl ⟨u.ptr, fun t => { t.initContext f m.srcTask with running := true }, ?_, fun _ => ⟨rfl, rfl, rfl⟩,
        fun _ _ _ hm => hm⟩
      split
      · exact hto
      · simp only [setPc, (abandon_frame _ _).1]
        exact hto
  | finish ec tm' hpc he =>
    obtain ⟨c, -, hcc, hspec, -⟩ := h.core.finish ec
    obtain ⟨hcore, -, htasks, -, -⟩ := hspec tm' he
    have hct : c.ptr = t.ptr := Option.some.inj (hcc.symm.trans hcur)
    exact .inr ⟨ec, hpc, hcore, hct ▸ htasks⟩

theorem Comes.section {k k' : Kernel} (h : k.Sound) {t : Task} (ht : t ∈ k.tm.tasks)
    (hcur : k.tm.currentTask = some t.ptr) (hs : Section k t.ptr t k') : Comes k k' := by
  rcases section_tasks h ht hcur hs with ⟨q, f, hto, hf⟩ | ⟨ec, -, -, htasks⟩
  · exact .touch hto hf.frame rfl
  · intro u hu
    rw [htasks] at hu
    exact ⟨u, (List.mem_filter.1 hu).1, rfl, rfl, rfl⟩

/-- **Where the tasks come from**: an earlier task, whose name only `SetName` has changed, or `NewTask`. -/
theorem step_comes {k k' : Kernel} (h : k.Sound) {e : Event} (he : k.step e = some k') :
    Comes k k' ∨ (∃ n p, e = .setName n ∧ k'.tm = k.tm.modify p fun t => { t with name := n }) ∨
      (e = .sysNewTask ∧ k'.tm = k.tm.newTask.1) := by
  cases step_stepped h.core he with
  | tick timer ms _ _ hs =>
    exact .inl (Comes.sendAll ms (k := { k with timer := timer }) ⟨h.core, h.system, h.first, h.fresh⟩ hs).1
  | switch timer ms k1 tm' _ hs hsw =>
    have hsound : ({ k with timer := timer } : Kernel).Sound := ⟨h.core, h.system, h.first, h.fresh⟩
    have hc := (Comes.sendAll ms hsound hs).1
    obtain ⟨tm2, hsw2, -, -, htasks, -, -⟩ := (Sound.sendAll ms hsound hs).core.switchTask
    obtain rfl := Option.some.inj (hsw.symm.trans hsw2)
    refine .inl fun u hu => ?_
    exact hc u (htasks ▸ hu)
  | kernelSend id msg _ hs => exact .inl (Comes.send h.core hs).1
  | call t _ pc _ _ _ _ => exact .inl (.refl k)
  | newTask => exact .inr (.inr ⟨rfl, rfl⟩)
  | createTimer => exact .inl (.refl k)
  | setName p name => exact .inr (.inl ⟨name, p, rfl, rfl⟩)
  | run t _ ht hcur hs => exact .inl (.section h ht hcur hs)

/-! ## Whom a task waits for -/

/-- The target of a closed receive that is under way. -/
def aim : Pc → Option UInt64
  | .closedReceive _ _ target => some target
  | .closedReject _ _ target _ => some target
  | _ => none

theorem aim_section {k k' : Kernel} (h : k.Sound) {t : Task} (ht : t ∈ k.tm.tasks)
    (hs : Section k t.ptr t k') {p : Ptr} {target : UInt64}
    (ha : aim (k'.pc p) = some target) : aim (k.pc p) = some target := by
  -- what a section does to the places: the current task moves, a started task goes to user code
  have hset : ∀ {j : Kernel} {pc : Pc}, j.pc = k.pc → (aim pc = none ∨ aim pc = aim (k.pc t.ptr)) →
      aim ((j.setPc t.ptr pc).pc p) = some target → aim (k.pc p) = some target := by
    intro j pc hj hpc hp
    by_cases he : p = t.ptr
    · subst he
      simp only [setPc, Function.update_self] at hp
      rcases hpc with hpc | hpc
      · rw [hpc] at hp
        cases hp
      · rw [← hpc]
        exact hp
    · simp only [setPc, Function.update_of_ne he, hj] at hp
      exact hp
  cases hs with
  | go pc hg =>
    refine hset rfl ?_ ha
    generalize k.pc t.ptr = q at hg
    cases hg <;> exact .inl rfl
  | send who id msg pc k1 hsd he =>
    refine hset (Comes.send h.core he).2 ?_ ha
    generalize k.pc t.ptr = q at hsd
    cases hsd <;> exact .inl rfl
  | reject len i tg m k1 hpc he =>
    refine hset (j := k1.note t.ptr m _) (Comes.send h.core he).2 (.inr ?_) ha
    rw [hpc]
    rfl
  | sleep i tm' _ he => exact ha
  | keep i tm' m pc ret _ hk he =>
    refine hset (j := { ({ k with tm := tm' } : Kernel).note t.ptr m .kept with returned := ret }) rfl ?_ ha
    generalize k.pc t.ptr = q at hk
    cases hk
    case closed => exact .inr rfl
    all_goals exact .inl rfl
  | refuse len i tg tm' m hpc _ he =>
    refine hset (j := { k with tm := tm' }) rfl (.inr ?_) ha
    rw [hpc]
    rfl
  | expand m hpc _ =>
    exact hset (j := { k with tm := (k.tm.expandTaskBuffer m.expandId m.expandBytes).1 }) rfl (.inl rfl) ha
  | start m f k1 hpc _ he =>
    rcases start_spec h.core he with ⟨-, rfl⟩ | ⟨u, tm', -, -, hto, rfl⟩
    · exact hset rfl (.inl rfl) ha
    · split at ha
      · exact hset (j := { k with tm := tm' }) rfl (.inl rfl) ha
      · by_cases hpt : p = t.ptr
        · subst hpt
          simp only [setPc, Function.update_self] at ha
          cases ha
        · simp only [setPc, Function.update_of_ne hpt] at ha
          by_cases hpu : p = u.ptr
          · subst hpu
            simp only [Function.update_self] at ha
            cases ha
          · simp only [Function.update_of_ne hpu, (abandon_frame _ _).2] at ha
            exact ha
  | finish ec tm' _ he => exact ha

theorem step_aim {k k' : Kernel} (h : k.Sound) {e : Event} (he : k.step e = some k') {p : Ptr} {target : UInt64}
    (ha : aim (k'.pc p) = some target) :
    aim (k.pc p) = some target ∨ (k.tm.currentTask = some p ∧ ∃ len, e = .sysClosed len target) := by
  cases step_stepped h.core he with
  | tick timer ms _ _ hs =>
    rw [(Comes.sendAll ms (k := { k with timer := timer }) ⟨h.core, h.system, h.first, h.fresh⟩ hs).2] at ha
    exact .inl ha
  | switch timer ms k1 tm' _ hs hsw =>
    have hpc := (Comes.sendAll ms (k := { k with timer := timer }) ⟨h.core, h.system, h.first, h.fresh⟩ hs).2
    exact .inl (hpc ▸ ha)
  | kernelSend id msg _ hs => exact .inl ((Comes.send h.core hs).2 ▸ ha)
  | call t _ pc ht hcur hpc hc =>
    by_cases hp : p = t.ptr
    · subst hp
      simp only [setPc, Function.update_self] at ha
      cases hc with
      | closed len tg =>
        cases ha
        exact .inr ⟨hcur, len, rfl⟩
      | exit ec arg =>
        unfold exitPc at ha
        split at ha <;> cases ha
      | _ => cases ha
    · simp only [setPc, Function.update_of_ne hp] at ha
      exact .inl ha
  | newTask => exact .inl ha
  | createTimer => exact .inl ha
  | setName p name => exact .inl ha
  | run t _ ht hcur hs => exact .inl (aim_section h ht hs ha)

end Kernel

/-! ## The two servers -/

def amName : String := "servers/am"
def fsName : String := "servers/fs"

/-- `amId` is `am_id_` in the memory of a task that has run the file server's `Initialize`, `ready` says that the task has
run am's. -/
structure Peers where
  k : Kernel
  amId : Ptr → Option UInt64
  ready : Ptr → Bool

inductive Act
  | kernel (e : Event)
  | initializeFs
  | initializeAm
deriving DecidableEq, Repr

namespace Peers

open Kernel

/-- The contexts a task has been given so far. -/
def initsOf (k : Kernel) (p : Ptr) : Option (List TaskContext) := (k.tm.deref p).map (·.inits)

/-- An initialised file server receives from `am_id_`, one message at a time. -/
def allows (x : Peers) : Event → Bool
  | .sysClosed len target =>
    ((x.k.tm.currentTask.bind x.amId).map fun id => decide (len = 1 ∧ target = id)).getD true
  | _ => true

/-- A step of the machine. A task that is started anew has nothing set up. -/
def stepKernel (x : Peers) (e : Event) : Option Peers :=
  if x.allows e then
    (x.k.step e).map fun k' =>
      { k := k'
        amId := fun p => if initsOf k' p = initsOf x.k p then x.amId p else none
        ready := fun p => if initsOf k' p = initsOf x.k p then x.ready p else false }
  else none

/-- The current task, in user code, when it runs under this name. -/
def running (x : Peers) (name : String) : Option Ptr := do
  let p ← x.k.tm.currentTask
  let t ← x.k.tm.deref p
  if x.k.pc p = .user ∧ t.name = name then some p else none

def next (x : Peers) : Act → Option Peers
  | .kernel e => x.stepKernel e
  | .initializeFs => (x.running fsName).map fun p =>
    { x with amId := Function.update x.amId p (some (x.k.tm.findTask amName)) }
  | .initializeAm => (x.running amName).map fun p => { x with ready := Function.update x.ready p true }

def atBoot (k : Kernel) : Peers := ⟨k, fun _ => none, fun _ => false⟩

/-- The file server waits for the am that is alive. -/
def Talks (x : Peers) : Prop :=
  ∀ a ∈ x.k.tm.tasks, ∀ f ∈ x.k.tm.tasks, a.name = amName → f.name = fsName → x.ready a.ptr = true →
    ∀ id, x.amId f.ptr = some id → id = a.id ∧ ∀ target, aim (x.k.pc f.ptr) = some target → target = a.id

/-- No task takes am's name while a file server that has asked for its id is alive, and there is one am at most when it
asks. -/
def AmFirst (x : Peers) : Act → Prop
  | .kernel (.setName n) => n = amName → ∀ f ∈ x.k.tm.tasks, x.amId f.ptr = none
  | .initializeFs => ∀ a ∈ x.k.tm.tasks, ∀ b ∈ x.k.tm.tasks, a.name = amName → b.name = amName → a.ptr = b.ptr
  | _ => True

structure Inv (x : Peers) : Prop where
  sound : x.k.Sound
  known : ∀ f ∈ x.k.tm.tasks, ∀ id, x.amId f.ptr = some id → ∀ a ∈ x.k.tm.tasks, a.name = amName → id = a.id
  aims : ∀ p id target, x.amId p = some id → aim (x.k.pc p) = some target → target = id

variable {x x' : Peers}

theorem Inv.talks (h : x.Inv) : x.Talks := by
  intro a ha f hf hna _ _ id hid
  have hk := h.known f hf id hid a ha hna
  exact ⟨hk, fun target ht => (h.aims f.ptr id target hid ht).trans hk⟩

theorem running_some {name : String} {p : Ptr} (h : x.running name = some p) :
    ∃ t ∈ x.k.tm.tasks, t.ptr = p ∧ x.k.pc p = .user ∧ t.name = name := by
  simp only [running, Option.bind_eq_bind, Option.bind_eq_some_iff] at h
  obtain ⟨q, -, t, ht, h⟩ := h
  split at h
  · rename_i hc
    cases h
    obtain ⟨hmem, hptr⟩ := deref_some ht
    exact ⟨t, hmem, hptr, hc.1, hc.2⟩
  · cases h

theorem findTask_eq {tm : TaskManager} {name : String} {a : Task} (h : tm.Rep) (ha : a ∈ tm.tasks) (hn : a.name = name)
    (hone : ∀ a ∈ tm.tasks, ∀ b ∈ tm.tasks, a.name = name → b.name = name → a.ptr = b.ptr) : tm.findTask name = a.id := by
  unfold findTask
  cases hf : tm.tasks.find? (·.name == name) with
  | none => exact absurd hn (by simpa using List.find?_eq_none.1 hf a ha)
  | some b =>
    have hb : b.name = name := by simpa using List.find?_some hf
    have hmem := List.mem_of_find?_eq_some hf
    rw [h.unique hmem ha (hone b hmem a ha hb hn)]

/-- A step of the machine under `AmFirst`. -/
theorem Inv.stepKernel (h : x.Inv) {e : Event} (hp : x.AmFirst (.kernel e)) (he : x.stepKernel e = some x') : x'.Inv := by
  unfold Peers.stepKernel at he
  split at he
  swap
  · cases he
  rename_i hallow
  obtain ⟨k', hk, rfl⟩ := Option.map_eq_some_iff.1 he
  have hs' := h.sound.step hk
  -- what is still set up was set up before, by a task that was there
  have hold : ∀ {p id}, (if initsOf k' p = initsOf x.k p then x.amId p else none) = some id →
      initsOf k' p = initsOf x.k p ∧ x.amId p = some id := by
    intro p id hid
    split at hid
    · exact ⟨‹_›, hid⟩
    · cases hid
  refine ⟨hs', fun f hf id hid a ha hna => ?_, fun p id target hid hta => ?_⟩
  · obtain ⟨hin, hid⟩ := hold hid
    obtain ⟨f0, hf0, hfp⟩ : ∃ f0 ∈ x.k.tm.tasks, f0.ptr = f.ptr := by
      rw [initsOf, hs'.core.rep.deref_eq hf, Option.map_some, initsOf, eq_comm, Option.map_eq_some_iff] at hin
      obtain ⟨f0, hd, -⟩ := hin
      exact ⟨f0, (deref_some hd).1, (deref_some hd).2⟩
    rw [← hfp] at hid
    have hknown := h.known f0 hf0 id hid
    rcases step_comes h.sound hk with hc | ⟨n, p, rfl, htm⟩ | ⟨-, htm⟩
    · obtain ⟨a0, ha0, -, hi, hn⟩ := hc a ha
      exact (hknown a0 ha0 (hn.trans hna)).trans hi
    · rw [htm, mem_modify] at ha
      obtain ⟨a0, ha0, rfl⟩ := ha
      split at hna
      · rw [hp hna f0 hf0] at hid
        cases hid
      · rw [if_neg ‹_›]
        exact hknown a0 ha0 hna
    · rw [htm] at ha
      simp only [newTask, List.mem_append, List.mem_singleton] at ha
      rcases ha with ha | rfl
      · exact hknown a ha hna
      · exact absurd hna (show ("" : String) ≠ amName by decide)
  · obtain ⟨-, hid⟩ := hold hid
    rcases step_aim h.sound hk hta with ha | ⟨hcur, len, rfl⟩
    · exact h.aims p id target hid ha
    · simp only [allows, hcur, Option.bind_some, hid, Option.map_some, Option.getD_some, decide_eq_true_eq] at hallow
      exact hallow.2

theorem Inv.next (h : x.Inv) {a : Act} (hp : x.AmFirst a) (he : x.next a = some x') : x'.Inv := by
  cases a with
  | kernel e => exact h.stepKernel hp he
  | initializeAm =>
    obtain ⟨p, -, rfl⟩ := Option.map_eq_some_iff.1 he
    exact ⟨h.sound, h.known, h.aims⟩
  | initializeFs =>
    obtain ⟨p, hr, rfl⟩ := Option.map_eq_some_iff.1 he
    obtain ⟨t, -, -, hpc, -⟩ := running_some hr
    refine ⟨h.sound, fun f hf id hid a ha hna => ?_, fun q id target hid hta => ?_⟩
    · by_cases hfp : f.ptr = p
      · simp only [hfp, Function.update_self, Option.some.injEq] at hid
        rw [← hid]
        exact findTask_eq h.sound.core.rep ha hna hp
      · simp only [Function.update_of_ne hfp] at hid
        exact h.known f hf id hid a ha hna
    · by_cases hqp : q = p
      · simp only [hqp, hpc] at hta
        cases hta
      · simp only [Function.update_of_ne hqp] at hid
        exact h.aims q id target hid hta

/-- **The servers keep talking** as long as am comes first. -/
theorem talks_along {k : Kernel} {as : List Act} (hk : Kernel.boot = some k) (h : Along next AmFirst (atBoot k) as) :
    States next Talks (atBoot k) as := by
  have h0 : (atBoot k).Inv := ⟨sound_boot hk, fun _ _ _ hid => (by cases hid), fun _ _ _ hid => (by cases hid)⟩
  exact (h.states (fun s a s' hs hp he => hs.next hp he) as h0).mono (fun s hs => hs.talks) as

instance : ∀ a, Decidable (x.AmFirst a)
  | .kernel (.setName _) => inferInstanceAs (Decidable (_ → ∀ f ∈ x.k.tm.tasks, _))
  | .initializeFs => inferInstanceAs (Decidable (∀ a ∈ x.k.tm.tasks, ∀ b ∈ x.k.tm.tasks, _))
  | .initializeAm => inferInstanceAs (Decidable True)
  | .kernel .tick | .kernel (.kernelSend ..) | .kernel (.sysSend ..) | .kernel (.sysOpen ..) | .kernel (.sysClosed ..)
  | .kernel .sysNewTask | .kernel (.sysCreateTimer ..) | .kernel (.sysExit ..) | .kernel .run =>
    inferInstanceAs (Decidable True)

/-- Task 3 runs `StartServers`: it asks task 1 for the buffer of the new task, has the processor back after `ticks`, and
has the task started. -/
def launch (id : UInt64) (ticks : List Event) : List Event :=
  [.sysNewTask, .sysSend ⟨.kExpandTaskBuffer, 0, .expand id 9⟩ 1, .run, .sysClosed 1 1, .run, .run, .run, .run, .run] ++
    ticks ++ [.run, .run, .sysSend ⟨.kStartServer, 0, .starttask id⟩ 1, .run, .tick, .tick, .run, .run, .run]

/-- am is task 4, the file server task 5; it asks for am's id and waits for a request. Task 3 waits for `kExitServer`. -/
def meet : List Act :=
  ([.run] ++ launch 4 [] ++ launch 5 [.tick, .tick] ++ [.setName amName] : List Event).map Act.kernel ++
    [.initializeAm, .kernel .tick, .kernel .tick, .kernel (.sysOpen 1), .kernel .run,
      .kernel (.setName fsName), .initializeFs, .kernel (.sysClosed 1 4), .kernel .run]

theorem talks_along_meet : ∃ k, Kernel.boot = some k ∧ States next Talks (atBoot k) meet := by
  have hrun : (Kernel.boot.any fun k => decide (Along next AmFirst (atBoot k) meet)) = true := by decide +kernel
  obtain ⟨k, hk, ha⟩ := (Option.any_eq_true _ _).mp hrun
  exact ⟨k, hk, talks_along hk (of_decide_eq_true ha)⟩

/-- `LoadApp` takes am so long that the file server is through its `Initialize` first. -/
def fsFirst : List Act :=
  ([.run] ++ launch 4 [] ++ launch 5 [.tick, .tick] ++ [.tick, .tick, .tick, .tick, .setName fsName] : List Event).map
    Act.kernel ++ [.initializeFs, .kernel (.sysClosed 1 0), .kernel .run, .kernel (.setName amName), .initializeAm]

/-- **The file server waits for task 0**, which there is not, and am is task 4. -/
theorem talks_broken : ¬ ∀ (k : Kernel) (as : List Act), Kernel.boot = some k → States next Talks (atBoot k) as := by
  intro h
  have hrun : (Kernel.boot.bind fun k => exec next (atBoot k) fsFirst).any (fun x =>
      decide (∃ a ∈ x.k.tm.tasks, ∃ f ∈ x.k.tm.tasks, a.name = amName ∧ f.name = fsName ∧ x.ready a.ptr = true ∧
        x.amId f.ptr = some 0 ∧ aim (x.k.pc f.ptr) = some 0 ∧ a.id = 4)) = true := by decide +kernel
  obtain ⟨x, hx, hp⟩ := (Option.any_eq_true _ _).mp hrun
  obtain ⟨k, hk, hx⟩ := Option.bind_eq_some_iff.1 hx
  obtain ⟨a, ha, f, hf, hna, hnf, hr, hid, -, hid'⟩ := of_decide_eq_true hp
  have heq := ((h k fsFirst hk).last hx a ha f hf hna hnf hr 0 hid).1
  rw [hid'] at heq
  exact absurd heq (by decide)

end Peers

end KinOS
