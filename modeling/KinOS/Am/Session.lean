import KinOS.Lib.After
import KinOS.Lib.TransitionSystem
import KinOS.Am.Server

/-!
# Runs of the application manager

A run is given by the messages the server takes off its queue and by what the system calls answer on the way. The
request being handled is kept beside the server: it is the message that `InitState` took, or the next stage of a
pipeline that `PipeState` took, until the server is back in its open receive.

`Quiet` says what a step leaves alone. Three handlers are not quiet: `CreateTaskState` makes a task, `StartTaskState`
adds an application, `AllocateFDState` adds a descriptor, and `ExitState` ends an application.
-/

namespace KinOS.Am

structure Event where
  env : Env
  msg : Message

/-- The server, the receive it is in and the request it is at: the message, the server as it took the message, and
whether `PipeState` took it. -/
structure Session where
  server : Server
  wait : Wait
  request : Message
  before : Server
  stage : Bool

namespace Session

/-- The message starts a request. -/
def Takes (x : Session) (m : Message) : Prop :=
  x.wait = .receive .init ∨ (x.wait = .receive .pipe ∧ m.srcTask = x.server.targetId ∧ m.type = .kExecuteFile)

instance (x : Session) (m : Message) : Decidable (x.Takes m) := inferInstanceAs (Decidable (_ ∨ _))

/-- One message; `none` is a step that C++ leaves undefined. `NewTask` counts up, so it never answers with an id that
it has answered before. -/
def next (x : Session) (e : Event) : Option Session :=
  if ∀ id ∈ e.env.newTask, id ∉ x.server.created then
    match Server.deliver e.env x.wait e.msg x.server with
    | .ok w s => some (if x.Takes e.msg then ⟨s, w, e.msg, x.server, x.wait = .receive .pipe⟩
      else { x with server := s, wait := w })
    | .error _ _ => none
  else none

/-- The server as `Initialize` leaves it. -/
structure Boot (x : Session) : Prop where
  wait : x.wait = .receive .init
  apps : x.server.apps = []
  objects : x.server.objects = []
  piped : x.server.piped = false
  pipeFd : x.server.pipeFd = none
  waiting : x.server.waiting = false
  sent : x.server.sent = []
  created : x.server.created = []

/-- Such a server, as task 2. -/
def cold : Session :=
  let m : Message := ⟨.kError, 0, .unset⟩
  let s : Server := ⟨2, m, m, [], [], 0, 0, 0, [], [], false, false, false, [], none, 0, false, [], []⟩
  ⟨s, .receive .init, m, s, false⟩

theorem cold_boot : cold.Boot := ⟨rfl, rfl, rfl, rfl, rfl, rfl, rfl, rfl⟩

/-- The messages of a request that ends well: the `kExecuteFile` of task 5, then the file server, task 3, has found the
file and loaded it into the task `id`. -/
def launch (pipe : Bool) (id : UInt64) : List Event :=
  [⟨⟨some 3, 4, none⟩, ⟨.kExecuteFile, 5, .executefile ⟨[], [], false, pipe, 0, false, false⟩⟩⟩,
    ⟨⟨some 3, 4, some id⟩, ⟨.kExecuteFile, 3, .unset⟩⟩, ⟨⟨some 3, 4, none⟩, ⟨.kReady, 3, .unset⟩⟩]

theorem next_some {x x' : Session} {e : Event} (h : x.next e = some x') :
    (∀ id ∈ e.env.newTask, id ∉ x.server.created) ∧
      Server.deliver e.env x.wait e.msg x.server = .ok x'.wait x'.server ∧
      (x.Takes e.msg → x'.request = e.msg ∧ x'.before = x.server ∧ x'.stage = decide (x.wait = .receive .pipe)) ∧
      (¬ x.Takes e.msg → x'.request = x.request ∧ x'.before = x.before ∧ x'.stage = x.stage) := by
  unfold next at h
  split at h
  · next hf =>
    cases hd : Server.deliver e.env x.wait e.msg x.server with
    | ok w s =>
      rw [hd] at h
      obtain rfl := Option.some.inj h
      by_cases ht : x.Takes e.msg
      · rw [if_pos ht]
        exact ⟨hf, rfl, fun _ => ⟨rfl, rfl, rfl⟩, fun hn => absurd ht hn⟩
      · rw [if_neg ht]
        exact ⟨hf, rfl, fun hn => absurd hn ht, fun _ => ⟨rfl, rfl, rfl⟩⟩
    | error e s =>
      rw [hd] at h
      cases h
  · cases h

end Session

/-! ## What the primitives return -/

namespace Server

@[simp] theorem post_apps (s : Server) (m : Message) (id : UInt64) : (s.post m id).apps = s.apps := rfl
@[simp] theorem post_objects (s : Server) (m : Message) (id : UInt64) : (s.post m id).objects = s.objects := rfl
@[simp] theorem post_sent (s : Server) (m : Message) (id : UInt64) :
    (s.post m id).sent = s.sent ++ [(id, { m with srcTask := s.id })] := rfl

variable {s s' : Server} {u : Unit} {r : Ref} {d : FileDescriptor} {id : UInt64} {m : Message}

@[simp] theorem send_ok : send m id s = .ok u s' ↔ s.post m id = s' := by simp [send]

@[simp] theorem sendError_ok {b : Bool} :
    sendError b id s = .ok u s' ↔ s.post ⟨.kError, 0, .error b 0⟩ id = s' := by simp [sendError]

@[simp] theorem sendSm_ok : sendSm id s = .ok u s' ↔ s.post s.sm id = s' := by simp [sendSm]

@[simp] theorem setSm_ok {t : MsgType} {a : Arg} :
    setSm t a s = .ok u s' ↔ { s with sm := ⟨t, s.sm.srcTask, a⟩ } = s' := by simp [setSm]

@[simp] theorem store_ok : store r d s = .ok u s' ↔ { s with objects := s.objects.set r d } = s' := by simp [store]

@[simp] theorem updateApp_ok {f : AppInfo → AppInfo} :
    updateApp id f s = .ok u s' ↔ { s with apps := modifyApp id f s.apps } = s' := by simp [updateApp]

@[simp] theorem deref_ok : deref r s = .ok d s' ↔ s.objects[r]? = some d ∧ s = s' := by
  simp only [deref, EStateM.run_bind_ok, EStateM.run_get_ok]
  constructor
  · rintro ⟨_, _, ⟨rfl, rfl⟩, h⟩
    cases ho : s.objects[r]? with
    | none => simp [ho] at h
    | some o => simpa [ho] using h
  · rintro ⟨ho, rfl⟩
    exact ⟨s, s, ⟨rfl, rfl⟩, by simp [ho]⟩

@[simp] theorem appInfo_ok {a : AppInfo} : appInfo id s = .ok a s' ↔ getAppInfo s.apps id = some a ∧ s = s' := by
  simp only [appInfo, EStateM.run_bind_ok, EStateM.run_get_ok]
  constructor
  · rintro ⟨_, _, ⟨rfl, rfl⟩, h⟩
    cases ho : getAppInfo s.apps id with
    | none => simp [ho] at h
    | some o => simpa [ho] using h
  · rintro ⟨ho, rfl⟩
    exact ⟨s, s, ⟨rfl, rfl⟩, by simp [ho]⟩

theorem appInfo_some {a : AppInfo} (h : getAppInfo s.apps id = some a) : appInfo id s = .ok a s := appInfo_ok.2 ⟨h, rfl⟩

theorem appInfo_none (h : getAppInfo s.apps id = none) : appInfo id s = .error .nullptr s := by
  rw [appInfo, EStateM.run_get_bind, h]
  rfl

@[simp] theorem alloc_ok :
    alloc d s = .ok r s' ↔ r = s.objects.length ∧ { s with objects := s.objects ++ [d] } = s' := by
  simp only [alloc, EStateM.run_bind_ok, EStateM.run_get_ok, EStateM.run_set_ok, EStateM.run_pure_ok]
  constructor
  · rintro ⟨_, _, ⟨rfl, rfl⟩, _, _, rfl, rfl, rfl⟩
    exact ⟨rfl, rfl⟩
  · rintro ⟨rfl, rfl⟩
    exact ⟨s, s, ⟨rfl, rfl⟩, ⟨⟩, _, rfl, rfl, rfl⟩

@[simp] theorem setFile_ok {i : Nat} {p : Option Ref} :
    setFile id i p s = .ok u s' ↔ ∃ a, getAppInfo s.apps id = some a ∧ i < a.files.length ∧
      { s with apps := modifyApp id (fun a => { a with files := a.files.set i p }) s.apps } = s' := by
  simp only [setFile, EStateM.run_bind_ok, appInfo_ok]
  constructor
  · rintro ⟨a, _, ⟨ha, rfl⟩, h⟩
    split at h
    · next hi => exact ⟨a, ha, hi, by simpa using h⟩
    · simp at h
  · rintro ⟨a, ha, hi, rfl⟩
    exact ⟨a, s, ⟨ha, rfl⟩, by simp [hi]⟩

end Server

/-! ## Tables -/

section Fresh

variable {id p : UInt64} {st : AppState} {files : List (Option Ref)}

theorem modifyApp_fresh {f : AppInfo → AppInfo} : ∀ {as : List AppInfo}, (∀ a ∈ as, a.taskId ≠ id) →
    modifyApp id f (as ++ [⟨id, p, st, files⟩]) = as ++ [f ⟨id, p, st, files⟩]
  | [], _ => by simp [modifyApp]
  | a :: as, h => by
    obtain ⟨ha, has⟩ := List.forall_mem_cons.mp h
    simp only [List.cons_append, modifyApp, if_neg ha, modifyApp_fresh has]

theorem getAppInfo_fresh {as : List AppInfo} (h : ∀ a ∈ as, a.taskId ≠ id) :
    getAppInfo (as ++ [⟨id, p, st, files⟩]) id = some ⟨id, p, st, files⟩ := by
  unfold getAppInfo
  rw [List.find?_append, List.find?_eq_none.mpr (by simpa using h)]
  simp

end Fresh

theorem getAppInfo_cons {id : UInt64} {a : AppInfo} {as : List AppInfo} :
    getAppInfo (a :: as) id = if a.taskId = id then some a else getAppInfo as id := by
  by_cases h : a.taskId = id <;> simp [getAppInfo, h]

theorem getAppInfo_mem {id : UInt64} {as : List AppInfo} {a : AppInfo} (h : getAppInfo as id = some a) :
    a ∈ as ∧ a.taskId = id := by
  refine ⟨List.mem_of_find?_eq_some h, ?_⟩
  simpa using List.find?_some h

/-- Changing one entry leaves the others alone. -/
theorem modifyApp_getElem? {id : UInt64} {f : AppInfo → AppInfo} :
    ∀ {as : List AppInfo} {i : Nat} {a : AppInfo}, as[i]? = some a → ∃ a', (modifyApp id f as)[i]? = some a' ∧
      (a' = a ∨ (getAppInfo as id = some a ∧ a' = f a))
  | [], i, a, h => by simp at h
  | b :: as, i, a, h => by
    by_cases hb : b.taskId = id
    · simp only [modifyApp, if_pos hb, getAppInfo_cons]
      cases i with
      | zero =>
        simp only [List.getElem?_cons_zero, Option.some.injEq] at h ⊢
        subst h
        exact ⟨_, rfl, .inr ⟨rfl, rfl⟩⟩
      | succ i =>
        simp only [List.getElem?_cons_succ] at h ⊢
        exact ⟨a, h, .inl rfl⟩
    · simp only [modifyApp, if_neg hb, getAppInfo_cons]
      cases i with
      | zero =>
        simp only [List.getElem?_cons_zero, Option.some.injEq] at h ⊢
        exact ⟨_, rfl, .inl h⟩
      | succ i =>
        simp only [List.getElem?_cons_succ] at h ⊢
        exact modifyApp_getElem? h

theorem map_taskId_modifyApp {id : UInt64} {f : AppInfo → AppInfo} (hf : ∀ a, (f a).taskId = a.taskId) :
    ∀ {as : List AppInfo}, (modifyApp id f as).map (·.taskId) = as.map (·.taskId)
  | [] => rfl
  | b :: as => by
    by_cases hb : b.taskId = id
    · simp only [modifyApp, if_pos hb, List.map_cons, hf]
    · simp only [modifyApp, if_neg hb, List.map_cons, map_taskId_modifyApp hf]

/-! ## Quiet steps -/

/-- The descriptor is a closed pipe. -/
def closedAt (objects : List FileDescriptor) (r : Ref) : Bool :=
  match objects[r]? with
  | some (.pipe p) => p.closed
  | _ => false

namespace Server

structure Quiet (s s' : Server) : Prop where
  apps : s'.apps = s.apps
  created : s'.created = s.created
  newId : s'.newId = s.newId
  pipeFd : s'.pipeFd = s.pipeFd
  piped : s'.piped = s.piped
  closed : ∀ r, closedAt s'.objects r = closedAt s.objects r

theorem Quiet.refl (s : Server) : Quiet s s := ⟨rfl, rfl, rfl, rfl, rfl, fun _ => rfl⟩

theorem Quiet.post (s : Server) (m : Message) (id : UInt64) : Quiet s (s.post m id) :=
  ⟨rfl, rfl, rfl, rfl, rfl, fun _ => rfl⟩

theorem Quiet.trans {a b c : Server} (h : Quiet a b) (h' : Quiet b c) : Quiet a c where
  apps := h'.apps.trans h.apps
  created := h'.created.trans h.created
  newId := h'.newId.trans h.newId
  pipeFd := h'.pipeFd.trans h.pipeFd
  piped := h'.piped.trans h.piped
  closed r := (h'.closed r).trans (h.closed r)

/-- A quiet program. -/
abbrev QuietM {α : Type} (x : ServerM α) : Prop := EStateM.Keeps Quiet x

namespace QuietM

variable {α β : Type} {x : ServerM α}

theorem bind {f : α → ServerM β} (hx : QuietM x) (hf : ∀ a, QuietM (f a)) : QuietM (x >>= f) :=
  EStateM.Keeps.bind (fun h1 h2 => h1.trans h2) hx hf

theorem pure {a : α} : QuietM (pure a : ServerM α) := EStateM.Keeps.pure Quiet.refl

theorem get : QuietM (get : ServerM Server) := EStateM.Keeps.get Quiet.refl

theorem throw {e : Undefined} : QuietM (throw e : ServerM α) := EStateM.Keeps.throw

theorem modify {g : Server → Server} (h : ∀ s, Quiet s (g s)) : QuietM (modify g) := EStateM.Keeps.modify h

theorem send {m : Message} {id : UInt64} : QuietM (send m id) := modify fun _ => ⟨rfl, rfl, rfl, rfl, rfl, fun _ => rfl⟩

theorem sendError {b : Bool} {id : UInt64} : QuietM (sendError b id) := send

theorem sendSm {id : UInt64} : QuietM (sendSm id) := modify fun _ => ⟨rfl, rfl, rfl, rfl, rfl, fun _ => rfl⟩

theorem setSm {t : MsgType} {a : Arg} : QuietM (setSm t a) := modify fun _ => ⟨rfl, rfl, rfl, rfl, rfl, fun _ => rfl⟩

theorem setError {e : Int} : QuietM (setError e) := setSm

theorem appInfo {id : UInt64} : QuietM (appInfo id) := by
  refine bind get fun s => ?_
  split
  · exact pure
  · exact throw

end QuietM

/-- Overwriting a descriptor without closing it or opening it. -/
theorem store_quiet {s s' : Server} {r : Ref} {d : FileDescriptor} {u : Unit}
    (hd : s.objects[r]?.isSome → closedAt [d] 0 = closedAt s.objects r) (h : store r d s = .ok u s') : Quiet s s' := by
  simp only [store, EStateM.run_modify_ok] at h
  subst h
  refine ⟨rfl, rfl, rfl, rfl, rfl, fun q => ?_⟩
  by_cases hq : r = q
  · subst hq
    by_cases hlt : r < s.objects.length
    · rw [← hd (by simp [hlt])]
      simp [closedAt, hlt]
    · simp [closedAt, hlt]
  · simp [closedAt, hq]

theorem pipeRead_quiet {s s' : Server} {r : Ref} {p : PipeFileDescriptor} {m : Message} {u : Unit}
    (ho : s.objects[r]? = some (.pipe p)) (h : pipeRead r p m s = .ok u s') : Quiet s s' := by
  unfold pipeRead at h
  split at h
  · exact QuietM.send _ _ _ h
  split at h
  · exact QuietM.sendError _ _ _ h
  split at h
  all_goals
    obtain ⟨_, s₁, h1, h2⟩ := EStateM.run_bind_ok.mp h
    have hq : Quiet s s₁ := store_quiet (fun _ => by simp [closedAt, ho]) h1
  · exact hq.trans ((QuietM.send.bind fun _ => QuietM.send.bind fun _ => QuietM.send) _ _ _ h2)
  · exact hq.trans ((QuietM.send.bind fun _ => QuietM.send) _ _ _ h2)

theorem pipeWrite_quiet {s s' : Server} {r : Ref} {p : PipeFileDescriptor} {m : Message} {u : Unit}
    (ho : s.objects[r]? = some (.pipe p)) (h : pipeWrite r p m s = .ok u s') : Quiet s s' := by
  unfold pipeWrite at h
  split at h
  · exact QuietM.sendError _ _ _ h
  split at h
  · split at h
    · split at h
      · exact QuietM.throw _ _ _ h
      · exact store_quiet (fun _ => by simp [closedAt, ho]) h
    · exact QuietM.send _ _ _ h
  · exact QuietM.sendError _ _ _ h

theorem forwardWrite_quiet {s s' : Server} {r : Ref} {id fsId : UInt64} {file : Fs.FatFileDescriptor} {m : Message}
    {u : Unit} (ho : s.objects[r]? = some (.fat id file)) (h : forwardWrite r id file fsId m s = .ok u s') :
    Quiet s s' := by
  simp only [forwardWrite, EStateM.run_bind_ok] at h
  obtain ⟨_, s₁, h1, _, s₂, h2, h3⟩ := h
  have hq1 : Quiet s s₁ := QuietM.send _ _ _ h1
  have ho1 : s₁.objects[r]? = some (.fat id file) := by
    simp only [send_ok] at h1
    subst h1
    exact ho
  have hq2 : Quiet s₁ s₂ := store_quiet (fun _ => by simp [closedAt, ho1]) h2
  exact (hq1.trans hq2).trans (QuietM.send _ _ _ h3)

theorem readFd_quiet {env : Env} {r : Ref} {m : Message} : QuietM (readFd env r m) := by
  intro s w s' h
  simp only [readFd, EStateM.run_bind_ok, deref_ok] at h
  obtain ⟨d, _, ⟨ho, rfl⟩, h⟩ := h
  cases d with
  | terminal id t => exact (QuietM.send.bind fun _ => QuietM.pure) _ _ _ h
  | fat id file =>
    cases hf : env.fs with
    | none =>
      simp only [hf] at h
      exact (QuietM.send.bind fun _ => QuietM.pure) _ _ _ h
    | some fsId =>
      simp only [hf] at h
      exact (QuietM.send.bind fun _ => QuietM.pure) _ _ _ h
  | pipe p =>
    simp only [EStateM.run_bind_ok, EStateM.run_pure_ok] at h
    obtain ⟨_, _, h1, -, rfl⟩ := h
    exact pipeRead_quiet ho h1

theorem writeFd_quiet {env : Env} {r : Ref} {m : Message} : QuietM (writeFd env r m) := by
  intro s w s' h
  simp only [writeFd, EStateM.run_bind_ok, deref_ok] at h
  obtain ⟨d, _, ⟨ho, rfl⟩, h⟩ := h
  cases d with
  | terminal id t => exact (QuietM.send.bind fun _ => QuietM.send.bind fun _ => QuietM.pure) _ _ _ h
  | fat id file =>
    cases hf : env.fs with
    | none =>
      simp only [hf] at h
      exact (QuietM.send.bind fun _ => QuietM.pure) _ _ _ h
    | some fsId =>
      simp only [hf, EStateM.run_bind_ok, EStateM.run_pure_ok] at h
      obtain ⟨_, _, h1, -, rfl⟩ := h
      exact forwardWrite_quiet ho h1
  | pipe p =>
    simp only [EStateM.run_bind_ok, EStateM.run_pure_ok] at h
    obtain ⟨_, _, h1, -, rfl⟩ := h
    exact pipeWrite_quiet ho h1

theorem sendMessage_quiet (st : State) : QuietM (sendMessage st) := by
  cases st with
  | err | read | write | pipe | allocateFD => exact QuietM.pure
  | init | execFile | createTask | redirect | «open» =>
    exact QuietM.get.bind fun _ => QuietM.sendSm.bind fun _ => QuietM.pure
  | startTask =>
    refine QuietM.sendSm.bind fun _ => QuietM.get.bind fun s => EStateM.Keeps.ite ?_ QuietM.pure
    refine QuietM.bind (QuietM.modify ?_) fun _ => QuietM.sendSm.bind fun _ => QuietM.pure
    exact fun _ => ⟨rfl, rfl, rfl, rfl, rfl, fun _ => rfl⟩
  | exit =>
    refine QuietM.get.bind fun _ => QuietM.sendSm.bind fun _ => QuietM.bind (QuietM.modify ?_) fun _ =>
      QuietM.sendSm.bind fun _ => QuietM.pure
    exact fun _ => ⟨rfl, rfl, rfl, rfl, rfl, fun _ => rfl⟩
  | waitingKey =>
    refine QuietM.get.bind fun s => EStateM.Keeps.ite ?_ ?_
    · exact QuietM.sendSm.bind fun _ => QuietM.pure
    · exact QuietM.sendSm.bind fun _ => QuietM.pure

end Server

end KinOS.Am
