import KinOS.Am.Moves

/-!
# The requests of the application manager

`Move` lists what one message can do to the server and to the request it is at; `Session.Inv` is what holds between
two messages. While a file is being executed the server still has the table, the pipe and, until `CreateNewTask`, the
tasks that the request found.
-/

namespace KinOS.Am

open Server

/-- The receives of `ExecFileState`, `CreateTaskState` and `RedirectState`: a file is being executed. -/
def Executing : Wait → Prop
  | .receive .execFile | .receive .createTask | .receive .redirect | .redirectName => True
  | _ => False

instance : DecidablePred Executing := fun w => by
  unfold Executing
  split <;> infer_instance

namespace Session

/-- The message goes on with the request at hand. -/
def SameRequest (x x' : Session) : Prop := x'.request = x.request ∧ x'.before = x.before ∧ x'.stage = x.stage

/-- What a message can do. -/
inductive Move (x : Session) (e : Event) (x' : Session) : Prop
  | aside (hw : Aside x.wait) (hw' : Aside x'.wait) (hq : Quiet x.server x'.server)
  /-- on to the next receive of the request, or to the same -/
  | goes (hw : x'.wait = x.wait ∨ (x.wait = .redirectName ∧ x'.wait = .receive .execFile) ∨
        (x.wait = .receive .createTask ∧ x'.wait = .receive .redirect))
      (hq : Quiet x.server x'.server) (ht : x'.server.targetId = x.server.targetId) (hr : x.SameRequest x')
  | accepts (ht : x.Takes e.msg) (hm : e.msg.type = .kExecuteFile)
      (hw' : x'.wait = .redirectName ∨ x'.wait = .receive .execFile)
      (hr : x'.request = e.msg ∧ x'.before = x.server ∧ x'.stage = decide (x.wait = .receive .pipe))
      (hs : x'.server.apps = x.server.apps ∧ x'.server.objects = x.server.objects ∧
        x'.server.created = x.server.created ∧ x'.server.pipeFd = x.server.pipeFd ∧
        x'.server.piped = (x'.stage || x.server.piped) ∧ x'.server.targetId = e.msg.srcTask)
  | makes (hw : x.wait = .receive .execFile) (hw' : x'.wait = .receive .createTask) (hr : x.SameRequest x')
      (hid : x'.server.newId ∉ x.server.created)
      (hs : x'.server.apps = x.server.apps ∧ x'.server.objects = x.server.objects ∧
        x'.server.created = x.server.created ++ [x'.server.newId] ∧ x'.server.pipeFd = x.server.pipeFd ∧
        x'.server.piped = x.server.piped ∧ x'.server.targetId = x.server.targetId)
  | fails (hw : Executing x.wait ∧ x.wait ≠ .redirectName) (hw' : x'.wait = .receive .init) (hr : x.SameRequest x')
      (hq : Quiet x.server x'.server) (ht : ¬ Told x.server x'.server)
  | starts (hw : x.wait = .receive .createTask ∨ x.wait = .receive .redirect)
      (hw' : x'.wait = .receive .init ∨ x'.wait = .receive .pipe) (hr : x.SameRequest x')
      (hs : Starts e.env.terminal { x.server with rm := e.msg } x'.server) (ht : Told x.server x'.server)
  | asks (hw : x.wait = .receive .init) (hw' : x'.wait = .receive .open) (hq : Quiet x.server x'.server)
      (ht : x'.server.targetId = x'.request.srcTask)
  | opens (hw : x.wait = .receive .open) (hw' : x'.wait = .receive .init) (hr : x.SameRequest x')
      (hs : Touches x.server.targetId x.server x'.server)
  | exits (hw : x.wait = .receive .init) (hw' : x'.wait = .receive .init) (hr : x'.request = e.msg)
      (hf : e.env.fs.isSome) (hm : e.msg.type = .kExitApp) (hp : getPID x.server.apps (exitappId e.msg) ≠ 0)
      (hs : Exits (exitappId e.msg) x.server x'.server)

/-- A file is being executed for the requester, and nothing of it shows yet in the table of applications. -/
structure Pending (x : Session) : Prop where
  type : x.request.type = .kExecuteFile
  target : x.server.targetId = x.request.srcTask
  apps : x.server.apps = x.before.apps
  pipeFd : x.server.pipeFd = x.before.pipeFd
  piped : x.server.piped = (x.stage || x.before.piped)
  stage : x.stage = true → x.before.piped = false

def Phase (x : Session) : Prop :=
  match x.wait with
  | .receive .execFile | .redirectName => x.Pending ∧ x.server.created = x.before.created
  | .receive .createTask | .receive .redirect => x.Pending ∧
      x.server.created = x.before.created ++ [x.server.newId] ∧ ∀ a ∈ x.server.apps, a.taskId ≠ x.server.newId
  | .receive .pipe => x.server.piped = false
  | .receive .open => x.server.targetId = x.request.srcTask
  | w => Aside w

/-- Between two messages: an application is a task that the server created, and has one entry. -/
structure Inv (x : Session) : Prop where
  nodup : (x.server.apps.map (·.taskId)).Nodup
  known : ∀ a ∈ x.server.apps, a.taskId ∈ x.server.created
  phase : x.Phase

theorem Boot.inv {x : Session} (h : x.Boot) : x.Inv := by
  refine ⟨?_, ?_, ?_⟩
  · simp [h.apps]
  · simp [h.apps]
  · simp [Phase, h.wait, Aside]

/-! ## Every step is a move -/

theorem not_told {s s' : Server} {l : List (UInt64 × Message)} (h : s'.sent = s.sent ++ l)
    (hl : ∀ y ∈ l, y.2.type ≠ .kStartApp) : ¬ Told s s' := by
  rintro ⟨l', hl', y, hy, ht⟩
  rw [h, List.append_cancel_left_eq] at hl'
  exact hl y (hl' ▸ hy) ht

section

variable {x x' : Session} {e : Event} {m : Message}

/-- The same receive again, after a message to `id`. -/
theorem Move.again {y : Message} {id : UInt64} (hw : x'.wait = x.wait) (hr : x.SameRequest x')
    (hs : x'.server = { x.server with rm := m }.post y id) : x.Move e x' := by
  refine .goes (.inl hw) ?_ ?_ hr
  · rw [hs]
    exact ⟨rfl, rfl, rfl, rfl, rfl, fun _ => rfl⟩
  · rw [hs]
    rfl

/-- The same receive again. -/
theorem Move.ignores (hw : x'.wait = x.wait) (hr : x.SameRequest x') (hs : x'.server = { x.server with rm := m }) :
    x.Move e x' := by
  refine .goes (.inl hw) ?_ ?_ hr
  · rw [hs]
    exact ⟨rfl, rfl, rfl, rfl, rfl, fun _ => rfl⟩
  · rw [hs]

theorem Move.reports {n : Int} (hw : Executing x.wait ∧ x.wait ≠ .redirectName) (hw' : x'.wait = .receive .init)
    (hr : x.SameRequest x') (hs : x'.server = { x.server with rm := m }.reported n) : x.Move e x' := by
  refine .fails hw hw' hr ?_ (not_told (l := [_]) (by rw [hs]; rfl) ?_)
  · rw [hs]
    exact ⟨rfl, rfl, rfl, rfl, rfl, fun _ => rfl⟩
  · simp

/-- A reply that the state does not know. -/
theorem Move.gives_up (hw : Executing x.wait ∧ x.wait ≠ .redirectName) (hw' : x'.wait = .receive .init)
    (hr : x.SameRequest x') (hs : x'.server = { x.server with rm := m }) : x.Move e x' := by
  refine .fails hw hw' hr ?_ (not_told (l := []) (by rw [hs]; simp) ?_)
  · rw [hs]
    exact ⟨rfl, rfl, rfl, rfl, rfl, fun _ => rfl⟩
  · simp

theorem move_execFile (hw : x.wait = .receive .execFile) (hf : ∀ id ∈ e.env.newTask, id ∉ x.server.created)
    (hr : x.SameRequest x') (h : resume e.env (.receive .execFile) e.msg x.server = .ok x'.wait x'.server) :
    x.Move e x' := by
  have hx : Executing x.wait ∧ x.wait ≠ .redirectName := by rw [hw]; exact ⟨trivial, by simp⟩
  rcases resume_execFile h with ⟨-, -, hw', hs⟩ | ⟨-, -, hw', hs⟩ | ⟨-, -, hw', hs⟩ | ⟨-, id, hid, hw', hs⟩ |
    ⟨-, -, hw', hs⟩
  · exact .again (hw'.trans hw.symm) hr hs
  · exact .reports hx hw' hr hs
  · -- `CreateNewTask` failed: the requester and the file server are told
    refine .fails hx hw' hr ?_ (not_told (l := [_, _]) (by rw [hs]; simp [Server.reported]; exact ⟨rfl, rfl⟩) ?_)
    · rw [hs]
      exact ⟨rfl, rfl, rfl, rfl, rfl, fun _ => rfl⟩
    · simp
  · refine .makes hw hw' hr ?_ ?_
    · rw [hs]
      exact hf id hid
    · rw [hs]
      exact ⟨rfl, rfl, rfl, rfl, rfl, rfl⟩
  · exact .ignores (hw'.trans hw.symm) hr hs

theorem move_createTask (hi : x.Inv) (hw : x.wait = .receive .createTask) (hr : x.SameRequest x')
    (h : resume e.env (.receive .createTask) e.msg x.server = .ok x'.wait x'.server) : x.Move e x' := by
  have hx : Executing x.wait ∧ x.wait ≠ .redirectName := by rw [hw]; exact ⟨trivial, by simp⟩
  have hp := hi.phase
  simp only [Phase, hw] at hp
  rcases resume_createTask hp.2.2 h with ⟨-, -, hw', hs⟩ | ⟨-, -, hw', hs⟩ | ⟨-, hw', hs⟩ | ⟨-, hs, ht, hw'⟩ |
    ⟨-, -, hw', hs⟩
  · exact .again (hw'.trans hw.symm) hr hs
  · exact .reports hx hw' hr hs
  · refine .goes (.inr (.inr ⟨hw, hw'⟩)) ?_ ?_ hr
    · rw [hs]
      exact ⟨rfl, rfl, rfl, rfl, rfl, fun _ => rfl⟩
    · rw [hs]
      rfl
  · exact .starts (.inl hw) hw' hr hs ht
  · exact .gives_up hx hw' hr hs

theorem move_redirect (hi : x.Inv) (hw : x.wait = .receive .redirect) (hr : x.SameRequest x')
    (h : resume e.env (.receive .redirect) e.msg x.server = .ok x'.wait x'.server) : x.Move e x' := by
  have hx : Executing x.wait ∧ x.wait ≠ .redirectName := by rw [hw]; exact ⟨trivial, by simp⟩
  have hp := hi.phase
  simp only [Phase, hw] at hp
  rcases resume_redirect hp.2.2 h with ⟨-, -, hw', hs⟩ | ⟨-, -, hw', hs⟩ | ⟨-, hs, ht, hw'⟩ | ⟨-, -, hw', hs⟩
  · exact .again (hw'.trans hw.symm) hr hs
  · exact .reports hx hw' hr hs
  · exact .starts (.inr hw) hw' hr hs ht
  · exact .gives_up hx hw' hr hs

theorem move_open (hw : x.wait = .receive .open) (hr : x.SameRequest x')
    (h : resume e.env (.receive .open) e.msg x.server = .ok x'.wait x'.server) : x.Move e x' := by
  rcases resume_open h with ⟨-, -, hw', hs⟩ | ⟨-, -, hw', hs⟩ | ⟨-, hw', hs⟩ | ⟨-, -, -, hw', hs⟩
  · exact .again (hw'.trans hw.symm) hr hs
  · refine .opens hw hw' hr (Quiet.touches ?_)
    rw [hs]
    exact ⟨rfl, rfl, rfl, rfl, rfl, fun _ => rfl⟩
  · exact .opens hw hw' hr hs
  · refine .opens hw hw' hr (Quiet.touches ?_)
    rw [hs]
    exact ⟨rfl, rfl, rfl, rfl, rfl, fun _ => rfl⟩

/-- What the server sets as it takes a `kExecuteFile`. -/
theorem move_accepts {s : Server} (ht : x.Takes e.msg) (hm : e.msg.type = .kExecuteFile)
    (hr : x'.request = e.msg ∧ x'.before = x.server ∧ x'.stage = decide (x.wait = .receive .pipe))
    (hrm : s.rm = e.msg) (hs : s.apps = x.server.apps ∧ s.objects = x.server.objects ∧ s.created = x.server.created ∧
      s.pipeFd = x.server.pipeFd ∧ s.piped = (x'.stage || x.server.piped))
    (h : (x'.wait = .redirectName ∧ x'.server = s.accepted) ∨
      (x'.wait = .receive .execFile ∧ x'.server = s.accepted.requested)) : x.Move e x' := by
  obtain ⟨h1, h2, h3, h4, h5⟩ := hs
  rcases h with ⟨hw', hs'⟩ | ⟨hw', hs'⟩
  · refine .accepts ht hm (.inl hw') hr ?_
    rw [hs', ← hrm]
    exact ⟨h1, h2, h3, h4, h5, rfl⟩
  · refine .accepts ht hm (.inr hw') hr ?_
    rw [hs', ← hrm]
    exact ⟨h1, h2, h3, h4, h5, rfl⟩

theorem move_init (hw : x.wait = .receive .init)
    (hr : x'.request = e.msg ∧ x'.before = x.server ∧ x'.stage = decide (x.wait = .receive .pipe))
    (h : resume e.env (.receive .init) e.msg x.server = .ok x'.wait x'.server) : x.Move e x' := by
  rcases resume_init h with ⟨hq, hw'⟩ | ⟨f, hf, ⟨hm, hs⟩ | ⟨-, hw', ha⟩ | ⟨hm, hw', hp, hs⟩⟩
  · exact .aside (by rw [hw]; trivial) hw' hq
  · refine move_accepts (.inl hw) hm hr ?_ ?_ hs
    · rfl
    · rw [hr.2.2, hw]
      exact ⟨rfl, rfl, rfl, rfl, rfl⟩
  · have hq := ha.quiet
    refine .asks hw hw' ⟨hq.apps, hq.created, hq.newId, hq.pipeFd, hq.piped, hq.closed⟩ ?_
    rw [ha.targetId, hr.1]
  · exact .exits hw hw' hr.1 (by rw [hf]; rfl) hm hp hs

theorem move_pipe (hw : x.wait = .receive .pipe) (hsrc : e.msg.srcTask = x.server.targetId)
    (hy : x.Takes e.msg → x'.request = e.msg ∧ x'.before = x.server ∧ x'.stage = decide (x.wait = .receive .pipe))
    (hn : ¬ x.Takes e.msg → x.SameRequest x')
    (h : resume e.env (.receive .pipe) e.msg x.server = .ok x'.wait x'.server) : x.Move e x' := by
  rcases resume_pipe h with ⟨hm, hs⟩ | ⟨hm, hw', hs⟩
  · have ht : x.Takes e.msg := .inr ⟨hw, hsrc, hm⟩
    obtain ⟨h1, h2, h3⟩ := hy ht
    refine move_accepts ht hm ⟨h1, h2, h3⟩ ?_ ?_ hs
    · rfl
    · rw [h3, hw]
      exact ⟨rfl, rfl, rfl, rfl, rfl⟩
  · refine .ignores (hw'.trans hw.symm) (hn ?_) hs
    rintro (ht | ht)
    · rw [hw] at ht
      cases ht
    · exact hm ht.2.2

theorem next_moves (hi : x.Inv) (h : x.next e = some x') : x.Move e x' := by
  obtain ⟨hf, hd, hy, hn⟩ := next_some h
  rcases deliver_cases hd with ⟨hsrc, hd⟩ | ⟨t, hsrc, hne, hw', hs⟩
  · have hother : x.wait ≠ .receive .init → x.wait ≠ .receive .pipe → x.SameRequest x' := by
      intro h1 h2
      refine hn ?_
      rintro (ht | ht)
      · exact h1 ht
      · exact h2 ht.1
    have hp := hi.phase
    unfold Phase at hp
    generalize hw : x.wait = w at hp hd hother
    cases w with
    | receive st =>
      cases st with
      | init => exact move_init hw (hy (.inl hw)) hd
      | execFile => exact move_execFile hw hf (hother (by simp) (by simp)) hd
      | createTask => exact move_createTask hi hw (hother (by simp) (by simp)) hd
      | redirect => exact move_redirect hi hw (hother (by simp) (by simp)) hd
      | pipe =>
        refine move_pipe hw (hsrc _ ?_) hy hn hd
        rw [hw]
        rfl
      | «open» => exact move_open hw (hother (by simp) (by simp)) hd
      | waitingKey =>
        obtain ⟨hq, hw'⟩ := resume_aside (by trivial) (by simp) hd
        exact .aside (by rw [hw]; trivial) hw' hq
      | _ => exact absurd hp (by simp [Aside])
    | redirectName =>
      obtain ⟨hw', hs⟩ := resume_redirectName hd
      refine .goes (.inr (.inl ⟨hw, hw'⟩)) ?_ ?_ (hother (by simp) (by simp))
      · rw [hs]
        exact ⟨rfl, rfl, rfl, rfl, rfl, fun _ => rfl⟩
      · rw [hs]
        rfl
    | terminalRead _ _ | fatRead _ _ | fatWrite _ _ =>
      obtain ⟨hq, hw'⟩ := resume_aside (by trivial) (by simp) hd
      exact .aside (by rw [hw]; trivial) hw' hq
  · -- the message is bounced
    refine .again (m := x.server.rm) hw' (hn ?_) hs
    rintro (ht | ht)
    · rw [ht] at hsrc
      cases hsrc
    · rw [ht.1] at hsrc
      exact hne (ht.2.1.trans (Option.some.inj hsrc))

/-! ## The invariant -/

theorem Pending.of_same (h : x.Pending) (hr : x.SameRequest x') (hs : x'.server.apps = x.server.apps ∧
    x'.server.pipeFd = x.server.pipeFd ∧ x'.server.piped = x.server.piped ∧
    x'.server.targetId = x.server.targetId) : x'.Pending := by
  obtain ⟨h1, h2, h3⟩ := hr
  obtain ⟨g1, g2, g3, g4⟩ := hs
  refine ⟨?_, ?_, ?_, ?_, ?_, ?_⟩
  · rw [h1]
    exact h.type
  · rw [h1, g4]
    exact h.target
  · rw [h2, g1]
    exact h.apps
  · rw [h2, g2]
    exact h.pipeFd
  · rw [h2, h3, g3]
    exact h.piped
  · rw [h2, h3]
    exact h.stage

theorem Phase.of_aside (h : Aside x.wait) : x.Phase := by
  unfold Phase
  split <;> simp_all [Aside]

/-- The request goes on: what was found is still there. -/
theorem Phase.goes (h : x.Phase) (hw : x'.wait = x.wait ∨ (x.wait = .redirectName ∧ x'.wait = .receive .execFile) ∨
      (x.wait = .receive .createTask ∧ x'.wait = .receive .redirect))
    (hq : Quiet x.server x'.server) (ht : x'.server.targetId = x.server.targetId) (hr : x.SameRequest x') :
    x'.Phase := by
  have hp : x.Pending → x'.Pending := fun h => h.of_same hr ⟨hq.apps, hq.pipeFd, hq.piped, ht⟩
  obtain ⟨h1, h2, -⟩ := hr
  rcases hw with hw | ⟨hw, hw'⟩ | ⟨hw, hw'⟩
  · unfold Phase at h ⊢
    rw [hw]
    split
    · simp_all [hq.created]
    · simp_all [hq.created]
    · simp_all [hq.created, hq.newId, hq.apps]
    · simp_all [hq.created, hq.newId, hq.apps]
    · simp_all [hq.piped]
    · simp_all
    · simp_all
  · simp_all [Phase, hq.created]
  · simp_all [Phase, hq.created, hq.newId, hq.apps]

theorem exited_taskId (id : UInt64) (a : AppInfo) : (exited id a).taskId = a.taskId := by
  unfold exited
  split <;> rfl

theorem Inv.known_newId (hi : x.Inv) (hw : x.wait = .receive .createTask ∨ x.wait = .receive .redirect) :
    x.server.newId ∈ x.server.created ∧ ∀ a ∈ x.server.apps, a.taskId ≠ x.server.newId := by
  have hp := hi.phase
  rcases hw with hw | hw
  · simp only [Phase, hw] at hp
    exact ⟨by simp [hp.2.1], hp.2.2⟩
  · simp only [Phase, hw] at hp
    exact ⟨by simp [hp.2.1], hp.2.2⟩

theorem next_inv (hi : x.Inv) (h : x.next e = some x') : x'.Inv := by
  -- the steps that leave the table and the tasks alone
  have hsame : x'.server.apps = x.server.apps → x'.server.created = x.server.created → x'.Phase → x'.Inv := by
    intro ha hc hp
    exact ⟨by rw [ha]; exact hi.nodup, by rw [ha, hc]; exact hi.known, hp⟩
  cases next_moves hi h with
  | aside _ hw' hq => exact hsame hq.apps hq.created (.of_aside hw')
  | goes hw hq ht hr => exact hsame hq.apps hq.created (hi.phase.goes hw hq ht hr)
  | accepts ht hm hw' hr hs =>
    obtain ⟨g1, -, g3, g4, g5, g6⟩ := hs
    obtain ⟨h1, h2, h3⟩ := hr
    have hstage : x'.stage = true → x.server.piped = false := by
      intro hst
      rw [h3, decide_eq_true_eq] at hst
      have hp := hi.phase
      simpa only [Phase, hst] using hp
    have hp : x'.Pending ∧ x'.server.created = x'.before.created := by
      refine ⟨⟨?_, ?_, ?_, ?_, ?_, ?_⟩, ?_⟩
      · rw [h1, hm]
      · rw [g6, h1]
      · rw [g1, h2]
      · rw [g4, h2]
      · rw [g5, h2]
      · rw [h2]
        exact hstage
      · rw [g3, h2]
    refine hsame g1 g3 ?_
    rcases hw' with hw' | hw'
    · simpa only [Phase, hw'] using hp
    · simpa only [Phase, hw'] using hp
  | makes hw hw' hr hid hs =>
    obtain ⟨g1, -, g3, g4, g5, g6⟩ := hs
    have hp := hi.phase
    simp only [Phase, hw] at hp
    refine ⟨by rw [g1]; exact hi.nodup, ?_, ?_⟩
    · intro a ha
      rw [g1] at ha
      rw [g3]
      exact List.mem_append_left _ (hi.known a ha)
    · simp only [Phase, hw']
      refine ⟨hp.1.of_same hr ⟨g1, g4, g5, g6⟩, ?_, ?_⟩
      · rw [g3, hr.2.1, hp.2]
      · intro a ha heq
        rw [g1] at ha
        exact hid (heq ▸ hi.known a ha)
  | fails _ hw' _ hq _ => exact hsame hq.apps hq.created (.of_aside (by rw [hw']; trivial))
  | starts hw hw' hr hs ht =>
    obtain ⟨hmem, hfresh⟩ := hi.known_newId hw
    obtain ⟨_, _, _, _, hb, _⟩ := hs.apps
    refine ⟨?_, ?_, ?_⟩
    · rw [hb.apps, List.map_append, List.nodup_append]
      refine ⟨hi.nodup, by simp, ?_⟩
      intro a ha b hb'
      obtain ⟨c, hc, rfl⟩ := List.mem_map.mp ha
      rw [List.map_singleton, List.mem_singleton] at hb'
      rw [hb']
      exact hfresh c hc
    · intro a ha
      rw [hb.apps] at ha
      rw [hb.created]
      rcases List.mem_append.mp ha with ha | ha
      · exact hi.known a ha
      · rw [List.mem_singleton.mp ha]
        exact hmem
    · rcases hw' with hw' | hw'
      · exact .of_aside (by rw [hw']; trivial)
      · simpa only [Phase, hw'] using hs.piped
  | asks _ hw' hq ht => exact hsame hq.apps hq.created (by simpa only [Phase, hw'] using ht)
  | opens _ hw' _ hs =>
    refine ⟨by rw [hs.ids]; exact hi.nodup, ?_, .of_aside (by rw [hw']; trivial)⟩
    intro a ha
    have hid : a.taskId ∈ x.server.apps.map (·.taskId) := hs.ids ▸ List.mem_map_of_mem ha
    obtain ⟨b, hb, hab⟩ := List.mem_map.mp hid
    rw [hs.created, ← hab]
    exact hi.known b hb
  | exits _ hw' _ _ _ _ hs =>
    refine ⟨?_, ?_, .of_aside (by rw [hw']; trivial)⟩
    · rw [hs.apps, List.map_map]
      simpa only [Function.comp_def, exited_taskId] using hi.nodup
    · intro a ha
      rw [hs.apps] at ha
      obtain ⟨b, hb, rfl⟩ := List.mem_map.mp ha
      rw [exited_taskId, hs.created]
      exact hi.known b hb

/-- The invariant holds after any messages. -/
theorem Boot.exec_inv {b : Session} {es : List Event} (hb : b.Boot)
    (h : TransitionSystem.exec next b es = some x) : x.Inv :=
  TransitionSystem.exec_invariant next (fun _ _ _ => next_inv) es hb.inv h

end

end Session

end KinOS.Am
