import KinOS.Am.SessionSteps

/-!
# The moves of the application manager, receive by receive

The `switch` of each `ReceiveMessage` as a chain of tests, then for each receive the list of what can come of a
message. The receives of the `kExecuteFile` request are followed exactly; of the others it matters where the server
stops and that the step is quiet.
-/

namespace KinOS.Am.Server

variable {s s' : Server} {env : Env} {m : Message} {w : Wait} {st : State}

/-! ## The main loop, unfolded -/

theorem resume_receive : resume env (.receive st) m s =
    match receiveMessage env st { s with rm := m } with
    | .ok none s' => .ok (.receive st) s'
    | .ok (some st') s' => turn env st' s'
    | .error e s' => .error e s' := by
  change EStateM.bind _ _ { s with rm := m } = _
  unfold EStateM.bind
  cases receiveMessage env st { s with rm := m } with
  | ok a s => cases a <;> rfl
  | error e s => rfl

theorem turn_ok : turn env st s = .ok w s' ↔
    ∃ r s₁, handleMessage env st s = .ok r s₁ ∧ finish r s₁ = .ok w s' := by
  simp only [turn, EStateM.run_bind_ok]

theorem finish_ok : finish (.inr st) s = .ok w s' ↔ ∃ st', sendMessage st s = .ok st' s' ∧ w = .receive st' := by
  simp only [finish, EStateM.run_bind_ok, EStateM.run_pure_ok]
  constructor
  · rintro ⟨st', _, h, rfl, rfl⟩
    exact ⟨st', h, rfl⟩
  · rintro ⟨st', h, rfl⟩
    exact ⟨st', s', h, rfl, rfl⟩

theorem deliver_eq : deliver env w m s =
    match s.source w with
    | none => resume env w m s
    | some t => if m.srcTask = t then resume env w m s else .ok w (s.post ⟨.kError, 0, .error true 0⟩ m.srcTask) := by
  change (match s.source w with
    | none => resume env w m
    | some t => _ : ServerM Wait) s = _
  cases s.source w with
  | none => rfl
  | some t =>
    by_cases ht : m.srcTask = t
    · simp only [if_pos ht]
    · simp only [if_neg ht]
      rfl

/-- A message is taken, or a closed receive answers it with `kError`/retry. -/
theorem deliver_cases {w' : Wait} (h : deliver env w m s = .ok w' s') :
    ((∀ t, s.source w = some t → m.srcTask = t) ∧ resume env w m s = .ok w' s') ∨
    (∃ t, s.source w = some t ∧ m.srcTask ≠ t ∧ w' = w ∧ s' = s.post ⟨.kError, 0, .error true 0⟩ m.srcTask) := by
  rw [deliver_eq] at h
  cases hs : s.source w with
  | none =>
    rw [hs] at h
    refine .inl ⟨fun t ht => ?_, h⟩
    cases ht
  | some t =>
    rw [hs] at h
    by_cases ht : m.srcTask = t
    · simp only [if_pos ht] at h
      refine .inl ⟨fun t' ht' => ?_, h⟩
      cases ht'
      exact ht
    · simp only [if_neg ht] at h
      cases h
      exact .inr ⟨t, rfl, ht, rfl, rfl⟩

/-! ## The switches -/

/-- `errorFromFs`: the request again, or the error to the requester. -/
theorem errorFromFs_eq {e : Option Int} : errorFromFs e s =
    if s.rm.errorRetry then .ok none (s.post s.sm s.fsId)
    else .ok (some .err) ({ s with sm := ⟨.kError, s.sm.srcTask, .error false (e.getD (errorErr s.rm))⟩ }.post
      ⟨.kError, s.sm.srcTask, .error false (e.getD (errorErr s.rm))⟩ s.targetId) := by
  change (if s.rm.errorRetry then _ else _ : ServerM (Option State)) s = _
  cases s.rm.errorRetry <;> rfl

theorem receiveMessage_init : receiveMessage env .init s =
    match env.fs with
    | none => .ok (some .err) { s with sm := ⟨.kError, s.sm.srcTask, .error false EAGAIN⟩ }
    | some fsId =>
      if s.rm.type = .kExecuteFile then .ok (some .execFile) { s with fsId }
      else if s.rm.type = .kWrite then .ok (some .write) { s with fsId }
      else if s.rm.type = .kOpen ∨ s.rm.type = .kOpenDir then .ok (some .open) { s with fsId }
      else if s.rm.type = .kRead then .ok (some .read) { s with fsId }
      else if s.rm.type = .kWaitingKey then .ok (some .waitingKey) { s with fsId }
      else if s.rm.type = .kExitApp then .ok (some .exit) { s with fsId }
      else .error .noReturn { s with fsId } := by
  cases hf : env.fs with
  | none =>
    simp only [receiveMessage, hf]
    rfl
  | some fsId =>
    simp only [receiveMessage, hf, EStateM.run_modify_bind, EStateM.run_get_bind]
    generalize s.rm.type = ty
    cases ty <;> rfl

theorem receiveMessage_execFile : receiveMessage env .execFile s =
    if s.rm.type = .kError then errorFromFs none s
    else if s.rm.type = .kExecuteFile then .ok (some .createTask) s else .ok none s := by
  simp only [receiveMessage, EStateM.run_get_bind]
  generalize s.rm.type = ty
  cases ty <;> rfl

theorem receiveMessage_createTask : receiveMessage env .createTask s =
    if s.rm.type = .kError then errorFromFs (some EAGAIN) s
    else if s.rm.type = .kReady then .ok (some (if s.redirect then .redirect else .startTask)) s
    else .ok (some .err) s := by
  simp only [receiveMessage, EStateM.run_get_bind]
  generalize s.rm.type = ty
  cases ty <;> rfl

theorem receiveMessage_redirect : receiveMessage env .redirect s =
    if s.rm.type = .kError then errorFromFs none s
    else if s.rm.type = .kOpen then .ok (some .startTask) s else .ok (some .err) s := by
  simp only [receiveMessage, EStateM.run_get_bind]
  generalize s.rm.type = ty
  cases ty <;> rfl

theorem receiveMessage_pipe : receiveMessage env .pipe s =
    if s.rm.type = .kExecuteFile then .ok (some .execFile) { s with piped := true } else .ok none s := by
  simp only [receiveMessage, EStateM.run_get_bind]
  generalize s.rm.type = ty
  cases ty <;> rfl

theorem receiveMessage_open : receiveMessage env .open s =
    if s.rm.type = .kError then errorFromFs none s
    else if s.rm.type = .kOpen ∨ s.rm.type = .kOpenDir then .ok (some .allocateFD) s else .ok (some .err) s := by
  simp only [receiveMessage, EStateM.run_get_bind]
  generalize s.rm.type = ty
  cases ty <;> rfl

theorem receiveMessage_waitingKey : receiveMessage env .waitingKey s =
    if s.rm.type = .kKeyPush ∨ s.rm.type = .kQuit then .ok (some .waitingKey) s
    else .ok (some .err) (s.post ⟨.kError, 0, .error false 0⟩ s.targetId) := by
  simp only [receiveMessage, EStateM.run_get_bind]
  generalize s.rm.type = ty
  cases ty <;> rfl

/-! ## The request to execute a file -/

/-- The variables of the session, as `ExecFileState::HandleMessage` sets them. -/
def accepted (s : Server) : Server :=
  { s with
    targetId := s.rm.srcTask
    command := (executefileArg s.rm).filename
    argument := (executefileArg s.rm).arg
    pipe := (executefileArg s.rm).pipe
    redirect := (executefileArg s.rm).redirect }

/-- The request to the file server. -/
def fileRequest (s : Server) : Message :=
  ⟨.kExecuteFile, s.sm.srcTask, .executefile { executefileArg s.sm with filename := s.command }⟩

/-- The server has sent `fileRequest`. -/
def requested (s : Server) : Server := { s with sm := s.fileRequest }.post s.fileRequest s.fsId

theorem turn_execFile (h : turn env .execFile s = .ok w s') :
    (w = .redirectName ∧ s' = s.accepted) ∨ (w = .receive .execFile ∧ s' = s.accepted.requested) := by
  obtain ⟨r, s₁, h1, h2⟩ := turn_ok.mp h
  by_cases hr : (executefileArg s.rm).redirect = true
  · have he : execFileHandle s = .ok (.inl .redirectName) s.accepted := by
      change (if (executefileArg s.rm).redirect = true then _ else _ : ServerM (Wait ⊕ State)) s.accepted = _
      rw [if_pos hr]
      rfl
    change execFileHandle s = _ at h1
    rw [he] at h1
    cases h1
    cases h2
    exact .inl ⟨rfl, rfl⟩
  · have he : execFileHandle s = .ok (.inr .execFile) { s.accepted with sm := s.accepted.fileRequest } := by
      change (if (executefileArg s.rm).redirect = true then _ else _ : ServerM (Wait ⊕ State)) s.accepted = _
      rw [if_neg hr]
      rfl
    change execFileHandle s = _ at h1
    rw [he] at h1
    cases h1
    cases h2
    exact .inr ⟨rfl, rfl⟩

theorem resume_redirectName (h : resume env .redirectName m s = .ok w s') :
    w = .receive .execFile ∧ s' = { s with rm := m, redirectFilename := redirectName m }.requested := by
  cases h
  exact ⟨rfl, rfl⟩

/-- The server as it reports an error to the requester. -/
def reported (s : Server) (e : Int) : Server :=
  { s with sm := ⟨.kError, s.sm.srcTask, .error false e⟩ }.post ⟨.kError, s.sm.srcTask, .error false e⟩ s.targetId

/-- The server has asked the kernel for a task and the file server to load it. -/
def taskMade (s : Server) (id : UInt64) : Server :=
  { s with
    sm := ⟨.kExecuteFile, s.sm.srcTask, .executefile { executefileArg s.sm with id }⟩
    newId := id
    created := s.created ++ [id] }.post
      ⟨.kExecuteFile, s.sm.srcTask, .executefile { executefileArg s.sm with id }⟩ s.fsId

/-- `ExecFileState::ReceiveMessage`, and `CreateTaskState` up to its receive. -/
theorem resume_execFile (h : resume env (.receive .execFile) m s = .ok w s') :
    (m.type = .kError ∧ m.errorRetry = true ∧ w = .receive .execFile ∧ s' = { s with rm := m }.post s.sm s.fsId) ∨
    (m.type = .kError ∧ m.errorRetry = false ∧ w = .receive .init ∧
      s' = { s with rm := m }.reported (errorErr m)) ∨
    (m.type = .kExecuteFile ∧ env.newTask = none ∧ w = .receive .init ∧
      s' = ({ s with rm := m }.reported EAGAIN).post ⟨.kError, s.sm.srcTask, .error false EAGAIN⟩ s.fsId) ∨
    (m.type = .kExecuteFile ∧ ∃ id, env.newTask = some id ∧ w = .receive .createTask ∧
      s' = { s with rm := m }.taskMade id) ∨
    (m.type ≠ .kError ∧ m.type ≠ .kExecuteFile ∧ w = .receive .execFile ∧ s' = { s with rm := m }) := by
  simp only [resume_receive, receiveMessage_execFile, errorFromFs_eq] at h
  by_cases hm : m.type = .kError
  · by_cases hr : m.errorRetry = true
    · simp only [hm, hr, if_true] at h
      cases h
      exact .inl ⟨hm, hr, rfl, rfl⟩
    · simp only [hm, hr, if_true] at h
      cases h
      exact .inr (.inl ⟨hm, by simpa using hr, rfl, rfl⟩)
  · by_cases hx : m.type = .kExecuteFile
    · simp only [hx, if_true] at h
      obtain ⟨r, s₁, h1, h2⟩ := turn_ok.mp h
      change (match env.newTask with
        | none => _
        | some id => _ : ServerM (Wait ⊕ State)) { s with rm := m } = _ at h1
      cases hn : env.newTask with
      | none =>
        rw [hn] at h1
        cases h1
        cases h2
        exact .inr (.inr (.inl ⟨hx, rfl, rfl, rfl⟩))
      | some id =>
        rw [hn] at h1
        cases h1
        cases h2
        exact .inr (.inr (.inr (.inl ⟨hx, id, rfl, rfl, rfl⟩)))
    · simp only [hm, hx, if_false] at h
      cases h
      exact .inr (.inr (.inr (.inr ⟨hm, hx, rfl, rfl⟩)))

/-- The server has asked the file server to open the file to redirect to. -/
def redirected (s : Server) : Server :=
  { s with
    sm := ⟨.kOpen, s.sm.srcTask, .open { openArg s.sm with filename := s.redirectFilename, flags := O_CREAT }⟩ }.post
      ⟨.kOpen, s.sm.srcTask, .open { openArg s.sm with filename := s.redirectFilename, flags := O_CREAT }⟩ s.fsId

theorem Built.closed {first : List FileDescriptor} {files : List (Option Ref)} (h : Built s first files s') (r : Ref) :
    closedAt s'.objects r = closedAt s.objects r := by
  obtain ⟨more, he, hx⟩ := h.objects
  rw [he]
  exact closedAt_append (fun d hd => (hx d hd).2) r

/-- Sending and writing `sm_` change nothing of what `StartTaskState` set up. -/
theorem Starts.post {terminal : UInt64} (h : Starts terminal s s') (sm x : Message) (id : UInt64) :
    Starts terminal s ({ s' with sm }.post x id) := by
  obtain ⟨base, first, files, hin, hb, hz⟩ := h.apps
  exact ⟨⟨base, first, files, hin, (hb.setSm sm).post x id, hz⟩, h.piped⟩

theorem Told.post (h : Told s s') (sm x : Message) (id : UInt64) : Told s ({ s' with sm }.post x id) := by
  obtain ⟨l, hl, y, hy, ht⟩ := h
  refine ⟨l ++ [(id, { x with srcTask := s'.id })], ?_, y, List.mem_append_left _ hy, ht⟩
  rw [post_sent, hl, List.append_assoc]

/-- `StartTaskState`, from `HandleMessage` to the next receive. -/
theorem turn_startTask (hf : ∀ a ∈ s.apps, a.taskId ≠ s.newId) (h : turn env .startTask s = .ok w s') :
    Starts env.terminal s s' ∧ Told s s' ∧ (w = .receive .init ∨ w = .receive .pipe) := by
  obtain ⟨r, s₁, h1, h2⟩ := turn_ok.mp h
  obtain ⟨rfl, hst, hsm⟩ := startTask_spec hf h1
  obtain ⟨st, h3, rfl⟩ := finish_ok.mp h2
  have hkernel : Starts env.terminal s (s₁.post s₁.sm 1) := hst.post s₁.sm s₁.sm 1
  have htold : Told s (s₁.post s₁.sm 1) := by
    obtain ⟨_, _, _, _, ⟨_, _, _, _, l, hl⟩, _⟩ := hst.apps
    refine ⟨l ++ [(1, { s₁.sm with srcTask := s₁.id })], ?_, _, List.mem_append_right _ (List.mem_singleton_self _), hsm⟩
    rw [post_sent, hl, List.append_assoc]
  change (if s₁.pipe = true then _ else _ : ServerM State) (s₁.post s₁.sm 1) = _ at h3
  by_cases hp : s₁.pipe = true
  · rw [if_pos hp] at h3
    cases h3
    exact ⟨hkernel.post _ _ _, htold.post _ _ _, .inr rfl⟩
  · rw [if_neg hp] at h3
    cases h3
    exact ⟨hkernel, htold, .inl rfl⟩

/-- `CreateTaskState::ReceiveMessage`, and what follows up to the next receive. -/
theorem resume_createTask (hf : ∀ a ∈ s.apps, a.taskId ≠ s.newId)
    (h : resume env (.receive .createTask) m s = .ok w s') :
    (m.type = .kError ∧ m.errorRetry = true ∧ w = .receive .createTask ∧ s' = { s with rm := m }.post s.sm s.fsId) ∨
    (m.type = .kError ∧ m.errorRetry = false ∧ w = .receive .init ∧ s' = { s with rm := m }.reported EAGAIN) ∨
    (m.type = .kReady ∧ w = .receive .redirect ∧ s' = { s with rm := m }.redirected) ∨
    (m.type = .kReady ∧ Starts env.terminal { s with rm := m } s' ∧ Told s s' ∧
      (w = .receive .init ∨ w = .receive .pipe)) ∨
    (m.type ≠ .kError ∧ m.type ≠ .kReady ∧ w = .receive .init ∧ s' = { s with rm := m }) := by
  simp only [resume_receive, receiveMessage_createTask, errorFromFs_eq] at h
  by_cases hm : m.type = .kError
  · by_cases hr : m.errorRetry = true
    · simp only [hm, hr, if_true] at h
      cases h
      exact .inl ⟨hm, hr, rfl, rfl⟩
    · simp only [hm, hr, if_true] at h
      cases h
      exact .inr (.inl ⟨hm, by simpa using hr, rfl, rfl⟩)
  · by_cases hx : m.type = .kReady
    · simp only [hx, if_true] at h
      change turn env (if s.redirect = true then .redirect else .startTask) { s with rm := m } = _ at h
      by_cases hr : s.redirect = true
      · rw [if_pos hr] at h
        cases h
        exact .inr (.inr (.inl ⟨hx, rfl, rfl⟩))
      · rw [if_neg hr] at h
        obtain ⟨hst, ht, hw⟩ := turn_startTask (s := { s with rm := m }) hf h
        exact .inr (.inr (.inr (.inl ⟨hx, hst, ht, hw⟩)))
    · simp only [hm, hx, if_false] at h
      cases h
      exact .inr (.inr (.inr (.inr ⟨hm, hx, rfl, rfl⟩)))

/-- `RedirectState::ReceiveMessage`, and what follows up to the next receive. -/
theorem resume_redirect (hf : ∀ a ∈ s.apps, a.taskId ≠ s.newId)
    (h : resume env (.receive .redirect) m s = .ok w s') :
    (m.type = .kError ∧ m.errorRetry = true ∧ w = .receive .redirect ∧ s' = { s with rm := m }.post s.sm s.fsId) ∨
    (m.type = .kError ∧ m.errorRetry = false ∧ w = .receive .init ∧
      s' = { s with rm := m }.reported (errorErr m)) ∨
    (m.type = .kOpen ∧ Starts env.terminal { s with rm := m } s' ∧ Told s s' ∧
      (w = .receive .init ∨ w = .receive .pipe)) ∨
    (m.type ≠ .kError ∧ m.type ≠ .kOpen ∧ w = .receive .init ∧ s' = { s with rm := m }) := by
  simp only [resume_receive, receiveMessage_redirect, errorFromFs_eq] at h
  by_cases hm : m.type = .kError
  · by_cases hr : m.errorRetry = true
    · simp only [hm, hr, if_true] at h
      cases h
      exact .inl ⟨hm, hr, rfl, rfl⟩
    · simp only [hm, hr, if_true] at h
      cases h
      exact .inr (.inl ⟨hm, by simpa using hr, rfl, rfl⟩)
  · by_cases hx : m.type = .kOpen
    · simp only [hx, if_true] at h
      change turn env .startTask { s with rm := m } = _ at h
      obtain ⟨hst, ht, hw⟩ := turn_startTask (s := { s with rm := m }) hf h
      exact .inr (.inr (.inl ⟨hx, hst, ht, hw⟩))
    · simp only [hm, hx, if_false] at h
      cases h
      exact .inr (.inr (.inr ⟨hm, hx, rfl, rfl⟩))

/-- `PipeState::ReceiveMessage`: the next stage of the pipeline, or nothing. -/
theorem resume_pipe (h : resume env (.receive .pipe) m s = .ok w s') :
    (m.type = .kExecuteFile ∧
      ((w = .redirectName ∧ s' = { s with rm := m, piped := true }.accepted) ∨
       (w = .receive .execFile ∧ s' = { s with rm := m, piped := true }.accepted.requested))) ∨
    (m.type ≠ .kExecuteFile ∧ w = .receive .pipe ∧ s' = { s with rm := m }) := by
  simp only [resume_receive, receiveMessage_pipe] at h
  by_cases hx : m.type = .kExecuteFile
  · simp only [hx, if_true] at h
    exact .inl ⟨hx, turn_execFile h⟩
  · simp only [hx, if_false] at h
    cases h
    exact .inr ⟨hx, rfl, rfl⟩

/-! ## Opening a file -/

/-- The server has passed a `kOpen` or `kOpenDir` on to the file server. -/
structure Asked (s s' : Server) : Prop where
  quiet : Quiet s s'
  targetId : s'.targetId = s.rm.srcTask
  objects : s'.objects = s.objects
  vars : s'.id = s.id ∧ s'.fsId = s.fsId
  type : s'.sm.type = .kOpen ∨ s'.sm.type = .kOpenDir
  sent : s'.sent = s.sent ++ [(s.fsId, { s'.sm with srcTask := s.id })]

/-- `OpenState` up to its receive; `"@stdin"` is answered at once. -/
theorem turn_open (hm : s.rm.type = .kOpen ∨ s.rm.type = .kOpenDir) (h : turn env .open s = .ok w s') :
    (w = .receive .open ∧ Asked s s') ∨
    (w = .receive .init ∧ Quiet s s' ∧ s'.objects = s.objects ∧ s'.id = s.id ∧ s'.fsId = s.fsId ∧
      s'.targetId = s.rm.srcTask ∧ ∃ x, s'.sent = s.sent ++ [(s.rm.srcTask, x)] ∧ x.type = .kOpen) := by
  obtain ⟨r, s₁, h1, h2⟩ := turn_ok.mp h
  change openHandle s = _ at h1
  simp only [openHandle, EStateM.run_bind_ok, EStateM.run_get_ok, EStateM.run_modify_ok] at h1
  obtain ⟨_, _, ⟨rfl, rfl⟩, _, _, rfl, h1⟩ := h1
  rcases hm with hm | hm
  · simp only [hm] at h1
    by_cases hn : (openArg s.rm).filename = stdinName
    · rw [if_pos hn] at h1
      cases h1
      cases h2
      exact .inr ⟨rfl, ⟨rfl, rfl, rfl, rfl, rfl, fun _ => rfl⟩, rfl, rfl, rfl, rfl, _, rfl, rfl⟩
    · rw [if_neg hn] at h1
      cases h1
      cases h2
      exact .inl ⟨rfl, ⟨rfl, rfl, rfl, rfl, rfl, fun _ => rfl⟩, rfl, rfl, ⟨rfl, rfl⟩, .inl rfl, rfl⟩
  · simp only [hm] at h1
    cases h1
    cases h2
    exact .inl ⟨rfl, ⟨rfl, rfl, rfl, rfl, rfl, fun _ => rfl⟩, rfl, rfl, ⟨rfl, rfl⟩, .inr rfl, rfl⟩

/-- `OpenState::ReceiveMessage`, and `AllocateFDState`. -/
theorem resume_open (h : resume env (.receive .open) m s = .ok w s') :
    (m.type = .kError ∧ m.errorRetry = true ∧ w = .receive .open ∧ s' = { s with rm := m }.post s.sm s.fsId) ∨
    (m.type = .kError ∧ m.errorRetry = false ∧ w = .receive .init ∧
      s' = { s with rm := m }.reported (errorErr m)) ∨
    ((m.type = .kOpen ∨ m.type = .kOpenDir) ∧ w = .receive .init ∧ Touches s.targetId s s') ∨
    (m.type ≠ .kError ∧ m.type ≠ .kOpen ∧ m.type ≠ .kOpenDir ∧ w = .receive .init ∧ s' = { s with rm := m }) := by
  simp only [resume_receive, receiveMessage_open, errorFromFs_eq] at h
  by_cases hm : m.type = .kError
  · by_cases hr : m.errorRetry = true
    · simp only [hm, hr, if_true] at h
      cases h
      exact .inl ⟨hm, hr, rfl, rfl⟩
    · simp only [hm, hr, if_true] at h
      cases h
      exact .inr (.inl ⟨hm, by simpa using hr, rfl, rfl⟩)
  · by_cases hx : m.type = .kOpen ∨ m.type = .kOpenDir
    · simp only [hm, hx, if_true, if_false] at h
      obtain ⟨r, s₁, h1, h2⟩ := turn_ok.mp h
      obtain ⟨rfl, ht⟩ := allocateFDHandle_spec h1
      obtain ⟨st, h3, rfl⟩ := finish_ok.mp h2
      have h0 : Quiet s { s with rm := m } := ⟨rfl, rfl, rfl, rfl, rfl, fun _ => rfl⟩
      have hq := sendMessage_quiet _ _ _ _ h3
      cases h3
      exact .inr (.inr (.inl ⟨hx, rfl, (h0.touches.trans ht).trans hq.touches⟩))
    · simp only [hm, hx, if_false] at h
      cases h
      exact .inr (.inr (.inr ⟨hm, fun h => hx (.inl h), fun h => hx (.inr h), rfl, rfl⟩))

/-! ## The other requests -/

/-- The receives of the descriptors, of `WaitingKeyState`, and the open receive. -/
def Aside : Wait → Prop
  | .receive .init | .receive .waitingKey | .terminalRead .. | .fatRead .. | .fatWrite .. => True
  | _ => False

theorem fdHandle_quiet {fd : Message → Int} {act : Ref → Message → ServerM (Option Wait)} {this : State}
    (ha : ∀ r x, QuietM (act r x)) : QuietM (fdHandle fd act this) := by
  refine QuietM.get.bind fun s => QuietM.bind (QuietM.modify ?_) fun _ => QuietM.appInfo.bind fun a => ?_
  · exact fun _ => ⟨rfl, rfl, rfl, rfl, rfl, fun _ => rfl⟩
  · split
    · exact QuietM.setError.bind fun _ => QuietM.pure
    · refine (ha _ _).bind fun o => ?_
      split
      · exact QuietM.pure
      · exact QuietM.pure

theorem waitingKeyHandle_quiet : QuietM waitingKeyHandle := by
  refine QuietM.get.bind fun s => EStateM.Keeps.ite ?_ ?_
  · refine QuietM.bind (QuietM.modify ?_) fun _ => QuietM.pure
    exact fun _ => ⟨rfl, rfl, rfl, rfl, rfl, fun _ => rfl⟩
  · refine QuietM.bind (QuietM.modify ?_) fun _ => QuietM.sendSm.bind fun _ => QuietM.appInfo.bind fun a =>
      QuietM.bind (QuietM.modify ?_) fun _ => QuietM.pure
    · exact fun _ => ⟨rfl, rfl, rfl, rfl, rfl, fun _ => rfl⟩
    · exact fun _ => ⟨rfl, rfl, rfl, rfl, rfl, fun _ => rfl⟩

theorem readFd_wait {r : Ref} {x : Message} {o : Option Wait} (h : readFd env r x s = .ok o s') :
    ∀ w ∈ o, (∃ id t, w = .terminalRead id t) ∨ ∃ q f, w = .fatRead q f := by
  simp only [readFd, EStateM.run_bind_ok, deref_ok] at h
  obtain ⟨d, _, ⟨-, rfl⟩, h⟩ := h
  cases d with
  | terminal id t =>
    cases h
    simp
  | fat id file =>
    cases hf : env.fs with
    | none =>
      simp only [hf] at h
      cases h
      simp
    | some fsId =>
      simp only [hf] at h
      cases h
      simp
  | pipe p =>
    simp only [EStateM.run_bind_ok, EStateM.run_pure_ok] at h
    obtain ⟨_, _, -, rfl, -⟩ := h
    simp

theorem writeFd_wait {r : Ref} {x : Message} {o : Option Wait} (h : writeFd env r x s = .ok o s') :
    ∀ w ∈ o, ∃ f, w = .fatWrite r f := by
  simp only [writeFd, EStateM.run_bind_ok, deref_ok] at h
  obtain ⟨d, _, ⟨-, rfl⟩, h⟩ := h
  cases d with
  | terminal id t =>
    cases h
    simp
  | fat id file =>
    cases hf : env.fs with
    | none =>
      simp only [hf] at h
      cases h
      simp
    | some fsId =>
      simp only [hf] at h
      cases h
      simp
  | pipe p =>
    simp only [EStateM.run_bind_ok, EStateM.run_pure_ok] at h
    obtain ⟨_, _, -, rfl, -⟩ := h
    simp

/-- A round of the main loop in `ReadState` or `WriteState`. -/
theorem turn_fd_eq {fd : Message → Int} {act : Ref → Message → ServerM (Option Wait)} {this : State}
    (hthis : this = .read ∨ this = .write) :
    (do finish (← fdHandle fd act this) : ServerM Wait) s =
      match getAppInfo s.apps s.rm.srcTask with
      | none => .error .nullptr { s with targetId := s.rm.srcTask }
      | some a =>
        match fileAt a (fd s.rm) with
        | none => .ok (.receive .init) ({ s with targetId := s.rm.srcTask }.reported EBADF)
        | some r =>
          match act r s.rm { s with targetId := s.rm.srcTask } with
          | .ok (some w) s' => .ok w s'
          | .ok none s' => .ok (.receive .init) s'
          | .error e s' => .error e s' := by
  change EStateM.bind (EStateM.bind (appInfo s.rm.srcTask) _) _ { s with targetId := s.rm.srcTask } = _
  rw [EStateM.bind, EStateM.bind]
  cases happ : getAppInfo s.apps s.rm.srcTask with
  | none =>
    have hrun : appInfo s.rm.srcTask { s with targetId := s.rm.srcTask } =
        .error .nullptr { s with targetId := s.rm.srcTask } :=
      appInfo_none happ
    rw [hrun]
  | some a =>
    have hrun : appInfo s.rm.srcTask { s with targetId := s.rm.srcTask } = .ok a { s with targetId := s.rm.srcTask } :=
      appInfo_some happ
    rw [hrun]
    dsimp only
    cases fileAt a (fd s.rm) with
    | none => rfl
    | some r =>
      change EStateM.bind (EStateM.bind (act r s.rm) _) _ _ = _
      simp only
      rw [EStateM.bind, EStateM.bind]
      cases act r s.rm { s with targetId := s.rm.srcTask } with
      | error e s' => rfl
      | ok o s' =>
        cases o with
        | some w => rfl
        | none => rcases hthis with rfl | rfl <;> rfl

/-- `ReadState` and `WriteState` end in a receive of the descriptor or in the open receive. -/
theorem turn_fd {fd : Message → Int} {act : Ref → Message → ServerM (Option Wait)} {this : State} {P : Wait → Prop}
    (hthis : this = .read ∨ this = .write) (hact : ∀ r x t o t', act r x t = .ok o t' → ∀ w ∈ o, P w)
    (hinit : P (.receive .init)) (h : (do finish (← fdHandle fd act this) : ServerM Wait) s = .ok w s') : P w := by
  simp only [fdHandle, EStateM.run_bind_ok, EStateM.run_get_ok, EStateM.run_modify_ok, appInfo_ok] at h
  obtain ⟨r, s₁, ⟨_, _, ⟨rfl, rfl⟩, _, _, rfl, a, _, ⟨ha, rfl⟩, h1⟩, h2⟩ := h
  cases hfile : fileAt a (fd s.rm) with
  | none =>
    simp only [hfile] at h1
    cases h1
    cases h2
    exact hinit
  | some q =>
    simp only [hfile, EStateM.run_bind_ok] at h1
    obtain ⟨o, s₂, h3, h4⟩ := h1
    cases o with
    | none =>
      cases h4
      rcases hthis with rfl | rfl
      · cases h2
        exact hinit
      · cases h2
        exact hinit
    | some w' =>
      cases h4
      cases h2
      exact hact _ _ _ _ _ h3 w rfl

theorem turn_waitingKey (h : turn env .waitingKey s = .ok w s') :
    Quiet s s' ∧ (w = .receive .waitingKey ∨ w = .receive .init) := by
  obtain ⟨r, s₁, h1, h2⟩ := turn_ok.mp h
  have hq := waitingKeyHandle_quiet _ _ _ h1
  change waitingKeyHandle s = _ at h1
  have hr : r = .inr .waitingKey := by
    simp only [waitingKeyHandle, EStateM.run_bind_ok, EStateM.run_get_ok] at h1
    obtain ⟨_, _, ⟨rfl, rfl⟩, h1⟩ := h1
    by_cases hw : s.waiting = true
    · rw [if_pos hw] at h1
      cases h1
      rfl
    · rw [if_neg hw] at h1
      simp only [EStateM.run_bind_ok, EStateM.run_pure_ok] at h1
      obtain ⟨_, _, -, _, _, -, _, _, -, _, _, -, rfl, -⟩ := h1
      rfl
  subst hr
  obtain ⟨st, h3, rfl⟩ := finish_ok.mp h2
  refine ⟨hq.trans (sendMessage_quiet _ _ _ _ h3), ?_⟩
  change (if s₁.waiting = true then _ else _ : ServerM State) s₁ = _ at h3
  by_cases hw : s₁.waiting = true
  · rw [if_pos hw] at h3
    cases h3
    exact .inl rfl
  · rw [if_neg hw] at h3
    cases h3
    exact .inr rfl

/-- `ExitState`: nothing when the id is no application's, else the application ends. -/
theorem turn_exit (h : turn env .exit s = .ok w s') :
    w = .receive .init ∧ ((getPID s.apps (exitappId s.rm) = 0 ∧ Quiet s s') ∨
      (getPID s.apps (exitappId s.rm) ≠ 0 ∧ Exits (exitappId s.rm) s s')) := by
  obtain ⟨r, s₁, h1, h2⟩ := turn_ok.mp h
  change exitHandle s = _ at h1
  simp only [exitHandle, EStateM.run_bind_ok, EStateM.run_get_ok, EStateM.run_modify_ok] at h1
  obtain ⟨_, _, ⟨rfl, rfl⟩, _, _, rfl, h1⟩ := h1
  by_cases hp : getPID s.apps (exitappId s.rm) ≠ 0
  · rw [if_pos hp] at h1
    simp only [EStateM.run_bind_ok, EStateM.run_pure_ok] at h1
    obtain ⟨_, s₂, h3, _, s₃, h4, rfl, rfl⟩ := h1
    have he := exitApp_spec h3
    cases h4
    cases h2
    exact ⟨rfl, .inr ⟨hp, he.apps, he.created, he.piped, he.closed⟩⟩
  · rw [if_neg hp] at h1
    cases h1
    cases h2
    exact ⟨rfl, .inl ⟨not_not.mp hp, rfl, rfl, rfl, rfl, rfl, fun _ => rfl⟩⟩

/-- `ReadState` and `WriteState` up to the next receive. -/
theorem turn_fd_quiet {fd : Message → Int} {act : Ref → Message → ServerM (Option Wait)} {this : State}
    (ha : ∀ r x, QuietM (act r x)) : QuietM (do finish (← fdHandle fd act this) : ServerM Wait) := by
  refine (fdHandle_quiet ha).bind fun r => ?_
  cases r with
  | inl w => exact QuietM.pure
  | inr st => exact (sendMessage_quiet st).bind fun _ => QuietM.pure

theorem turn_read (h : turn env .read s = .ok w s') : Quiet s s' ∧ Aside w ∧ ∀ r f, w ≠ .fatWrite r f := by
  change (do finish (← fdHandle (fun m => (readArg m).fd) (readFd env) .read) : ServerM Wait) s = _ at h
  refine ⟨turn_fd_quiet (fun _ _ => readFd_quiet) _ _ _ h, ?_⟩
  refine turn_fd (P := fun w => Aside w ∧ ∀ r f, w ≠ .fatWrite r f) (.inl rfl) (fun _ _ _ _ _ hr w hw => ?_)
    ⟨trivial, by simp⟩ h
  rcases readFd_wait hr w hw with ⟨_, _, rfl⟩ | ⟨_, _, rfl⟩
  · exact ⟨trivial, by simp⟩
  · exact ⟨trivial, by simp⟩

theorem turn_write (h : turn env .write s = .ok w s') : Quiet s s' ∧ Aside w := by
  change (do finish (← fdHandle (fun m => (writeArg m).fd) (writeFd env) .write) : ServerM Wait) s = _ at h
  refine ⟨turn_fd_quiet (fun _ _ => writeFd_quiet) _ _ _ h, ?_⟩
  refine turn_fd (P := Aside) (.inr rfl) (fun _ _ _ _ _ hr w hw => ?_) trivial h
  obtain ⟨_, rfl⟩ := writeFd_wait hr w hw
  trivial

/-- `InitState::ReceiveMessage`, and what follows up to the next receive. -/
theorem resume_init (h : resume env (.receive .init) m s = .ok w s') :
    (Quiet s s' ∧ Aside w) ∨
    (∃ f, env.fs = some f ∧
      ((m.type = .kExecuteFile ∧ ((w = .redirectName ∧ s' = { s with rm := m, fsId := f }.accepted) ∨
        (w = .receive .execFile ∧ s' = { s with rm := m, fsId := f }.accepted.requested))) ∨
      ((m.type = .kOpen ∨ m.type = .kOpenDir) ∧ w = .receive .open ∧ Asked { s with rm := m, fsId := f } s') ∨
      (m.type = .kExitApp ∧ w = .receive .init ∧ getPID s.apps (exitappId m) ≠ 0 ∧ Exits (exitappId m) s s'))) := by
  simp only [resume_receive, receiveMessage_init] at h
  cases hf : env.fs with
  | none =>
    simp only [hf] at h
    cases h
    exact .inl ⟨⟨rfl, rfl, rfl, rfl, rfl, fun _ => rfl⟩, trivial⟩
  | some f =>
    simp only [hf] at h
    have h0 : Quiet s { s with rm := m, fsId := f } := ⟨rfl, rfl, rfl, rfl, rfl, fun _ => rfl⟩
    by_cases h1 : m.type = .kExecuteFile
    · simp only [h1, if_true] at h
      exact .inr ⟨f, rfl, .inl ⟨h1, turn_execFile h⟩⟩
    by_cases h2 : m.type = .kWrite
    · simp only [h2, if_true] at h
      change turn env .write { s with rm := m, fsId := f } = _ at h
      obtain ⟨hq, hw⟩ := turn_write h
      exact .inl ⟨h0.trans hq, hw⟩
    by_cases h3 : m.type = .kOpen ∨ m.type = .kOpenDir
    · simp only [h1, h2, h3, if_true, if_false] at h
      rcases turn_open (s := { s with rm := m, fsId := f }) h3 h with ⟨rfl, ha⟩ | ⟨rfl, hq, -⟩
      · exact .inr ⟨f, rfl, .inr (.inl ⟨h3, rfl, ha⟩)⟩
      · exact .inl ⟨h0.trans hq, trivial⟩
    by_cases h4 : m.type = .kRead
    · simp only [h4, if_true] at h
      change turn env .read { s with rm := m, fsId := f } = _ at h
      obtain ⟨hq, hw, -⟩ := turn_read h
      exact .inl ⟨h0.trans hq, hw⟩
    by_cases h5 : m.type = .kWaitingKey
    · simp only [h5, if_true] at h
      change turn env .waitingKey { s with rm := m, fsId := f } = _ at h
      obtain ⟨hq, hw⟩ := turn_waitingKey h
      exact .inl ⟨h0.trans hq, by rcases hw with rfl | rfl <;> trivial⟩
    by_cases h6 : m.type = .kExitApp
    · simp only [h6, if_true] at h
      change turn env .exit { s with rm := m, fsId := f } = _ at h
      obtain ⟨rfl, ⟨-, hq⟩ | ⟨hp, he⟩⟩ := turn_exit h
      · exact .inl ⟨h0.trans hq, trivial⟩
      · exact .inr ⟨f, rfl, .inr (.inr ⟨h6, rfl, hp, he.apps, he.created, he.piped, he.closed⟩)⟩
    · simp only [h1, h2, h3, h4, h5, h6, if_false] at h
      cases h

/-- The receives of the descriptors and of `WaitingKeyState` lead to such a receive, or back. -/
theorem resume_aside (hw : Aside w) (hi : w ≠ .receive .init) {w' : Wait} (h : resume env w m s = .ok w' s') :
    Quiet s s' ∧ Aside w' := by
  have h0 : Quiet s { s with rm := m } := ⟨rfl, rfl, rfl, rfl, rfl, fun _ => rfl⟩
  cases w with
  | receive st =>
    cases st with
    | waitingKey =>
      simp only [resume_receive, receiveMessage_waitingKey] at h
      by_cases hk : m.type = .kKeyPush ∨ m.type = .kQuit
      · simp only [hk, if_true] at h
        obtain ⟨hq, hw⟩ := turn_waitingKey h
        exact ⟨h0.trans hq, by rcases hw with rfl | rfl <;> trivial⟩
      · simp only [hk, if_false] at h
        cases h
        exact ⟨⟨rfl, rfl, rfl, rfl, rfl, fun _ => rfl⟩, trivial⟩
    | _ => simp_all [Aside]
  | redirectName => simp [Aside] at hw
  | terminalRead id t =>
    simp only [resume, EStateM.run_bind_ok] at h
    obtain ⟨_, s₁, h1, h2⟩ := h
    cases h2
    refine ⟨(?_ : QuietM _) _ _ _ h1, trivial⟩
    split
    · exact QuietM.send.bind fun _ => QuietM.send
    · exact QuietM.sendError
  | fatRead r f =>
    simp only [resume, EStateM.run_bind_ok, deref_ok] at h
    obtain ⟨d, _, ⟨hd, rfl⟩, h⟩ := h
    cases d with
    | fat id file =>
      simp only [EStateM.run_bind_ok, send_ok] at h
      obtain ⟨_, _, rfl, h⟩ := h
      split at h
      · simp only [EStateM.run_bind_ok, EStateM.run_pure_ok] at h
        obtain ⟨_, s₁, h1, rfl, rfl⟩ := h
        have hq := store_quiet (fun _ => by simp [closedAt, post_objects, hd]) h1
        exact ⟨(Quiet.post s m id).trans hq, trivial⟩
      · cases h
        exact ⟨Quiet.post s m id, trivial⟩
    | terminal _ _ | pipe _ => cases h
  | fatWrite r f =>
    simp only [resume, EStateM.run_bind_ok, deref_ok] at h
    obtain ⟨d, _, ⟨hd, rfl⟩, h⟩ := h
    cases d with
    | fat id file =>
      by_cases hm : m.type = .kWrite
      · simp only [hm, if_true, EStateM.run_bind_ok] at h
        obtain ⟨_, s₁, h1, h2⟩ := h
        have hq := forwardWrite_quiet hd h1
        split at h2
        · cases h2
          exact ⟨hq, trivial⟩
        · cases h2
          exact ⟨hq, trivial⟩
      · simp only [hm, if_false] at h
        cases h
        exact ⟨Quiet.refl _, trivial⟩
    | terminal _ _ | pipe _ => cases h

end KinOS.Am.Server
