import KinOS.Am.Descriptor

/-!
# The application manager

| here | there |
| --- | --- |
| `State`                     | `enum State` (`servers/am/serverstate.hpp:4-19`) |
| `pipeRead`, `pipeWrite`     | `PipeFileDescriptor::Read`, `Write` (`filedescriptor.cpp:120-190`) |
| `readFd`, `writeFd`, `Wait.terminalRead`, `Wait.fatRead`, `Wait.fatWrite` | `Read` and `Write` of the descriptors (`filedescriptor.cpp:13-116`), cut at their receives |
| `receiveMessage`, `handleMessage`, `sendMessage` | the methods of the states (`servers/am/serverstate.cpp`) |
| `turn`, `resume`            | the loop of `main` (`servers/am/am.cpp:39-43`) |
| `deliver`                   | the loops of `OpenReceiveMessage` and `ClosedReceiveMessage` (`kernel/syscall.cpp:124-195`) on one message |

The server runs from one receive to the next. `Wait` says in which receive it is and with which locals; `deliver`
hands it the next message of its queue and runs it up to the next receive. `Wait.receive s` is the receive in
`ReceiveMessage` of `s`; the states whose `ReceiveMessage` only returns `this` are passed through in `turn`.
-/

namespace KinOS.Am

inductive State
  | err | init | execFile | createTask | startTask | redirect | pipe | exit | open | allocateFD | read | write
  | waitingKey
deriving DecidableEq, Repr

inductive Wait
  | receive (s : State)
  /-- `ExecFileState::HandleMessage`, for the name to redirect to -/
  | redirectName
  /-- `TerminalFileDescriptor::Read` of the descriptor with these members -/
  | terminalRead (id terminalServerId : UInt64)
  | fatRead (r : Ref) (fsId : UInt64)
  | fatWrite (r : Ref) (fsId : UInt64)
deriving DecidableEq, Repr

def EAGAIN : Int := 11
def EBADF : Int := 9
def O_CREAT : UInt32 := 0x200

/-- `"@stdin"`. -/
def stdinName : List UInt8 := [0x40, 0x73, 0x74, 0x64, 0x69, 0x6e]

/-- A `kRead` whose `data` starts with the given bytes; the rest of the message is not set. -/
def dataMsg (data : Vector UInt8 16) (len : Nat) : Message := ⟨.kRead, 0, .read ⟨[], 0, data, .ofNat len, 0, 0, 0⟩⟩

/-- The `kRead` of length 0. -/
def endMsg : Message := dataMsg (.replicate 16 0) 0

def receivedMsg : Message := ⟨.kReceived, 0, .unset⟩

namespace Server

/-! ## The descriptors -/

/-- `memmove(data_, &data_[count], len_)`, `len_` being what is left. -/
def shiftData (data : Vector UInt8 16) (count len : Nat) : Vector UInt8 16 :=
  Vector.ofFn fun i => if i.val < len then data.toList.getD (count + i.val) 0 else data.get i

/-- `memcpy(data_, data, len)`. -/
def copyData (old new : Vector UInt8 16) (len : Nat) : Vector UInt8 16 :=
  Vector.ofFn fun i => if i.val < len then new.get i else old.get i

def pipeRead (r : Ref) (p : PipeFileDescriptor) (msg : Message) : ServerM Unit := do
  let count := (readArg msg).count.toNat
  if p.closed then send endMsg msg.srcTask
  else if p.len = 0 then sendError true msg.srcTask
  else if p.len ≤ count then do
    store r (.pipe { p with len := 0, data := .replicate 16 0 })
    send (dataMsg p.data p.len) msg.srcTask
    send endMsg msg.srcTask
    send receivedMsg p.id
  else do
    store r (.pipe { p with len := p.len - count, data := shiftData p.data count (p.len - count) })
    send (dataMsg p.data count) msg.srcTask
    send endMsg msg.srcTask

def pipeWrite (r : Ref) (p : PipeFileDescriptor) (msg : Message) : ServerM Unit := do
  let len := (writeArg msg).len.toNat
  if p.closed then sendError false p.id
  else if p.len = 0 then
    if len ≠ 0 then
      if 16 < len then throw .outOfRange
      else store r (.pipe { p with len, data := copyData p.data (writeArg msg).data len })
    else send receivedMsg p.id
  else sendError true p.id

/-- `Read`; a descriptor that goes on after a receive says where. -/
def readFd (env : Env) (r : Ref) (msg : Message) : ServerM (Option Wait) := do
  match ← deref r with
  | .terminal id terminal => do
    send msg terminal
    pure (some (.terminalRead id terminal))
  | .fat id file =>
    match env.fs with
    | none => do
      send ⟨.kError, 0, .error false 0⟩ id
      pure none
    | some fsId => do
      send { msg with arg := .read (file.readRequest (readArg msg)) } fsId
      pure (some (.fatRead r fsId))
  | .pipe p => do
    pipeRead r p msg
    pure none

/-- `strcpy(msg.arg.write.filename, filename_)` and the offset, then to the file server and on to the writer. -/
def forwardWrite (r : Ref) (id : UInt64) (file : Fs.FatFileDescriptor) (fsId : UInt64) (msg : Message) :
    ServerM Unit := do
  send { msg with arg := .write (file.stamp (writeArg msg)) } fsId
  store r (.fat id { file with wrOff := file.wrOff + (writeArg msg).len.toNat })
  send receivedMsg id

/-- `Write`. -/
def writeFd (env : Env) (r : Ref) (msg : Message) : ServerM (Option Wait) := do
  match ← deref r with
  | .terminal id terminal => do
    send msg terminal
    send receivedMsg id
    pure none
  | .fat id file =>
    match env.fs with
    | none => do
      send ⟨.kError, 0, .error false 0⟩ id
      pure none
    | some fsId => do
      forwardWrite r id file fsId msg
      pure (some (.fatWrite r fsId))
  | .pipe p => do
    pipeWrite r p msg
    pure none

/-! ## The states -/

/-- `server_->sm_` as a `kError` without retry. -/
def setError (err : Int) : ServerM Unit := setSm .kError (.error false err)

/-- The answer of the file server in `ExecFileState`, `CreateTaskState`, `RedirectState` and `OpenState`: on `kError`
the request again, or the error to the requester. -/
def errorFromFs (err : Option Int) : ServerM (Option State) := do
  let s ← get
  if s.rm.errorRetry then do
    sendSm s.fsId
    pure none
  else do
    setError (err.getD (errorErr s.rm))
    sendSm s.targetId
    pure (some .err)

/-- `ReceiveMessage` once `server_->rm_` is there; `none` goes round the `while (1)` again. -/
def receiveMessage (env : Env) : State → ServerM (Option State)
  | .init =>
    match env.fs with
    | none => do
      setError EAGAIN
      pure (some .err)
    | some fsId => do
      modify fun s => { s with fsId }
      match (← get).rm.type with
      | .kExecuteFile => pure (some .execFile)
      | .kWrite => pure (some .write)
      | .kOpen | .kOpenDir => pure (some .open)
      | .kRead => pure (some .read)
      | .kWaitingKey => pure (some .waitingKey)
      | .kExitApp => pure (some .exit)
      | _ => throw .noReturn
  | .execFile => do
    match (← get).rm.type with
    | .kError => errorFromFs none
    | .kExecuteFile => pure (some .createTask)
    | _ => pure none
  | .createTask => do
    let s ← get
    match s.rm.type with
    | .kError => errorFromFs (some EAGAIN)
    | .kReady => pure (some (if s.redirect then .redirect else .startTask))
    | _ => pure (some .err)
  | .redirect => do
    match (← get).rm.type with
    | .kError => errorFromFs none
    | .kOpen => pure (some .startTask)
    | _ => pure (some .err)
  | .pipe => do
    match (← get).rm.type with
    | .kExecuteFile => do
      modify fun s => { s with piped := true }
      pure (some .execFile)
    | _ => pure none
  | .open => do
    match (← get).rm.type with
    | .kError => errorFromFs none
    | .kOpen | .kOpenDir => pure (some .allocateFD)
    | _ => pure (some .err)
  | .waitingKey => do
    let s ← get
    match s.rm.type with
    | .kKeyPush | .kQuit => pure (some .waitingKey)
    | _ => do
      sendError false s.targetId
      pure (some .err)
  | s => pure (some s)

/-- The end of `ExecFileState::HandleMessage`. -/
def requestFile : ServerM (Wait ⊕ State) := do
  let s ← get
  setSm .kExecuteFile (.executefile { executefileArg s.sm with filename := s.command })
  pure (.inr .execFile)

def execFileHandle : ServerM (Wait ⊕ State) := do
  let e := executefileArg (← get).rm
  modify fun s => { s with
    targetId := s.rm.srcTask
    command := e.filename
    argument := e.arg
    pipe := e.pipe
    redirect := e.redirect }
  if e.redirect then pure (.inl .redirectName) else requestFile

def createTaskHandle (env : Env) : ServerM (Wait ⊕ State) := do
  let s ← get
  match env.newTask with
  | none => do
    setError EAGAIN
    sendSm s.targetId
    sendSm s.fsId
    pure (.inr .err)
  | some id => do
    setSm .kExecuteFile (.executefile { executefileArg s.sm with id })
    modify fun s => { s with newId := id, created := s.created ++ [id] }
    pure (.inr .createTask)

def startTaskHandle (env : Env) : ServerM (Wait ⊕ State) := do
  let s ← get
  newApp env.terminal s.newId s.targetId
  (if s.redirect then do
    let r ← alloc (.newFat s.newId s.redirectFilename)
    setFile s.newId 1 (some r)
  else pure ())
  (if s.piped then do
    setFile s.newId 0 s.pipeFd
    modify fun s => { s with piped := false }
  else pure ())
  (if s.pipe then do
    let r ← alloc (.pipe (.new s.newId))
    modify fun s => { s with pipeFd := some r }
    setFile s.newId 1 (some r)
  else pure ())
  setSm .kExecuteFile (.executefile { executefileArg s.sm with id := s.newId })
  sendSm s.targetId
  setSm .kStartApp (.starttask s.newId)
  pure (.inr .startTask)

def exitHandle : ServerM (Wait ⊕ State) := do
  let s ← get
  let id := exitappId s.rm
  modify fun s => { s with targetId := getPID s.apps id }
  if getPID s.apps id ≠ 0 then do
    exitApp id
    setSm .kExitApp (.exitapp id (exitappResult s.rm))
    pure (.inr .exit)
  else pure (.inr .err)

def openHandle : ServerM (Wait ⊕ State) := do
  let s ← get
  modify fun s => { s with targetId := s.rm.srcTask }
  match s.rm.type with
  | .kOpenDir => do
    setSm .kOpenDir (.opendir { opendirArg s.sm with dirname := (opendirArg s.rm).dirname })
    pure (.inr .open)
  | _ =>
    if (openArg s.rm).filename = stdinName then do
      setSm .kOpen (.open { openArg s.sm with fd := 0, exist := true, isdirectory := false })
      pure (.inr .init)
    else do
      setSm .kOpen (.open { openArg s.sm with filename := (openArg s.rm).filename, flags := (openArg s.rm).flags })
      pure (.inr .open)

/-- A file, or a directory (`AllocateFDState` is only entered on `kOpen` and `kOpenDir`). -/
def allocateFDHandle : ServerM (Wait ⊕ State) := do
  let s ← get
  let fd ← allocateFD s.targetId
  match s.rm.type with
  | .kOpenDir => do
    let r ← alloc (.newFat s.targetId (opendirArg s.rm).dirname)
    setFile s.targetId fd (some r)
    setSm .kOpenDir (.opendir { opendirArg s.sm with fd })
    pure (.inr .init)
  | _ => do
    let r ← alloc (.newFat s.targetId (openArg s.rm).filename)
    setFile s.targetId fd (some r)
    setSm .kOpen (.open { openArg s.sm with fd })
    pure (.inr .init)

/-- `app_info->Files()[fd]` when `fd`, a `size_t`, is an index and the place is not empty. -/
def fileAt (a : AppInfo) (fd : Int) : Option Ref :=
  if 0 ≤ fd then a.files[fd.toNat]?.join else none

/-- `ReadState` and `WriteState`, which differ in the `fd` they look at and the method they call. -/
def fdHandle (fd : Message → Int) (act : Ref → Message → ServerM (Option Wait)) (this : State) :
    ServerM (Wait ⊕ State) := do
  let s ← get
  modify fun s => { s with targetId := s.rm.srcTask }
  match fileAt (← appInfo s.rm.srcTask) (fd s.rm) with
  | none => do
    setError EBADF
    pure (.inr .init)
  | some r =>
    match ← act r s.rm with
    | some w => pure (.inl w)
    | none => pure (.inr this)

def waitingKeyHandle : ServerM (Wait ⊕ State) := do
  let s ← get
  if s.waiting then do
    modify fun s => { s with sm := s.rm, waiting := false }
    pure (.inr .waitingKey)
  else do
    modify fun s => { s with waitingId := s.rm.srcTask, sm := { s.sm with type := .kReceived } }
    sendSm s.rm.srcTask
    let a ← appInfo s.rm.srcTask
    modify fun s => { s with targetId := a.pTaskId, sm := { s.sm with type := .kWaitingKey }, waiting := true }
    pure (.inr .waitingKey)

/-- `HandleMessage`: the state it returns, or the receive it is in. -/
def handleMessage (env : Env) : State → ServerM (Wait ⊕ State)
  | .execFile => execFileHandle
  | .createTask => createTaskHandle env
  | .startTask => startTaskHandle env
  | .redirect => do
    let s ← get
    setSm .kOpen (.open { openArg s.sm with filename := s.redirectFilename, flags := O_CREAT })
    pure (.inr .redirect)
  | .exit => exitHandle
  | .open => openHandle
  | .allocateFD => allocateFDHandle
  | .read => fdHandle (fun m => (readArg m).fd) (readFd env) .read
  | .write => fdHandle (fun m => (writeArg m).fd) (writeFd env) .write
  | .waitingKey => waitingKeyHandle
  | s => pure (.inr s)

/-- `SendMessage`. -/
def sendMessage : State → ServerM State
  | .err => pure .init
  | .init => do
    sendSm (← get).targetId
    pure .init
  | .startTask => do
    sendSm 1
    let s ← get
    if s.pipe then do
      modify fun s => { s with sm := { s.sm with type := .kReady } }
      sendSm s.targetId
      pure .pipe
    else pure .init
  | .exit => do
    let s ← get
    sendSm s.targetId
    modify fun s => { s with sm := { s.sm with type := .kReceived } }
    sendSm (exitappId s.rm)
    pure .init
  | .read | .write => pure .init
  | .waitingKey => do
    let s ← get
    if s.waiting then do
      sendSm s.targetId
      pure .waitingKey
    else do
      sendSm s.waitingId
      pure .init
  | .pipe => pure .pipe
  | .allocateFD => pure .allocateFD
  | s => do
    sendSm (← get).fsId
    pure s

/-! ## From one receive to the next -/

/-- What is left of a round of the main loop after `HandleMessage`. -/
def finish : Wait ⊕ State → ServerM Wait
  | .inl w => pure w
  | .inr s => do
    let s ← sendMessage s
    pure (.receive s)

def turn (env : Env) (s : State) : ServerM Wait := do finish (← handleMessage env s)

/-- The server goes on with a message. -/
def resume (env : Env) (w : Wait) (m : Message) : ServerM Wait :=
  match w with
  | .receive s => do
    modify fun s => { s with rm := m }
    match ← receiveMessage env s with
    | none => pure (.receive s)
    | some s' => turn env s'
  | .redirectName => do
    modify fun s => { s with rm := m, redirectFilename := redirectName m }
    finish (← requestFile)
  | .terminalRead id terminal => do
    (match m.type with
    | .kRead => do
      send m id
      send endMsg id
    | _ => sendError false terminal)
    finish (.inr .read)
  | .fatRead r fsId => do
    match ← deref r with
    | .fat id file => do
      send m id
      if (readArg m).len ≠ 0 then do
        store r (.fat id { file with
          rdOff := file.rdOff + (readArg m).len.toNat
          rdCluster := (readArg m).cluster.toNat })
        pure (.fatRead r fsId)
      else finish (.inr .read)
    | _ => throw .nullptr
  | .fatWrite r fsId => do
    match ← deref r with
    | .fat id file =>
      if m.type = .kWrite then do
        forwardWrite r id file fsId m
        if (writeArg m).len = 0 then finish (.inr .write) else pure (.fatWrite r fsId)
      else pure (.fatWrite r fsId)
    | _ => throw .nullptr

/-- The task a closed receive waits for. -/
def source (s : Server) : Wait → Option UInt64
  | .receive .execFile | .receive .createTask | .receive .redirect | .receive .open => some s.fsId
  | .receive .pipe | .receive .waitingKey | .redirectName => some s.targetId
  | .receive _ => none
  | .terminalRead _ terminal => some terminal
  | .fatRead _ fsId => some fsId
  | .fatWrite r _ => s.objects[r]?.map (·.id)

/-- The receive takes `m` off the queue: a closed receive answers the message of another task with `kError`/retry and
waits on. -/
def deliver (env : Env) (w : Wait) (m : Message) : ServerM Wait := do
  match (← get).source w with
  | none => resume env w m
  | some t =>
    if m.srcTask = t then resume env w m
    else do
      sendError true m.srcTask
      pure w

end Server

end KinOS.Am
