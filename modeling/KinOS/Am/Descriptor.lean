import KinOS.Kernel.Basic
import KinOS.Fs.Descriptor

/-!
# The application manager's data: descriptors, applications, variables

| here | there |
| --- | --- |
| `PipeFileDescriptor`, `FileDescriptor` | the classes of `servers/am/filedescriptor.hpp` |
| `AppInfo`, `AppState`     | `servers/am/appmanager.hpp:8-27` |
| `Server`                  | `class ApplicationManagementServer` (`servers/am/am.hpp:19-55`) |
| `Undefined`               | what C++ leaves undefined on the way |
| `Server.send`             | `SyscallSendMessage` |
| `getAppInfo`, `getPID`    | `AppManager::GetAppInfo`, `GetPID` (`appmanager.cpp:28-46`) |
| `newApp`, `initializeFileDescriptor`, `copyFileDescriptor` | `appmanager.cpp:12-26`, `78-108` |
| `allocateFD`, `exitApp`   | `appmanager.cpp:48-76` |

Descriptors are shared by pointer (`std::shared_ptr`): a table holds references into `objects`. `Server.sent` is what
the server has sent since it was created and `Server.created` the tasks it has made the kernel create; the code never
reads either. `SyscallSetCommand` and `SyscallSetArgument` only write the new task's strings and are left out.
-/

namespace KinOS.Am

/-- A `std::shared_ptr<FileDescriptor>` that is not null: the index of its object. -/
abbrev Ref := Nat

structure PipeFileDescriptor where
  id : UInt64
  data : Vector UInt8 16
  len : Nat
  closed : Bool
deriving DecidableEq, Repr

/-- `PipeFileDescriptor(id)`; the constructor leaves `data_` as it is. -/
def PipeFileDescriptor.new (id : UInt64) : PipeFileDescriptor := ⟨id, .replicate 16 0, 0, false⟩

inductive FileDescriptor
  | terminal (id terminalServerId : UInt64)
  | fat (id : UInt64) (file : Fs.FatFileDescriptor)
  | pipe (p : PipeFileDescriptor)
deriving DecidableEq

/-- `id_`. -/
def FileDescriptor.id : FileDescriptor → UInt64
  | terminal id _ => id
  | fat id _ => id
  | pipe p => p.id

/-- `FatFileDescriptor(id, filename)`. -/
def FileDescriptor.newFat (id : UInt64) (filename : List UInt8) : FileDescriptor := fat id ⟨filename, 0, 0, 0⟩

inductive AppState
  | run | kill
deriving DecidableEq, Repr

structure AppInfo where
  taskId : UInt64
  pTaskId : UInt64
  state : AppState
  files : List (Option Ref)
deriving DecidableEq, Repr

/-- A null pointer followed, an index outside a vector or an array, a function left without its `return`, or a loop
that does not end. -/
inductive Undefined
  | nullptr | outOfRange | noReturn | diverges
deriving DecidableEq, Repr

structure Server where
  /-- the task id of the application manager -/
  id : UInt64
  sm : Message
  rm : Message
  apps : List AppInfo
  objects : List FileDescriptor
  fsId : UInt64
  targetId : UInt64
  newId : UInt64
  command : List UInt8
  argument : List UInt8
  redirect : Bool
  pipe : Bool
  piped : Bool
  redirectFilename : List UInt8
  pipeFd : Option Ref
  waitingId : UInt64
  waiting : Bool
  sent : List (UInt64 × Message)
  created : List UInt64

abbrev ServerM := EStateM Undefined Server

/-- What the system calls of one step answer: `FindServer` for the two servers, `CreateNewTask`. -/
structure Env where
  fs : Option UInt64
  terminal : UInt64
  newTask : Option UInt64

/-! ## The union `arg`

A member is read as the sender left it; bytes that another member left are read as zero, and no receiver looks at
them. -/

def executefileArg (m : Message) : ExecuteFileArg :=
  match m.arg with
  | .executefile e => e
  | _ => ⟨[], [], false, false, 0, false, false⟩

def openArg (m : Message) : OpenArg :=
  match m.arg with
  | .open o => o
  | _ => ⟨[], 0, false, false, 0⟩

def opendirArg (m : Message) : OpenDirArg :=
  match m.arg with
  | .opendir o => o
  | _ => ⟨[], false, false, 0⟩

def readArg (m : Message) : ReadArg :=
  match m.arg with
  | .read r => r
  | _ => ⟨[], 0, .replicate 16 0, 0, 0, 0, 0⟩

def writeArg (m : Message) : WriteArg :=
  match m.arg with
  | .write w => w
  | _ => ⟨[], 0, .replicate 16 0, 0, .replicate 3 0, 0, 0, 0⟩

/-- `arg.redirect.filename`: the name that every member with a file name starts with. -/
def redirectName (m : Message) : List UInt8 :=
  match m.arg with
  | .redirect f => f
  | .open o => o.filename
  | .opendir o => o.dirname
  | .read r => r.filename
  | .write w => w.filename
  | .executefile e => e.filename
  | _ => []

def exitappId (m : Message) : UInt64 :=
  match m.arg with
  | .exitapp id _ => id
  | _ => 0

def exitappResult (m : Message) : UInt64 :=
  match m.arg with
  | .exitapp _ r => r
  | _ => 0

def errorErr (m : Message) : Int :=
  match m.arg with
  | .error _ e => e
  | _ => 0

/-! ## Sending -/

namespace Server

def post (s : Server) (m : Message) (id : UInt64) : Server :=
  { s with sent := s.sent ++ [(id, { m with srcTask := s.id })] }

/-- `SyscallSendMessage(&m, id)`. -/
def send (m : Message) (id : UInt64) : ServerM Unit := modify fun s => s.post m id

/-- `server_->sm_.type = type` with the argument. -/
def setSm (type : MsgType) (arg : Arg) : ServerM Unit := modify fun s => { s with sm := ⟨type, s.sm.srcTask, arg⟩ }

/-- `SyscallSendMessage(&server_->sm_, id)`. -/
def sendSm (id : UInt64) : ServerM Unit := modify fun s => s.post s.sm id

/-- Follow a pointer to a descriptor. -/
def deref (r : Ref) : ServerM FileDescriptor := do
  match (← get).objects[r]? with
  | some d => pure d
  | none => throw .nullptr

def store (r : Ref) (d : FileDescriptor) : ServerM Unit := modify fun s => { s with objects := s.objects.set r d }

/-- `new`: the object gets the next reference. -/
def alloc (d : FileDescriptor) : ServerM Ref := do
  let s ← get
  set { s with objects := s.objects ++ [d] }
  pure s.objects.length

end Server

/-! ## The table of applications -/

/-- `GetAppInfo`: the first entry with the id. -/
def getAppInfo (apps : List AppInfo) (taskId : UInt64) : Option AppInfo := apps.find? fun t => t.taskId = taskId

def getPID (apps : List AppInfo) (taskId : UInt64) : UInt64 := ((getAppInfo apps taskId).map (·.pTaskId)).getD 0

/-- A change of the entry that `GetAppInfo` points to. -/
def modifyApp (taskId : UInt64) (f : AppInfo → AppInfo) : List AppInfo → List AppInfo
  | [] => []
  | a :: as => if a.taskId = taskId then f a :: as else a :: modifyApp taskId f as

namespace Server

def updateApp (taskId : UInt64) (f : AppInfo → AppInfo) : ServerM Unit :=
  modify fun s => { s with apps := modifyApp taskId f s.apps }

/-- `GetAppInfo(taskId)->`. -/
def appInfo (taskId : UInt64) : ServerM AppInfo := do
  match getAppInfo (← get).apps taskId with
  | some a => pure a
  | none => throw .nullptr

/-- `app_info->Files()[i] = p`. -/
def setFile (taskId : UInt64) (i : Nat) (p : Option Ref) : ServerM Unit := do
  let a ← appInfo taskId
  if i < a.files.length then updateApp taskId fun a => { a with files := a.files.set i p }
  else throw .outOfRange

/-- Three descriptors of the terminal, `terminal` being what `FindServer` answered. -/
def initializeFileDescriptor (terminal : UInt64) (taskId : UInt64) : ServerM Unit :=
  [0, 1, 2].forM fun _ => do
    let r ← alloc (.terminal taskId terminal)
    updateApp taskId fun a => { a with files := a.files ++ [some r] }

/-- The parent's pointers go to the child's places from 0 on. With parent and child the same entry the first loop
chases its own end. -/
def copyFileDescriptor (taskId pTaskId : UInt64) : ServerM Unit := do
  let s ← get
  match getAppInfo s.apps taskId, getAppInfo s.apps pTaskId with
  | some _, some parent =>
    if taskId = pTaskId ∧ parent.files ≠ [] then throw .diverges
    else updateApp taskId fun a =>
      { a with files := parent.files ++ (a.files ++ .replicate parent.files.length none).drop parent.files.length }
  | _, _ => pure ()

/-- `NewApp`. -/
def newApp (terminal : UInt64) (taskId pTaskId : UInt64) : ServerM Unit := do
  let s ← get
  modify fun s => { s with apps := s.apps ++ [⟨taskId, pTaskId, .run, []⟩] }
  (if (getAppInfo s.apps pTaskId).isNone then initializeFileDescriptor terminal taskId
   else copyFileDescriptor taskId pTaskId)

/-- `AllocateFD`: a free place, or one more. -/
def allocateFD (taskId : UInt64) : ServerM Nat := do
  let a ← appInfo taskId
  match a.files.findIdx? (·.isNone) with
  | some i => pure i
  | none => do
    updateApp taskId fun a => { a with files := a.files ++ [none] }
    pure a.files.length

/-- `kError` with `retry`, sent to a task. -/
def sendError (retry : Bool) (id : UInt64) : ServerM Unit := send ⟨.kError, 0, .error retry 0⟩ id

/-- `Close`: only a pipe does anything. -/
def close (r : Ref) : ServerM Unit := do
  match ← deref r with
  | .pipe p => do
    store r (.pipe { p with closed := true })
    sendError false p.id
  | _ => pure ()

def closeAll : List (Option Ref) → ServerM Unit
  | [] => pure ()
  | none :: _ => throw .nullptr
  | some r :: ps => do
    close r
    closeAll ps

/-- The rounds of `ExitApp`: each takes the first running entry with the id, so they go through the table in order. -/
def exitApps (taskId : UInt64) : List AppInfo → ServerM (List AppInfo)
  | [] => pure []
  | a :: as => do
    let a' ← (if a.taskId = taskId ∧ a.state = .run then do
        closeAll a.files
        pure { a with files := [], state := .kill }
      else pure a)
    let as' ← exitApps taskId as
    pure (a' :: as')

def exitApp (taskId : UInt64) : ServerM Unit := do
  let apps ← exitApps taskId (← get).apps
  modify fun s => { s with apps := apps }

end Server

end KinOS.Am
