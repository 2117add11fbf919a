import KinOS.Kernel.Ipc
import KinOS.Kernel.Timer
import KinOS.Lib.TransitionSystem

/-!
# The kernel as a machine: system calls, the system task and interrupts

One processor runs `CurrentTask()`. Each task has a place in its program (`Pc`): in user code, or
between two critical sections of a system call, of the system task's loop or of the code that ends an
application or a server. A step is one critical section of the current task, a system call it makes
from user code, or an interrupt.

| here | there |
| --- | --- |
| `Pc.send`            | `syscall::SendMessage` (`syscall.cpp:197-214`), before its second `cli` |
| `Pc.openReceive`     | `syscall::OpenReceiveMessage` (`:124-152`), loop head with `i` stored |
| `Pc.closedReceive`, `Pc.closedReject` | `syscall::ClosedReceiveMessage` (`:154-195`), its two sections |
| `Pc.system`, `Pc.systemGot`, `Pc.systemReply` | the loop of `KernelMainNewStack` (`main.cpp:74-114`) |
| `Pc.appExit`, `Pc.appWait`, `Pc.finishing`    | `TaskApp` after `ExecuteApp` (`system.cpp:334-371`) |
| `Pc.serverExit`      | `TaskServer` after `ExecuteServer` (`system.cpp:313-322`) |
| `Event.tick`         | `LAPICTimerOnInterrupt` (`timer.cpp:89-96`) |
| `Event.kernelSend`   | `SendMessage` by an interrupt handler or a driver: `IntHandlerXHCI` (`interrupt.cpp:29-32`), the keyboard and mouse observers |
| `boot`               | `InitializeTask` (`task.cpp:332-339`), `InitializeSystemTask` (`system.cpp:379-396`) |

System calls that touch neither queues nor tasks are left out; so is `printk`. The sends of `TaskApp` and
`TaskServer`, `StartAppTask` and `Finish` run with interrupts on; each is one step here. `sent`,
`returned` and `log` are history: what was pushed to a task's queue and by whom, what the receive calls
stored in the task's buffers, and what became of each message popped from its queue, in order.
-/

namespace KinOS

/-- Where a task is in its program. -/
inductive Pc
  /-- `context_` was never initialised. -/
  | fresh
  /-- `while (true) hlt`. -/
  | halted
  | user
  | send (msg : Message) (dst : UInt64)
  | openReceive (len i : Nat)
  | closedReceive (len i : Nat) (target : UInt64)
  | closedReject (len i : Nat) (target : UInt64) (msg : Message)
  | system
  | systemGot (msg : Message)
  | systemReply (dst : UInt64)
  | appExit (amId : UInt64) (msg : Message) (ec : Int)
  | appWait (amId : UInt64) (msg : Message) (ec : Int)
  | serverExit (initId : UInt64) (name : List UInt8)
  | finishing (ec : Int)
deriving DecidableEq, Repr

/-- Who handed a message to `TaskManager::SendMessage`. -/
inductive Producer
  /-- Task `p`, of id `id`, by the `SendMessage` system call. -/
  | syscall (p : Ptr) (id : UInt64)
  /-- Kernel code running as task `p`, under `p`'s own id. -/
  | kernel (p : Ptr)
  /-- `TaskServer` running as task `p`; it writes 1 into `src_task`. -/
  | exitServer (p : Ptr)
  | timer
  | driver
deriving DecidableEq, Repr

/-- The task a message originates from. -/
def Producer.task : Producer → Option Ptr
  | .syscall p _ | .kernel p | .exitServer p => some p
  | .timer | .driver => none

/-- What became of a popped message. -/
inductive Fate
  /-- Stored in the receiver's buffer, or read by kernel code. -/
  | kept
  /-- Answered with `kError`, pushed to the queue of `reached` if there was a task of that id. -/
  | bounced (reached : Option Ptr)
  /-- Forgotten: the receiver's context was initialised anew before it answered. -/
  | dropped
deriving DecidableEq, Repr

structure Kernel where
  tm : TaskManager
  timer : TimerManager
  pc : Ptr → Pc
  sent : Ptr → List (Producer × Message)
  returned : Ptr → List Message
  log : Ptr → List (Message × Fate)

inductive Event
  | tick
  | kernelSend (id : UInt64) (msg : Message)
  | sysSend (buf : Message) (dst : UInt64)
  | sysOpen (len : Nat)
  | sysClosed (len : Nat) (target : UInt64)
  | sysNewTask
  | sysCreateTimer (mode : UInt64) (timerValue : Int) (timeoutMs : UInt64)
  | setName (name : String)
  | sysExit (ec : Int) (arg : List UInt8)
  | run
deriving DecidableEq, Repr

namespace Kernel

def setPc (k : Kernel) (p : Ptr) (pc : Pc) : Kernel := { k with pc := Function.update k.pc p pc }

def note (k : Kernel) (p : Ptr) (m : Message) (f : Fate) : Kernel :=
  { k with log := Function.update k.log p (k.log p ++ [(m, f)]) }

/-- A receive call stores `m` in the buffer of task `p`. -/
def store (k : Kernel) (p : Ptr) (m : Message) : Kernel :=
  { k.note p m .kept with returned := Function.update k.returned p (k.returned p ++ [m]) }

/-- `task_manager->SendMessage(id, msg)` by `who`. -/
def send (k : Kernel) (who : Producer) (id : UInt64) (msg : Message) : Option Kernel := do
  let (tm, _) ← k.tm.sendMessage id msg
  let sent := match k.tm.find id with
    | none => k.sent
    | some t => Function.update k.sent t.ptr (k.sent t.ptr ++ [(who, msg)])
  return { k with tm := tm, sent := sent }

def sendAll (k : Kernel) : List (UInt64 × Message) → Option Kernel
  | [] => some k
  | (id, msg) :: ms => do
    let k ← k.send .timer id msg
    k.sendAll ms

/-- `LAPICTimerOnInterrupt`. -/
def onTick (k : Kernel) : Option Kernel := do
  let (timer, ms, switch) ← k.timer.tick
  let k ← { k with timer := timer }.sendAll ms
  if switch then
    let tm ← k.tm.switchTask
    return { k with tm := tm }
  else return k

/-- Task `p` leaves the place it is in; a message it was about to reject is forgotten. -/
def abandon (k : Kernel) (p : Ptr) : Kernel :=
  match k.pc p with
  | .closedReject _ _ _ m => k.note p m .dropped
  | _ => k

/-- `StartAppTask`/`StartServerTask` from the system task's loop: the started task begins in its entry
function. The context of the task that runs is saved over by the next switch. -/
def start (k : Kernel) (f : TaskFunc) (id data : UInt64) : Option Kernel := do
  let (tm, _) ← k.tm.startTask f id data
  let k' := { k with tm := tm }
  return match k.tm.find id with
    | none => k'
    | some t => if k.tm.currentTask = some t.ptr then k' else (k'.abandon t.ptr).setPc t.ptr .user

/-- The `switch (rmsg->type)` of the system task (`main.cpp:84-114`). -/
def systemHandle (k : Kernel) (p : Ptr) (m : Message) : Option Kernel :=
  match m.type with
  | .kExpandTaskBuffer =>
    some ({ k with tm := (k.tm.expandTaskBuffer m.expandId m.expandBytes).1 }.setPc p (.systemReply m.srcTask))
  | .kStartServer => (k.start .taskServer m.starttaskId m.srcTask).map (·.setPc p .system)
  | .kStartApp => (k.start .taskApp m.starttaskId m.srcTask).map (·.setPc p .system)
  | _ => some (k.setPc p .system)

/-- What ends the program of task `t`: the code after `CallApp` returned `ec`. -/
def exitPc (t : Task) (ec : Int) (arg : List UInt8) : Pc :=
  match t.inits.getLast? with
  | some ⟨.taskApp, _, amId⟩ =>
    .appExit amId ⟨.kExitApp, t.id, .exitapp t.id (UInt64.ofInt ec)⟩ ec
  | some ⟨.taskServer, _, initId⟩ => .serverExit initId arg
  | _ => .halted

/-- The next critical section of the current task `p`. -/
def runSection (k : Kernel) (p : Ptr) : Option Kernel := do
  let t ← k.tm.deref p
  match k.pc p with
  | .fresh | .halted | .user => none
  | .send msg dst => return (← k.send (.syscall p t.id) dst msg).setPc p .user
  | .openReceive len i =>
    if len ≤ i then return k.setPc p .user
    let (tm, r) ← k.tm.takeMessage p i
    let k := { k with tm := tm }
    match r with
    | .slept => return k
    | .empty => return k.setPc p .user
    | .got m => return (k.store p m).setPc p (.openReceive len (i + 1))
  | .closedReceive len i target =>
    if len ≤ i then return k.setPc p .user
    let (tm, r) ← k.tm.takeMessage p i
    let k := { k with tm := tm }
    match r with
    | .slept => return k
    | .empty => return k.setPc p .user
    | .got m =>
      if m.srcTask ≠ target then return k.setPc p (.closedReject len i target m)
      else return (k.store p m).setPc p (.closedReceive len (i + 1) target)
  | .closedReject len i target m =>
    let k' ← k.send (.kernel p) m.srcTask (TaskManager.errorRetry t.id)
    let reached := (k.tm.find m.srcTask).map (·.ptr)
    return (k'.note p m (.bounced reached)).setPc p (.closedReceive len i target)
  | .system =>
    let (tm, r) ← k.tm.takeMessage p 0
    let k := { k with tm := tm }
    match r with
    | .got m => return (k.note p m .kept).setPc p (.systemGot m)
    | _ => return k
  | .systemGot m => k.systemHandle p m
  | .systemReply dst => return (← k.send (.kernel p) dst ⟨.kExpandTaskBuffer, 1, .unset⟩).setPc p .system
  | .appExit amId msg ec => return (← k.send (.kernel p) amId msg).setPc p (.appWait amId msg ec)
  | .appWait amId msg ec =>
    let (tm, r) ← k.tm.takeMessage p 0
    let k := { k with tm := tm }
    match r with
    | .got m =>
      let k := k.note p m .kept
      if m.type = .kError ∧ m.errorRetry = true then return k.setPc p (.appExit amId msg ec)
      else if m.type = .kReceived then return k.setPc p (.finishing ec)
      else return k.setPc p (.appWait amId msg ec)
    | _ => return k
  | .serverExit initId name =>
    return (← k.send (.exitServer p) initId ⟨.kExitServer, 1, .exitserver name⟩).setPc p (.finishing 1)
  | .finishing ec => return { k with tm := ← k.tm.finish ec }

/-- A system call made by the current task `p` from user code. -/
def sysCall (k : Kernel) (p : Ptr) (e : Event) : Option Kernel := do
  let t ← k.tm.deref p
  if k.pc p ≠ .user then none
  match e with
  | .sysSend buf dst => return k.setPc p (.send { buf with srcTask := t.id } dst)
  | .sysOpen len => return k.setPc p (.openReceive len 0)
  | .sysClosed len target => return k.setPc p (.closedReceive len 0 target)
  | .sysNewTask => return { k with tm := k.tm.newTask.1 }
  | .sysCreateTimer mode v ms => return { k with timer := (k.timer.createTimer mode v ms t.id).getD k.timer }
  | .setName name => return { k with tm := k.tm.modify p fun t => { t with name := name } }
  | .sysExit ec arg => return k.setPc p (exitPc t ec arg)
  | _ => none

/-- One step of the machine. -/
def step (k : Kernel) (e : Event) : Option Kernel :=
  match e with
  | .tick => k.onTick
  | .kernelSend id msg => k.send .driver id msg
  | .run => do k.runSection (← k.tm.currentTask)
  | e => do k.sysCall (← k.tm.currentTask) e

/-- The tasks when the system task enters its loop: task 3 runs the init server. The address of its
`DataOfServer` is not modelled. -/
def bootTasks : Option TaskManager :=
  let tm := TaskManager.boot.modify TaskManager.systemPtr fun t => { t with name := "systemtask" }
  let (tm, initTask) := tm.newTask
  (tm.modify initTask fun t => t.initContext .taskInitServer 0).wakeup initTask none

/-- `&init_task`. -/
def initPtr : Ptr := 2

/-- Every task at its place, and no history. -/
def atBoot (tm : TaskManager) : Kernel where
  tm := tm
  timer := TimerManager.init.addTimer ⟨TimerManager.init.tickCount + kTaskTimerPeriod, kTaskTimerValue, 1⟩
  pc := fun p =>
    if p = TaskManager.systemPtr then .system
    else if p = TaskManager.idlePtr then .halted
    else if p = initPtr then .user
    else .fresh
  sent := fun _ => []
  returned := fun _ => []
  log := fun _ => []

def boot : Option Kernel := bootTasks.map atBoot

end Kernel

end KinOS
