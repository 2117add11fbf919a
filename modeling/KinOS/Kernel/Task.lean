import KinOS.Kernel.Basic

/-!
# The task manager (kernel/task.hpp, kernel/task.cpp)

| here | there |
| --- | --- |
| `Task`                  | `class Task` (`task.hpp:26-80`) |
| `Task.initContext`      | `Task::InitContext` (`task.cpp:22-41`) |
| `Task.receiveMessage`   | `Task::ReceiveMessage` (`task.cpp:64-72`) |
| `TaskManager`           | `class TaskManager` (`task.hpp:82-122`) |
| `TaskManager.boot`      | `TaskManager::TaskManager` (`task.cpp:82-89`) |
| `rotateCurrentRunQueue` | `TaskManager::RotateCurrentRunQueue` (`task.cpp:306-328`) |
| `sleep`, `wakeup`, …    | the members of the same name (`task.cpp:91-289`) |

A `Task *` is a number: the position of the object among all the tasks ever created. Ids are
the 64-bit `id_` and wrap, pointers do not. Machine registers are not modelled, so `SwitchContext`
and `RestoreContext` leave no trace; of `context_` the model keeps what `InitContext` put there.
`none` is undefined behaviour: `front()` of an empty queue, or a pointer to an erased task.
-/

namespace KinOS

/-- A `Task *`. -/
abbrev Ptr := Nat

/-- An index of `running_`; `kMaxLevel` is 3. -/
abbrev Level := Fin 4

instance levelNeZero : NeZero 4 := ⟨by decide⟩

/-- The functions `InitContext` is called with. -/
inductive TaskFunc
  | taskIdle | taskInitServer | taskServer | taskApp
deriving DecidableEq, Repr

/-- What `InitContext` stores: entry point and its two arguments. -/
structure TaskContext where
  rip : TaskFunc
  rdi : UInt64
  rsi : UInt64
deriving DecidableEq, Repr

structure Task where
  ptr : Ptr
  id : UInt64
  name : String := ""
  level : Level := 1
  running : Bool := false
  msgs : List Message := []
  /-- The `InitContext` calls made so far; the last one is what `context_` holds. -/
  inits : List TaskContext := []
  buf : List UInt8 := []
  dpagingBegin : UInt64 := 0
  dpagingEnd : UInt64 := 0
deriving DecidableEq, Repr

/-- `Task::InitContext`. -/
def Task.initContext (t : Task) (f : TaskFunc) (data : UInt64) : Task :=
  { t with inits := t.inits ++ [⟨f, t.id, data⟩] }

/-- `Task::ReceiveMessage`: the front of `msgs_`, popped. -/
def Task.receiveMessage (t : Task) : Option Message × Task :=
  match t.msgs with
  | [] => (none, t)
  | m :: ms => (some m, { t with msgs := ms })

/-- `buf_.resize(n)`. -/
def resize (l : List UInt8) (n : Nat) : List UInt8 := l.take n ++ List.replicate (n - l.length) 0

structure TaskManager where
  tasks : List Task
  latestId : UInt64
  /-- The next object `new Task` returns. -/
  nextPtr : Ptr
  running : Level → List Ptr
  currentLevel : Level
  levelChanged : Bool
  /-- `finish_tasks_` -/
  finishTasks : List (UInt64 × Int)
  /-- `finish_waiter_` -/
  finishWaiter : List (UInt64 × Ptr)

namespace TaskManager

/-- `*p`, when `p` is still owned by `tasks_`. -/
def deref (tm : TaskManager) (p : Ptr) : Option Task := tm.tasks.find? (·.ptr == p)

/-- `std::find_if(tasks_, t->ID() == id)`. -/
def find (tm : TaskManager) (id : UInt64) : Option Task := tm.tasks.find? (·.id == id)

/-- `FindTask(const char *)` (`task.cpp:176-186`): 0 when no task has the name. -/
def findTask (tm : TaskManager) (name : String) : UInt64 :=
  match tm.tasks.find? (·.name == name) with
  | none => 0
  | some t => t.id

/-- Write through a `Task *`. -/
def modify (tm : TaskManager) (p : Ptr) (f : Task → Task) : TaskManager :=
  { tm with tasks := tm.tasks.map fun t => if t.ptr = p then f t else t }

def setQueue (tm : TaskManager) (l : Level) (q : List Ptr) : TaskManager :=
  { tm with running := Function.update tm.running l q }

/-- `&CurrentTask()` (`task.cpp:174`). -/
def currentTask (tm : TaskManager) : Option Ptr := (tm.running tm.currentLevel).head?

/-- `CurrentTask().Context()`, read to continue with that task. -/
def resume (tm : TaskManager) : Option TaskManager := tm.currentTask.map fun _ => tm

/-- `NewTask` (`task.cpp:91-94`). -/
def newTask (tm : TaskManager) : TaskManager × Ptr :=
  ({ tm with
      tasks := tm.tasks ++ [{ ptr := tm.nextPtr, id := tm.latestId + 1 }]
      latestId := tm.latestId + 1
      nextPtr := tm.nextPtr + 1 }, tm.nextPtr)

/-- The loop `for (lv = kMaxLevel; lv >= 0; --lv)` (`task.cpp:319-324`). -/
def highestLevel (running : Level → List Ptr) (current : Level) : Level :=
  ([3, 2, 1, 0].find? fun lv => !(running lv).isEmpty).getD current

/-- `RotateCurrentRunQueue`. -/
def rotateCurrentRunQueue (tm : TaskManager) (currentSleep : Bool) : Option (TaskManager × Ptr) :=
  match tm.running tm.currentLevel with
  | [] => none
  | current :: rest =>
    let q := if currentSleep then rest else rest ++ [current]
    let tm := tm.setQueue tm.currentLevel q
    let changed := tm.levelChanged || q.isEmpty
    if changed then
      some ({ tm with levelChanged := false, currentLevel := highestLevel tm.running tm.currentLevel }, current)
    else some (tm, current)

/-- `SwitchTask` (`task.cpp:96-103`). -/
def switchTask (tm : TaskManager) : Option TaskManager := do
  let (tm, _) ← tm.rotateCurrentRunQueue false
  tm.resume

/-- `Sleep(Task *)` (`task.cpp:105-119`). -/
def sleep (tm : TaskManager) (p : Ptr) : Option TaskManager := do
  let t ← tm.deref p
  if !t.running then return tm
  let tm := tm.modify p fun t => { t with running := false }
  let front ← tm.currentTask
  if p = front then
    let (tm, _) ← tm.rotateCurrentRunQueue true
    tm.resume
  else
    return tm.setQueue t.level ((tm.running t.level).filter (· ≠ p))

/-- `ChangeLevelRunning` (`task.cpp:263-289`); `none` is a negative level. -/
def changeLevelRunning (tm : TaskManager) (t : Task) (level : Option Level) : Option TaskManager :=
  match level with
  | none => some tm
  | some lv =>
    if lv = t.level then some tm else do
      let front ← tm.currentTask
      if t.ptr ≠ front then
        -- change level of other task
        let tm := tm.setQueue t.level ((tm.running t.level).filter (· ≠ t.ptr))
        let tm := tm.setQueue lv (tm.running lv ++ [t.ptr])
        let tm := tm.modify t.ptr fun t => { t with level := lv }
        return if tm.currentLevel < lv then { tm with levelChanged := true } else tm
      else
        -- change level myself
        let tm := tm.setQueue tm.currentLevel (tm.running tm.currentLevel).tail
        let tm := tm.setQueue lv (t.ptr :: tm.running lv)
        let tm := tm.modify t.ptr fun t => { t with level := lv }
        return if tm.currentLevel ≤ lv then { tm with currentLevel := lv }
          else { tm with currentLevel := lv, levelChanged := true }

/-- `Wakeup(Task *, int)` (`task.cpp:133-150`). -/
def wakeup (tm : TaskManager) (p : Ptr) (level : Option Level) : Option TaskManager := do
  let t ← tm.deref p
  if t.running then tm.changeLevelRunning t level
  else
    let lv := level.getD t.level
    let tm := tm.modify p fun t => { t with level := lv, running := true }
    let tm := tm.setQueue lv (tm.running lv ++ [p])
    return if tm.currentLevel < lv then { tm with levelChanged := true } else tm

/-- `Sleep(uint64_t)` (`task.cpp:121-131`). -/
def sleepId (tm : TaskManager) (id : UInt64) : Option (TaskManager × Error) :=
  match tm.find id with
  | none => some (tm, .kNoSuchTask)
  | some t => (tm.sleep t.ptr).map (·, .kSuccess)

/-- `Wakeup(uint64_t, int)` (`task.cpp:152-161`). -/
def wakeupId (tm : TaskManager) (id : UInt64) (level : Option Level) : Option (TaskManager × Error) :=
  match tm.find id with
  | none => some (tm, .kNoSuchTask)
  | some t => (tm.wakeup t.ptr level).map (·, .kSuccess)

/-- `Task::SendMessage` (`task.cpp:59-62`): push, then `Wakeup()`. -/
def taskSendMessage (tm : TaskManager) (p : Ptr) (msg : Message) : Option TaskManager :=
  (tm.modify p fun t => { t with msgs := t.msgs ++ [msg] }).wakeup p none

/-- `TaskManager::SendMessage` (`task.cpp:163-172`). -/
def sendMessage (tm : TaskManager) (id : UInt64) (msg : Message) : Option (TaskManager × Error) :=
  match tm.find id with
  | none => some (tm, .kNoSuchTask)
  | some t => (tm.taskSendMessage t.ptr msg).map (·, .kSuccess)

/-- `ExpandTaskBuffer` (`task.cpp:194-203`). -/
def expandTaskBuffer (tm : TaskManager) (id : UInt64) (bytes : UInt32) : TaskManager × Error :=
  match tm.find id with
  | none => (tm, .kNoSuchTask)
  | some t => (tm.modify t.ptr fun t => { t with buf := resize t.buf bytes.toNat }, .kSuccess)

/-- The body `StartAppTask` and `StartServerTask` share: `InitContext(f, data).Wakeup()`. -/
def startTask (tm : TaskManager) (f : TaskFunc) (id data : UInt64) : Option (TaskManager × Error) :=
  match tm.find id with
  | none => some (tm, .kNoSuchTask)
  | some t => ((tm.modify t.ptr fun t => t.initContext f data).wakeup t.ptr none).map (·, .kSuccess)

/-- `StartAppTask` (`task.cpp:223-231`). -/
def startAppTask (tm : TaskManager) (id amId : UInt64) : Option (TaskManager × Error) :=
  tm.startTask .taskApp id amId

/-- `StartServerTask` (`task.cpp:233-241`). -/
def startServerTask (tm : TaskManager) (id initId : UInt64) : Option (TaskManager × Error) :=
  tm.startTask .taskServer id initId

/-- `Finish` (`task.cpp:243-261`). -/
def finish (tm : TaskManager) (exitCode : Int) : Option TaskManager := do
  let (tm, current) ← tm.rotateCurrentRunQueue true
  let t ← tm.deref current
  let tm := { tm with
    tasks := tm.tasks.filter (·.ptr ≠ current)
    finishTasks := (t.id, exitCode) :: tm.finishTasks.filter (·.1 ≠ t.id) }
  match tm.finishWaiter.find? (·.1 == t.id) with
  | none => tm.resume
  | some (_, waiter) =>
    let tm := { tm with finishWaiter := tm.finishWaiter.filter (·.1 ≠ t.id) }
    let tm ← tm.wakeup waiter none
    tm.resume

/-- The members' initial values (`task.hpp:110-118`). -/
def init : TaskManager where
  tasks := []
  latestId := 0
  nextPtr := 0
  running := fun _ => []
  currentLevel := 3
  levelChanged := false
  finishTasks := []
  finishWaiter := []

/-- The constructor: task 1 (the system task) at the top level, task 2 (idle) at level 0. -/
def boot : TaskManager :=
  let (tm, task) := init.newTask
  let tm := tm.modify task fun t => { t with level := tm.currentLevel, running := true }
  let tm := tm.setQueue tm.currentLevel (tm.running tm.currentLevel ++ [task])
  let (tm, idle) := tm.newTask
  let tm := tm.modify idle fun t => { t.initContext .taskIdle 0 with level := 0, running := true }
  tm.setQueue 0 (tm.running 0 ++ [idle])

/-- `&task` of the constructor, the system task. -/
def systemPtr : Ptr := 0

/-- `&idle`. -/
def idlePtr : Ptr := 1

end TaskManager

end KinOS
