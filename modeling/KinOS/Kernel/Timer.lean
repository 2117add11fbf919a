import KinOS.Kernel.Basic

/-!
# Timers (kernel/timer.hpp, kernel/timer.cpp)

| here | there |
| --- | --- |
| `Timer`             | `class Timer` (`timer.hpp:14-25`) |
| `TimerManager.push` | `timers_.push` of the `std::priority_queue<Timer>`: `operator<` (`timer.hpp:27-29`) puts the smallest timeout on top |
| `TimerManager.tick` | `TimerManager::Tick` (`timer.cpp:59-84`); the messages it hands to `task_manager->SendMessage`, in order, and its result |

The heap is kept as the list of its timers in the order `top()` yields them. `std::priority_queue`
leaves the order of equal timeouts open; the list keeps insertion order among them.
-/

namespace KinOS

structure Timer where
  timeout : UInt64
  value : Int
  taskId : UInt64
deriving DecidableEq, Repr

def kTimerFreq : UInt64 := 100

/-- `static_cast<int>(kTimerFreq * 0.02)`. -/
def kTaskTimerPeriod : UInt64 := 2

/-- `std::numeric_limits<int>::max()`. -/
def kTaskTimerValue : Int := 2147483647

structure TimerManager where
  tickCount : UInt64
  timers : List Timer
deriving DecidableEq, Repr

namespace TimerManager

def push : List Timer → Timer → List Timer
  | [], t => [t]
  | u :: us, t => if t.timeout < u.timeout then t :: u :: us else u :: push us t

/-- `AddTimer` (`timer.cpp:55-57`). -/
def addTimer (tm : TimerManager) (t : Timer) : TimerManager := { tm with timers := push tm.timers t }

/-- The constructor's sentinel (`timer.cpp:51-53`). -/
def init : TimerManager := ⟨0, push [] ⟨0xffffffffffffffff, 0, 0⟩⟩

/-- `kTimerTimeout` as `Tick` builds it: `src_task` is zero-initialised. -/
def timeoutMessage (t : Timer) : Message := ⟨.kTimerTimeout, 0, .timer t.timeout t.value⟩

/-- The loop of `Tick`: messages sent, whether the task timer fired, and the heap left.
One unit of fuel per timer handled; `none` is a loop that goes on. -/
def tickLoop (tick : UInt64) : Nat → List Timer → Option (List (UInt64 × Message) × Bool × List Timer)
  | 0, _ => none
  | _ + 1, [] => none
  | fuel + 1, t :: ts =>
    if tick < t.timeout then some ([], false, t :: ts)
    else if t.value = kTaskTimerValue then
      (tickLoop tick fuel (push ts ⟨tick + kTaskTimerPeriod, kTaskTimerValue, 1⟩)).map
        fun (ms, _, rest) => (ms, true, rest)
    else
      (tickLoop tick fuel ts).map fun (ms, b, rest) => ((t.taskId, timeoutMessage t) :: ms, b, rest)

/-- `Tick`. Every timer is handled at most once, the task timer's successor included. -/
def tick (tm : TimerManager) : Option (TimerManager × List (UInt64 × Message) × Bool) :=
  let n := tm.tickCount + 1
  (tickLoop n (2 * tm.timers.length + 2) tm.timers).map fun (ms, b, rest) => (⟨n, rest⟩, ms, b)

/-- `CreateTimer` (`syscall.cpp:39-59`), called by task `taskId`; the timer it adds. -/
def createTimer (tm : TimerManager) (mode : UInt64) (timerValue : Int) (timeoutMs taskId : UInt64) :
    Option TimerManager :=
  if timerValue ≤ 0 then none
  else
    let timeout := timeoutMs * kTimerFreq / 1000
    let timeout := if mode &&& 1 = 1 then timeout + tm.tickCount else timeout
    some (tm.addTimer ⟨timeout, -timerValue, taskId⟩)

end TimerManager

end KinOS
