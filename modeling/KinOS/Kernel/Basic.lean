import Mathlib
/-!
# Vocabulary shared by the kernel and the servers: `Error::Code` and `Message`

| here | there |
| --- | --- |
| `Error`          | `Error::Code` (`kernel/error.hpp:8-39`) |
| `MsgType`        | `Message::Type` (`libs/common/message.hpp:7-54`) |
| `ReadArg`, `WriteArg` | `arg.read`, `arg.write` (`message.hpp:134-152`) |
| `OpenArg`, `OpenDirArg`, `ExecuteFileArg` | `arg.open`, `arg.opendir`, `arg.executefile` (`message.hpp:119-132`, `187-195`) |
| `Arg`            | the union `arg` (`message.hpp:58-205`), one constructor for each member the modelled code reads |
| `Message`        | `struct Message` |

A sender picks the union member that goes with `type`, and a receiver reads the member that
goes with `type`; `Message.starttaskId` and its siblings are those reads. A user task may put
any bytes into the member it sends, so every value of the member's fields is covered.
-/

namespace KinOS

/-- `Error::Code`; `kLastOfCode` only counts the others. -/
inductive Error
  | kSuccess | kFull | kEmpty | kNoEnoughMemory | kIndexOutOfRange | kHostControllerNotHalted
  | kInvalidSlotID | kPortNotConnected | kInvalidEndpointNumber | kTransferRingNotSet
  | kAlreadyAllocated | kNotImplemented | kInvalidDescriptor | kBufferTooSmall | kUnknownDevice
  | kNoCorrespondingSetupStage | kTransferFailed | kInvalidPhase | kUnknownXHCISpeedID | kNoWaiter
  | kNoPCIMSI | kUnknownPixelFormat | kNoSuchTask | kInvalidFormat | kFrameTooSmall | kInvalidFile
  | kIsDirectory | kNoSuchEntry | kNotOSServerRunning
deriving DecidableEq, Repr

/-- `Message::Type`. -/
inductive MsgType
  | kError | kReady | kReceived
  | kInterruptXHCI | kTimerTimeout | kLayer | kLayerFinish | kWindowActive | kPipe
  | kExpandTaskBuffer | kStartServer | kStartApp | kExitServer | kExitApp
  | kMouseMove | kKeyPush | kOpenWindow | kLayerId | kWinFillRectangle | kWinWriteChar
  | kWinRedraw | kQuit | kCloseWindow | kMouseButton | kWinDrawLine | kWinMoveRec
  | kWrite | kOpen | kOpenDir | kRead | kCreateTask | kExecuteFile | kRedirect | kWaitingKey
deriving DecidableEq, Repr

/-- `arg.read` (`message.hpp:134-142`). -/
structure ReadArg where
  filename : List UInt8
  fd : Int
  data : Vector UInt8 16
  len : UInt8
  count : UInt32
  offset : UInt32
  cluster : UInt32
deriving DecidableEq, Repr

/-- `arg.write` (`message.hpp:144-152`). -/
structure WriteArg where
  filename : List UInt8
  fd : Int
  data : Vector UInt8 16
  len : UInt8
  /-- the three bytes the compiler leaves between `len` and `count` -/
  pad : Vector UInt8 3
  count : UInt32
  offset : UInt32
  cluster : UInt32
deriving DecidableEq, Repr

/-- `arg.open` (`message.hpp:119-125`). -/
structure OpenArg where
  filename : List UInt8
  flags : UInt32
  exist : Bool
  isdirectory : Bool
  fd : Int
deriving DecidableEq, Repr

/-- `arg.opendir` (`message.hpp:127-132`). -/
structure OpenDirArg where
  dirname : List UInt8
  exist : Bool
  isdirectory : Bool
  fd : Int
deriving DecidableEq, Repr

/-- `arg.executefile` (`message.hpp:187-195`). -/
structure ExecuteFileArg where
  filename : List UInt8
  arg : List UInt8
  redirect : Bool
  pipe : Bool
  id : UInt64
  exist : Bool
  isdirectory : Bool
deriving DecidableEq, Repr

/-- The members of the union `arg` that the modelled code reads or writes. -/
inductive Arg
  | unset
  | error (retry : Bool) (err : Int)
  | timer (timeout : UInt64) (value : Int)
  | keyboard (modifier keycode ascii : UInt8) (press : Bool)
  | mouseMove (dx dy : Int) (buttons : UInt8)
  | starttask (id : UInt64)
  | expand (id : UInt64) (bytes : UInt32)
  | exitapp (id result : UInt64)
  | exitserver (name : List UInt8)
  | read (r : ReadArg)
  | write (w : WriteArg)
  | open (o : OpenArg)
  | opendir (o : OpenDirArg)
  | executefile (e : ExecuteFileArg)
  | redirect (filename : List UInt8)
deriving DecidableEq, Repr

structure Message where
  type : MsgType
  srcTask : UInt64
  arg : Arg
deriving DecidableEq, Repr

/-- `rmsg->arg.starttask.id`. -/
def Message.starttaskId (m : Message) : UInt64 :=
  match m.arg with
  | .starttask id => id
  | _ => 0

/-- `rmsg->arg.expand.id`. -/
def Message.expandId (m : Message) : UInt64 :=
  match m.arg with
  | .expand id _ => id
  | _ => 0

/-- `rmsg->arg.expand.bytes`. -/
def Message.expandBytes (m : Message) : UInt32 :=
  match m.arg with
  | .expand _ b => b
  | _ => 0

/-- `rmsg->arg.error.retry`. -/
def Message.errorRetry (m : Message) : Bool :=
  match m.arg with
  | .error r _ => r
  | _ => false

end KinOS
