import KinOS.Kernel.Basic
import KinOS.Usb.EventRing
import KinOS.Usb.Ring

/-!
# The ports of the root hub

| here | there |
| --- | --- |
| `ConfigPhase`, `Ports` | `ConfigPhase`, `port_config_phase`, `addressing_port` (`kernel/usb/xhci/xhci.cpp:25-46`) |
| `PortRegs`             | the fields of `PORTSC` that `Port` reads (`kernel/usb/xhci/port.cpp:11-29`) |
| `Controller`           | `Controller` and its `DeviceManager` (`xhci.hpp:19-56`, `devmgr.cpp`) |
| `resetPort`, …, `completeConfiguration`, `configureEndpoints` | the functions of these names (`xhci.cpp:91-195, 440-510`) |
| `onPortStatusChange`, `onTransfer`, `onCommandCompletion` | the three `OnEvent` (`xhci.cpp:197-284`) |

What a device does with its contexts and its transfers is `DeviceOps`. An event is any 128 bits that the controller may post.
The TRB that a command completion points to is read from the command ring or, if the pointer is astray, from `outside`.
-/

open BitField

namespace KinOS.Usb.Xhci

inductive ConfigPhase
  | kNotConnected
  | kWaitingAddressed
  | kResettingPort
  | kEnablingSlot
  | kAddressingDevice
  | kInitializingDevice
  | kConfiguringEndpoints
  | kConfigured
deriving DecidableEq, Repr

/-- The global variables. -/
structure Ports where
  phase : BitVec 8 → ConfigPhase
  addressingPort : BitVec 8

structure PortRegs where
  connected : Bool
  enabled : Bool
  resetChanged : Bool
  speed : BitVec 4
deriving DecidableEq, Repr

def kSuperSpeedPlus : Nat := 5

/-- The functions of `usb::xhci::Device` that the controller calls, and the writes it makes into the contexts of a device. -/
structure DeviceOps (δ : Type) where
  new : BitVec 8 → δ
  /-- the input context and the ring of the default control pipe, for the port and its speed -/
  address : δ → BitVec 8 → BitVec 4 → δ
  inputContext : δ → Ptr
  /-- `DeviceContext()->slot_context.bits.root_hub_port_num` -/
  contextPort : δ → BitVec 8
  slotId : δ → BitVec 8
  startInitialize : δ → δ
  onTransferEventReceived : δ → TRB → Error × δ
  isInitialized : δ → Bool
  /-- the part of `ConfigureEndpoints` before the speed is looked at -/
  copySlotContext : δ → δ
  /-- the contexts and rings of the endpoints -/
  configure : δ → BitVec 4 → δ
  onEndpointsConfigured : δ → δ

/-- An entry of `device_context_pointers_`. -/
inductive ContextPointer
  | null
  | scratchpad
  | device (slot : BitVec 8)
deriving DecidableEq, Repr

structure Controller (δ : Type) where
  ports : Ports
  regs : BitVec 8 → PortRegs
  devices : BitVec 8 → Option δ
  contextPointers : BitVec 8 → ContextPointer
  commandRing : Ring
  /-- how often doorbell 0 was rung -/
  rung : Nat

namespace Ports

def setPhase (s : Ports) (port : BitVec 8) (p : ConfigPhase) : Ports := { s with phase := Function.update s.phase port p }

/-- The first port in `kWaitingAddressed`. -/
def firstWaiting (s : Ports) : Option (BitVec 8) :=
  ((List.range 256).map (BitVec.ofNat 8)).find? fun i => s.phase i = .kWaitingAddressed

end Ports

namespace Controller

variable {δ : Type}

def kDeviceSize : BitVec 8 := 8

def setPhase (c : Controller δ) (port : BitVec 8) (p : ConfigPhase) : Controller δ :=
    { c with ports := c.ports.setPhase port p }

def setDevice (c : Controller δ) (slot : BitVec 8) (d : δ) : Controller δ :=
  { c with devices := Function.update c.devices slot (some d) }

/-- `CommandRing()->Push` and the doorbell. -/
def command (c : Controller δ) (t : TRB) : Controller δ :=
  { c with commandRing := (c.commandRing.push t).2, rung := c.rung + 1 }

def clearPortResetChange (c : Controller δ) (port : BitVec 8) : Controller δ :=
  { c with regs := Function.update c.regs port { c.regs port with resetChanged := false } }

def findBySlot (c : Controller δ) (slot : BitVec 8) : Option δ := if kDeviceSize < slot then none else c.devices slot

/-! ## The steps of a port -/

def resetPort (c : Controller δ) (port : BitVec 8) : Error × Controller δ :=
  if (c.regs port).connected then
    if c.ports.addressingPort ≠ 0 then (.kSuccess, c.setPhase port .kWaitingAddressed)
    else if c.ports.phase port ≠ .kNotConnected ∧ c.ports.phase port ≠ .kWaitingAddressed then (.kInvalidPhase, c)
    else (.kSuccess, { c with ports := { c.ports.setPhase port .kResettingPort with addressingPort := port } })
  else (.kSuccess, c)

def enableSlot (c : Controller δ) (port : BitVec 8) : Error × Controller δ :=
  if (c.regs port).enabled && (c.regs port).resetChanged then
    (.kSuccess, ((c.clearPortResetChange port).setPhase port .kEnablingSlot).command EnableSlotCommandTRB.new)
  else (.kSuccess, c)

variable (ops : DeviceOps δ)

def allocDevice (c : Controller δ) (slot : BitVec 8) : Error × Controller δ :=
  if kDeviceSize < slot then (.kInvalidSlotID, c)
  else if (c.devices slot).isSome then (.kAlreadyAllocated, c)
  else (.kSuccess, c.setDevice slot (ops.new slot))

def loadDCBAA (c : Controller δ) (slot : BitVec 8) : Controller δ :=
  if kDeviceSize < slot then c else { c with contextPointers := Function.update c.contextPointers slot (.device slot) }

def addressDevice (c : Controller δ) (port slot : BitVec 8) : Error × Controller δ :=
  let c := (c.allocDevice ops slot).2
  match c.findBySlot slot with
  | none => (.kInvalidSlotID, c)
  | some dev =>
    let dev := ops.address dev port (c.regs port).speed
    (.kSuccess, (((c.setDevice slot dev).loadDCBAA slot).setPhase port .kAddressingDevice).command
      (AddressDeviceCommandTRB.new (ops.inputContext dev) slot))

def initializeDevice (c : Controller δ) (port slot : BitVec 8) : Error × Controller δ :=
  match c.findBySlot slot with
  | none => (.kInvalidSlotID, c)
  | some dev => (.kSuccess, (c.setPhase port .kInitializingDevice).setDevice slot (ops.startInitialize dev))

def completeConfiguration (c : Controller δ) (port slot : BitVec 8) : Error × Controller δ :=
  match c.findBySlot slot with
  | none => (.kInvalidSlotID, c)
  | some dev => (.kSuccess, (c.setDevice slot (ops.onEndpointsConfigured dev)).setPhase port .kConfigured)

/-- `dev` is the device of the slot. -/
def configureEndpoints (c : Controller δ) (slot : BitVec 8) (dev : δ) : Error × Controller δ :=
  let port := ops.contextPort dev
  let dev := ops.copySlotContext dev
  let speed := (c.regs port).speed
  if speed = 0 ∨ kSuperSpeedPlus < speed.toNat then (.kUnknownXHCISpeedID, c.setDevice slot dev)
  else
    let dev := ops.configure dev speed
    (.kSuccess, ((c.setDevice slot dev).setPhase port .kConfiguringEndpoints).command
      (ConfigureEndpointCommandTRB.new (ops.inputContext dev) (ops.slotId dev)))

/-! ## The events -/

def onPortStatusChange (c : Controller δ) (t : TRB) : Error × Controller δ :=
  let port := PortStatusChangeEventTRB.portId t
  match c.ports.phase port with
  | .kNotConnected => c.resetPort port
  | .kResettingPort => c.enableSlot port
  | _ => (.kInvalidPhase, c)

def onTransfer (c : Controller δ) (t : TRB) : Error × Controller δ :=
  match c.findBySlot t.slotId with
  | none => (.kInvalidSlotID, c)
  | some dev =>
    let received := ops.onTransferEventReceived dev t
    let c := c.setDevice t.slotId received.2
    if received.1 ≠ .kSuccess then (received.1, c)
    else if ops.isInitialized received.2 ∧ c.ports.phase (ops.contextPort received.2) = .kInitializingDevice then
      c.configureEndpoints ops t.slotId received.2
    else (.kSuccess, c)

/-- The TRB at an address. -/
def issuer (c : Controller δ) (outside : Ptr → TRB) (p : Ptr) : TRB :=
  if (p - c.commandRing.base).toNat < 16 * c.commandRing.size then c.commandRing.buf (c.commandRing.index p) else outside p

/-- `addressing_port` is free, and the first port that waits is next. -/
def handOver (c : Controller δ) : Error × Controller δ :=
  let c := { c with ports := { c.ports with addressingPort := 0 } }
  match c.ports.firstWaiting with
  | none => (.kSuccess, c)
  | some port => c.resetPort port

def onCommandCompletion (c : Controller δ) (outside : Ptr → TRB) (t : TRB) : Error × Controller δ :=
  let type := (c.issuer outside t.pointer16).trbType
  let slot := t.slotId
  if type = EnableSlotCommandTRB.type then
    if c.ports.phase c.ports.addressingPort ≠ .kEnablingSlot then (.kInvalidPhase, c)
    else c.addressDevice ops c.ports.addressingPort slot
  else if type = AddressDeviceCommandTRB.type then
    match c.findBySlot slot with
    | none => (.kInvalidSlotID, c)
    | some dev =>
      let port := ops.contextPort dev
      if port ≠ c.ports.addressingPort then (.kInvalidPhase, c)
      else if c.ports.phase port ≠ .kAddressingDevice then (.kInvalidPhase, c)
      else
        let handed := c.handOver
        if handed.1 ≠ .kSuccess then handed else handed.2.initializeDevice ops port slot
  else if type = ConfigureEndpointCommandTRB.type then
    match c.findBySlot slot with
    | none => (.kInvalidSlotID, c)
    | some dev =>
      let port := ops.contextPort dev
      if c.ports.phase port ≠ .kConfiguringEndpoints then (.kInvalidPhase, c)
      else c.completeConfiguration ops port slot
  else (.kInvalidPhase, c)

/-- `ConfigurePort` -/
def configurePort (c : Controller δ) (port : BitVec 8) : Error × Controller δ :=
  if c.ports.phase port = .kNotConnected then c.resetPort port else (.kSuccess, c)

/-- `ProcessEvent` for the event at the front. -/
def onEvent (c : Controller δ) (outside : Ptr → TRB) (t : TRB) : Error × Controller δ :=
  match EventRing.kind t with
  | .transfer => c.onTransfer ops t
  | .portStatusChange => c.onPortStatusChange t
  | .commandCompletion => c.onCommandCompletion ops outside t
  | .notImplemented => (.kNotImplemented, c)

end Controller

end KinOS.Usb.Xhci
