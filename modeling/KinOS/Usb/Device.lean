import KinOS.Usb.Hid
import KinOS.Usb.Ports
import KinOS.Usb.TransferRuns

/-!
# A device and its class driver

| here | there |
| --- | --- |
| `Device`             | `usb::Device` (`kernel/usb/device.hpp:13-68`), over the transfers of `usb::xhci::Device` |
| `control`, `interruptIn` | the virtual functions `ControlIn`, `ControlOut`, `InterruptIn` |
| `startInitialize`, …, `initializePhase3` | the functions of these names (`kernel/usb/device.cpp:127-256`) |
| `hidOnEndpointsConfigured`, `hidOnControlCompleted`, `onInterruptCompleted` | `HIDBaseDriver` (`kernel/usb/classdriver/hid.cpp:27-61`) |
| `complete`           | an event of the controller, through `OnTransferEventReceived` (`kernel/usb/xhci/device.cpp:235-284`) |
| `allocTransferRing`, `configureEndpoints` | `AllocTransferRing` for each endpoint (`xhci.cpp:473-495`) |

A class driver is known by its number in `drivers`. `none` is for what the code has no behaviour for: it follows a null
pointer, writes behind an array or never comes to an end. `rings 0` of a device, which is where `InterruptIn` looks for a
driver that has no interrupt endpoint, is what stands before `transfer_rings_`.
-/

namespace KinOS.Usb

open Xhci

/-- `port` is the phase of the device's port. -/
structure Device where
  session : Session
  port : ConfigPhase
  bufPtr : Ptr
  buf : Bytes
  classDrivers : Nat → Option Nat
  drivers : List HIDBaseDriver
  numConfigurations : UInt8
  configIndex : UInt8
  isInitialized : Bool
  initializePhase : Nat
  /-- the first `num_ep_configs_` -/
  epConfigs : List EndpointConfig

def kGetDescriptor : BitVec 8 := 6
def kSetConfiguration : BitVec 8 := 9
def kSetProtocol : BitVec 8 := 11

def DeviceDescriptor.kType : UInt8 := 1
def ConfigurationDescriptor.kType : UInt8 := 2

/-- `buf_.size()` -/
def kDeviceBufferSize : Nat := 256

/-- The requests of `GetDescriptor`, `SetConfiguration` and `HIDBaseDriver::OnEndpointsConfigured`. -/
def setupGetDescriptor (descType descIndex : UInt8) (len : Nat) : SetupData :=
  ⟨requestType 1 0 0, kGetDescriptor, descType.toBitVec ++ descIndex.toBitVec, 0, BitVec.ofNat 16 len⟩

def setupSetConfiguration (configValue : UInt8) : SetupData :=
  ⟨requestType 0 0 0, kSetConfiguration, configValue.toBitVec.setWidth 16, 0, 0⟩

def setupSetProtocol (interfaceIndex : UInt8) : SetupData :=
  ⟨requestType 0 1 1, kSetProtocol, 0, interfaceIndex.toBitVec.setWidth 16, 0⟩

namespace Device

def setDriver (d : Device) (w : Nat) (h : HIDBaseDriver) : Device := { d with drivers := d.drivers.set w h }

def control (d : Device) (dirIn : Bool) (ep : EndpointID) (s : SetupData) (buf : Ptr) (len : Nat) (issuer : Option Nat) :
    Error × Device :=
  let result := (if dirIn then d.session.dev.controlIn else d.session.dev.controlOut) ep s buf len issuer
  let want := .control s buf (if buf = 0 then 0 else len)
  (result.1, { d with session := d.session.issue ep (controlTRBs dirIn s buf len) 1 want result })

def interruptIn (d : Device) (ep : EndpointID) (buf : Ptr) (len : Nat) : Error × Device :=
  let result := d.session.dev.interruptIn ep buf len
  (result.1, { d with
    session := d.session.issue ep [(NormalTRB.new buf len).setCycleBit false] 0 (.interrupt buf len) result })

def getDescriptor (d : Device) (ep : EndpointID) (descType descIndex : UInt8) (buf : Ptr) (len : Nat) : Error × Device :=
  d.control true ep (setupGetDescriptor descType descIndex len) buf len none

def setConfiguration (d : Device) (ep : EndpointID) (configValue : UInt8) : Error × Device :=
  d.control false ep (setupSetConfiguration configValue) 0 0 none

/-! ## Enumeration -/

def startInitialize (d : Device) : Error × Device :=
  { d with isInitialized := false, initializePhase := 1 }.getDescriptor kDefaultControlPipeID DeviceDescriptor.kType 0
    d.bufPtr kDeviceBufferSize

def initializePhase1 (d : Device) : Error × Device :=
  { d with numConfigurations := d.buf 17, configIndex := 0, initializePhase := 2 }.getDescriptor kDefaultControlPipeID
    ConfigurationDescriptor.kType 0 d.bufPtr kDeviceBufferSize

/-- The driver `NewClassDriver` made, with its buffer at `alloc`, gets the endpoints. -/
def addDriver (d : Device) (i : InterfaceDescriptor) (kind : HidKind) (alloc : Ptr) (eps : List EndpointConfig) : Device :=
  { d with
    drivers := d.drivers ++ [.new kind i.interfaceNumber alloc]
    epConfigs := eps
    classDrivers := fun n => if n ∈ eps.map fun c => c.epId.number then some d.drivers.length else d.classDrivers n }

def initializePhase2 (d : Device) (len : Nat) (alloc : Ptr) : Option (Error × Device) :=
  match parse d.buf len with
  | some .unsupported => some (.kSuccess, d)
  | some (.driver i kind (.read eps)) =>
    some ({ d.addDriver i kind alloc eps with initializePhase := 3 }.setConfiguration kDefaultControlPipeID (d.buf 5))
  | _ => none

/-- The loop of `InitializePhase3`. -/
def setEndpoints : List EndpointConfig → Device → Option Device
  | [], d => some d
  | c :: cs, d =>
    match d.classDrivers c.epId.number with
    | none => none
    | some w =>
      match d.drivers[w]? with
      | none => none
      | some h => setEndpoints cs (d.setDriver w (h.setEndpoint c))

def initializePhase3 (d : Device) : Option (Error × Device) :=
  (setEndpoints d.epConfigs d).map fun d => (.kSuccess, { d with initializePhase := 4, isInitialized := true })

/-! ## The class driver -/

def hidOnEndpointsConfigured (d : Device) (w : Nat) : Option (Error × Device) :=
  match d.drivers[w]? with
  | none => none
  | some h =>
    some ((d.setDriver w { h with initializePhase := 1 }).control false kDefaultControlPipeID
      (setupSetProtocol h.interfaceIndex) 0 0 (some w))

/-- `OnEndpointsConfigured` for the endpoint numbers that are left. -/
def configureDrivers : List Nat → Device → Option (Error × Device)
  | [], d => some (.kSuccess, d)
  | i :: is, d =>
    match d.classDrivers i with
    | none => configureDrivers is d
    | some w =>
      match d.hidOnEndpointsConfigured w with
      | none => none
      | some r => if r.1 ≠ .kSuccess then some r else configureDrivers is r.2

def onEndpointsConfigured (d : Device) : Option (Error × Device) := configureDrivers (List.range 16) d

def hidOnControlCompleted (d : Device) (w : Nat) : Option (Error × Device) :=
  match d.drivers[w]? with
  | none => none
  | some h =>
    if h.initializePhase = 1 then
      some ((d.setDriver w { h with initializePhase := 2 }).interruptIn h.epInterruptIn h.bufPtr h.kind.inPacketSize)
    else some (.kNotImplemented, d)

def onInterruptCompleted (d : Device) (ep : EndpointID) (len : Nat) : Option (Error × Device) :=
  match d.classDrivers ep.number with
  | none => some (.kNoWaiter, d)
  | some w =>
    match d.drivers[w]? with
    | none => none
    | some h =>
      if ep.isIn then
        some ((d.setDriver w (h.dataReceived len)).interruptIn h.epInterruptIn h.bufPtr h.kind.inPacketSize)
      else some (.kNotImplemented, d)

/-! ## Completions -/

/-- `buf` is the buffer of the device wherever the code reads from it. -/
def onControlCompleted (d : Device) (s : SetupData) (buf : Ptr) (len : Nat) (alloc : Ptr) : Option (Error × Device) :=
  if d.isInitialized then
    match SlotMap.get d.session.dev.eventWaiters s with
    | some w => d.hidOnControlCompleted w
    | none => some (.kNoWaiter, d)
  else if d.initializePhase = 1 then
    if s.request = kGetDescriptor then
      if buf ≠ d.bufPtr then none
      else if d.buf 1 = DeviceDescriptor.kType then some d.initializePhase1
      else some (.kInvalidPhase, d)
    else some (.kInvalidPhase, d)
  else if d.initializePhase = 2 then
    if s.request = kGetDescriptor then
      if buf ≠ d.bufPtr then none
      else if d.buf 1 = ConfigurationDescriptor.kType then d.initializePhase2 len alloc
      else some (.kInvalidPhase, d)
    else some (.kInvalidPhase, d)
  else if d.initializePhase = 3 then
    if s.request = kSetConfiguration then d.initializePhase3
    else some (.kInvalidPhase, d)
  else some (.kNotImplemented, d)

/-- What the controller writes for a transfer that brings data in. -/
def dma (d : Device) (want : Want) (n : Nat) (data : Bytes) : Device :=
  let write (p : Ptr) : Device :=
    { d with
      buf := if p = d.bufPtr then overwrite d.buf n data else d.buf
      drivers := d.drivers.map fun h => if p = h.bufPtr then h.dma n data else h }
  match want with
  | .control s p _ => if s.requestType.getLsbD 7 then write p else d
  | .interrupt p _ => write p

/-- The controller completes a transfer, with all that follows until the next event. -/
def complete (d : Device) (q : Xhci.Request) (residual : BitVec 24) (code : BitVec 8) (data : Bytes) (alloc : Ptr) :
    Option (Error × Device) :=
  let d1 := d.dma q.want (q.want.len - residual.toNat) data
  match d.session.next (.complete q residual code) with
  | none => none
  | some session =>
    match (d.session.dev.onTransferEventReceived (d.session.completion q residual code)).1 with
    | .error e => some (e, { d1 with session := session })
    | .interruptCompleted ep _ len => { d1 with session := session }.onInterruptCompleted ep len.toNat
    | .controlCompleted _ s buf len => { d1 with session := session }.onControlCompleted s buf len.toNat alloc
    | .wild => none

def allocTransferRing (d : Device) (ep : EndpointID) (base : Ptr) : Device :=
  { d with session :=
    { d.session with
      dev := d.session.dev.setRing ep.address (.initialized base 32)
      pushed := Function.update d.session.pushed ep.address [] } }

/-- The rings of the endpoints, at the addresses that `AllocArray` returns. -/
def configureEndpoints (d : Device) : List (EndpointConfig × Ptr) → Device
  | [] => d
  | c :: cs => (d.allocTransferRing c.1.epId c.2).configureEndpoints cs

/-! ## Runs -/

inductive Event
  | complete (q : Xhci.Request) (residual : BitVec 24) (code : BitVec 8) (data : Bytes) (alloc : Ptr)
  /-- the controller finds the device initialized -/
  | configureEndpoints (bases : List Ptr)
  /-- its Configure Endpoint command completes -/
  | endpointsConfigured

def next (d : Device) : Event → Option Device
  | .complete q residual code data alloc => (d.complete q residual code data alloc).map Prod.snd
  | .configureEndpoints bases =>
    if d.isInitialized ∧ d.port = .kInitializingDevice ∧ bases.length = d.epConfigs.length then
      some { d.configureEndpoints (d.epConfigs.zip bases) with port := .kConfiguringEndpoints }
    else none
  | .endpointsConfigured =>
    if d.port = .kConfiguringEndpoints then d.onEndpointsConfigured.map fun r => { r.2 with port := .kConfigured } else none

/-- The device of a slot that was addressed. -/
def new (slotId : BitVec 8) (rings : Nat → Option Ring) (bufPtr : Ptr) : Device where
  session := Session.start slotId rings
  port := .kInitializingDevice
  bufPtr := bufPtr
  buf := fun _ => 0
  classDrivers := fun _ => none
  drivers := []
  numConfigurations := 0
  configIndex := 0
  isInitialized := false
  initializePhase := 0
  epConfigs := []

/-- `InitializeDevice` -/
def start (slotId : BitVec 8) (rings : Nat → Option Ring) (bufPtr : Ptr) : Device :=
    (new slotId rings bufPtr).startInitialize.2

end Device

end KinOS.Usb
