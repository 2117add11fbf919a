import KinOS.Kernel.Basic
import KinOS.Lib.SlotMap
import KinOS.Usb.Ring

/-!
# Transfers

| here | there |
| --- | --- |
| `EndpointID`       | `EndpointID` (`kernel/usb/endpoint.hpp:13-44`) |
| `Xhci.Device`      | what `usb::xhci::Device` and `usb::Device` keep for transfers (`kernel/usb/xhci/device.hpp:54-69`, `kernel/usb/device.hpp:63-66`) |
| `SlotMap.Table`    | `ArrayMap` (`kernel/usb/arraymap.hpp`) |
| `controlIn`, `controlOut`, `interruptIn` | `usb::Device` and `usb::xhci::Device` (`kernel/usb/device.cpp:107-125`, `kernel/usb/xhci/device.cpp:107-223`) |
| `onTransferEventReceived` | the function of this name (`kernel/usb/xhci/device.cpp:235-284`), up to the callback it ends in |

`ControlIn` and `ControlOut` differ in the stage constants, the direction of the data stage, and the status stage of a
transfer with data. A class driver is known by a number. `Log` is left out.
-/

open BitField

namespace KinOS.Usb

/-- `addr_`, which is `0..31` wherever it comes from. -/
structure EndpointID where
  address : Nat
deriving DecidableEq, Repr

namespace EndpointID

/-- `EndpointID(ep_num, dir_in)` -/
def new (epNum : Nat) (dirIn : Bool) : EndpointID := ⟨2 * epNum + dirIn.toNat⟩

def number (e : EndpointID) : Nat := e.address / 2

def isIn (e : EndpointID) : Bool := e.address % 2 == 1

end EndpointID

def kDefaultControlPipeID : EndpointID := .new 0 true

namespace Xhci

/-- `rings i` is `transfer_rings_[i - 1]`, the ring of the device context index `i`; `rung` are the targets for which the
doorbell was rung. -/
structure Device where
  slotId : BitVec 8
  rings : Nat → Option Ring
  setupStageMap : SlotMap.Table Ptr Ptr
  eventWaiters : SlotMap.Table SetupData Nat
  rung : List Nat

namespace Device

/-- A new device: both maps are empty, 16 and 4 slots. -/
def new (slotId : BitVec 8) (rings : Nat → Option Ring) : Device :=
  ⟨slotId, rings, SlotMap.empty 16, SlotMap.empty 4, []⟩

def setRing (d : Device) (i : Nat) (r : Ring) : Device := { d with rings := Function.update d.rings i (some r) }

/-- `usb::Device::ControlIn`, `usb::Device::ControlOut` -/
def addWaiter (d : Device) (s : SetupData) : Option Nat → Device
  | some issuer => { d with eventWaiters := SlotMap.put d.eventWaiters s issuer }
  | none => d

/-- `TRBDynamicCast<SetupStageTRB>` of a pointer into the ring. -/
def castSetup (r : Ring) (p : Ptr) : Ptr := if (r.buf (r.index p)).trbType = SetupStageTRB.type then p else 0

/-- The TRBs of a control transfer: the ring after them, the one that will complete, and the setup stage. -/
def controlStages (transferType : BitVec 2) (dirIn : Bool) (r : Ring) (s : SetupData) (buf : Ptr) (len : Int) :
    Ring × Ptr × Ptr :=
  if buf ≠ 0 then
    let setup := r.push (makeSetupStageTRB s transferType)
    let data := setup.2.push (put (makeDataStageTRB buf len dirIn) 101 1#1)
    let status := data.2.push (StatusStageTRB.new (!dirIn) false)
    (status.2, data.1, castSetup setup.2 setup.1)
  else
    let setup := r.push (makeSetupStageTRB s SetupStageTRB.kNoDataStage)
    let status := setup.2.push (StatusStageTRB.new true true)
    (status.2, status.1, castSetup setup.2 setup.1)

def control (transferType : BitVec 2) (dirIn : Bool) (d : Device) (ep : EndpointID) (s : SetupData) (buf : Ptr) (len : Int)
    (issuer : Option Nat) : Error × Device :=
  let d := d.addWaiter s issuer
  if 15 < ep.number then (.kInvalidEndpointNumber, d)
  else
    match d.rings ep.address with
    | none => (.kTransferRingNotSet, d)
    | some r =>
      let stages := controlStages transferType dirIn r s buf len
      (.kSuccess, { d.setRing ep.address stages.1 with
        setupStageMap := SlotMap.put d.setupStageMap stages.2.1 stages.2.2
        rung := d.rung ++ [ep.address] })

def controlIn : Device → EndpointID → SetupData → Ptr → Int → Option Nat → Error × Device :=
  control SetupStageTRB.kInDataStage true

def controlOut : Device → EndpointID → SetupData → Ptr → Int → Option Nat → Error × Device :=
  control SetupStageTRB.kOutDataStage false

def interruptIn (d : Device) (ep : EndpointID) (buf : Ptr) (len : Int) : Error × Device :=
  match d.rings ep.address with
  | none => (.kTransferRingNotSet, d)
  | some r => (.kSuccess, { d.setRing ep.address (r.push (NormalTRB.new buf len)).2 with rung := d.rung ++ [ep.address] })

/-- The address is that of one of the TRBs of the ring. -/
def inRing (r : Ring) (p : Ptr) : Prop := (p - r.base).toNat < 16 * r.size ∧ (p - r.base).toNat % 16 = 0

instance (r : Ring) (p : Ptr) : Decidable (inRing r p) := inferInstanceAs (Decidable (_ ∧ _))

/-- The TRB at an address in one of the 31 rings. -/
def deref (d : Device) (p : Ptr) : Option TRB :=
  (List.range 32).findSome? fun i => (d.rings i).bind fun r => if inRing r p then some (r.buf (r.index p)) else none

/-- What `OnTransferEventReceived` returns with or calls. -/
inductive Callback
  | error (e : Error)
  | interruptCompleted (ep : EndpointID) (buf : Ptr) (len : Int)
  | controlCompleted (ep : EndpointID) (s : SetupData) (buf : Ptr) (len : Int)
  /-- the event points to no TRB of the device -/
  | wild
deriving DecidableEq, Repr

/-- The difference of a 17-bit and a 24-bit field as `uint32_t`, read as `int`. -/
def transferLength (length : BitVec 17) (residual : BitVec 24) : Int :=
  (length.setWidth 32 - residual.setWidth 32).toInt

def onTransferEventReceived (d : Device) (t : TRB) : Callback × Device :=
  let residual := TransferEventTRB.trbTransferLength t
  let ep : EndpointID := ⟨(TransferEventTRB.endpointId t).toNat⟩
  if TransferEventTRB.completionCode t ≠ 1 ∧ TransferEventTRB.completionCode t ≠ 13 then (.error .kTransferFailed, d)
  else
    match d.deref t.pointer with
    | none => (.wild, d)
    | some issuer =>
      if issuer.trbType = NormalTRB.type then
        (.interruptCompleted ep issuer.pointer (transferLength (NormalTRB.trbTransferLength issuer) residual), d)
      else
        match SlotMap.get d.setupStageMap t.pointer with
        | none => (.error .kNoCorrespondingSetupStage, d)
        | some setup =>
          let d := { d with setupStageMap := SlotMap.delete d.setupStageMap t.pointer }
          match d.deref setup with
          | none => (.wild, d)
          | some setupStage =>
            if issuer.trbType = DataStageTRB.type then
              (.controlCompleted ep (SetupStageTRB.setupData setupStage) issuer.pointer
                (transferLength (DataStageTRB.trbTransferLength issuer) residual), d)
            else if issuer.trbType = StatusStageTRB.type then
              (.controlCompleted ep (SetupStageTRB.setupData setupStage) 0 0, d)
            else (.error .kNotImplemented, d)

end Device

end Xhci

end KinOS.Usb
