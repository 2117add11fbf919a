import KinOS.Lib.BitField

/-!
# Transfer request blocks

| here | there |
| --- | --- |
| `TRB`                | `union TRB` and the unions it is cast to (`kernel/usb/xhci/trb.hpp:11-438`): 128 bits, `data[0]` lowest |
| `NormalTRB.type`, …  | the constants `Type` |
| `SetupData`          | `struct SetupData` (`kernel/usb/setupdata.hpp:69-93`) |
| `makeSetupStageTRB`, `makeDataStageTRB` | `kernel/usb/xhci/device.cpp:10-28` |
| `LinkTRB.new`, `AddressDeviceCommandTRB.new`, … | the constructors of these unions |

A field is named by its first bit and its width. A TRB of one type is told from the others by the field `trb_type`, which is
at the same place in all of them.
-/

open BitField

namespace KinOS.Usb

/-- An address. -/
abbrev Ptr := BitVec 64

/-- `SetupData`; `requestType` is `request_type.data`. -/
structure SetupData where
  requestType : BitVec 8
  request : BitVec 8
  value : BitVec 16
  index : BitVec 16
  length : BitVec 16
deriving DecidableEq, Repr

/-- `request_type` from its bit fields. -/
def requestType (direction : BitVec 1) (type : BitVec 2) (recipient : BitVec 5) : BitVec 8 :=
  put (put (put (0 : BitVec 8) 0 recipient) 5 type) 7 direction

namespace Xhci

abbrev TRB := BitVec 128

namespace TRB

def cycleBit (t : TRB) : Bool := (get t 96 1).getLsbD 0

def setCycleBit (t : TRB) (b : Bool) : TRB := put t 96 (BitVec.ofBool b)

def trbType (t : TRB) : BitVec 6 := get t 106 6

/-- A pointer kept without its low four bits. -/
def pointer16 (t : TRB) : Ptr := get t 4 60 ++ 0#4

/-- `data_buffer_pointer`, `trb_pointer`. -/
def pointer (t : TRB) : Ptr := get t 0 64

def slotId (t : TRB) : BitVec 8 := get t 120 8

variable {t : TRB} {b : Bool}

@[simp] theorem cycleBit_setCycleBit : (t.setCycleBit b).cycleBit = b := by
  cases b <;> simp [cycleBit, setCycleBit]

theorem cycleBit_zero : cycleBit 0 = false := by
  rw [cycleBit, get_zero]
  rfl

/-- **Only the cycle bit changes**: any field that does not hold it is as it was. -/
theorem get_setCycleBit {lo len : Nat} (h : lo + len ≤ 96 ∨ 97 ≤ lo) : get (t.setCycleBit b) lo len = get t lo len :=
  get_put_of_disjoint (by omega)

@[simp] theorem trbType_setCycleBit : (t.setCycleBit b).trbType = t.trbType := get_setCycleBit (by decide)

@[simp] theorem pointer16_setCycleBit : (t.setCycleBit b).pointer16 = t.pointer16 := by
  rw [pointer16, get_setCycleBit (by decide), pointer16]

@[simp] theorem setCycleBit_setCycleBit {c : Bool} : (t.setCycleBit b).setCycleBit c = t.setCycleBit c := put_put

@[simp] theorem setCycleBit_self : t.setCycleBit t.cycleBit = t := by
  have h : BitVec.ofBool t.cycleBit = get t 96 1 := by
    apply BitVec.eq_of_getLsbD_eq
    intro i hi
    obtain rfl : i = 0 := by omega
    simp [cycleBit]
  rw [setCycleBit, h, put_get]

end TRB

/-- A pointer whose low four bits are zero is kept whole. -/
theorem append_zero {p : Ptr} (h : get p 0 4 = 0) : get p 4 60 ++ 0#4 = p := by
  apply BitVec.eq_of_getLsbD_eq
  intro i hi
  rw [BitVec.getLsbD_append]
  split
  · next hlt =>
    have hbit := congrArg (fun v => v.getLsbD i) h
    simp only [getLsbD_get, hlt, decide_true, Bool.true_and, Nat.zero_add] at hbit
    simpa using hbit.symm
  · next hge => rw [getLsbD_get, decide_eq_true (by omega), Bool.true_and, Nat.add_sub_cancel' (Nat.not_lt.1 hge)]

/-! ## The layouts -/

namespace NormalTRB

def type : BitVec 6 := 1

/-- `NormalTRB` with the fields `InterruptIn` sets (`device.cpp:210-214`). -/
def new (buf : Ptr) (len : Int) : TRB :=
  put (put (put (put (put (0 : TRB) 106 type) 0 buf) 64 (BitVec.ofInt 17 len)) 98 1#1) 101 1#1

def trbTransferLength (t : TRB) : BitVec 17 := get t 64 17

end NormalTRB

namespace SetupStageTRB

def type : BitVec 6 := 2
def kNoDataStage : BitVec 2 := 0
def kOutDataStage : BitVec 2 := 2
def kInDataStage : BitVec 2 := 3

/-- The request in its fields. -/
def setupData (t : TRB) : SetupData := ⟨get t 0 8, get t 8 8, get t 16 16, get t 32 16, get t 48 16⟩

end SetupStageTRB

namespace DataStageTRB

def type : BitVec 6 := 3

def trbTransferLength (t : TRB) : BitVec 17 := get t 64 17

end DataStageTRB

namespace StatusStageTRB

def type : BitVec 6 := 4

def new (direction interruptOnCompletion : Bool) : TRB :=
  put (put (put (0 : TRB) 106 type) 112 (BitVec.ofBool direction)) 101 (BitVec.ofBool interruptOnCompletion)

end StatusStageTRB

namespace LinkTRB

def type : BitVec 6 := 6

def new (ringSegmentPointer : Ptr) : TRB := put (put (0 : TRB) 106 type) 4 (get ringSegmentPointer 4 60)

def toggleCycle (t : TRB) : Bool := (get t 97 1).getLsbD 0

def setToggleCycle (t : TRB) (b : Bool) : TRB := put t 97 (BitVec.ofBool b)

end LinkTRB

namespace EnableSlotCommandTRB

def type : BitVec 6 := 9

def new : TRB := put (0 : TRB) 106 type

end EnableSlotCommandTRB

namespace AddressDeviceCommandTRB

def type : BitVec 6 := 11

def new (inputContext : Ptr) (slotId : BitVec 8) : TRB :=
  put (put (put (0 : TRB) 106 type) 120 slotId) 4 (get inputContext 4 60)

end AddressDeviceCommandTRB

namespace ConfigureEndpointCommandTRB

def type : BitVec 6 := 12

def new (inputContext : Ptr) (slotId : BitVec 8) : TRB :=
  put (put (put (0 : TRB) 106 type) 120 slotId) 4 (get inputContext 4 60)

end ConfigureEndpointCommandTRB

namespace TransferEventTRB

def type : BitVec 6 := 32

def trbTransferLength (t : TRB) : BitVec 24 := get t 64 24

def completionCode (t : TRB) : BitVec 8 := get t 88 8

def endpointId (t : TRB) : BitVec 5 := get t 112 5

/-- What the controller posts when it has finished a TRB. -/
def new (trb : Ptr) (residual : BitVec 24) (code : BitVec 8) (endpoint : BitVec 5) (slot : BitVec 8) : TRB :=
  put (put (put (put (put (put (0 : TRB) 106 type) 0 trb) 64 residual) 88 code) 112 endpoint) 120 slot

end TransferEventTRB

namespace CommandCompletionEventTRB

def type : BitVec 6 := 33

/-- What the controller posts when it has executed a command. -/
def new (command : Ptr) (code slot : BitVec 8) : TRB :=
  put (put (put (put (0 : TRB) 106 type) 4 (get command 4 60)) 88 code) 120 slot

end CommandCompletionEventTRB

namespace PortStatusChangeEventTRB

def type : BitVec 6 := 34

def portId (t : TRB) : BitVec 8 := get t 24 8

def new (port : BitVec 8) : TRB := put (put (0 : TRB) 106 type) 24 port

end PortStatusChangeEventTRB

/-! ## The stages of a control transfer -/

def makeSetupStageTRB (s : SetupData) (transferType : BitVec 2) : TRB :=
  let setup := put (put (put (0 : TRB) 106 SetupStageTRB.type) 102 1#1) 64 (8 : BitVec 17)
  put (put (put (put (put (put setup 0 s.requestType) 8 s.request) 16 s.value) 32 s.index) 48 s.length) 112 transferType

def makeDataStageTRB (buf : Ptr) (len : Int) (dirIn : Bool) : TRB :=
  put (put (put (put (put (0 : TRB) 106 DataStageTRB.type) 0 buf) 64 (BitVec.ofInt 17 len)) 81 0#5) 112 (BitVec.ofBool dirIn)

section
variable {t : TRB} {b : Bool}

@[simp] theorem TRB.pointer_setCycleBit : (t.setCycleBit b).pointer = t.pointer := get_setCycleBit (by decide)

@[simp] theorem NormalTRB.trbTransferLength_setCycleBit : trbTransferLength (t.setCycleBit b) = trbTransferLength t :=
  TRB.get_setCycleBit (by decide)

@[simp] theorem DataStageTRB.trbTransferLength_setCycleBit : trbTransferLength (t.setCycleBit b) = trbTransferLength t :=
  TRB.get_setCycleBit (by decide)

@[simp] theorem SetupStageTRB.setupData_setCycleBit : setupData (t.setCycleBit b) = setupData t := by
  simp [setupData, TRB.get_setCycleBit]

end

section
variable {s : SetupData} {k : BitVec 2} {buf : Ptr} {len : Int} {dirIn b : Bool}

@[simp] theorem trbType_makeSetupStageTRB : (makeSetupStageTRB s k).trbType = SetupStageTRB.type := by
  simp [TRB.trbType, makeSetupStageTRB, get_put_of_disjoint]

/-- **A request survives its TRB.** -/
@[simp] theorem setupData_makeSetupStageTRB : SetupStageTRB.setupData (makeSetupStageTRB s k) = s := by
  simp [SetupStageTRB.setupData, makeSetupStageTRB, get_put_of_disjoint]

/-- The data stage as it is pushed, with `interrupt_on_completion`. -/
@[simp] theorem trbType_dataStage : TRB.trbType (put (makeDataStageTRB buf len dirIn) 101 1#1) = DataStageTRB.type := by
  simp [TRB.trbType, makeDataStageTRB, get_put_of_disjoint]

@[simp] theorem pointer_dataStage : TRB.pointer (put (makeDataStageTRB buf len dirIn) 101 1#1) = buf := by
  simp [TRB.pointer, makeDataStageTRB, get_put_of_disjoint]

@[simp] theorem trbTransferLength_dataStage :
    DataStageTRB.trbTransferLength (put (makeDataStageTRB buf len dirIn) 101 1#1) = BitVec.ofInt 17 len := by
  simp [DataStageTRB.trbTransferLength, makeDataStageTRB, get_put_of_disjoint]

@[simp] theorem trbType_statusStageTRB : (StatusStageTRB.new dirIn b).trbType = StatusStageTRB.type := by
  simp [TRB.trbType, StatusStageTRB.new, get_put_of_disjoint]

@[simp] theorem trbType_normalTRB : (NormalTRB.new buf len).trbType = NormalTRB.type := by
  simp [TRB.trbType, NormalTRB.new, get_put_of_disjoint]

@[simp] theorem pointer_normalTRB : (NormalTRB.new buf len).pointer = buf := by
  simp [TRB.pointer, NormalTRB.new, get_put_of_disjoint]

@[simp] theorem trbTransferLength_normalTRB : NormalTRB.trbTransferLength (NormalTRB.new buf len) = BitVec.ofInt 17 len := by
  simp [NormalTRB.trbTransferLength, NormalTRB.new, get_put_of_disjoint]

end

section
variable {p : Ptr} {residual : BitVec 24} {code slot : BitVec 8} {ep : BitVec 5}

@[simp] theorem pointer_transferEvent : (TransferEventTRB.new p residual code ep slot).pointer = p := by
  simp [TRB.pointer, TransferEventTRB.new, get_put_of_disjoint]

@[simp] theorem trbTransferLength_transferEvent :
    TransferEventTRB.trbTransferLength (TransferEventTRB.new p residual code ep slot) = residual := by
  simp [TransferEventTRB.trbTransferLength, TransferEventTRB.new, get_put_of_disjoint]

@[simp] theorem completionCode_transferEvent :
    TransferEventTRB.completionCode (TransferEventTRB.new p residual code ep slot) = code := by
  simp [TransferEventTRB.completionCode, TransferEventTRB.new, get_put_of_disjoint]

@[simp] theorem endpointId_transferEvent : TransferEventTRB.endpointId (TransferEventTRB.new p residual code ep slot) =
    ep := by
  simp [TransferEventTRB.endpointId, TransferEventTRB.new, get_put_of_disjoint]

end

section
variable {p : Ptr} {t : TRB} {b : Bool}

@[simp] theorem trbType_link : (LinkTRB.setToggleCycle (LinkTRB.new p) b).trbType = LinkTRB.type := by
  simp [TRB.trbType, LinkTRB.setToggleCycle, LinkTRB.new, get_put_of_disjoint]

@[simp] theorem toggleCycle_link : LinkTRB.toggleCycle ((LinkTRB.setToggleCycle t true).setCycleBit b) = true := by
  simp [LinkTRB.toggleCycle, TRB.get_setCycleBit, LinkTRB.setToggleCycle]

theorem pointer16_link (h : get p 0 4 = 0) : (LinkTRB.setToggleCycle (LinkTRB.new p) b).pointer16 = p := by
  simp [TRB.pointer16, LinkTRB.setToggleCycle, LinkTRB.new, get_put_of_disjoint, append_zero h]

end

end Xhci

end KinOS.Usb
