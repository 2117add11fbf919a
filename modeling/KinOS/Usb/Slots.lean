import KinOS.Usb.PortRuns

/-!
# The device slots

The controller finds the context of a device in `device_context_pointers_`, by the slot that it assigned itself. Entry
0 is no slot: it points to the scratchpad buffers, which `Initialize` put there (`kernel/usb/xhci/xhci.cpp:391`).

`AllocDevice` and `LoadDCBAA` (`devmgr.cpp:70-92`) only reject slots above `max_slots_`, and the completion code of the
command is not looked at. A completion with slot 0, as for an `EnableSlot` that failed, makes a device of slot 0 and
overwrites the pointer to the scratchpad (`context_pointers_iff`).
-/

open TransitionSystem

namespace KinOS.Usb.Xhci

variable {δ : Type}

namespace Controller

/-- The event is a completion of `EnableSlot` that leads to `AddressDevice`. -/
def EnablesSlot (outside : Ptr → TRB) (c : Controller δ) (t : TRB) : Prop :=
  EventRing.kind t = .commandCompletion ∧ (c.issuer outside t.pointer16).trbType = EnableSlotCommandTRB.type ∧
    c.ports.phase c.ports.addressingPort = .kEnablingSlot

/-- Entry 0 is the scratchpad, the others are the contexts of the devices that there are. -/
structure Tabled (c : Controller δ) : Prop where
  scratchpad : c.contextPointers 0#8 = .scratchpad
  device : ∀ slot, slot ≠ 0#8 → c.contextPointers slot = if (c.devices slot).isSome then .device slot else .null
  above : ∀ slot, kDeviceSize < slot → c.devices slot = none

/-- The table and the slots in use are those of `c`. -/
structure SameSlots (c c' : Controller δ) : Prop where
  pointers : c'.contextPointers = c.contextPointers
  devices : ∀ slot, (c'.devices slot).isSome = (c.devices slot).isSome

variable {ops : DeviceOps δ} {outside : Ptr → TRB} {c c' c'' : Controller δ} {port slot : BitVec 8} {t : TRB} {dev : δ}

theorem SameSlots.refl : SameSlots c c := ⟨rfl, fun _ => rfl⟩

theorem SameSlots.trans (h : SameSlots c c') (h' : SameSlots c' c'') : SameSlots c c'' :=
  ⟨h'.pointers.trans h.pointers, fun slot => (h'.devices slot).trans (h.devices slot)⟩

theorem SameSlots.tabled (h : SameSlots c c') (hc : Tabled c) : Tabled c' where
  scratchpad := by rw [h.pointers, hc.scratchpad]
  device slot hne := by rw [h.pointers, h.devices, hc.device slot hne]
  above slot hlt := by
    have hnone := h.devices slot
    rwa [hc.above slot hlt, Option.isSome_none, Option.isSome_eq_false_iff, Option.isNone_iff_eq_none] at hnone

theorem setPhase_same {q : ConfigPhase} : SameSlots c (c.setPhase port q) := ⟨rfl, fun _ => rfl⟩

theorem command_same : SameSlots c (c.command t) := ⟨rfl, fun _ => rfl⟩

/-- A device that is there is replaced. -/
theorem setDevice_same (h : (c.devices slot).isSome) : SameSlots c (c.setDevice slot dev) := by
  refine ⟨rfl, fun slot' => ?_⟩
  by_cases he : slot' = slot
  · subst he
    simp [setDevice, h]
  · simp [setDevice, he]

theorem isSome_of_findBySlot (h : c.findBySlot slot = some dev) : (c.devices slot).isSome := by
  rw [findBySlot] at h
  split at h
  · cases h
  · rw [h]
    rfl

theorem resetPort_same : SameSlots c (c.resetPort port).2 := by
  rw [resetPort]
  split
  · split
    · exact setPhase_same
    · split <;> exact ⟨rfl, fun _ => rfl⟩
  · exact .refl

theorem enableSlot_same : SameSlots c (c.enableSlot port).2 := by
  rw [enableSlot]
  split <;> exact ⟨rfl, fun _ => rfl⟩

theorem initializeDevice_same : SameSlots c (c.initializeDevice ops port slot).2 := by
  rw [initializeDevice]
  split
  · exact .refl
  · next dev h => exact setPhase_same.trans (setDevice_same (isSome_of_findBySlot h))

theorem completeConfiguration_same : SameSlots c (c.completeConfiguration ops port slot).2 := by
  rw [completeConfiguration]
  split
  · exact .refl
  · next dev h => exact (setDevice_same (isSome_of_findBySlot h)).trans setPhase_same

theorem configureEndpoints_same (h : (c.devices slot).isSome) : SameSlots c (c.configureEndpoints ops slot dev).2 := by
  simp only [configureEndpoints]
  split
  · exact setDevice_same h
  · exact ((setDevice_same h).trans setPhase_same).trans command_same

theorem handOver_same : SameSlots c (c.handOver).2 := by
  have hfree : SameSlots c { c with ports := { c.ports with addressingPort := 0 } } := ⟨rfl, fun _ => rfl⟩
  simp only [handOver]
  split
  · exact hfree
  · exact hfree.trans resetPort_same

theorem onPortStatusChange_same : SameSlots c (c.onPortStatusChange t).2 := by
  simp only [onPortStatusChange]
  split
  · exact resetPort_same
  · exact enableSlot_same
  · exact .refl

theorem onTransfer_same : SameSlots c (c.onTransfer ops t).2 := by
  simp only [onTransfer]
  split
  · exact .refl
  · next dev h =>
    have hset : SameSlots c (c.setDevice t.slotId (ops.onTransferEventReceived dev t).2) :=
      setDevice_same (isSome_of_findBySlot h)
    split
    · exact hset
    · split
      · refine hset.trans (configureEndpoints_same ?_)
        rw [hset.devices]
        exact isSome_of_findBySlot h
      · exact hset

/-- **A new device takes its entry**, whatever the slot is, and slots above the last one take none. -/
theorem addressDevice_slots : SameSlots c (c.addressDevice ops port slot).2 ∧ kDeviceSize < slot ∨
    ¬ kDeviceSize < slot ∧
      (c.addressDevice ops port slot).2.contextPointers = Function.update c.contextPointers slot (.device slot) ∧
      ∀ slot', ((c.addressDevice ops port slot).2.devices slot').isSome = (slot' = slot || (c.devices slot').isSome) := by
  by_cases hlt : kDeviceSize < slot
  · refine .inl ⟨?_, hlt⟩
    have halloc : (c.allocDevice ops slot).2 = c := by rw [allocDevice, if_pos hlt]
    simp only [addressDevice, halloc, findBySlot, if_pos hlt]
    exact .refl
  · refine .inr ⟨hlt, ?_⟩
    have halloc : ∃ dev, (c.allocDevice ops slot).2.findBySlot slot = some dev ∧
        (c.allocDevice ops slot).2.contextPointers = c.contextPointers ∧
        ∀ slot', slot' ≠ slot → (c.allocDevice ops slot).2.devices slot' = c.devices slot' := by
      rw [allocDevice, if_neg hlt]
      cases hdev : c.devices slot with
      | none => exact ⟨ops.new slot, by simp [findBySlot, hlt, setDevice], rfl, fun _ hne => by simp [setDevice, hne]⟩
      | some dev => exact ⟨dev, by simp [findBySlot, hlt, hdev], rfl, fun _ _ => rfl⟩
    obtain ⟨dev, hfind, hpointers, hothers⟩ := halloc
    simp only [addressDevice, hfind, loadDCBAA, if_neg hlt]
    refine ⟨by simp [command, setPhase, setDevice, hpointers], fun slot' => ?_⟩
    by_cases he : slot' = slot
    · simp [command, setPhase, setDevice, he]
    · simp [command, setPhase, setDevice, he, hothers slot' he]

theorem onCommandCompletion_slots :
    SameSlots c (c.onCommandCompletion ops outside t).2 ∨
      EnableSlotCommandTRB.type = (c.issuer outside t.pointer16).trbType ∧
        c.ports.phase c.ports.addressingPort = .kEnablingSlot ∧
        c.onCommandCompletion ops outside t = c.addressDevice ops c.ports.addressingPort t.slotId := by
  simp only [onCommandCompletion]
  split
  · next htype =>
    split
    · exact .inl .refl
    · next hp => exact .inr ⟨htype.symm, not_not.1 hp, rfl⟩
  · refine .inl ?_
    split
    · split
      · exact .refl
      · split
        · exact .refl
        · split
          · exact .refl
          · split
            · exact handOver_same
            · exact handOver_same.trans initializeDevice_same
    · split
      · split
        · exact .refl
        · split
          · exact .refl
          · exact completeConfiguration_same
      · exact .refl

end Controller

namespace Hub

open Controller

variable {ops : DeviceOps δ} {outside : Ptr → TRB} {c c' : Controller δ} {e : Event δ}

/-- A slot is enabled, and it is not slot 0. -/
def RealSlot (outside : Ptr → TRB) (c : Controller δ) : Event δ → Prop
  | .event t => EnablesSlot outside c t → t.slotId ≠ 0#8
  | _ => True

instance (outside : Ptr → TRB) (c : Controller δ) : ∀ e : Event δ, Decidable (RealSlot outside c e)
  | .event t =>
    have : Decidable (EnablesSlot outside c t) := inferInstanceAs (Decidable (_ ∧ _ ∧ _))
    inferInstanceAs (Decidable (_ → _))
  | .configure _ | .registers _ | .contexts _ _ => isTrue trivial

theorem next_slots (he : next ops outside c e = some c') :
    SameSlots c c' ∧ (RealSlot outside c e ∨ ∃ t, e = .event t ∧ kDeviceSize < t.slotId) ∨
      ∃ t, e = .event t ∧ EnablesSlot outside c t ∧ ¬ kDeviceSize < t.slotId ∧
        c'.contextPointers = Function.update c.contextPointers t.slotId (.device t.slotId) ∧
        ∀ slot, (c'.devices slot).isSome = (slot = t.slotId || (c.devices slot).isSome) := by
  cases e with
  | configure port =>
    cases he
    refine .inl ⟨?_, .inl trivial⟩
    rw [configurePort]
    split
    · exact resetPort_same
    · exact .refl
  | event t =>
    cases he
    simp only [onEvent]
    cases hk : EventRing.kind t with
    | transfer => exact .inl ⟨onTransfer_same, .inl fun h => by simp [EnablesSlot, hk] at h⟩
    | portStatusChange => exact .inl ⟨onPortStatusChange_same, .inl fun h => by simp [EnablesSlot, hk] at h⟩
    | notImplemented => exact .inl ⟨.refl, .inl fun h => by simp [EnablesSlot, hk] at h⟩
    | commandCompletion =>
      by_cases henables : EnablesSlot outside c t
      · have hrun : c.onCommandCompletion ops outside t = c.addressDevice ops c.ports.addressingPort t.slotId := by
          simp [onCommandCompletion, henables.2.1, henables.2.2]
        simp only [hrun]
        rcases (addressDevice_slots : SameSlots c (c.addressDevice ops c.ports.addressingPort t.slotId).2 ∧ _ ∨ _) with
          ⟨hsame, hlt⟩ | ⟨hlt, hpointers, hdevices⟩
        · exact .inl ⟨hsame, .inr ⟨t, rfl, hlt⟩⟩
        · exact .inr ⟨t, rfl, henables, hlt, hpointers, hdevices⟩
      · refine .inl ⟨?_, .inl fun h => absurd h henables⟩
        rcases (onCommandCompletion_slots : SameSlots c (c.onCommandCompletion ops outside t).2 ∨ _) with
          hsame | ⟨htype, hphase, -⟩
        · exact hsame
        · exact absurd ⟨hk, htype.symm, hphase⟩ henables
  | registers regs =>
    cases he
    exact .inl ⟨⟨rfl, fun _ => rfl⟩, .inl trivial⟩
  | contexts slot dev =>
    simp only [next] at he
    split at he
    · next h =>
      cases he
      exact .inl ⟨setDevice_same h, .inl trivial⟩
    · cases he

/-- **When the table of contexts is right**: in every state of a run entry 0 is the scratchpad, and every other entry is the
context of the device of its slot, or null where there is none, exactly if no completion of `EnableSlot` ever brings
slot 0. -/
theorem context_pointers_iff (htable : Tabled c) (es : List (Event δ)) :
    Along (next ops outside) (RealSlot outside) c es ↔ States (next ops outside) Tabled c es := by
  refine along_iff_states (I := fun _ => True) (fun _ _ _ _ _ => trivial) ?_ es trivial htable
  intro c e c' _ hc he
  rcases next_slots he with ⟨hsame, hreal⟩ | ⟨t, rfl, henables, hlt, hpointers, hdevices⟩
  · refine iff_of_true (hsame.tabled hc) ?_
    rcases hreal with hreal | ⟨t, rfl, hlt⟩
    · exact hreal
    · rintro - h0
      rw [h0] at hlt
      exact absurd hlt (by decide)
  · constructor
    · intro hc' _ h0
      have hscratch := hc'.scratchpad
      rw [hpointers, h0, Function.update_self] at hscratch
      cases hscratch
    · intro hreal
      have hne := hreal henables
      refine ⟨?_, fun slot h0 => ?_, fun slot habove => ?_⟩
      · rw [hpointers, Function.update_of_ne hne.symm, hc.scratchpad]
      · rw [hpointers, hdevices]
        by_cases hslot : slot = t.slotId
        · subst hslot
          simp
        · simp [hslot, hc.device slot h0]
      · have hslot : slot ≠ t.slotId := by
          rintro rfl
          exact hlt habove
        have hnone := hdevices slot
        simpa [hslot, hc.above slot habove] using hnone

/-- After `Controller::Initialize`. -/
theorem tabled_idle : Tabled { idle with contextPointers := fun i => if i = 0#8 then .scratchpad else .null } where
  scratchpad := rfl
  device slot hne := by simp [idle, hne]
  above _ _ := rfl

theorem context_pointers_two : States (next plainOps fun _ => 0) Tabled
    { idle with contextPointers := fun i => if i = 0#8 then .scratchpad else .null } twoPortsRun :=
  (context_pointers_iff tabled_idle twoPortsRun).1 (by decide)

end Hub

end KinOS.Usb.Xhci
