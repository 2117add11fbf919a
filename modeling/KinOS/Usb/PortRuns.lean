import KinOS.Lib.TransitionSystem
import KinOS.Usb.Ports

/-!
# Runs of the ports

From the reset of a port to the address of its device the driver may work on one port only, and `addressing_port` says which.
The other ports wait. `Move` says what any event may do to the phases, and what is said about runs follows from it: the
events may be any TRBs whatever, and the registers and the contexts of the devices may change at any time.

When a port has got its address, the first port that waits is next. If it was disconnected meanwhile, nobody is next: the
ports behind it go on waiting, although none is being addressed (`no_port_forgotten_iff`).
-/

open BitField TransitionSystem

namespace KinOS.Usb.Xhci

namespace ConfigPhase

/-- From `kResettingPort` to `kAddressingDevice`. -/
def exclusive : ConfigPhase → Bool
  | kResettingPort | kEnablingSlot | kAddressingDevice => true
  | _ => false

/-- The phases that come right after. -/
def following : ConfigPhase → List ConfigPhase
  | kNotConnected => [kWaitingAddressed, kResettingPort]
  | kWaitingAddressed => [kResettingPort]
  | kResettingPort => [kEnablingSlot]
  | kEnablingSlot => [kAddressingDevice]
  | kAddressingDevice => [kInitializingDevice]
  | kInitializingDevice => [kConfiguringEndpoints]
  | kConfiguringEndpoints => [kConfigured]
  | kConfigured => []

def Advances (p p' : ConfigPhase) : Prop := p' = p ∨ p' ∈ p.following

end ConfigPhase

namespace Ports

variable {s s' : Ports} {port p : BitVec 8}

@[simp] theorem setPhase_addressingPort {q : ConfigPhase} : (s.setPhase port q).addressingPort = s.addressingPort := rfl

theorem setPhase_phase {q : ConfigPhase} : (s.setPhase port q).phase p = if p = port then q else s.phase p := by
  simp [setPhase, Function.update_apply]

theorem firstWaiting_some (h : s.firstWaiting = some p) : s.phase p = .kWaitingAddressed := by
  simpa using List.find?_some h

theorem firstWaiting_none : s.firstWaiting = none ↔ ∀ p, s.phase p ≠ .kWaitingAddressed := by
  have hmem : ∀ p : BitVec 8, p ∈ (List.range 256).map (BitVec.ofNat 8) := fun p =>
    List.mem_map.2 ⟨p.toNat, List.mem_range.2 p.isLt, BitVec.ofNat_toNat .. |>.trans (BitVec.setWidth_eq p)⟩
  simp only [firstWaiting, List.find?_eq_none, decide_eq_true_eq]
  exact ⟨fun h p => h p (hmem p), fun h p _ => h p⟩

/-- What a single event may do, the hand-over apart. -/
inductive Move (s : Ports) : Ports → Prop
  | stay : Move s s
  | wait (port : BitVec 8) : port ≠ 0#8 → s.addressingPort ≠ 0#8 → s.phase port = .kNotConnected →
      Move s (s.setPhase port .kWaitingAddressed)
  | reset (port : BitVec 8) : port ≠ 0#8 → s.addressingPort = 0#8 → s.phase port = .kNotConnected →
      Move s { s.setPhase port .kResettingPort with addressingPort := port }
  | enable (port : BitVec 8) : s.phase port = .kResettingPort → Move s (s.setPhase port .kEnablingSlot)
  | address : s.phase s.addressingPort = .kEnablingSlot → Move s (s.setPhase s.addressingPort .kAddressingDevice)
  | configure (port : BitVec 8) : s.phase port = .kInitializingDevice → Move s (s.setPhase port .kConfiguringEndpoints)
  | complete (port : BitVec 8) : s.phase port = .kConfiguringEndpoints → Move s (s.setPhase port .kConfigured)

/-- The addressed port goes on to the initialisation of its device, and the first port that waits follows if it is
connected. -/
def handedOver (s : Ports) (connected : BitVec 8 → Bool) : Ports :=
  match s.firstWaiting.filter connected with
  | some q => { (s.setPhase q .kResettingPort).setPhase s.addressingPort .kInitializingDevice with addressingPort := q }
  | none => { s.setPhase s.addressingPort .kInitializingDevice with addressingPort := 0#8 }

/-! ## One port at a time -/

/-- The phases in which a port has the driver for itself are those of `addressing_port`. -/
structure OnePort (s : Ports) : Prop where
  zero : s.phase 0#8 = .kNotConnected
  one : ∀ p, (s.phase p).exclusive = true ↔ p ≠ 0#8 ∧ p = s.addressingPort

theorem OnePort.ne_zero (hs : OnePort s) (hp : s.phase port ≠ .kNotConnected) : port ≠ 0#8 := by
  rintro rfl
  exact hp hs.zero

/-- A port that stays on its side of the two boundaries. -/
theorem OnePort.setPhase (hs : OnePort s) {q : ConfigPhase} (hne : port ≠ 0#8)
    (hq : q.exclusive = (s.phase port).exclusive) :
    OnePort (s.setPhase port q) where
  zero := by rw [setPhase_phase, if_neg hne.symm, hs.zero]
  one p := by
    rw [setPhase_phase, setPhase_addressingPort, ← hs.one p]
    split
    · next h => rw [h, hq]
    · rfl

theorem Move.onePort (h : Move s s') (hs : OnePort s) : OnePort s' := by
  cases h with
  | stay => exact hs
  | wait port hne ha hp => exact hs.setPhase hne (by rw [hp]; rfl)
  | reset port hne ha hp =>
    refine ⟨by simp [setPhase_phase, hne.symm, hs.zero], fun p => ?_⟩
    have hold := hs.one p
    simp only [setPhase_phase]
    split
    · next h => simp [h, hne, ConfigPhase.exclusive]
    · next h =>
      rw [hold, ha]
      constructor
      · exact fun ⟨h0, h1⟩ => absurd h1 h0
      · exact fun ⟨_, h1⟩ => absurd h1 h
  | enable port hp => exact hs.setPhase (hs.ne_zero (by simp [hp])) (by rw [hp]; rfl)
  | address hp => exact hs.setPhase (hs.ne_zero (by simp [hp])) (by rw [hp]; rfl)
  | configure port hp => exact hs.setPhase (hs.ne_zero (by simp [hp])) (by rw [hp]; rfl)
  | complete port hp => exact hs.setPhase (hs.ne_zero (by simp [hp])) (by rw [hp]; rfl)

theorem handedOver_onePort (hs : OnePort s) (hp : s.phase s.addressingPort = .kAddressingDevice)
    (connected : BitVec 8 → Bool) :
    OnePort (s.handedOver connected) := by
  have hne : s.addressingPort ≠ 0#8 := hs.ne_zero (by simp [hp])
  have hothers : ∀ p, p ≠ s.addressingPort → (s.phase p).exclusive = false := fun p hpa => by
    rw [← Bool.not_eq_true, hs.one p]
    exact fun h => hpa h.2
  rw [handedOver]
  split
  · next q hq =>
    obtain ⟨hq, -⟩ := Option.filter_eq_some_iff.1 hq
    have hwait := firstWaiting_some hq
    have hq0 : q ≠ 0#8 := hs.ne_zero (by simp [hwait])
    have hqa : q ≠ s.addressingPort := by
      rintro rfl
      rw [hp] at hwait
      cases hwait
    refine ⟨by simp [setPhase_phase, hne.symm, hq0.symm, hs.zero], fun p => ?_⟩
    simp only [setPhase_phase]
    split
    · next h => simp [h, hqa.symm, ConfigPhase.exclusive]
    · next h =>
      split
      · next h' => simp [h', hq0, ConfigPhase.exclusive]
      · next h' => simp [hothers p h, h']
  · refine ⟨by simp [setPhase_phase, hne.symm, hs.zero], fun p => ?_⟩
    simp only [setPhase_phase]
    split
    · simp [ConfigPhase.exclusive]
    · next h => simp [hothers p h]

/-! ## No way back -/

theorem advances_setPhase {q : ConfigPhase} (hq : q ∈ (s.phase port).following) (p : BitVec 8) :
    (s.phase p).Advances ((s.setPhase port q).phase p) := by
  rw [setPhase_phase]
  split
  · next h => exact .inr (h ▸ hq)
  · exact .inl rfl

theorem Move.advances (h : Move s s') (p : BitVec 8) : (s.phase p).Advances (s'.phase p) := by
  cases h with
  | stay => exact .inl rfl
  | wait port _ _ hp => exact advances_setPhase (by simp [hp, ConfigPhase.following]) p
  | reset port _ _ hp => exact advances_setPhase (by simp [hp, ConfigPhase.following]) p
  | enable port hp => exact advances_setPhase (by simp [hp, ConfigPhase.following]) p
  | address hp => exact advances_setPhase (by simp [hp, ConfigPhase.following]) p
  | configure port hp => exact advances_setPhase (by simp [hp, ConfigPhase.following]) p
  | complete port hp => exact advances_setPhase (by simp [hp, ConfigPhase.following]) p

theorem handedOver_advances (hp : s.phase s.addressingPort = .kAddressingDevice) (connected : BitVec 8 → Bool)
    (p : BitVec 8) : (s.phase p).Advances ((s.handedOver connected).phase p) := by
  rw [handedOver]
  split
  · next q hq =>
    have hwait := firstWaiting_some (Option.filter_eq_some_iff.1 hq).1
    simp only [setPhase_phase]
    split
    · next h => exact .inr (by simp [h, hp, ConfigPhase.following])
    · split
      · next h => exact .inr (by simp [h, hwait, ConfigPhase.following])
      · exact .inl rfl
  · exact advances_setPhase (by simp [hp, ConfigPhase.following]) p

/-! ## Who waits -/

/-- While no port is being addressed, none waits. -/
def Served (s : Ports) : Prop := s.addressingPort = 0#8 → ∀ p, s.phase p ≠ .kWaitingAddressed

theorem served_setPhase {q : ConfigPhase} (hs : Served s) (hq : q ≠ .kWaitingAddressed) : Served (s.setPhase port q) := by
  intro ha p
  rw [setPhase_phase]
  split
  · exact hq
  · exact hs ha p

theorem Move.served (h : Move s s') (hs : Served s) : Served s' := by
  cases h with
  | stay => exact hs
  | wait port _ ha _ => exact fun h0 => absurd h0 ha
  | reset port hne _ _ => exact fun h0 => absurd h0 hne
  | enable port _ => exact served_setPhase hs (by simp)
  | address _ => exact served_setPhase hs (by simp)
  | configure port _ => exact served_setPhase hs (by simp)
  | complete port _ => exact served_setPhase hs (by simp)

/-- **The hand-over serves the ports that wait exactly if the first of them is connected.** -/
theorem handedOver_served (hs : OnePort s) (hp : s.phase s.addressingPort = .kAddressingDevice)
    (connected : BitVec 8 → Bool) :
    Served (s.handedOver connected) ↔ ∀ q, s.firstWaiting = some q → connected q = true := by
  rw [handedOver]
  cases hfirst : s.firstWaiting with
  | none =>
    refine iff_of_true (fun _ p => ?_) (fun q hq => by cases hq)
    simp only [Option.filter_none, setPhase_phase]
    split
    · simp
    · exact firstWaiting_none.1 hfirst p
  | some q =>
    have hwait := firstWaiting_some hfirst
    have hq0 : q ≠ 0#8 := hs.ne_zero (by simp [hwait])
    cases hc : connected q with
    | true =>
      refine iff_of_true ?_ (fun q' hq' => by cases hq'; exact hc)
      simp only [Option.filter_some, hc, if_true]
      exact fun h0 => absurd h0 hq0
    | false =>
      refine iff_of_false ?_ (fun h => by simpa [hc] using h q rfl)
      simp only [Option.filter_some, hc, Bool.false_eq_true, if_false]
      intro h
      apply h rfl q
      rw [setPhase_phase, if_neg, hwait]
      rintro rfl
      rw [hp] at hwait
      cases hwait

end Ports

/-! ## The driver's steps -/

namespace Controller

open Ports

variable {δ : Type} {ops : DeviceOps δ} {c : Controller δ} {port slot : BitVec 8} {t : TRB} {outside : Ptr → TRB}

@[simp] theorem setPhase_ports {q : ConfigPhase} : (c.setPhase port q).ports = c.ports.setPhase port q := rfl

@[simp] theorem setDevice_ports {d : δ} : (c.setDevice slot d).ports = c.ports := rfl

@[simp] theorem command_ports : (c.command t).ports = c.ports := rfl

@[simp] theorem clearPortResetChange_ports : (c.clearPortResetChange port).ports = c.ports := rfl

@[simp] theorem loadDCBAA_ports : (c.loadDCBAA slot).ports = c.ports := by
  rw [loadDCBAA]
  split <;> rfl

@[simp] theorem allocDevice_ports : (c.allocDevice ops slot).2.ports = c.ports := by
  rw [allocDevice]
  split
  · rfl
  · split <;> rfl

theorem resetPort_moves (hne : port ≠ 0#8) (hp : c.ports.phase port = .kNotConnected) :
    Move c.ports (c.resetPort port).2.ports := by
  rw [resetPort]
  split
  · split
    · next ha => exact .wait port hne ha hp
    · next ha =>
      rw [if_neg (by simp [hp])]
      exact .reset port hne (not_not.1 ha) hp
  · exact .stay

theorem enableSlot_moves (hp : c.ports.phase port = .kResettingPort) : Move c.ports (c.enableSlot port).2.ports := by
  rw [enableSlot]
  split
  · exact .enable port hp
  · exact .stay

theorem addressDevice_moves (hp : c.ports.phase c.ports.addressingPort = .kEnablingSlot) :
    Move c.ports (c.addressDevice ops c.ports.addressingPort slot).2.ports := by
  simp only [addressDevice]
  split
  · rw [allocDevice_ports]
    exact .stay
  · simp only [command_ports, setPhase_ports, loadDCBAA_ports, setDevice_ports, allocDevice_ports]
    exact .address hp

theorem completeConfiguration_moves (hp : c.ports.phase port = .kConfiguringEndpoints) :
    Move c.ports (c.completeConfiguration ops port slot).2.ports := by
  rw [completeConfiguration]
  split
  · exact .stay
  · exact .complete port hp

theorem configureEndpoints_moves {dev : δ} (hp : c.ports.phase (ops.contextPort dev) = .kInitializingDevice) :
    Move c.ports (c.configureEndpoints ops slot dev).2.ports := by
  simp only [configureEndpoints]
  split
  · exact .stay
  · exact .configure _ hp

theorem onPortStatusChange_moves (hne : PortStatusChangeEventTRB.portId t ≠ 0#8) :
    Move c.ports (c.onPortStatusChange t).2.ports := by
  simp only [onPortStatusChange]
  split
  · next hp => exact resetPort_moves hne hp
  · next hp => exact enableSlot_moves hp
  · exact .stay

theorem onTransfer_moves : Move c.ports (c.onTransfer ops t).2.ports := by
  simp only [onTransfer]
  split
  · exact .stay
  · next dev _ =>
    split
    · exact .stay
    · split
      · next h => exact configureEndpoints_moves h.2
      · exact .stay

/-- The hand-over itself: the port that is next was waiting, so that its reset does not fail. -/
theorem handOver_ports : (c.handOver).1 = .kSuccess ∧ (c.handOver).2.devices = c.devices ∧
    (c.handOver).2.ports.setPhase c.ports.addressingPort .kInitializingDevice =
      c.ports.handedOver fun q => (c.regs q).connected := by
  have hfirst : ∀ a, ({ c.ports with addressingPort := a } : Ports).firstWaiting = c.ports.firstWaiting := fun _ => rfl
  simp only [handOver, handedOver, hfirst]
  cases hq : c.ports.firstWaiting with
  | none => exact ⟨rfl, rfl, rfl⟩
  | some q =>
    have hwait := firstWaiting_some hq
    simp only [resetPort, Option.filter_some]
    cases hc : (c.regs q).connected
    · simp [Ports.setPhase]
    · simp [hwait, Ports.setPhase]

/-- The event reports the address of the device for which `addressing_port` is taken. -/
def HandsOver (ops : DeviceOps δ) (outside : Ptr → TRB) (c : Controller δ) (t : TRB) : Prop :=
  EventRing.kind t = .commandCompletion ∧ (c.issuer outside t.pointer16).trbType = AddressDeviceCommandTRB.type ∧
    (∃ dev ∈ c.findBySlot t.slotId, ops.contextPort dev = c.ports.addressingPort) ∧
    c.ports.phase c.ports.addressingPort = .kAddressingDevice

theorem initializeDevice_ports {dev : δ} (h : c.findBySlot slot = some dev) :
    (c.initializeDevice ops port slot).2.ports = c.ports.setPhase port .kInitializingDevice := by
  simp [initializeDevice, h]

theorem onCommandCompletion_cases (hk : EventRing.kind t = .commandCompletion) :
    HandsOver ops outside c t ∧
        (c.onCommandCompletion ops outside t).2.ports = c.ports.handedOver (fun q => (c.regs q).connected) ∨
      ¬ HandsOver ops outside c t ∧ Move c.ports (c.onCommandCompletion ops outside t).2.ports := by
  simp only [onCommandCompletion]
  split
  · next htype =>
    refine .inr ⟨fun h => ?_, ?_⟩
    · rw [h.2.1] at htype
      cases htype
    · split
      · exact .stay
      · next hp => exact addressDevice_moves (not_not.1 hp)
  · split
    · next htype =>
      cases hdev : c.findBySlot t.slotId with
      | none => exact .inr ⟨fun h => by simp [HandsOver, hdev] at h, .stay⟩
      | some dev =>
        simp only
        split
        · next hport => exact .inr ⟨fun h => by simp [HandsOver, hdev, hport] at h, .stay⟩
        · next hport =>
          rw [not_not] at hport
          split
          · next hp => exact .inr ⟨fun h => hp (hport ▸ h.2.2.2), .stay⟩
          · next hp =>
            obtain ⟨hok, hdevices, hports⟩ := (handOver_ports : c.handOver.1 = .kSuccess ∧ _)
            refine .inl ⟨⟨hk, htype, ⟨dev, hdev, hport⟩, hport ▸ not_not.1 hp⟩, ?_⟩
            have hfind : (c.handOver).2.findBySlot t.slotId = some dev := by
              rw [findBySlot, hdevices]
              exact hdev
            rw [if_neg (by simp [hok]), initializeDevice_ports hfind, hport, hports]
    · next htype =>
      refine .inr ⟨fun h => htype h.2.1, ?_⟩
      split
      · split
        · exact .stay
        · split
          · exact .stay
          · next hp => exact completeConfiguration_moves (not_not.1 hp)
      · exact .stay

end Controller

/-! ## Runs -/

namespace Hub

open Ports Controller

inductive Event (δ : Type)
  /-- `Initialize` finds a port connected -/
  | configure (port : BitVec 8)
  /-- an event is at the front of the ring -/
  | event (t : TRB)
  /-- the controller changes its registers -/
  | registers (regs : BitVec 8 → PortRegs)
  /-- the controller writes to the contexts of a device -/
  | contexts (slot : BitVec 8) (dev : δ)

variable {δ : Type} (ops : DeviceOps δ) (outside : Ptr → TRB)

def next (c : Controller δ) : Event δ → Option (Controller δ)
  | .configure port => some (c.configurePort port).2
  | .event t => some (c.onEvent ops outside t).2
  | .registers regs => some { c with regs := regs }
  | .contexts slot dev => if (c.devices slot).isSome then some (c.setDevice slot dev) else none

/-- Ports are numbered from 1. -/
def Proper : Event δ → Prop
  | .configure port => port ≠ 0#8
  | .event t => EventRing.kind t = .portStatusChange → PortStatusChangeEventTRB.portId t ≠ 0#8
  | _ => True

/-- A step that is a hand-over finds the first port that waits connected. -/
def ServesFirst (c : Controller δ) : Event δ → Prop
  | .event t => HandsOver ops outside c t → ∀ q, c.ports.firstWaiting = some q → (c.regs q).connected = true
  | _ => True

variable {ops outside} {c c' : Controller δ} {e : Event δ}

/-- **One step**: a hand-over, or a move. -/
theorem next_cases (hproper : Proper e) (he : next ops outside c e = some c') :
    (∃ t, e = .event t ∧ HandsOver ops outside c t ∧ c'.ports = c.ports.handedOver fun q => (c.regs q).connected) ∨
      (∀ t, e = .event t → ¬ HandsOver ops outside c t) ∧ Move c.ports c'.ports := by
  cases e with
  | configure port =>
    cases he
    refine .inr ⟨fun t ht => (by cases ht), ?_⟩
    rw [configurePort]
    split
    · next hp => exact resetPort_moves hproper hp
    · exact .stay
  | event t =>
    cases he
    simp only [onEvent]
    cases hk : EventRing.kind t with
    | transfer => exact .inr ⟨fun t' ht => (by cases ht; simp [HandsOver, hk]), onTransfer_moves⟩
    | portStatusChange => exact .inr ⟨fun t' ht => (by cases ht; simp [HandsOver, hk]),
      onPortStatusChange_moves (hproper hk)⟩
    | commandCompletion =>
      rcases (onCommandCompletion_cases hk : HandsOver ops outside c t ∧ _ ∨ _) with ⟨h, hports⟩ | ⟨h, hmove⟩
      · exact .inl ⟨t, rfl, h, hports⟩
      · exact .inr ⟨fun t' ht => (by cases ht; exact h), hmove⟩
    | notImplemented => exact .inr ⟨fun t' ht => (by cases ht; simp [HandsOver, hk]), .stay⟩
  | registers regs =>
    cases he
    exact .inr ⟨fun t ht => (by cases ht), .stay⟩
  | contexts slot dev =>
    simp only [next] at he
    split at he
    · cases he
      exact .inr ⟨fun t ht => (by cases ht), .stay⟩
    · cases he

theorem onePort_next (hs : OnePort c.ports) (hproper : Proper e) (he : next ops outside c e = some c') :
    OnePort c'.ports := by
  rcases next_cases hproper he with ⟨t, -, h, hports⟩ | ⟨-, hmove⟩
  · rw [hports]
    exact handedOver_onePort hs h.2.2.2 _
  · exact hmove.onePort hs

/-- No port was touched yet. -/
def Fresh (c : Controller δ) : Prop := c.ports.addressingPort = 0#8 ∧ ∀ p, c.ports.phase p = .kNotConnected

theorem Fresh.onePort (h : Fresh c) : OnePort c.ports where
  zero := h.2 0
  one p := by
    rw [h.1, h.2 p]
    simp only [ConfigPhase.exclusive, Bool.false_eq_true, false_iff, not_and]
    exact fun hne he => hne he

/-- **One port at a time, and no way back**: over every run, whatever events the controller posts and whatever it writes to
its registers and contexts, the ports in the phases from the reset to the address are `addressing_port` and no others, and
each event leaves each port in its phase or takes it to one that comes right after. -/
theorem one_port_is_addressed (hfresh : Fresh c) {es : List (Event δ)}
    (hproper : Along (next ops outside) (fun _ e => Proper e) c es) :
    States (next ops outside) (fun c => ∀ p, (c.ports.phase p).exclusive = true ↔ p ≠ 0#8 ∧ p = c.ports.addressingPort)
      c es ∧ Along (next ops outside) (fun c e => ∀ c', next ops outside c e = some c' →
        ∀ p, (c.ports.phase p).Advances (c'.ports.phase p)) c es := by
  have hinv : ∀ c e c', OnePort c.ports → Proper e → next ops outside c e = some c' → OnePort c'.ports :=
    fun _ _ _ hs hp he => onePort_next hs hp he
  refine ⟨(hproper.states hinv es hfresh.onePort).mono (fun c h => h.one) es, ?_⟩
  refine hproper.mono (fun c e c' hs hp he => ⟨hinv c e c' hs hp he, fun c'' he' p => ?_⟩) es hfresh.onePort
  rcases next_cases hp he' with ⟨t, -, h, hports⟩ | ⟨-, hmove⟩
  · rw [hports]
    exact handedOver_advances h.2.2.2 _ p
  · exact hmove.advances p

/-- **When no port is forgotten**: in every state of a run no port waits while none is being addressed, exactly if at every
hand-over the first port that waits is connected. -/
theorem no_port_forgotten_iff (hfresh : Fresh c) {es : List (Event δ)}
    (hproper : Along (next ops outside) (fun _ e => Proper e) c es) :
    Along (next ops outside) (ServesFirst ops outside) c es ↔
      States (next ops outside) (fun c => c.ports.addressingPort = 0#8 → ∀ p, c.ports.phase p ≠ .kWaitingAddressed)
        c es := by
  have hserved : Served c.ports := fun _ p => by rw [hfresh.2 p]; simp
  refine Along.iff_states (I := fun c => OnePort c.ports) (fun _ _ _ hs hp he => onePort_next hs hp he) ?_ es
    hfresh.onePort hserved hproper
  intro c e c' hs hq hp he
  change Served c'.ports ↔ _
  rcases next_cases hp he with ⟨t, rfl, h, hports⟩ | ⟨hnot, hmove⟩
  · rw [hports, handedOver_served hs h.2.2.2]
    exact ⟨fun hc _ => hc, fun hc => hc h⟩
  · refine iff_of_true (hmove.served hq) ?_
    cases e with
    | event t => exact fun h => absurd h (hnot t rfl)
    | configure port => trivial
    | registers regs => trivial
    | contexts slot dev => trivial

instance (ops : DeviceOps δ) (outside : Ptr → TRB) (c : Controller δ) (t : TRB) : Decidable (HandsOver ops outside c t) :=
  have : Decidable (∃ dev ∈ c.findBySlot t.slotId, ops.contextPort dev = c.ports.addressingPort) :=
    decidable_of_iff ((c.findBySlot t.slotId).any fun dev => ops.contextPort dev = c.ports.addressingPort)
      (by simp [Option.any_eq_true])
  inferInstanceAs (Decidable (_ ∧ _ ∧ _ ∧ _))

instance : ∀ e : Event δ, Decidable (Proper e)
  | .configure _ => inferInstanceAs (Decidable (_ ≠ _))
  | .event _ => inferInstanceAs (Decidable (_ → _))
  | .registers _ | .contexts _ _ => isTrue trivial

instance (ops : DeviceOps δ) (outside : Ptr → TRB) (c : Controller δ) : ∀ e :
    Event δ, Decidable (ServesFirst ops outside c e)
  | .event _ => inferInstanceAs (Decidable (_ → ∀ q, _ = some q → _))
  | .configure _ | .registers _ | .contexts _ _ => isTrue trivial

/-- Devices that only know their slot and their port. -/
def plainOps : DeviceOps (BitVec 8 × BitVec 8) where
  new slot := (slot, 0)
  address d port _ := (d.1, port)
  inputContext _ := 0x4000
  contextPort d := d.2
  slotId d := d.1
  startInitialize d := d
  onTransferEventReceived d _ := (.kSuccess, d)
  isInitialized _ := false
  copySlotContext d := d
  configure d _ := d
  onEndpointsConfigured d := d

def idle : Controller (BitVec 8 × BitVec 8) :=
  ⟨⟨fun _ => .kNotConnected, 0⟩, fun _ => ⟨false, false, false, 0⟩, fun _ => none, fun _ => .null,
    Ring.initialized 0x1000 32, 0⟩

/-- Two ports are connected at boot; the second one waits until the device of the first one has its address. -/
def twoPortsRun : List (Event (BitVec 8 × BitVec 8)) :=
  [.registers fun _ => ⟨true, true, true, 3⟩, .configure 1, .configure 2, .event (PortStatusChangeEventTRB.new 1),
    .event (CommandCompletionEventTRB.new 0x1000 1 1), .event (CommandCompletionEventTRB.new 0x1010 1 1)]

theorem fresh_idle : Fresh idle := ⟨rfl, fun _ => rfl⟩

theorem one_port_is_addressed_two : ∃ c, exec (next plainOps fun _ => 0) idle twoPortsRun = some c ∧
    c.ports.addressingPort = 2 ∧ c.ports.phase 1 = .kInitializingDevice ∧
    ∀ p, (c.ports.phase p).exclusive = true ↔ p ≠ 0#8 ∧ p = c.ports.addressingPort :=
  ⟨_, rfl, by decide, by decide, (one_port_is_addressed fresh_idle
    (by decide : Along (next plainOps fun _ => 0) (fun _ e => Proper e) idle twoPortsRun)).1.last rfl⟩

theorem no_port_forgotten_two : States (next plainOps fun _ => 0)
    (fun c => c.ports.addressingPort = 0#8 → ∀ p, c.ports.phase p ≠ .kWaitingAddressed) idle twoPortsRun :=
  (no_port_forgotten_iff fresh_idle (by decide)).1 (by decide)

end Hub

end KinOS.Usb.Xhci
