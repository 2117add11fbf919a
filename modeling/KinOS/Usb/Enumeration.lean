import KinOS.Usb.Device

/-!
# Enumeration

What is under way and what the device knows at each point (`Stage`), and that the two `GetDescriptor` and the
`SetConfiguration` lead from one to the next. Each request is the only one: there is always room for it.

The class driver that `InitializePhase2` makes is the only one, too. It is in `class_drivers_` once for each of its endpoint
numbers.
-/

namespace KinOS.Usb

open Xhci TransitionSystem SlotMap

/-! ## What a transfer does to the session -/

namespace Xhci.Session

/-- A transfer was issued. -/
structure Issued (s s' : Session) (q : Xhci.Request) (trbs : List TRB) : Prop where
  inv : s'.Inv
  outstanding : s'.outstanding = s.outstanding ++ [q]
  pushed : s'.pushed = Function.update s.pushed q.endpoint.address (s.pushed q.endpoint.address ++ trbs)
  failed : s'.failed = s.failed
  rings : SameRings s.dev s'.dev

/-- A transfer was completed. -/
structure Completed (s s' : Session) (q : Xhci.Request) (ok : Bool) : Prop where
  inv : s'.Inv
  outstanding : s'.outstanding = s.outstanding.erase q
  pushed : s'.pushed = s.pushed
  failed : s'.failed = if q.want.isControl && !ok then s.failed + 1 else s.failed
  rings : s'.dev.rings = s.dev.rings
  waiters : s'.dev.eventWaiters = s.dev.eventWaiters

variable {s : Session}

theorem Inv.complete_spec (h : s.Inv) {q : Xhci.Request} (hq : q ∈ s.outstanding) {residual : BitVec 24}
    (hres : residual.toNat ≤ q.want.len) (code : BitVec 8) :
    ∃ s', s.next (.complete q residual code) = some s' ∧ s.Completed s' q (succeeds code) ∧
      (s.dev.onTransferEventReceived (s.completion q residual code)).1 =
        if succeeds code then q.want.outcome q.endpoint residual.toNat else .error .kTransferFailed := by
  obtain ⟨r, hr, -⟩ := h.pending q hq
  have hreceive := h.receive hq hres code hr
  have hnext : s.next (.complete q residual code) = some { s with
      dev := (s.dev.onTransferEventReceived (s.completion q residual code)).2
      outstanding := s.outstanding.erase q
      failed := if q.want.isControl && !succeeds code then s.failed + 1 else s.failed } := if_pos hq
  refine ⟨_, hnext, ⟨h.next (e := .complete q residual code) hres hnext, rfl, rfl, rfl, ?_, ?_⟩, congrArg Prod.fst hreceive⟩
  · rw [hreceive]
    simp only []
    split <;> rfl
  · rw [hreceive]
    simp only []
    split <;> rfl

end Xhci.Session

namespace Device

variable {d : Device}

theorem control_spec (hs : d.session.Inv) {dirIn : Bool} {ep : EndpointID} {s : SetupData} {buf : Ptr} {len : Nat}
    {issuer : Option Nat} (hroom : d.session.Room (.control dirIn ep s buf len issuer)) :
    ∃ session, d.control dirIn ep s buf len issuer = (.kSuccess, { d with session := session }) ∧
      d.session.Issued session ⟨ep, (d.session.pushed ep.address).length, (d.session.pushed ep.address).length + 1,
        .control s buf (if buf = 0 then 0 else len)⟩ (controlTRBs dirIn s buf len) ∧
      session.dev.eventWaiters = (d.session.dev.addWaiter s issuer).eventWaiters := by
  have hinv := hs.control hroom
  obtain ⟨⟨r, hr, -⟩, -⟩ := hroom
  obtain ⟨-, hb, hsize, -⟩ := controlStages_spec (hs.rings _ r hr).2 dirIn s buf len
  have heq : (if dirIn then d.session.dev.controlIn else d.session.dev.controlOut) ep s buf len issuer = _ :=
    hs.control_eq hr rfl
  rw [heq] at hinv
  refine ⟨_, by rw [control, heq], ⟨hinv, ?_, ?_, ?_, ?_⟩, ?_⟩
  · rw [Session.issue, if_pos rfl]
  · rw [Session.issue, if_pos rfl]
  · rw [Session.issue, if_pos rfl]
  · rw [Session.issue, if_pos rfl]
    exact Session.sameRings_update hr hb hsize rfl
  · rw [Session.issue, if_pos rfl]

theorem interruptIn_spec (hs : d.session.Inv) {ep : EndpointID} {buf : Ptr} {len : Nat}
    (hroom : ∀ r, d.session.dev.rings ep.address = some r → d.session.Room (.interruptIn ep buf len)) :
    ∃ e session, d.interruptIn ep buf len = (e, { d with session := session }) ∧
      session.dev.eventWaiters = d.session.dev.eventWaiters ∧
      (d.session.dev.rings ep.address = none ∧ e = .kTransferRingNotSet ∧ session = d.session ∨
        e = .kSuccess ∧ d.session.Issued session ⟨ep, (d.session.pushed ep.address).length,
          (d.session.pushed ep.address).length + 0, .interrupt buf len⟩ [(NormalTRB.new buf len).setCycleBit false]) := by
  cases hr : d.session.dev.rings ep.address with
  | none =>
    refine ⟨_, d.session, ?_, rfl, .inl ⟨rfl, rfl, rfl⟩⟩
    simp only [interruptIn, Xhci.Device.interruptIn, hr, Session.issue]
    rfl
  | some r =>
    have hinv := hs.interruptIn (hroom r hr)
    have heq : d.session.dev.interruptIn ep buf len = (.kSuccess, { d.session.dev.setRing ep.address
        (r.push (NormalTRB.new buf len)).2 with rung := d.session.dev.rung ++ [ep.address] }) := by
      rw [Xhci.Device.interruptIn, hr]
    rw [heq] at hinv
    refine ⟨_, _, by rw [interruptIn, heq], ?_, .inr ⟨rfl, hinv, ?_, ?_, ?_, ?_⟩⟩
    · rw [Session.issue, if_pos rfl]
      rfl
    · rw [Session.issue, if_pos rfl]
    · rw [Session.issue, if_pos rfl]
    · rw [Session.issue, if_pos rfl]
    · rw [Session.issue, if_pos rfl]
      exact Session.sameRings_update hr Ring.push_base Ring.push_size rfl

/-! ## The invariant -/

structure Base (d : Device) : Prop where
  session : d.session.Inv
  pipe : ∃ r, d.session.dev.rings 1 = some r ∧ r.size = 32
  before : d.session.dev.rings 0 = none
  bufPtr : d.bufPtr ≠ 0

/-- At most the request `want` is under way, and if it is, no transfer has failed. -/
def Only (d : Device) (want : Want) : Prop :=
  d.session.outstanding = [] ∨
    d.session.failed = 0 ∧ ∃ first, d.session.outstanding = [⟨kDefaultControlPipeID, first, first + 1, want⟩]

/-- `h` is the driver of all endpoints. -/
structure Has (d : Device) (h : HIDBaseDriver) : Prop where
  drivers : d.drivers = [h]
  classDrivers : ∀ i, d.classDrivers i = if i ∈ d.epConfigs.map (fun c => c.epId.number) then some 0 else none
  numbers : ∀ c ∈ d.epConfigs, c.epId.number ≠ 0 ∧ c.epId.address < 32
  apart : h.bufPtr ≠ d.bufPtr
  endpoint : h.epInterruptIn = ⟨0⟩ ∨ ∃ c ∈ d.epConfigs, c.epId = h.epInterruptIn ∧ c.epId.isIn
  told : h.Told

/-- The driver was made and not told of its endpoints yet. -/
structure Unasked (h : HIDBaseDriver) : Prop where
  phase : h.initializePhase = 0
  bufs : h.previousBuf = h.buf

/-- Nobody waits for a request. -/
structure NoWaiter (d : Device) : Prop where
  entries : entries d.session.dev.eventWaiters = []
  slots : d.session.dev.eventWaiters.length = 4

/-- The interrupt transfers under way. -/
def polls (d : Device) : List Xhci.Request := d.session.outstanding.filter fun q => !q.want.isControl

structure Running (d : Device) (h : HIDBaseDriver) : Prop where
  requests : ∀ q ∈ d.session.outstanding,
    q.endpoint = kDefaultControlPipeID ∧ q.want = .control (setupSetProtocol h.interfaceIndex) 0 0 ∨
      q.endpoint = h.epInterruptIn ∧ q.want = .interrupt h.bufPtr h.kind.inPacketSize
  once : d.polls.length ≤ if h.initializePhase = 2 then 1 else 0
  waiter : ∀ q ∈ d.session.outstanding, q.want.isControl →
    SlotMap.get d.session.dev.eventWaiters (setupSetProtocol h.interfaceIndex) = some 0
  bufs : h.previousBuf = h.buf ∨ h.initializePhase = 2 ∧ d.polls = []

/-- How far the device has come. -/
inductive Stage (d : Device) : Prop
  | descriptors (init : d.isInitialized = false) (port : d.port = .kInitializingDevice)
      (phase : d.initializePhase = 1 ∨ d.initializePhase = 2) (drivers : d.drivers = [])
      (classDrivers : ∀ i, d.classDrivers i = none) (waiters : NoWaiter d)
      (asked : Only d (.control (setupGetDescriptor (UInt8.ofNat d.initializePhase) 0 kDeviceBufferSize) d.bufPtr
        kDeviceBufferSize))
  | configuration (h : HIDBaseDriver) (init : d.isInitialized = false) (port : d.port = .kInitializingDevice)
      (phase : d.initializePhase = 3) (has : Has d h) (unasked : Unasked h) (waiters : NoWaiter d) (v : UInt8)
      (asked : Only d (.control (setupSetConfiguration v) 0 0))
  | initialized (h : HIDBaseDriver) (init : d.isInitialized = true)
      (port : d.port = .kInitializingDevice ∨ d.port = .kConfiguringEndpoints) (has : Has d h) (unasked : Unasked h)
      (waiters : NoWaiter d) (quiet : d.session.outstanding = [] ∧ d.session.failed = 0)
  | configured (h : HIDBaseDriver) (init : d.isInitialized = true) (port : d.port = .kConfigured) (has : Has d h)
      (running : Running d h)

structure Inv (d : Device) : Prop where
  base : Base d
  stage : Stage d

/-! ## Asking for something -/

theorem Base.withSession (hb : Base d) {session : Session} (hs : session.Inv)
    (hrings : Session.SameRings d.session.dev session.dev) :
    Base { d with session := session } where
  session := hs
  pipe := by
    obtain ⟨r, hr, hsize⟩ := hb.pipe
    obtain ⟨r', hr', -, hsize'⟩ := hrings.new _ r hr
    exact ⟨r', hr', hsize'.trans hsize⟩
  before := by
    cases hr : session.dev.rings 0 with
    | none => rfl
    | some r =>
      obtain ⟨r', hr', -⟩ := hrings.old _ r hr
      rw [hb.before] at hr'
      cases hr'
  bufPtr := hb.bufPtr

theorem length_controlTRBs_le {dirIn : Bool} {s : SetupData} {buf : Ptr} {len : Int} :
    (controlTRBs dirIn s buf len).length ≤ 3 := by
  rw [controlTRBs]
  split <;> simp

/-- **With nothing under way a request can be made**, and it is the only one then. -/
theorem Base.ask (hb : Base d) (hquiet : d.session.outstanding = []) (hf : d.session.failed = 0) (dirIn : Bool)
    (s : SetupData) (buf : Ptr) (len : Nat) (hlen : len < 2 ^ 17) :
    ∃ session, d.control dirIn kDefaultControlPipeID s buf len none = (.kSuccess, { d with session := session }) ∧
      Base { d with session := session } ∧
      Only { d with session := session } (.control s buf (if buf = 0 then 0 else len)) ∧
      session.dev.eventWaiters = d.session.dev.eventWaiters := by
  obtain ⟨r, hr, hsize⟩ := hb.pipe
  have hroom : d.session.Room (.control dirIn kDefaultControlPipeID s buf len none) := by
    refine ⟨⟨r, hr, ?_, fun q hq => absurd hq (by simp [hquiet])⟩, hlen, by simp [hquiet, hf]⟩
    have : (controlTRBs dirIn s buf len).length ≤ 3 := length_controlTRBs_le
    omega
  obtain ⟨session, heq, hissued, hwaiters⟩ := control_spec hb.session hroom
  refine ⟨session, heq, hb.withSession hissued.inv hissued.rings,
    .inr ⟨hissued.failed.trans hf, (d.session.pushed 1).length, ?_⟩, hwaiters⟩
  show session.outstanding = _
  rw [hissued.outstanding, hquiet, List.nil_append]
  rfl

/-! ## A completion -/

theorem complete_eq (hb : Base d) {q : Xhci.Request} (hq : q ∈ d.session.outstanding) {residual : BitVec 24}
    (hres : residual.toNat ≤ q.want.len) (code : BitVec 8) (data : Bytes) (alloc : Ptr) :
    ∃ session, d.session.Completed session q (Session.succeeds code) ∧
      d.complete q residual code data alloc =
        let d1 := { d.dma q.want (q.want.len - residual.toNat) data with session := session }
        if Session.succeeds code then
          match q.want with
          | .control s buf len => d1.onControlCompleted s buf (len - residual.toNat) alloc
          | .interrupt _ len => d1.onInterruptCompleted q.endpoint (len - residual.toNat)
        else some (.kTransferFailed, d1) := by
  obtain ⟨session, hnext, hcompleted, hcallback⟩ := hb.session.complete_spec hq hres code
  refine ⟨session, hcompleted, ?_⟩
  simp only [complete, hnext, hcallback]
  cases Session.succeeds code with
  | false => rfl
  | true =>
    cases hw : q.want with
    | control s buf len => simp [Want.outcome]
    | interrupt buf len => simp [Want.outcome]

theorem mem_of_complete {q : Xhci.Request} {residual : BitVec 24} {code : BitVec 8} {data : Bytes} {alloc : Ptr}
    {r : Error × Device} (he : d.complete q residual code data alloc = some r) : q ∈ d.session.outstanding := by
  by_contra hq
  have hnone : d.session.next (.complete q residual code) = none := if_neg hq
  simp only [complete, hnone] at he
  cases he

theorem Base.completed (hb : Base d) {session : Session} {q : Xhci.Request} {ok : Bool}
    (hc : d.session.Completed session q ok) : Base { d with session := session } where
  session := hc.inv
  pipe := by
    obtain ⟨r, hr, hsize⟩ := hb.pipe
    exact ⟨r, by rw [hc.rings]; exact hr, hsize⟩
  before := by
    rw [hc.rings]
    exact hb.before
  bufPtr := hb.bufPtr

/-- The only request is completed. -/
theorem Only.completed {want : Want} (ho : Only d want) {q : Xhci.Request} (hq : q ∈ d.session.outstanding) :
    q.want = want ∧ q.endpoint = kDefaultControlPipeID ∧ d.session.failed = 0 ∧ d.session.outstanding.erase q = [] := by
  rcases ho with hnone | ⟨hf, first, hone⟩
  · rw [hnone] at hq
    cases hq
  · rw [hone] at hq ⊢
    obtain rfl := List.mem_singleton.1 hq
    exact ⟨rfl, rfl, hf, by simp⟩

/-! ## The steps -/

/-- The endpoints of the interface have numbers of their own; 0 is that of the default control pipe. -/
def Numbered : Option Configuration → Prop
  | some (.driver _ _ (.read eps)) => ∀ c ∈ eps, c.epId.number ≠ 0
  | _ => True

instance : ∀ c, Decidable (Numbered c)
  | some (.driver _ _ (.read _)) => inferInstanceAs (Decidable (∀ c ∈ _, _))
  | some .unsupported | some (.driver _ _ .nullDescriptor) | some (.driver _ _ .overflow) | none => isTrue trivial

theorem initializePhase1_spec (hb : Base d) (hquiet : d.session.outstanding = []) (hf : d.session.failed = 0) :
    ∃ session, d.initializePhase1 = (.kSuccess,
        { d with session := session, numConfigurations := d.buf 17, configIndex := 0, initializePhase := 2 }) ∧
      Base { d with session := session } ∧ session.dev.eventWaiters = d.session.dev.eventWaiters ∧
      Only { d with session := session }
        (.control (setupGetDescriptor 2 0 kDeviceBufferSize) d.bufPtr kDeviceBufferSize) := by
  obtain ⟨session, heq, hbase, honly, hwaiters⟩ :=
    Base.ask (d := { d with numConfigurations := d.buf 17, configIndex := 0, initializePhase := 2 })
      ⟨hb.session, hb.pipe, hb.before, hb.bufPtr⟩ hquiet hf true (setupGetDescriptor 2 0 kDeviceBufferSize) d.bufPtr
      kDeviceBufferSize (by decide)
  rw [if_neg hb.bufPtr] at honly
  exact ⟨session, heq, ⟨hbase.session, hbase.pipe, hbase.before, hbase.bufPtr⟩, hwaiters, honly⟩

/-- The parser is all that can go wrong. -/
theorem initializePhase2_eq_none {len : Nat} {alloc : Ptr} (he : d.initializePhase2 len alloc = none) :
    Derails d.buf len := by
  rw [initializePhase2] at he
  split at he
  · cases he
  · cases he
  · next hunsupported hread =>
    cases hc : parse d.buf len with
    | none => exact .inl (parse_eq_none.1 hc)
    | some c =>
      refine .inr ⟨len + 17, ?_⟩
      cases c with
      | unsupported => exact absurd hc hunsupported
      | driver i kind e =>
        cases e with
        | read eps => exact absurd hc (hread i kind eps)
        | nullDescriptor => exact ⟨i, kind, _, hc, .inl rfl⟩
        | overflow => exact ⟨i, kind, _, hc, .inr rfl⟩

/-- The driver is found, and the configuration asked for. -/
theorem initializePhase2_spec (hb : Base d) (hquiet : d.session.outstanding = []) (hf : d.session.failed = 0)
    (hdrivers : d.drivers = []) (hclass : ∀ i, d.classDrivers i = none) {len : Nat} {alloc : Ptr} (halloc : alloc ≠ d.bufPtr)
    (hnum : Numbered (parse d.buf len)) {r : Error × Device} (he : d.initializePhase2 len alloc = some r) :
    r = (.kSuccess, d) ∨ ∃ h session i kind eps, r = (.kSuccess,
        { d.addDriver i kind alloc eps with initializePhase := 3, session := session }) ∧
      Base { d with session := session } ∧ Has { d.addDriver i kind alloc eps with session := session } h ∧ Unasked h ∧
      session.dev.eventWaiters = d.session.dev.eventWaiters ∧
      Only { d with session := session } (.control (setupSetConfiguration (d.buf 5)) 0 0) := by
  rw [initializePhase2] at he
  split at he
  · cases he
    exact .inl rfl
  · next i kind eps hread =>
    obtain ⟨session, heq, hbase, honly, hwaiters⟩ :=
      Base.ask (d := { d.addDriver i kind alloc eps with initializePhase := 3 })
        ⟨hb.session, hb.pipe, hb.before, hb.bufPtr⟩ hquiet hf false (setupSetConfiguration (d.buf 5)) 0 0 (by decide)
    rw [setConfiguration, heq] at he
    cases he
    rw [hread] at hnum
    refine .inr ⟨.new kind i.interfaceNumber alloc, session, i, kind, eps, rfl,
      ⟨hbase.session, hbase.pipe, hbase.before, hbase.bufPtr⟩, ?_, ⟨rfl, rfl⟩, hwaiters, honly⟩
    refine ⟨?_, fun n => ?_, fun c hc => ⟨hnum c hc, readConfiguration_address _ _ hread c hc⟩, halloc, .inl rfl,
      HIDBaseDriver.told_new⟩
    · simp [addDriver, hdrivers]
    · simp only [addDriver, hdrivers, hclass, List.length_nil]
  · cases he

/-- The memory of two rings. -/
def Beside (r r' : Ring) : Prop := 16 * r.size ≤ (r'.base - r.base).toNat ∧ 16 * r'.size ≤ (r.base - r'.base).toNat

instance (r r' : Ring) : Decidable (Beside r r') := inferInstanceAs (Decidable (_ ∧ _))

theorem Beside.not_inRing {r r' : Ring} (h : Beside r r') {p : Ptr} (hp : Xhci.Device.inRing r p) :
    ¬ Xhci.Device.inRing r' p := by
  rintro ⟨hp', -⟩
  obtain ⟨hp, -⟩ := hp
  obtain ⟨h1, h2⟩ := h
  rw [BitVec.toNat_sub] at *
  have := p.isLt
  have := r.base.isLt
  have := r'.base.isLt
  omega

/-- Each new ring is beside those that are there when it is made. -/
def RingsFit : Device → List (EndpointConfig × Ptr) → Prop
  | _, [] => True
  | d, c :: cs => BitField.get c.2 0 4 = 0 ∧
      (∀ i < 32, ∀ r ∈ d.session.dev.rings i, i ≠ c.1.epId.address → Beside r (.initialized c.2 32)) ∧
      RingsFit (d.allocTransferRing c.1.epId c.2) cs

instance decidableRingsFit : ∀ (d : Device) (cs : List (EndpointConfig × Ptr)), Decidable (RingsFit d cs)
  | _, [] => isTrue trivial
  | d, c :: cs =>
    have : Decidable (RingsFit (d.allocTransferRing c.1.epId c.2) cs) := decidableRingsFit _ cs
    inferInstanceAs (Decidable (_ ∧ _ ∧ _))

/-- The request of `InitializePhase1`. -/
def configurationWant (d : Device) : Want :=
  .control (setupGetDescriptor ConfigurationDescriptor.kType 0 kDeviceBufferSize) d.bufPtr kDeviceBufferSize

/-- What the events of a run are to meet: the controller does not report more bytes as left than it was asked for; where the
configuration descriptor comes, it has no endpoint with number 0, and the memory for a driver is not that of the device;
and a new ring is apart from the others. -/
def Fair (d : Device) : Event → Prop
  | .complete q residual code data alloc =>
    let n := q.want.len - residual.toNat
    residual.toNat ≤ q.want.len ∧ (Session.succeeds code → q.want = d.configurationWant →
      alloc ≠ d.bufPtr ∧ Numbered (parse (overwrite d.buf n data) n))
  | .configureEndpoints bases => RingsFit d (d.epConfigs.zip bases)
  | .endpointsConfigured => True

instance (d : Device) : ∀ e, Decidable (Fair d e)
  | .complete .. => inferInstanceAs (Decidable (_ ∧ (_ → _ → _ ∧ _)))
  | .configureEndpoints _ => inferInstanceAs (Decidable (RingsFit _ _))
  | .endpointsConfigured => isTrue trivial

/-- What was asked for is here, and nothing else is under way. -/
structure Quiet (d : Device) : Prop where
  base : Base d
  outstanding : d.session.outstanding = []
  failed : d.session.failed = 0
  waiters : NoWaiter d

/-- A descriptor is here: the next request is made, or none, unless the parser derails over it. -/
theorem Quiet.received (hd : Quiet d) (hinit : d.isInitialized = false) (hport : d.port = .kInitializingDevice)
    (hphase : d.initializePhase = 1 ∨ d.initializePhase = 2) (hdrivers : d.drivers = [])
    (hclass : ∀ i, d.classDrivers i = none)
    {s : SetupData} (hs : s.request = kGetDescriptor) (len : Nat) (alloc : Ptr)
    (hconf : d.initializePhase = 2 → alloc ≠ d.bufPtr ∧ Numbered (parse d.buf len)) :
    (∃ r, d.onControlCompleted s d.bufPtr len alloc = some r ∧ Inv r.2 ∧ r.1 ≠ .kNoWaiter) ∨
      d.onControlCompleted s d.bufPtr len alloc = none ∧ d.initializePhase = 2 ∧ Derails d.buf len := by
  have hstay : Inv d := ⟨hd.base, .descriptors hinit hport hphase hdrivers hclass hd.waiters (.inl hd.outstanding)⟩
  rw [onControlCompleted, if_neg (by simp [hinit])]
  rcases hphase with hphase | hphase
  · rw [if_pos hphase, if_pos hs, if_neg (by simp)]
    split
    · obtain ⟨session, heq, hbase, hwaiters, honly⟩ := initializePhase1_spec hd.base hd.outstanding hd.failed
      rw [heq]
      refine .inl ⟨_, rfl, ⟨⟨hbase.session, hbase.pipe, hbase.before, hbase.bufPtr⟩, ?_⟩, by simp⟩
      exact .descriptors hinit hport (.inr rfl) hdrivers hclass ⟨hwaiters ▸ hd.waiters.entries, hwaiters ▸ hd.waiters.slots⟩
        honly
    · exact .inl ⟨_, rfl, hstay, by simp⟩
  · rw [if_neg (by omega), if_pos hphase, if_pos hs, if_neg (by simp)]
    split
    · obtain ⟨halloc, hnum⟩ := hconf hphase
      cases he : d.initializePhase2 len alloc with
      | none => exact .inr ⟨rfl, hphase, initializePhase2_eq_none he⟩
      | some r =>
        refine .inl ⟨r, rfl, ?_⟩
        rcases initializePhase2_spec hd.base hd.outstanding hd.failed hdrivers hclass halloc hnum he with
          rfl | ⟨h, session, i, kind, eps, rfl, hbase, hhas, hunasked, hwaiters, honly⟩
        · exact ⟨hstay, by simp⟩
        · refine ⟨⟨⟨hbase.session, hbase.pipe, hbase.before, hbase.bufPtr⟩, ?_⟩, by simp⟩
          exact .configuration h hinit hport rfl ⟨hhas.drivers, hhas.classDrivers, hhas.numbers, hhas.apart, hhas.endpoint,
            hhas.told⟩ hunasked ⟨hwaiters ▸ hd.waiters.entries, hwaiters ▸ hd.waiters.slots⟩ _ honly
    · exact .inl ⟨_, rfl, hstay, by simp⟩

/-- The request that was under way is done, with success or without. -/
theorem Only.quiet (hb : Base d) {want : Want} (ho : Only d want) (hw : NoWaiter d) {q : Xhci.Request}
    (hq : q ∈ d.session.outstanding) {session : Session} {ok : Bool} (hc : d.session.Completed session q ok) :
    Base { d with session := session } ∧ session.outstanding = [] ∧ NoWaiter { d with session := session } ∧
      (ok = true → Quiet { d with session := session }) := by
  obtain ⟨-, -, hf, herase⟩ := ho.completed hq
  have hquiet : session.outstanding = [] := hc.outstanding.trans herase
  have hnowaiter : NoWaiter { d with session := session } := by
    refine ⟨?_, ?_⟩
    · rw [hc.waiters]
      exact hw.entries
    · rw [hc.waiters]
      exact hw.slots
  refine ⟨hb.completed hc, hquiet, hnowaiter, fun hok => ⟨hb.completed hc, hquiet, ?_, hnowaiter⟩⟩
  rw [hc.failed, hok, Bool.not_true, Bool.and_false, if_neg Bool.false_ne_true, hf]

/-- The completion is handled and finds who waits for it, or it is that of a configuration descriptor over which the parser
derails. -/
def Handled (d : Device) (q : Xhci.Request) (residual : BitVec 24) (code : BitVec 8) (data : Bytes) (alloc : Ptr) : Prop :=
  (∃ r, d.complete q residual code data alloc = some r ∧ Inv r.2 ∧ r.1 ≠ .kNoWaiter) ∨
    d.complete q residual code data alloc = none ∧ Session.succeeds code ∧ q.want = d.configurationWant ∧
      Derails (overwrite d.buf (kDeviceBufferSize - residual.toNat) data) (kDeviceBufferSize - residual.toNat)

/-- The first two requests. -/
theorem complete_descriptors (hb : Base d) (hinit : d.isInitialized = false) (hport : d.port = .kInitializingDevice)
    (hphase : d.initializePhase = 1 ∨ d.initializePhase = 2) (hdrivers : d.drivers = [])
    (hclass : ∀ i, d.classDrivers i = none) (hwaiters : NoWaiter d)
    (hasked : Only d (.control (setupGetDescriptor (UInt8.ofNat d.initializePhase) 0 kDeviceBufferSize) d.bufPtr
      kDeviceBufferSize))
    {q : Xhci.Request} (hq : q ∈ d.session.outstanding) {residual : BitVec 24} {code : BitVec 8} {data : Bytes} {alloc : Ptr}
    (hfair : Fair d (.complete q residual code data alloc)) : Handled d q residual code data alloc := by
  obtain ⟨hres, hconf⟩ := hfair
  obtain ⟨hwant, -⟩ := hasked.completed hq
  obtain ⟨session, hc, heq⟩ := complete_eq hb hq hres code data alloc
  obtain ⟨hbase, hnone, hnowaiter, hquiet⟩ := hasked.quiet hb hwaiters hq hc
  have hsecond : d.initializePhase = 2 → q.want = d.configurationWant := fun h2 => by
    rw [hwant, h2]
    rfl
  rw [hwant] at heq
  rw [show q.want.len = kDeviceBufferSize by rw [hwant]; rfl] at hconf
  simp only [Want.len] at heq
  rw [Handled, heq]
  generalize kDeviceBufferSize - residual.toNat = n at hconf ⊢
  have hbit : (setupGetDescriptor (UInt8.ofNat d.initializePhase) 0 kDeviceBufferSize).requestType.getLsbD 7 = true := by
    show (requestType 1 0 0).getLsbD 7 = true
    decide
  have hdma : d.dma (.control (setupGetDescriptor (UInt8.ofNat d.initializePhase) 0 kDeviceBufferSize) d.bufPtr
      kDeviceBufferSize) n data = { d with buf := overwrite d.buf n data } := by
    simp only [dma, hbit, if_true, hdrivers, List.map_nil]
  simp only [hdma]
  cases hok : Session.succeeds code with
  | false =>
    exact .inl ⟨_, rfl, ⟨⟨hbase.session, hbase.pipe, hbase.before, hbase.bufPtr⟩, .descriptors hinit hport hphase hdrivers
      hclass ⟨hnowaiter.entries, hnowaiter.slots⟩ (.inl hnone)⟩, by simp⟩
  | true =>
    have hq' := hquiet hok
    have hreceived := Quiet.received (d := { d with session := session, buf := overwrite d.buf n data })
      ⟨⟨hbase.session, hbase.pipe, hbase.before, hbase.bufPtr⟩, hnone, hq'.failed, ⟨hnowaiter.entries, hnowaiter.slots⟩⟩
      hinit hport hphase hdrivers hclass (s := setupGetDescriptor (UInt8.ofNat d.initializePhase) 0 kDeviceBufferSize) rfl
      n alloc fun h2 => hconf hok (hsecond h2)
    exact hreceived.imp id fun h => ⟨h.1, rfl, hsecond h.2.1, h.2.2⟩

/-! ## The endpoints -/

/-- The driver of a device, with other endpoints. -/
theorem setEndpoints_spec : ∀ (cs : List EndpointConfig) {d : Device} {h : HIDBaseDriver}, Has d h →
    (∀ c ∈ cs, c ∈ d.epConfigs) →
    ∃ epIn epOut, setEndpoints cs d = some { d with drivers :=
      [{ h with epInterruptIn := epIn, epInterruptOut := epOut }] } ∧
      Has { d with drivers := [{ h with epInterruptIn := epIn, epInterruptOut := epOut }] }
        { h with epInterruptIn := epIn, epInterruptOut := epOut }
  | [], d, h, hhas, _ => by
    have hsame : { d with drivers := [h] } = d := by rw [← hhas.drivers]
    refine ⟨h.epInterruptIn, h.epInterruptOut, ?_, ?_⟩
    · show some d = some { d with drivers := [h] }
      rw [hsame]
    · show Has { d with drivers := [h] } h
      rw [hsame]
      exact hhas
  | c :: cs, d, h, hhas, hcs => by
    have hc := hcs c (List.mem_cons_self ..)
    have hclass : d.classDrivers c.epId.number = some 0 := by
      rw [hhas.classDrivers, if_pos (List.mem_map_of_mem hc)]
    have hdriver : d.drivers[0]? = some h := by simp [hhas.drivers]
    obtain ⟨epIn, epOut, hset, hin⟩ : ∃ epIn epOut,
        h.setEndpoint c = { h with epInterruptIn := epIn, epInterruptOut := epOut } ∧
          (epIn = ⟨0⟩ ∨ ∃ c ∈ d.epConfigs, c.epId = epIn ∧ c.epId.isIn) := by
      rw [HIDBaseDriver.setEndpoint]
      split
      · next hint => exact ⟨c.epId, h.epInterruptOut, rfl, .inr ⟨c, hc, rfl, hint.2⟩⟩
      · split
        · exact ⟨h.epInterruptIn, c.epId, rfl, hhas.endpoint⟩
        · exact ⟨h.epInterruptIn, h.epInterruptOut, rfl, hhas.endpoint⟩
    have hstep : d.setDriver 0 (h.setEndpoint c) =
        { d with drivers := [{ h with epInterruptIn := epIn, epInterruptOut := epOut }] } := by
      simp only [setDriver, hhas.drivers, hset, List.set_cons_zero]
    have hhas' : Has { d with drivers := [{ h with epInterruptIn := epIn, epInterruptOut := epOut }] }
        { h with epInterruptIn := epIn, epInterruptOut := epOut } :=
      ⟨rfl, hhas.classDrivers, hhas.numbers, hhas.apart, hin, ⟨hhas.told.alternating, hhas.told.pressed⟩⟩
    obtain ⟨epIn', epOut', heq, hhas''⟩ := setEndpoints_spec cs hhas' fun c' hc' => hcs c' (List.mem_cons_of_mem _ hc')
    refine ⟨epIn', epOut', ?_, hhas''⟩
    simp only [setEndpoints, hclass, hdriver, hstep]
    exact heq

theorem complete_configuration (hb : Base d) {h : HIDBaseDriver} (hinit : d.isInitialized = false)
    (hport : d.port = .kInitializingDevice) (hphase : d.initializePhase = 3) (hhas : Has d h) (hunasked : Unasked h)
    (hwaiters : NoWaiter d) {v : UInt8} (hasked : Only d (.control (setupSetConfiguration v) 0 0))
    {q : Xhci.Request} (hq : q ∈ d.session.outstanding) {residual : BitVec 24} {code : BitVec 8} {data : Bytes} {alloc : Ptr}
    (hfair : Fair d (.complete q residual code data alloc)) : Handled d q residual code data alloc := by
  obtain ⟨hres, -⟩ := hfair
  obtain ⟨hwant, -⟩ := hasked.completed hq
  obtain ⟨session, hc, heq⟩ := complete_eq hb hq hres code data alloc
  obtain ⟨hbase, hnone, hnowaiter, hquiet⟩ := hasked.quiet hb hwaiters hq hc
  have hbit : (setupSetConfiguration v).requestType.getLsbD 7 = false := by
    show (requestType 0 0 0).getLsbD 7 = false
    decide
  have hdma : ∀ n, d.dma (.control (setupSetConfiguration v) 0 0) n data = d := fun n => by
    simp only [dma, hbit, Bool.false_eq_true, if_false]
  rw [hwant] at heq
  simp only [hdma] at heq
  rw [Handled, heq]
  have hhas1 : Has { d with session := session } h :=
    ⟨hhas.drivers, hhas.classDrivers, hhas.numbers, hhas.apart, hhas.endpoint, hhas.told⟩
  left
  split
  · next hok =>
    have hq' := hquiet hok
    obtain ⟨epIn, epOut, hset, hhas2⟩ := setEndpoints_spec d.epConfigs hhas1 fun c hc => hc
    have hdone : Device.onControlCompleted { d with session := session }
      (setupSetConfiguration v) 0 (0 - residual.toNat) alloc =
        some (.kSuccess, { d with
          session := session
          drivers := [{ h with epInterruptIn := epIn, epInterruptOut := epOut }]
          initializePhase := 4
          isInitialized := true }) := by
      rw [onControlCompleted, if_neg (by simp [hinit]), if_neg (by simp [hphase]), if_neg (by simp [hphase]), if_pos hphase,
        if_pos (show (setupSetConfiguration v).request = kSetConfiguration from rfl), initializePhase3, hset]
      rfl
    refine ⟨_, hdone, ⟨⟨hbase.session, hbase.pipe, hbase.before, hbase.bufPtr⟩, ?_⟩, by simp⟩
    exact .initialized _ rfl (.inl hport)
      ⟨rfl, hhas2.classDrivers, hhas2.numbers, hhas2.apart, hhas2.endpoint, hhas2.told⟩ ⟨hunasked.phase, hunasked.bufs⟩
      ⟨hnowaiter.entries, hnowaiter.slots⟩ ⟨hnone, hq'.failed⟩
  · exact ⟨_, rfl, ⟨hbase, .configuration h hinit hport hphase hhas1 hunasked hnowaiter v (.inl hnone)⟩, by simp⟩

end Device

end KinOS.Usb
