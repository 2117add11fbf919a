import KinOS.Usb.Enumeration

/-!
# The class driver

`OnEndpointsConfigured` goes through `class_drivers_`, where a driver stands once for each of its endpoint numbers: one with
two of them is told twice, and makes the request twice. The first of the requests that completes starts the driver, the
others find it started (`kNotImplemented`). Then each report is followed by the next transfer. -/

namespace KinOS.Usb

open Xhci SlotMap

namespace Device

variable {d : Device}

/-! ## The rings of the endpoints -/

theorem Base.allocTransferRing (hb : Base d) (hquiet : d.session.outstanding = []) (hf : d.session.failed = 0)
    {ep : EndpointID}
    (hnum : ep.number ≠ 0) (haddr : ep.address < 32) {base : Ptr} (halign : BitField.get base 0 4 = 0)
    (hapart : ∀ i < 32, ∀ r ∈ d.session.dev.rings i, i ≠ ep.address → Beside r (.initialized base 32)) :
    Base (d.allocTransferRing ep base) := by
  have htwo : 2 ≤ ep.address := by
    rw [EndpointID.number] at hnum
    omega
  have hother : ∀ i, i ≠ ep.address → (d.allocTransferRing ep base).session.dev.rings i = d.session.dev.rings i :=
    fun i hi =>
    Function.update_of_ne hi ..
  have hself : (d.allocTransferRing ep base).session.dev.rings ep.address = some (.initialized base 32) :=
    Function.update_self ..
  have hempty : entries d.session.dev.setupStageMap = [] := by
    have hcount := hb.session.count
    rw [hquiet, hf] at hcount
    exact List.eq_nil_of_length_eq_zero (by simpa using hcount)
  refine ⟨⟨fun i r hr => ?_, fun i j r r' hr hr' p hp hp' => ?_, fun e he => ?_, hb.session.slots, hb.session.count,
    fun q hq => ?_, fun q hq => ?_, hb.session.distinct⟩, ?_, ?_, hb.bufPtr⟩
  · by_cases hi : i = ep.address
    · subst hi
      rw [hself] at hr
      cases hr
      refine ⟨haddr, ?_⟩
      show (Ring.initialized base 32).Holds (Function.update d.session.pushed ep.address [] ep.address)
      rw [Function.update_self]
      exact Ring.holds_initialized (by decide) (by decide) halign
    · rw [hother i hi] at hr
      show i < 32 ∧ r.Holds (Function.update d.session.pushed ep.address [] i)
      rw [Function.update_of_ne hi]
      exact hb.session.rings i r hr
  · by_cases hi : i = ep.address <;> by_cases hj : j = ep.address
    · rw [hi, hj]
    · subst hi
      rw [hself] at hr
      rw [hother j hj] at hr'
      cases hr
      exact absurd hp ((hapart j (hb.session.rings j r' hr').1 r' hr' hj).not_inRing hp')
    · subst hj
      rw [hself] at hr'
      rw [hother i hi] at hr
      cases hr'
      exact absurd hp' ((hapart i (hb.session.rings i r hr).1 r hr hi).not_inRing hp)
    · rw [hother i hi] at hr
      rw [hother j hj] at hr'
      exact hb.session.apart i j r r' hr hr' p hp hp'
  · exact absurd he (by
      show ¬ e ∈ entries d.session.dev.setupStageMap
      simp [hempty])
  · exact absurd hq (by
      show ¬ q ∈ d.session.outstanding
      simp [hquiet])
  · exact absurd hq (by
      show ¬ q ∈ d.session.outstanding
      simp [hquiet])
  · rw [hother 1 (by omega)]
    exact hb.pipe
  · rw [hother 0 (by omega)]
    exact hb.before

/-- **The endpoints get their rings.** Nothing else changes. -/
theorem configureEndpoints_spec : ∀ (cs : List (EndpointConfig × Ptr)) {d : Device}, Base d → d.session.outstanding = [] →
    d.session.failed = 0 → (∀ c ∈ cs, c.1.epId.number ≠ 0 ∧ c.1.epId.address < 32) → RingsFit d cs →
      ∃ session, d.configureEndpoints cs = { d with session := session } ∧ Base { d with session := session } ∧
        session.outstanding = [] ∧ session.failed = 0 ∧ session.dev.eventWaiters = d.session.dev.eventWaiters
  | [], d, hb, hquiet, hf, _, _ => ⟨d.session, rfl, hb, hquiet, hf, rfl⟩
  | c :: cs, d, hb, hquiet, hf, hcs, hfit => by
    obtain ⟨halign, hapart, hrest⟩ := hfit
    obtain ⟨hnum, haddr⟩ := hcs c (List.mem_cons_self ..)
    obtain ⟨session, heq, hbase, hq, hf', hw⟩ := configureEndpoints_spec cs
      (hb.allocTransferRing hquiet hf hnum haddr halign hapart)
        hquiet hf (fun c' hc' => hcs c' (List.mem_cons_of_mem _ hc')) hrest
    exact ⟨session, heq, ⟨hbase.session, hbase.pipe, hbase.before, hbase.bufPtr⟩, hq, hf', hw⟩

/-! ## The class driver is told -/

/-- Some of the requests to set the protocol were made. -/
structure Asking (d : Device) (h : HIDBaseDriver) : Prop where
  base : Base d
  has : Has d h
  failed : d.session.failed = 0
  requests : ∀ q ∈ d.session.outstanding,
    q.endpoint = kDefaultControlPipeID ∧ q.want = .control (setupSetProtocol h.interfaceIndex) 0 0 ∧
      (d.session.pushed 1).length ≤ q.first + 2 * d.session.outstanding.length
  slots : d.session.dev.eventWaiters.length = 4
  waiters : ∀ e ∈ entries d.session.dev.eventWaiters, e = (setupSetProtocol h.interfaceIndex, 0)
  waiting : d.session.outstanding ≠ [] → entries d.session.dev.eventWaiters ≠ []
  bufs : h.previousBuf = h.buf
  phase : d.session.outstanding = [] ∨ h.initializePhase = 1
  early : h.initializePhase ≤ 1

theorem length_setProtocol {s : SetupData} : (controlTRBs false s 0 (0 : Nat)).length = 2 := rfl

theorem Asking.step {h : HIDBaseDriver} (ha : Asking d h) (hlen : d.session.outstanding.length ≤ 14) :
    ∃ session, d.hidOnEndpointsConfigured 0 = some (.kSuccess,
        { d with drivers := [{ h with initializePhase := 1 }], session := session }) ∧
      Asking { d with drivers := [{ h with initializePhase := 1 }], session := session } { h with initializePhase := 1 } ∧
      session.outstanding.length = d.session.outstanding.length + 1 := by
  have hdriver : d.drivers[0]? = some h := by simp [ha.has.drivers]
  have hset : d.setDriver 0 { h with initializePhase := 1 } = { d with drivers := [{ h with initializePhase := 1 }] } := by
    simp only [setDriver, ha.has.drivers, List.set_cons_zero]
  obtain ⟨r, hr, hsize⟩ := ha.base.pipe
  have hcontrols : (d.session.outstanding.filter fun q => q.want.isControl).length ≤ d.session.outstanding.length :=
    List.length_filter_le ..
  have hroom : d.session.Room (.control false kDefaultControlPipeID (setupSetProtocol h.interfaceIndex) 0 0 (some 0)) := by
    refine ⟨⟨r, hr, ?_, fun q hq _ => ?_⟩, by decide, ?_⟩
    · rw [length_setProtocol, hsize]
      decide
    · obtain ⟨-, -, hfirst⟩ := ha.requests q hq
      show (d.session.pushed 1).length + 2 < q.first + r.size
      omega
    · have hf := ha.failed
      omega
  obtain ⟨session, heq, hissued, hwaiters⟩ := control_spec (d := { d with drivers := [{ h with initializePhase := 1 }] })
    ha.base.session hroom
  have hbase := ha.base.withSession hissued.inv hissued.rings
  have hout : session.outstanding = d.session.outstanding ++ [⟨kDefaultControlPipeID, (d.session.pushed 1).length,
      (d.session.pushed 1).length + 1, .control (setupSetProtocol h.interfaceIndex) 0 0⟩] := hissued.outstanding
  have hpushed : (session.pushed 1).length = (d.session.pushed 1).length + 2 := by
    rw [hissued.pushed]
    show (Function.update d.session.pushed 1 (d.session.pushed 1 ++ _) 1).length = _
    rw [Function.update_self, List.length_append, length_setProtocol]
  have hput : session.dev.eventWaiters = put d.session.dev.eventWaiters (setupSetProtocol h.interfaceIndex) 0 := hwaiters
  obtain ⟨hall, hsome⟩ := entries_put_same ha.waiters (by have := ha.slots; omega)
  refine ⟨session, ?_, ⟨⟨hbase.session, hbase.pipe, hbase.before, hbase.bufPtr⟩, ?_, hissued.failed.trans ha.failed,
    ?_, ?_, ?_, ?_, ha.bufs, .inr rfl, Nat.le_refl _⟩, ?_⟩
  · simp only [hidOnEndpointsConfigured, hdriver, hset, heq]
  · exact ⟨rfl, ha.has.classDrivers, ha.has.numbers, ha.has.apart, ha.has.endpoint,
      ⟨ha.has.told.alternating, ha.has.told.pressed⟩⟩
  · show ∀ q ∈ session.outstanding, q.endpoint = kDefaultControlPipeID ∧
      q.want = .control (setupSetProtocol h.interfaceIndex) 0 0 ∧
        (session.pushed 1).length ≤ q.first + 2 * session.outstanding.length
    rw [hpushed, hout, List.length_append, List.length_singleton]
    intro q hq
    rcases List.mem_append.1 hq with hq | hq
    · obtain ⟨hep, hwant, hfirst⟩ := ha.requests q hq
      exact ⟨hep, hwant, by omega⟩
    · rw [List.mem_singleton.1 hq]
      exact ⟨rfl, rfl, by simp only; omega⟩
  · show session.dev.eventWaiters.length = 4
    rw [hput, length_put, ha.slots]
  · show ∀ e ∈ entries session.dev.eventWaiters, e = (setupSetProtocol h.interfaceIndex, 0)
    rw [hput]
    exact hall
  · show session.outstanding ≠ [] → entries session.dev.eventWaiters ≠ []
    rw [hput]
    exact fun _ => hsome
  · rw [hout, List.length_append, List.length_singleton]

/-- **Each endpoint number with a driver takes one request**, and there is room for all of them. -/
theorem configureDrivers_spec : ∀ (is : List Nat) {d : Device} {h : HIDBaseDriver}, Asking d h →
    d.session.outstanding.length + is.length ≤ 15 →
      ∃ h' session, configureDrivers is d = some (.kSuccess, { d with drivers := [h'], session := session }) ∧
        Asking { d with drivers := [h'], session := session } h'
  | [], d, h, ha, _ => by
    have hsame : { d with drivers := [h] } = d := by rw [← ha.has.drivers]
    refine ⟨h, d.session, ?_, ?_⟩
    · show some (Error.kSuccess, d) = some (.kSuccess, { d with drivers := [h] })
      rw [hsame]
    · show Asking { d with drivers := [h] } h
      rw [hsame]
      exact ha
  | i :: is, d, h, ha, hlen => by
    rw [List.length_cons] at hlen
    rw [configureDrivers]
    cases hi : d.classDrivers i with
    | none => exact configureDrivers_spec is ha (by omega)
    | some w =>
      obtain rfl : w = 0 := by
        rw [ha.has.classDrivers] at hi
        split at hi
        · exact (Option.some.inj hi).symm
        · cases hi
      obtain ⟨session, heq, ha', hcount⟩ := ha.step (by omega)
      obtain ⟨h', session', heq', ha''⟩ := configureDrivers_spec is ha' (by
        show session.outstanding.length + is.length ≤ 15
        omega)
      refine ⟨h', session', ?_, ha''⟩
      simp only [heq, ne_eq, not_true_eq_false, if_false]
      exact heq'

theorem onEndpointsConfigured_spec {h : HIDBaseDriver} (hd : Quiet d) (hhas : Has d h) (hunasked : Unasked h) :
    ∃ h' session, d.onEndpointsConfigured = some (.kSuccess, { d with drivers := [h'], session := session }) ∧
      Asking { d with drivers := [h'], session := session } h' := by
  have ha : Asking d h := by
    refine ⟨hd.base, hhas, hd.failed, fun q hq => ?_, hd.waiters.slots, fun e he => ?_, fun hne => absurd hd.outstanding hne,
      hunasked.bufs, .inl hd.outstanding, by rw [hunasked.phase]; omega⟩
    · rw [hd.outstanding] at hq
      cases hq
    · rw [hd.waiters.entries] at he
      cases he
  have hzero : d.classDrivers 0 = none := by
    rw [hhas.classDrivers, if_neg]
    intro hmem
    obtain ⟨c, hc, hnum⟩ := List.mem_map.1 hmem
    exact (hhas.numbers c hc).1 hnum
  have hrange : List.range 16 = 0 :: List.range' 1 15 := by decide
  have hskip : d.onEndpointsConfigured = configureDrivers (List.range' 1 15) d := by
    rw [onEndpointsConfigured, hrange, configureDrivers, hzero]
  rw [hskip]
  exact configureDrivers_spec _ ha (by rw [hd.outstanding]; decide)

theorem Asking.running {h : HIDBaseDriver} (ha : Asking d h) : Running d h where
  requests q hq := .inl ⟨(ha.requests q hq).1, (ha.requests q hq).2.1⟩
  once := by
    have hnone : d.polls = [] := by
      refine List.filter_eq_nil_iff.2 fun q hq => ?_
      rw [(ha.requests q hq).2.1]
      simp [Want.isControl]
    rw [hnone]
    exact Nat.zero_le _
  waiter q hq _ := by
    obtain ⟨e, he⟩ := List.exists_mem_of_ne_nil _ (ha.waiting (List.ne_nil_of_mem hq))
    have hentry := ha.waiters e he
    subst hentry
    exact get_of_mem he fun u hu => congrArg Prod.snd (ha.waiters _ hu)
  bufs := .inl ha.bufs

/-! ## The class driver at work -/

/-- A request less. -/
theorem Running.of_sublist {h : HIDBaseDriver} (hr : Running d h) {session : Session}
    (hsub : session.outstanding.Sublist d.session.outstanding)
    (hw : session.dev.eventWaiters = d.session.dev.eventWaiters) : Running { d with session := session } h where
  requests q hq := hr.requests q (hsub.subset hq)
  once := Nat.le_trans (hsub.filter _).length_le hr.once
  waiter q hq hc := by
    show SlotMap.get session.dev.eventWaiters _ = _
    rw [hw]
    exact hr.waiter q (hsub.subset hq) hc
  bufs := by
    rcases hr.bufs with hbufs | ⟨hphase, hpolls⟩
    · exact .inl hbufs
    · have hless : (session.outstanding.filter fun q => !q.want.isControl).Sublist d.polls := hsub.filter _
      rw [hpolls] at hless
      exact .inr ⟨hphase, List.eq_nil_of_sublist_nil hless⟩

/-- **The driver asks for the next report** when no interrupt transfer is under way. -/
theorem arm {h : HIDBaseDriver} (hb : Base d) (hinit : d.isInitialized = true) (hport : d.port = .kConfigured)
    (hhas : Has d h)
    (hrun : Running d h) (hphase : h.initializePhase = 2) (hbufs : h.previousBuf = h.buf) (hpolls : d.polls = []) :
    Inv (d.interruptIn h.epInterruptIn h.bufPtr h.kind.inPacketSize).2 ∧
      (d.interruptIn h.epInterruptIn h.bufPtr h.kind.inPacketSize).1 ≠ .kNoWaiter ∧
      ((d.session.dev.rings h.epInterruptIn.address).isSome →
        (d.interruptIn h.epInterruptIn h.bufPtr h.kind.inPacketSize).2.polls.length = 1) := by
  have hcontrols : ∀ q ∈ d.session.outstanding, q.endpoint = kDefaultControlPipeID := fun q hq => by
    rcases hrun.requests q hq with hc | ⟨-, hwant⟩
    · exact hc.1
    · have hmem : q ∈ d.polls := List.mem_filter.2 ⟨hq, by rw [hwant]; rfl⟩
      rw [hpolls] at hmem
      cases hmem
  have hroom : ∀ r, d.session.dev.rings h.epInterruptIn.address = some r →
      d.session.Room (.interruptIn h.epInterruptIn h.bufPtr h.kind.inPacketSize) := by
    intro r hr
    have htwo := (hb.session.rings _ r hr).2.two
    refine ⟨⟨r, hr, by omega, fun q hq he => ?_⟩, ?_⟩
    · have hone : h.epInterruptIn.address = 1 := by
        rw [← he, hcontrols q hq]
        rfl
      rcases hhas.endpoint with h0 | ⟨c, hc, hid, -⟩
      · rw [h0] at hone
        cases hone
      · have hnum := (hhas.numbers c hc).1
        rw [hid, EndpointID.number, hone] at hnum
        exact absurd rfl hnum
    · cases h.kind <;> decide
  obtain ⟨e, session, heq, hwaiters, hcases⟩ := interruptIn_spec hb.session hroom
  rw [heq]
  have hhas' : Has { d with session := session } h :=
    ⟨hhas.drivers, hhas.classDrivers, hhas.numbers, hhas.apart, hhas.endpoint, hhas.told⟩
  rcases hcases with ⟨hnone, rfl, rfl⟩ | ⟨rfl, hissued⟩
  · exact ⟨⟨hb, .configured h hinit hport hhas hrun⟩, by simp, fun hsome => by rw [hnone] at hsome; cases hsome⟩
  · have hout := hissued.outstanding
    have hone : (session.outstanding.filter fun q => !q.want.isControl).length = 1 := by
      rw [hout, List.filter_append, List.length_append]
      show d.polls.length + 1 = 1
      rw [hpolls]
      rfl
    refine ⟨⟨hb.withSession hissued.inv hissued.rings, .configured h hinit hport hhas' ?_⟩, by simp, fun _ => hone⟩
    refine ⟨fun q hq => ?_, by rw [if_pos hphase]; exact Nat.le_of_eq hone, fun q hq hc => ?_, .inl hbufs⟩
    · rw [hout] at hq
      rcases List.mem_append.1 hq with hq | hq
      · exact hrun.requests q hq
      · rw [List.mem_singleton.1 hq]
        exact .inr ⟨rfl, rfl⟩
    · show SlotMap.get session.dev.eventWaiters _ = _
      rw [hwaiters]
      rw [hout] at hq
      rcases List.mem_append.1 hq with hq | hq
      · exact hrun.waiter q hq hc
      · rw [List.mem_singleton.1 hq] at hc
        cases hc

/-- The protocol was set, or could not be. -/
theorem complete_control_eq {h : HIDBaseDriver} (hb : Base d) (hinit : d.isInitialized = true) (hhas : Has d h)
    (hrun : Running d h)
    {q : Xhci.Request} (hq : q ∈ d.session.outstanding) (hwant : q.want = .control (setupSetProtocol h.interfaceIndex) 0 0)
    {residual : BitVec 24} (hres : residual.toNat ≤ q.want.len) (code : BitVec 8) (data : Bytes) (alloc : Ptr) :
    ∃ session, d.session.Completed session q (Session.succeeds code) ∧ d.complete q residual code data alloc =
      some (if Session.succeeds code then
        if h.initializePhase = 1 then
          { d with session := session, drivers := [{ h with initializePhase := 2 }] }.interruptIn h.epInterruptIn h.bufPtr
            h.kind.inPacketSize
        else (.kNotImplemented, { d with session := session })
      else (.kTransferFailed, { d with session := session })) := by
  obtain ⟨session, hc, heq⟩ := complete_eq hb hq hres code data alloc
  refine ⟨session, hc, ?_⟩
  have hbit : (setupSetProtocol h.interfaceIndex).requestType.getLsbD 7 = false := by
    show (requestType 0 1 1).getLsbD 7 = false
    decide
  have hdma : ∀ n, d.dma (.control (setupSetProtocol h.interfaceIndex) 0 0) n data = d := fun n => by
    simp only [dma, hbit, Bool.false_eq_true, if_false]
  rw [heq, hwant]
  simp only [hdma]
  cases Session.succeeds code with
  | false => rfl
  | true =>
    have hget : SlotMap.get session.dev.eventWaiters (setupSetProtocol h.interfaceIndex) = some 0 := by
      rw [hc.waiters]
      exact hrun.waiter q hq (by rw [hwant]; rfl)
    have hdriver : d.drivers[0]? = some h := by simp [hhas.drivers]
    have hset : Device.setDriver { d with session := session } 0 { h with initializePhase := 2 } =
        { d with session := session, drivers := [{ h with initializePhase := 2 }] } := by
      simp only [setDriver, hhas.drivers, List.set_cons_zero]
    rw [if_pos rfl, if_pos rfl, onControlCompleted, if_pos hinit]
    simp only [hget, hidOnControlCompleted, hdriver, hset]
    split <;> rfl

theorem complete_control {h : HIDBaseDriver} (hb : Base d) (hinit : d.isInitialized = true) (hport : d.port = .kConfigured)
    (hhas : Has d h) (hrun : Running d h) {q : Xhci.Request} (hq : q ∈ d.session.outstanding)
    (hwant : q.want = .control (setupSetProtocol h.interfaceIndex) 0 0) {residual : BitVec 24} {code : BitVec 8}
    {data : Bytes} {alloc : Ptr} (hres : residual.toNat ≤ q.want.len) : Handled d q residual code data alloc := by
  obtain ⟨session, hc, heq⟩ := complete_control_eq hb hinit hhas hrun hq hwant hres code data alloc
  have hbase := hb.completed hc
  have hless : session.outstanding.Sublist d.session.outstanding := by
    rw [hc.outstanding]
    exact List.erase_sublist ..
  have hrun' : Running { d with session := session } h := hrun.of_sublist hless hc.waiters
  have hstay : Inv { d with session := session } := ⟨hbase, .configured h hinit hport
    ⟨hhas.drivers, hhas.classDrivers, hhas.numbers, hhas.apart, hhas.endpoint, hhas.told⟩ hrun'⟩
  refine .inl ⟨_, heq, ?_⟩
  split
  · split
    · next hphase =>
      have hpolls : d.polls = [] := by
        have honce := hrun.once
        rw [if_neg (by omega)] at honce
        exact List.eq_nil_of_length_eq_zero (Nat.le_zero.1 honce)
      have hbufs : h.previousBuf = h.buf := hrun.bufs.resolve_right fun hp => absurd hp.1 (by omega)
      have hpolls' : Device.polls { d with session := session, drivers := [{ h with initializePhase := 2 }] } = [] := by
        have hfewer : (session.outstanding.filter fun q => !q.want.isControl).Sublist d.polls := hless.filter _
        rw [hpolls] at hfewer
        exact List.eq_nil_of_sublist_nil hfewer
      have harm := arm (d := { d with session := session, drivers := [{ h with initializePhase := 2 }] })
        (h := { h with initializePhase := 2 }) ⟨hbase.session, hbase.pipe, hbase.before, hbase.bufPtr⟩ hinit hport
        ⟨rfl, hhas.classDrivers, hhas.numbers, hhas.apart, hhas.endpoint, ⟨hhas.told.alternating, hhas.told.pressed⟩⟩
        ⟨hrun'.requests, by rw [hpolls']; exact Nat.zero_le _, hrun'.waiter, .inl hbufs⟩ rfl hbufs hpolls'
      exact ⟨harm.1, harm.2.1⟩
    · exact ⟨hstay, by simp⟩
  · exact ⟨hstay, by simp⟩

/-- The driver is at work, and no report will come. -/
structure Deaf (d : Device) : Prop where
  port : d.port = .kConfigured
  polls : d.polls = []
  driver : ∃ h, d.drivers = [h] ∧ h.initializePhase = 2

/-- **A report that comes is followed by the next transfer**, and one that does not come by none. -/
theorem complete_interrupt {h : HIDBaseDriver} (hb : Base d) (hinit : d.isInitialized = true) (hport : d.port = .kConfigured)
    (hhas : Has d h) (hrun : Running d h) {q : Xhci.Request} (hq : q ∈ d.session.outstanding)
    (hep : q.endpoint = h.epInterruptIn)
    (hwant : q.want = .interrupt h.bufPtr h.kind.inPacketSize) {residual : BitVec 24}
    (hres : residual.toNat ≤ q.want.len) (code : BitVec 8) (data : Bytes) (alloc : Ptr) :
    ∃ r, d.complete q residual code data alloc = some r ∧ Inv r.2 ∧ r.1 ≠ .kNoWaiter ∧
      if Session.succeeds code then r.2.polls.length = 1 else Deaf r.2 := by
  obtain ⟨session, hc, heq⟩ := complete_eq hb hq hres code data alloc
  rw [hwant] at heq
  simp only [Want.len] at heq
  generalize h.kind.inPacketSize - residual.toNat = n at heq
  have hdma : d.dma (.interrupt h.bufPtr h.kind.inPacketSize) n data = { d with drivers := [h.dma n data] } := by
    simp only [dma, hhas.apart, if_false, hhas.drivers, List.map_cons, List.map_nil, if_true]
  have hbase := hb.completed hc
  have hcontrol : q.want.isControl = false := by
    rw [hwant]
    rfl
  have hcount : d.polls.length = (session.outstanding.filter fun q => !q.want.isControl).length + 1 := by
    have hperm := (List.perm_cons_erase hq).filter fun q => !q.want.isControl
    rw [← hc.outstanding, List.filter_cons_of_pos (by simp [hcontrol])] at hperm
    exact hperm.length_eq
  have hphase : h.initializePhase = 2 := by
    have honce := hrun.once
    split at honce
    · assumption
    · omega
  have hpolls : (session.outstanding.filter fun q => !q.want.isControl) = [] := by
    have honce := hrun.once
    rw [if_pos hphase] at honce
    exact List.eq_nil_of_length_eq_zero (by omega)
  have hbufs : h.previousBuf = h.buf := hrun.bufs.resolve_right fun hp => by
    rw [hp.2, List.length_nil] at hcount
    omega
  have hsub : Running { d with session := session } h :=
    hrun.of_sublist (by rw [hc.outstanding]; exact List.erase_sublist ..) hc.waiters
  have hnone : ∀ h' : HIDBaseDriver, Device.polls { d with session := session, drivers := [h'] } = [] := fun _ => hpolls
  rw [hdma] at heq
  obtain ⟨r', hr', -⟩ := hb.session.pending q hq
  cases hok : Session.succeeds code
  · simp only [hok, Bool.false_eq_true, if_false] at heq ⊢
    refine ⟨_, heq, ⟨⟨hbase.session, hbase.pipe, hbase.before, hbase.bufPtr⟩, .configured (h.dma n data) hinit hport
      ⟨rfl, hhas.classDrivers, hhas.numbers, hhas.apart, hhas.endpoint, ⟨hhas.told.alternating, hhas.told.pressed⟩⟩
      ⟨hsub.requests, ?_, hsub.waiter, .inr ⟨hphase, hnone _⟩⟩⟩, by simp, hport, hnone _, _, rfl, hphase⟩
    rw [hnone]
    exact Nat.zero_le _
  · simp only [hok, if_true] at heq ⊢
    obtain ⟨hclass, hin⟩ : d.classDrivers h.epInterruptIn.number = some 0 ∧ h.epInterruptIn.isIn = true := by
      rcases hhas.endpoint with h0 | ⟨c, hc', hid, hin⟩
      · rw [hep, h0, hb.before] at hr'
        cases hr'
      · rw [hhas.classDrivers, if_pos (hid ▸ List.mem_map_of_mem hc'), ← hid]
        exact ⟨rfl, hin⟩
    have hover : overwrite h.previousBuf n (overwrite h.buf n data) = overwrite h.buf n data := by
      rw [hbufs, overwrite_overwrite]
    have htold : ((h.dma n data).dataReceived n).Told :=
      HIDBaseDriver.Told.dataReceived (h := h.dma n data) ⟨hhas.told.alternating, hhas.told.pressed⟩ hover
    have harm := arm (d := { d with session := session, drivers := [(h.dma n data).dataReceived n] })
      (h := (h.dma n data).dataReceived n) ⟨hbase.session, hbase.pipe, hbase.before, hbase.bufPtr⟩ hinit hport
      ⟨rfl, hhas.classDrivers, hhas.numbers, hhas.apart, hhas.endpoint, htold⟩
      ⟨hsub.requests, by rw [hnone]; exact Nat.zero_le _, hsub.waiter, .inl hover⟩ hphase hover (hnone _)
    have hring : (session.dev.rings h.epInterruptIn.address).isSome := by
      rw [hc.rings, ← hep, hr']
      rfl
    simp only [onInterruptCompleted, hep, hclass, hin, if_true, List.getElem?_cons_zero, setDriver,
      List.set_cons_zero] at heq
    exact ⟨_, heq, harm.1, harm.2.1, harm.2.2 hring⟩

/-- **Whatever completes finds the one who waits for it**, and only a configuration descriptor can lead astray. -/
theorem Inv.handled (hi : Inv d) {q : Xhci.Request} (hq : q ∈ d.session.outstanding) {residual : BitVec 24}
    {code : BitVec 8} {data : Bytes} {alloc : Ptr} (hfair : Fair d (.complete q residual code data alloc)) :
    Handled d q residual code data alloc := by
  obtain ⟨hb, hstage⟩ := hi
  cases hstage with
  | descriptors init port phase drivers classDrivers waiters asked =>
    exact complete_descriptors hb init port phase drivers classDrivers waiters asked hq hfair
  | configuration h init port phase has unasked waiters v asked =>
    exact complete_configuration hb init port phase has unasked waiters asked hq hfair
  | initialized h init port has unasked waiters quiet =>
    rw [quiet.1] at hq
    cases hq
  | configured h init port has running =>
    rcases running.requests q hq with ⟨-, hwant⟩ | ⟨hep, hwant⟩
    · exact complete_control hb init port has running hq hwant hfair.1
    · obtain ⟨r, he, hinv, hwaiter, -⟩ := complete_interrupt hb init port has running hq hep hwant hfair.1 code data alloc
      exact .inl ⟨r, he, hinv, hwaiter⟩

theorem Inv.complete (hi : Inv d) {q : Xhci.Request} (hq : q ∈ d.session.outstanding) {residual : BitVec 24}
    {code : BitVec 8} {data : Bytes} {alloc : Ptr} (hfair : Fair d (.complete q residual code data alloc))
    {r : Error × Device} (he : d.complete q residual code data alloc = some r) : Inv r.2 ∧ r.1 ≠ .kNoWaiter := by
  rcases hi.handled hq hfair with ⟨r', he', hr'⟩ | ⟨hnone, -⟩
  · obtain rfl := Option.some.inj (he'.symm.trans he)
    exact hr'
  · rw [hnone] at he
    cases he

theorem Inv.next (hi : Inv d) {e : Event} (hfair : Fair d e) {d' : Device} (he : d.next e = some d') : Inv d' := by
  cases e with
  | complete q residual code data alloc =>
    obtain ⟨r, hr, rfl⟩ := Option.map_eq_some_iff.1 he
    exact (hi.complete (mem_of_complete hr) hfair hr).1
  | configureEndpoints bases =>
    simp only [Device.next] at he
    split at he
    · next hwhen =>
      cases he
      obtain ⟨hb, hstage⟩ := hi
      cases hstage with
      | initialized h init port has unasked waiters quiet =>
        obtain ⟨session, heq, hbase, hnone, hf, hw⟩ := configureEndpoints_spec (d.epConfigs.zip bases) hb quiet.1 quiet.2
          (fun c hc => has.numbers _ (List.of_mem_zip hc).1) hfair
        rw [heq]
        refine ⟨⟨hbase.session, hbase.pipe, hbase.before, hbase.bufPtr⟩, .initialized h init (.inr rfl)
          ⟨has.drivers, has.classDrivers, has.numbers, has.apart, has.endpoint, has.told⟩ unasked ⟨?_, ?_⟩ ⟨hnone, hf⟩⟩
        · exact hw ▸ waiters.entries
        · exact hw ▸ waiters.slots
      | descriptors init => exact absurd (init.symm.trans hwhen.1) (by simp)
      | configuration h init => exact absurd (init.symm.trans hwhen.1) (by simp)
      | configured h init port => exact absurd (port.symm.trans hwhen.2.1) (by simp)
    · cases he
  | endpointsConfigured =>
    simp only [Device.next] at he
    split at he
    · next hwhen =>
      obtain ⟨r, hr, rfl⟩ := Option.map_eq_some_iff.1 he
      obtain ⟨hb, hstage⟩ := hi
      cases hstage with
      | initialized h init port has unasked waiters quiet =>
        obtain ⟨h', session, heq, ha⟩ := onEndpointsConfigured_spec ⟨hb, quiet.1, quiet.2, waiters⟩ has unasked
        rw [heq] at hr
        cases hr
        have hhas := ha.has
        have hrun := ha.running
        exact ⟨⟨ha.base.session, ha.base.pipe, ha.base.before, ha.base.bufPtr⟩, .configured h' init rfl
          ⟨hhas.drivers, hhas.classDrivers, hhas.numbers, hhas.apart, hhas.endpoint, hhas.told⟩
          ⟨hrun.requests, hrun.once, hrun.waiter, hrun.bufs⟩⟩
      | descriptors init port => exact absurd (port.symm.trans hwhen) (by simp)
      | configuration h init port => exact absurd (port.symm.trans hwhen) (by simp)
      | configured h init port => exact absurd (port.symm.trans hwhen) (by simp)
    · cases he

end Device

end KinOS.Usb
