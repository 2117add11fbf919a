import KinOS.Usb.ClassDriver

/-!
# Runs of a device

From `StartInitialize` on, the controller completes the transfers of a device in any order, as a success or as a failure, and
the device answers with any bytes, apart from an endpoint with number 0 in its configuration descriptor (`Fair`). A request
that fails is not made again: before the device is initialized it stays as
it is, and after the first interrupt transfer that fails it brings no more reports. -/

namespace KinOS.Usb

open Xhci TransitionSystem SlotMap

namespace Device

variable {d : Device}

/-! ## Runs -/

theorem inv_start {slotId : BitVec 8} {rings : Nat → Option Ring} {bufPtr : Ptr} (hready : Session.Ready rings)
    (hpipe : ∃ r, rings 1 = some r ∧ r.size = 32) (hbefore : rings 0 = none) (hbuf : bufPtr ≠ 0) :
    Inv (start slotId rings bufPtr) := by
  obtain ⟨session, heq, hbase, honly, hwaiters⟩ := Base.ask (d := { new slotId rings bufPtr with initializePhase := 1 })
    ⟨Session.inv_start hready, hpipe, hbefore, hbuf⟩ rfl rfl true
    (setupGetDescriptor DeviceDescriptor.kType 0 kDeviceBufferSize) bufPtr kDeviceBufferSize (by decide)
  have hstart : start slotId rings bufPtr = { new slotId rings bufPtr with initializePhase := 1, session := session } :=
    congrArg Prod.snd heq
  rw [if_neg hbuf] at honly
  rw [hstart]
  refine ⟨hbase, .descriptors rfl rfl (.inl rfl) rfl (fun _ => rfl) ⟨?_, ?_⟩ honly⟩
  · show entries session.dev.eventWaiters = []
    rw [hwaiters]
    exact entries_empty
  · show session.dev.eventWaiters.length = 4
    rw [hwaiters]
    rfl

/-- What a maintainer relies on in every state. -/
structure Safe (d : Device) : Prop where
  /-- a completion never finds that nobody waits for it -/
  awaited : ∀ q ∈ d.session.outstanding, ∀ residual code data alloc, Fair d (.complete q residual code data alloc) →
    ∀ r, d.complete q residual code data alloc = some r → r.1 ≠ .kNoWaiter
  /-- it is handled, unless the configuration descriptor comes and the parser derails over it -/
  returns : ∀ q ∈ d.session.outstanding, ∀ residual code data alloc, Fair d (.complete q residual code data alloc) →
    d.complete q residual code data alloc = none → Session.succeeds code ∧ q.want = d.configurationWant ∧
      Derails (overwrite d.buf (kDeviceBufferSize - residual.toNat) data) (kDeviceBufferSize - residual.toNat)
  /-- no ring is too full: each completion is one of its own transfer -/
  answered : ∀ q ∈ d.session.outstanding, ∀ (residual : BitVec 24) (code : BitVec 8), residual.toNat ≤ q.want.len →
    (d.session.dev.onTransferEventReceived (d.session.completion q residual code)).1 =
      if Session.succeeds code then q.want.outcome q.endpoint residual.toNat else .error .kTransferFailed
  /-- until the device is initialized there is one request at a time -/
  oneByOne : d.isInitialized = false → d.session.outstanding.length ≤ 1
  /-- at most one transfer brings reports -/
  onePoll : d.polls.length ≤ 1
  /-- every transfer stays inside the buffer it was given, of the device or of the driver it belongs to -/
  inside : ∀ q ∈ d.session.outstanding, match q.want with
    | .control _ p len => p = d.bufPtr ∧ len ≤ kDeviceBufferSize ∨ p = 0 ∧ len = 0
    | .interrupt p len => ∃ h ∈ d.drivers, p = h.bufPtr ∧ len ≤ kBufferSize
  /-- what the observers were told of the keys is what the reports said -/
  told : ∀ h ∈ d.drivers, h.Told

theorem Only.length_le {want : Want} (ho : Only d want) : d.session.outstanding.length ≤ 1 := by
  rcases ho with hnone | ⟨-, first, hone⟩
  · rw [hnone]
    exact Nat.zero_le _
  · rw [hone]
    exact Nat.le_refl _

theorem polls_length_le : d.polls.length ≤ d.session.outstanding.length := List.length_filter_le ..

theorem Inv.safe (hi : Inv d) : Safe d := by
  have hawaited : ∀ q ∈ d.session.outstanding, ∀ residual code data alloc, Fair d (.complete q residual code data alloc) →
      ∀ r, d.complete q residual code data alloc = some r → r.1 ≠ .kNoWaiter :=
    fun q hq residual code data alloc hfair r he => (hi.complete hq hfair he).2
  have hreturns : ∀ q ∈ d.session.outstanding, ∀ residual code data alloc, Fair d (.complete q residual code data alloc) →
      d.complete q residual code data alloc = none → Session.succeeds code ∧ q.want = d.configurationWant ∧
        Derails (overwrite d.buf (kDeviceBufferSize - residual.toNat) data) (kDeviceBufferSize - residual.toNat) := by
    intro q hq residual code data alloc hfair hnone
    rcases hi.handled hq hfair with ⟨r, he, -⟩ | ⟨-, hlost⟩
    · rw [hnone] at he
      cases he
    · exact hlost
  obtain ⟨hb, hstage⟩ := hi
  have hanswered : ∀ q ∈ d.session.outstanding, ∀ (residual : BitVec 24) (code : BitVec 8), residual.toNat ≤ q.want.len →
      (d.session.dev.onTransferEventReceived (d.session.completion q residual code)).1 =
        if Session.succeeds code then q.want.outcome q.endpoint residual.toNat else .error .kTransferFailed := by
    intro q hq residual code hres
    obtain ⟨session, -, -, hcallback⟩ := hb.session.complete_spec hq hres code
    exact hcallback
  cases hstage with
  | descriptors init port phase drivers classDrivers waiters asked =>
    have hone := asked.length_le
    refine ⟨hawaited, hreturns, hanswered, fun _ => hone, Nat.le_trans polls_length_le hone, fun q hq => ?_, ?_⟩
    · rw [(asked.completed hq).1]
      exact .inl ⟨rfl, Nat.le_refl _⟩
    · rw [drivers]
      exact fun h hh => by cases hh
  | configuration h init port phase has unasked waiters v asked =>
    have hone := asked.length_le
    refine ⟨hawaited, hreturns, hanswered, fun _ => hone, Nat.le_trans polls_length_le hone, fun q hq => ?_, ?_⟩
    · rw [(asked.completed hq).1]
      exact .inr ⟨rfl, rfl⟩
    · rw [has.drivers]
      exact fun h' hh => List.mem_singleton.1 hh ▸ has.told
  | initialized h init port has unasked waiters quiet =>
    refine ⟨hawaited, hreturns, hanswered,
      fun _ => by rw [quiet.1]; exact Nat.zero_le _, Nat.le_trans polls_length_le (by rw [quiet.1]; exact Nat.zero_le _),
      fun q hq => ?_, ?_⟩
    · rw [quiet.1] at hq
      cases hq
    · rw [has.drivers]
      exact fun h' hh => List.mem_singleton.1 hh ▸ has.told
  | configured h init port has running =>
    refine ⟨hawaited, hreturns, hanswered, fun hne => absurd (init.symm.trans hne) (by simp), ?_, fun q hq => ?_, ?_⟩
    · have honce := running.once
      split at honce
      · exact honce
      · omega
    · rcases running.requests q hq with ⟨-, hwant⟩ | ⟨-, hwant⟩
      · rw [hwant]
        exact .inr ⟨rfl, rfl⟩
      · rw [hwant]
        refine ⟨h, by simp [has.drivers], rfl, ?_⟩
        cases h.kind <;> decide
    · rw [has.drivers]
      exact fun h' hh => List.mem_singleton.1 hh ▸ has.told

/-- **A device is brought up safely**, in whatever order its transfers complete or fail and whatever it answers, as long as its
configuration has no endpoint 0: there is one request at a time until it is initialized and at most one interrupt transfer
afterwards, each into the buffer of its owner; whoever waits for a transfer is found; and the observers know the keys. -/
theorem brought_up {slotId : BitVec 8} {rings : Nat → Option Ring} {bufPtr : Ptr} (hready : Session.Ready rings)
    (hpipe : ∃ r, rings 1 = some r ∧ r.size = 32) (hbefore : rings 0 = none) (hbuf : bufPtr ≠ 0) {es : List Event}
    (hfair : Along next Fair (start slotId rings bufPtr) es) : States next Safe (start slotId rings bufPtr) es :=
  (hfair.states (fun _ _ _ hi hf he => hi.next hf he) es (inv_start hready hpipe hbefore hbuf)).mono (fun _ hi => hi.safe) es

/-! ## When the reports end -/

theorem Inv.deaf_next (hi : Inv d) (hd : Deaf d) {e : Event} (hfair : Fair d e) {d' : Device} (he : d.next e = some d') :
    Deaf d' ∧ d'.drivers = d.drivers := by
  obtain ⟨hport, hpolls, hdriver⟩ := hd
  cases e with
  | complete q residual code data alloc =>
    obtain ⟨r, hr, rfl⟩ := Option.map_eq_some_iff.1 he
    have hq := mem_of_complete hr
    obtain ⟨hb, hstage⟩ := hi
    cases hstage with
    | configured h init port has running =>
      obtain ⟨h', hh', hphase⟩ := hdriver
      obtain rfl : h = h' := by simpa using has.drivers.symm.trans hh'
      rcases running.requests q hq with ⟨-, hwant⟩ | ⟨-, hwant⟩
      · obtain ⟨session, hc, heq⟩ := complete_control_eq hb init has running hq hwant hfair.1 code data alloc
        rw [if_neg (show ¬ h.initializePhase = 1 by omega)] at heq
        obtain rfl := Option.some.inj (hr.symm.trans heq)
        have hfewer : (session.outstanding.filter fun q => !q.want.isControl).Sublist d.polls := by
          rw [hc.outstanding]
          exact (List.erase_sublist ..).filter _
        rw [hpolls] at hfewer
        split
        · exact ⟨⟨port, List.eq_nil_of_sublist_nil hfewer, h, hh', hphase⟩, rfl⟩
        · exact ⟨⟨port, List.eq_nil_of_sublist_nil hfewer, h, hh', hphase⟩, rfl⟩
      · have hmem : q ∈ d.polls := List.mem_filter.2 ⟨hq, by rw [hwant]; rfl⟩
        rw [hpolls] at hmem
        cases hmem
    | descriptors init port => exact absurd (port.symm.trans hport) (by simp)
    | configuration h init port => exact absurd (port.symm.trans hport) (by simp)
    | initialized h init port =>
      rcases port with port | port
      · exact absurd (port.symm.trans hport) (by simp)
      · exact absurd (port.symm.trans hport) (by simp)
  | configureEndpoints bases =>
    simp only [Device.next, hport] at he
    rw [if_neg (by simp)] at he
    cases he
  | endpointsConfigured =>
    simp only [Device.next, hport] at he
    rw [if_neg (by simp)] at he
    cases he

theorem deaf_forever (hi : Inv d) (hd : Deaf d) {es : List Event} (hfair : Along next Fair d es) :
    States next (fun d' => d'.polls = [] ∧ d'.drivers = d.drivers) d es := by
  refine (hfair.states (I := fun d' => Inv d' ∧ Deaf d' ∧ d'.drivers = d.drivers) (fun d1 e d2 h hf he => ?_) es
    ⟨hi, hd, rfl⟩).mono (fun _ h => ⟨h.2.1.polls, h.2.2⟩) es
  obtain ⟨hi, hd, hsame⟩ := h
  obtain ⟨hd', hdrivers⟩ := hi.deaf_next hd hf he
  exact ⟨hi.next hf he, hd', hdrivers.trans hsame⟩

/-- **Reports come until the first of their transfers fails**: one that succeeds leaves another one under way, and after one
that fails the observers are never told anything again. -/
theorem reports_end {slotId : BitVec 8} {rings : Nat → Option Ring} {bufPtr : Ptr} (hready : Session.Ready rings)
    (hpipe : ∃ r, rings 1 = some r ∧ r.size = 32) (hbefore : rings 0 = none) (hbuf : bufPtr ≠ 0) {es : List Event}
    (hfair : Along next Fair (start slotId rings bufPtr) es) :
    States next (fun d => ∀ q ∈ d.polls, ∀ residual code data alloc, Fair d (.complete q residual code data alloc) →
      ∀ d', d.next (.complete q residual code data alloc) = some d' →
        if Session.succeeds code then d'.polls.length = 1
        else ∀ es', Along next Fair d' es' → States next (fun d2 => d2.polls = [] ∧ d2.drivers = d'.drivers) d' es')
      (start slotId rings bufPtr) es := by
  refine (hfair.states (fun _ _ _ hi hf he => hi.next hf he) es (inv_start hready hpipe hbefore hbuf)).mono
    (fun d hi q hq residual code data alloc hf d' he => ?_) es
  have hinv := hi.next hf he
  obtain ⟨r, hr, rfl⟩ := Option.map_eq_some_iff.1 he
  obtain ⟨hq, hpoll⟩ := List.mem_filter.1 hq
  have hcontrol : q.want.isControl = false := by simpa using hpoll
  obtain ⟨hb, hstage⟩ := hi
  have hend : if Session.succeeds code then r.2.polls.length = 1 else Deaf r.2 := by
    cases hstage with
    | configured h init port has running =>
      rcases running.requests q hq with ⟨-, hwant⟩ | ⟨hep, hwant⟩
      · rw [hwant] at hcontrol
        cases hcontrol
      · obtain ⟨r', he', -, -, hend⟩ := complete_interrupt hb init port has running hq hep hwant hf.1 code data alloc
        obtain rfl := Option.some.inj (he'.symm.trans hr)
        exact hend
    | descriptors init port phase drivers classDrivers waiters asked =>
      rw [(asked.completed hq).1] at hcontrol
      cases hcontrol
    | configuration h init port phase has unasked waiters v asked =>
      rw [(asked.completed hq).1] at hcontrol
      cases hcontrol
    | initialized h init port has unasked waiters quiet =>
      rw [quiet.1] at hq
      cases hq
  split
  · next hok =>
    rwa [if_pos hok] at hend
  · next hok =>
    rw [if_neg hok] at hend
    exact fun es' => deaf_forever hinv hend

/-! ## A keyboard -/

def onePipe (i : Nat) : Option Ring := if i = 1 then some (Ring.initialized 0x1000 32) else none

theorem ready_onePipe : Session.Ready onePipe where
  fresh i r hr := by
    simp only [onePipe] at hr
    split at hr
    · cases hr
      exact ⟨by omega, Ring.holds_initialized (by decide) (by decide) (by decide)⟩
    · cases hr
  apart i j r r' hr hr' p _ _ := by
    simp only [onePipe] at hr hr'
    split at hr
    · split at hr'
      · omega
      · cases hr'
    · cases hr

def keyboardStart : Device := start 1 onePipe 0x8000

def bytesOf (bs : List UInt8) : Bytes := fun i => bs.getD i 0

/-- A boot keyboard is brought up; then `a` and `b` go down, and `a` goes up. -/
def keyboardRun : List Event :=
  [.complete ⟨kDefaultControlPipeID, 0, 1, .control (setupGetDescriptor 1 0 256) 0x8000 256⟩ 238 13 (bytesOf [18, 1]) 0x9000,
    .complete ⟨kDefaultControlPipeID, 3, 4, .control (setupGetDescriptor 2 0 256) 0x8000 256⟩ 222 13
      (bytesOf (Descriptor.bootKeyboard.flatMap Descriptor.encode)) 0x9000,
    .complete ⟨kDefaultControlPipeID, 6, 7, .control (setupSetConfiguration 1) 0 0⟩ 0 1 (bytesOf []) 0x9000,
    .configureEndpoints [0x2000],
    .endpointsConfigured,
    .complete ⟨kDefaultControlPipeID, 8, 9, .control (setupSetProtocol 0) 0 0⟩ 0 1 (bytesOf []) 0x9000,
    .complete ⟨⟨3⟩, 0, 0, .interrupt 0x9000 8⟩ 0 1 (bytesOf [0, 0, 4, 5]) 0x9000,
    .complete ⟨⟨3⟩, 1, 1, .interrupt 0x9000 8⟩ 0 1 (bytesOf [0, 0, 5]) 0x9000]

theorem fair_keyboardRun : Along next Fair keyboardStart keyboardRun := by
  decide +kernel

theorem brought_up_keyboard : ((exec next keyboardStart keyboardRun).map fun d => d.drivers.map HIDBaseDriver.keyChanges) =
    some [[(4, true), (5, true), (4, false)]] ∧ States next Safe keyboardStart keyboardRun :=
  ⟨by decide +kernel, brought_up ready_onePipe ⟨_, rfl, rfl⟩ rfl (by decide) fair_keyboardRun⟩

/-- The third interrupt transfer of the keyboard, which stalls. -/
def stall : Event := .complete ⟨⟨3⟩, 2, 2, .interrupt 0x9000 8⟩ 8 6 (bytesOf []) 0x9000

theorem reports_end_keyboard : ∃ d d', exec next keyboardStart keyboardRun = some d ∧ d.next stall = some d' ∧
    ∀ es', Along next Fair d' es' → States next (fun d2 => d2.polls = [] ∧ d2.drivers = d'.drivers) d' es' := by
  have hrun : (exec next keyboardStart keyboardRun).isSome := by
    decide +kernel
  have hstall : ∀ d ∈ exec next keyboardStart keyboardRun, (⟨⟨3⟩, 2, 2, .interrupt 0x9000 8⟩ : Xhci.Request) ∈ d.polls ∧
      Fair d stall ∧ (d.next stall).isSome := by
    decide +kernel
  obtain ⟨d, hd⟩ := Option.isSome_iff_exists.1 hrun
  obtain ⟨hq, hfair, hnext⟩ := hstall d hd
  obtain ⟨d', hd'⟩ := Option.isSome_iff_exists.1 hnext
  exact ⟨d, d', hd, hd', (reports_end ready_onePipe ⟨_, rfl, rfl⟩ rfl (by decide) fair_keyboardRun).last hd _ hq 8 6 _
    _ hfair
    d' hd'⟩

end Device

end KinOS.Usb
