import KinOS.Usb.Transfer

/-!
# Runs of transfers

`Session` is a device and its controller over a run: transfers are issued on any of the endpoints, and the controller
completes any transfer that it has not completed yet, in any order, as a success or as a failure. The session also records
what it was asked for.

The setup stage that belongs to a completed TRB is looked up in a map of 16 entries. An entry of a transfer that failed is
never deleted. Stale entries do no harm by themselves: whatever is at the next place of the ring, its setup stage was at the
place before, so that the entries of one key agree (`Inv.stages`). They take up room, and with 16 of them a new entry is
dropped.
-/

open BitField TransitionSystem SlotMap

namespace KinOS.Usb.Xhci

open Device

/-- What a transfer was issued for. -/
inductive Want
  | control (s : SetupData) (buf : Ptr) (len : Nat)
  | interrupt (buf : Ptr) (len : Nat)
deriving DecidableEq, Repr

namespace Want

def isControl : Want → Bool
  | control .. => true
  | interrupt .. => false

def len : Want → Nat
  | control _ _ len => len
  | interrupt _ len => len

/-- The callback it is to end in, when `residual` bytes were not transferred. -/
def outcome (ep : EndpointID) (residual : Nat) : Want → Callback
  | control s buf len => .controlCompleted ep s buf (len - residual : Nat)
  | interrupt buf len => .interruptCompleted ep buf (len - residual : Nat)

end Want

/-- A transfer under way: the numbers of its first TRB and of the TRB that will complete, among all of its ring. -/
structure Request where
  endpoint : EndpointID
  first : Nat
  pos : Nat
  want : Want
deriving DecidableEq, Repr

structure Session where
  dev : Device
  pushed : Nat → List TRB
  outstanding : List Request
  failed : Nat

/-- The TRBs of a control transfer, their cycle bits cleared. -/
def controlTRBs (dirIn : Bool) (s : SetupData) (buf : Ptr) (len : Int) : List TRB :=
  if buf ≠ 0 then
    [makeSetupStageTRB s (if dirIn then SetupStageTRB.kInDataStage else SetupStageTRB.kOutDataStage),
      put (makeDataStageTRB buf len dirIn) 101 1#1, StatusStageTRB.new (!dirIn) false].map fun t => t.setCycleBit false
  else
    [makeSetupStageTRB s SetupStageTRB.kNoDataStage, StatusStageTRB.new true true].map fun t => t.setCycleBit false

namespace Session

inductive Event
  | control (dirIn : Bool) (ep : EndpointID) (s : SetupData) (buf : Ptr) (len : Nat) (issuer : Option Nat)
  | interruptIn (ep : EndpointID) (buf : Ptr) (len : Nat)
  | complete (q : Request) (residual : BitVec 24) (code : BitVec 8)

/-- `kSuccess` and `kShortPacket` of the completion codes. -/
def succeeds (code : BitVec 8) : Bool := code == 1 || code == 13

/-- The event that reports a transfer. -/
def completion (s : Session) (q : Request) (residual : BitVec 24) (code : BitVec 8) : TRB :=
  let p := match s.dev.rings q.endpoint.address with
    | some r => r.place (q.pos % (r.size - 1))
    | none => 0
  TransferEventTRB.new p residual code (BitVec.ofNat 5 q.endpoint.address) s.dev.slotId

def issue (s : Session) (ep : EndpointID) (trbs : List TRB) (pos : Nat) (want : Want) (result : Error × Device) : Session :=
  if result.1 = .kSuccess then
    { s with
      dev := result.2
      pushed := Function.update s.pushed ep.address (s.pushed ep.address ++ trbs)
      outstanding := s.outstanding ++ [⟨ep, (s.pushed ep.address).length, (s.pushed ep.address).length + pos, want⟩] }
  else { s with dev := result.2 }

def next (s : Session) : Event → Option Session
  | .control dirIn ep setup buf len issuer =>
    some (s.issue ep (controlTRBs dirIn setup buf len) 1 (.control setup buf (if buf = 0 then 0 else len))
      ((if dirIn then s.dev.controlIn else s.dev.controlOut) ep setup buf len issuer))
  | .interruptIn ep buf len =>
    some (s.issue ep [(NormalTRB.new buf len).setCycleBit false] 0 (.interrupt buf len) (s.dev.interruptIn ep buf len))
  | .complete q residual code =>
    if q ∈ s.outstanding then
      some { s with
        dev := (s.dev.onTransferEventReceived (s.completion q residual code)).2
        outstanding := s.outstanding.erase q
        failed := if q.want.isControl && !succeeds code then s.failed + 1 else s.failed }
    else none

/-- Ring `i` has room for `n` TRBs: none of a transfer under way is overwritten. -/
def HasRoom (s : Session) (i n : Nat) : Prop :=
  ∃ r, s.dev.rings i = some r ∧ n < r.size ∧
    ∀ q ∈ s.outstanding, q.endpoint.address = i → (s.pushed i).length + n < q.first + r.size

/-- A transfer is issued only with room in its ring and, for a control transfer, in the map, and with a length that its TRB
can hold; the controller does not report more bytes as left than it was asked for. -/
def Room (s : Session) : Event → Prop
  | .control dirIn ep setup buf len _ =>
    s.HasRoom ep.address (controlTRBs dirIn setup buf len).length ∧ len < 2 ^ 17 ∧
      s.failed + (s.outstanding.filter fun q => q.want.isControl).length < 16
  | .interruptIn ep _ len => s.HasRoom ep.address 1 ∧ len < 2 ^ 17
  | .complete q residual _ => residual.toNat ≤ q.want.len

end Session

/-- The one element for which a search finds something. -/
theorem findSome?_unique {α β : Type} {f : α → Option β} {b : β} : ∀ {l : List α} {a : α}, a ∈ l → f a = some b →
    (∀ x ∈ l, (f x).isSome → x = a) → l.findSome? f = some b
  | x :: l, a, ha, hf, hu => by
    cases hx : f x with
    | none =>
      have hne : a ≠ x := fun he => by rw [he, hx] at hf; cases hf
      rw [List.findSome?_cons_of_isNone (by rw [hx]; rfl)]
      exact findSome?_unique ((List.mem_cons.1 ha).resolve_left hne) hf fun y hy => hu y (List.mem_cons_of_mem _ hy)
    | some c =>
      obtain rfl : x = a := hu x (List.mem_cons_self ..) (by rw [hx]; rfl)
      rw [List.findSome?_cons_of_isSome (by rw [hx]; rfl), hf]

/-! ## The rings -/

section
variable {r : Ring} {w : List TRB}

theorem place_inRing {j : Nat} (hj : j < r.size) (h : 16 * r.size ≤ 2 ^ 64) : inRing r (r.place j) := by
  have hsub : (r.place j - r.base).toNat = 16 * j := by
    rw [Ring.place, BitVec.add_comm, BitVec.add_sub_cancel, BitVec.toNat_ofNat, Nat.mod_eq_of_lt (by omega)]
  rw [inRing, hsub]
  omega

theorem castSetup_eq (h : r.Holds w) {t : TRB} (ht : t.trbType = SetupStageTRB.type) :
    castSetup (r.push t).2 (r.push t).1 = r.place (w.length % (r.size - 1)) := by
  have hat := (h.push t).at_place (k := w.length) (by simp) (by have := h.two; simp; omega)
  rw [List.getElem_concat_length rfl, Ring.push_size, Ring.place_congr Ring.push_base] at hat
  rw [castSetup, h.push_ptr t, if_pos]
  rw [← ht, ← TRB.trbType_setCycleBit, hat, TRB.trbType_setCycleBit]

/-- **The stages of a control transfer** are put behind each other, the completing one right behind the setup stage. -/
theorem controlStages_spec (h : r.Holds w) (dirIn : Bool) (s : SetupData) (buf : Ptr) (len : Int) :
    let stages := controlStages (if dirIn then SetupStageTRB.kInDataStage else SetupStageTRB.kOutDataStage) dirIn r s buf len
    stages.1.Holds (w ++ controlTRBs dirIn s buf len) ∧ stages.1.base = r.base ∧ stages.1.size = r.size ∧
      stages.2 = (r.place ((w.length + 1) % (r.size - 1)), r.place (w.length % (r.size - 1))) := by
  by_cases hbuf : buf = 0
  · have h1 := h.push (makeSetupStageTRB s SetupStageTRB.kNoDataStage)
    have h2 := h1.push (StatusStageTRB.new true true)
    have hptr := h1.push_ptr (StatusStageTRB.new true true)
    rw [Ring.push_size, Ring.place_congr Ring.push_base, List.length_append, List.length_singleton] at hptr
    simp only [controlStages, controlTRBs, hbuf, ne_eq, not_true_eq_false, if_false, List.map_cons, List.map_nil]
    refine ⟨?_, by simp, by simp, ?_⟩
    · simpa using h2
    · rw [hptr, castSetup_eq h trbType_makeSetupStageTRB]
  · generalize hk : (if dirIn then SetupStageTRB.kInDataStage else SetupStageTRB.kOutDataStage) = k
    have h1 := h.push (makeSetupStageTRB s k)
    have h2 := h1.push (put (makeDataStageTRB buf len dirIn) 101 1#1)
    have h3 := h2.push (StatusStageTRB.new (!dirIn) false)
    have hptr := h1.push_ptr (put (makeDataStageTRB buf len dirIn) 101 1#1)
    rw [Ring.push_size, Ring.place_congr Ring.push_base, List.length_append, List.length_singleton] at hptr
    simp only [controlStages, controlTRBs, hbuf, hk, ne_eq, not_false_eq_true, if_true, List.map_cons, List.map_nil]
    refine ⟨?_, by simp, by simp, ?_⟩
    · simpa using h3
    · rw [hptr, castSetup_eq h trbType_makeSetupStageTRB]

end

theorem length_controlTRBs_pos {dirIn : Bool} {s : SetupData} {buf : Ptr} {len : Int} :
    2 ≤ (controlTRBs dirIn s buf len).length := by
  rw [controlTRBs]
  split <;> simp

/-! ## The invariant -/

/-- What the ring keeps of a transfer under way. -/
structure Request.Pending (q : Request) (r : Ring) (w : List TRB) : Prop where
  room : w.length < q.first + r.size
  shape : match q.want with
    | .control s buf len => q.pos = q.first + 1 ∧
        (∃ t, w[q.first]? = some t ∧ SetupStageTRB.setupData t = s) ∧
        ∃ t, w[q.pos]? = some t ∧
          (t.trbType = DataStageTRB.type ∧ t.pointer = buf ∧ DataStageTRB.trbTransferLength t = BitVec.ofNat 17 len ∨
            t.trbType = StatusStageTRB.type ∧ buf = 0 ∧ len = 0)
    | .interrupt buf len => q.pos = q.first ∧ ∃ t, w[q.pos]? = some t ∧
        t.trbType = NormalTRB.type ∧ t.pointer = buf ∧ NormalTRB.trbTransferLength t = BitVec.ofNat 17 len
  len : q.want.len < 2 ^ 17

theorem Request.Pending.append {q : Request} {r r' : Ring} {w : List TRB} (h : q.Pending r w) {trbs : List TRB}
    (hsize : r'.size = r.size) (hroom : w.length + trbs.length < q.first + r.size) : q.Pending r' (w ++ trbs) := by
  have hget : ∀ {i : Nat} {t : TRB}, w[i]? = some t → (w ++ trbs)[i]? = some t := fun hi => by
    have hlt := (List.getElem?_eq_some_iff.1 hi).1
    rwa [List.getElem?_append_left hlt]
  have hshape := h.shape
  refine ⟨by rw [hsize, List.length_append]; exact hroom, ?_, h.len⟩
  cases hw : q.want with
  | control s buf len =>
    simp only [hw] at hshape ⊢
    obtain ⟨hpos, ⟨t, ht, hs⟩, u, hu, hrest⟩ := hshape
    exact ⟨hpos, ⟨t, hget ht, hs⟩, u, hget hu, hrest⟩
  | interrupt buf len =>
    simp only [hw] at hshape ⊢
    obtain ⟨hpos, t, ht, hrest⟩ := hshape
    exact ⟨hpos, t, hget ht, hrest⟩

theorem Request.Pending.pos_lt {q : Request} {r : Ring} {w : List TRB} (h : q.Pending r w) : q.pos < w.length := by
  have hshape := h.shape
  cases hw : q.want with
  | control s buf len =>
    simp only [hw] at hshape
    obtain ⟨-, -, t, ht, -⟩ := hshape
    exact (List.getElem?_eq_some_iff.1 ht).1
  | interrupt buf len =>
    simp only [hw] at hshape
    obtain ⟨-, t, ht, -⟩ := hshape
    exact (List.getElem?_eq_some_iff.1 ht).1

theorem Request.Pending.first_le {q : Request} {r : Ring} {w : List TRB} (h : q.Pending r w) : q.first ≤ q.pos := by
  have hshape := h.shape
  cases hw : q.want with
  | control s buf len =>
    simp only [hw] at hshape
    omega
  | interrupt buf len =>
    simp only [hw] at hshape
    omega

namespace Session

/-- The key under which the setup stage of a transfer is kept. -/
def KeyOf (s : Session) (q : Request) (p : Ptr) : Prop :=
  ∃ r, s.dev.rings q.endpoint.address = some r ∧ p = r.place (q.pos % (r.size - 1))

structure Inv (s : Session) : Prop where
  rings : ∀ i r, s.dev.rings i = some r → i < 32 ∧ r.Holds (s.pushed i)
  apart : ∀ i j r r', s.dev.rings i = some r → s.dev.rings j = some r' → ∀ p, inRing r p → inRing r' p → i = j
  /-- the setup stage of any key is at the place before -/
  stages : ∀ e ∈ entries s.dev.setupStageMap, ∃ i r k, s.dev.rings i = some r ∧
    e.1 = r.place ((k + 1) % (r.size - 1)) ∧ e.2 = r.place (k % (r.size - 1))
  slots : s.dev.setupStageMap.length = 16
  count : (entries s.dev.setupStageMap).length ≤ s.failed + (s.outstanding.filter fun q => q.want.isControl).length
  pending : ∀ q ∈ s.outstanding, ∃ r, s.dev.rings q.endpoint.address = some r ∧ q.Pending r (s.pushed q.endpoint.address)
  keyed : ∀ q ∈ s.outstanding, q.want.isControl → ∃ p v, s.KeyOf q p ∧ (p, v) ∈ entries s.dev.setupStageMap
  distinct : s.outstanding.Pairwise fun a b => a.endpoint.address = b.endpoint.address → a.pos ≠ b.pos

/-! ## A completion -/

variable {s : Session} {q : Request}

theorem Inv.deref_place (h : Inv s) {i j : Nat} {r : Ring} (hr : s.dev.rings i = some r) (hj : j < r.size) :
    s.dev.deref (r.place j) = some (r.buf j) := by
  obtain ⟨hi, hholds⟩ := h.rings i r hr
  have hin : inRing r (r.place j) := place_inRing hj hholds.fits
  have hidx : r.index (r.place j) = j := Ring.index_place (by have := hholds.fits; omega)
  refine findSome?_unique (List.mem_range.2 hi) ?_ fun i' _ hsome => ?_
  · simp [hr, hin, hidx]
  · obtain ⟨t, ht⟩ := Option.isSome_iff_exists.1 hsome
    obtain ⟨r', hr', hread⟩ := Option.bind_eq_some_iff.1 ht
    split at hread
    · next hin' => exact h.apart i' i r' r hr' hr _ hin' hin
    · cases hread

/-- What the ring holds at the place of one of the last entries. -/
theorem Inv.deref_kept (h : Inv s) {i k : Nat} {r : Ring} {t : TRB} (hr : s.dev.rings i = some r)
    (ht : (s.pushed i)[k]? = some t) (hroom : (s.pushed i).length < k + r.size) :
    ∃ u, s.dev.deref (r.place (k % (r.size - 1))) = some u ∧ u.setCycleBit false = t := by
  obtain ⟨-, hholds⟩ := h.rings i r hr
  have htwo := hholds.two
  have hlt := Nat.mod_lt k (show 0 < r.size - 1 by omega)
  obtain ⟨hk, rfl⟩ := List.getElem?_eq_some_iff.1 ht
  refine ⟨_, h.deref_place hr (by omega), ?_⟩
  have hat := hholds.at_place hk (by omega)
  rwa [Ring.index_place (by have := hholds.fits; omega)] at hat

/-- The key of a transfer under way is known, with the place of its setup stage. -/
theorem Inv.lookup (h : Inv s) (hq : q ∈ s.outstanding) (hc : q.want.isControl) {r : Ring}
    (hr : s.dev.rings q.endpoint.address = some r) (hpos : q.pos = q.first + 1) :
    SlotMap.get s.dev.setupStageMap (r.place (q.pos % (r.size - 1))) = some (r.place (q.first % (r.size - 1))) := by
  obtain ⟨hi, hholds⟩ := h.rings _ r hr
  have htwo := hholds.two
  have hfits := hholds.fits
  have hn : 0 < r.size - 1 := by omega
  have hagree : ∀ u, (r.place (q.pos % (r.size - 1)), u) ∈ entries s.dev.setupStageMap →
      u = r.place (q.first % (r.size - 1)) := by
    intro u hu
    obtain ⟨i, r', k, hr', hkey, hval⟩ := h.stages _ hu
    simp only at hkey hval
    obtain ⟨-, hholds'⟩ := h.rings i r' hr'
    have htwo' := hholds'.two
    have hlt := Nat.mod_lt q.pos hn
    have hlt' := Nat.mod_lt (k + 1) (show 0 < r'.size - 1 by omega)
    have hin := place_inRing (j := q.pos % (r.size - 1)) (by omega) hfits
    have hin' := place_inRing (j := (k + 1) % (r'.size - 1)) (by omega) hholds'.fits
    have hsame : i = q.endpoint.address := h.apart i _ r' r hr' hr _ hin' (hkey ▸ hin)
    obtain rfl : r' = r := Option.some.inj ((hsame ▸ hr').symm.trans hr)
    have hidx := congrArg r'.index hkey
    rw [Ring.index_place (by omega), Ring.index_place (by omega), hpos] at hidx
    rw [hval, (Nat.ModEq.add_right_cancel' 1 hidx : q.first % (r'.size - 1) = k % (r'.size - 1))]
  obtain ⟨p, v, ⟨r', hr', rfl⟩, hmem⟩ := h.keyed q hq hc
  obtain rfl : r' = r := Option.some.inj (hr'.symm.trans hr)
  exact get_of_mem (hagree v hmem ▸ hmem) hagree

theorem transferLength_eq {len : Nat} {residual : BitVec 24} (hlen : len < 2 ^ 17) (hres : residual.toNat ≤ len) :
    transferLength (BitVec.ofNat 17 len) residual = ((len - residual.toNat : Nat) : Int) := by
  have hnat : ((BitVec.ofNat 17 len).setWidth 32 - residual.setWidth 32).toNat = len - residual.toNat := by
    rw [BitVec.toNat_sub, BitVec.toNat_setWidth, BitVec.toNat_setWidth, BitVec.toNat_ofNat]
    omega
  rw [transferLength, BitVec.toInt_eq_toNat_of_lt (by omega), hnat]

/-- **A completion ends in the callback that the transfer was issued for**, and gives back its entry of the map. -/
theorem Inv.receive (h : Inv s) (hq : q ∈ s.outstanding) {residual : BitVec 24} (hres : residual.toNat ≤ q.want.len)
    (code : BitVec 8) {r : Ring} (hr : s.dev.rings q.endpoint.address = some r) :
    s.dev.onTransferEventReceived (s.completion q residual code) =
      (if succeeds code then q.want.outcome q.endpoint residual.toNat else .error .kTransferFailed,
        if succeeds code && q.want.isControl then
          { s.dev with setupStageMap := SlotMap.delete s.dev.setupStageMap (r.place (q.pos % (r.size - 1))) }
        else s.dev) := by
  obtain ⟨hi, hholds⟩ := h.rings _ r hr
  have hep : (BitVec.ofNat 5 q.endpoint.address).toNat = q.endpoint.address := by
    rw [BitVec.toNat_ofNat, Nat.mod_eq_of_lt (by omega)]
  have hcode : (code ≠ 1 ∧ code ≠ 13) ↔ ¬ succeeds code = true := by
    simp [succeeds]
  obtain ⟨r', hr', hpend⟩ := h.pending q hq
  obtain rfl : r' = r := Option.some.inj (hr'.symm.trans hr)
  have hev : s.completion q residual code =
      TransferEventTRB.new (r'.place (q.pos % (r'.size - 1))) residual code (BitVec.ofNat 5 q.endpoint.address)
        s.dev.slotId := by
    rw [completion, hr]
  simp only [onTransferEventReceived, hev, pointer_transferEvent, trbTransferLength_transferEvent,
    completionCode_transferEvent, endpointId_transferEvent, hep]
  by_cases hok : succeeds code
  · have hlate := hpend.room
    have hfirst := hpend.first_le
    have hlen := hpend.len
    have hshape := hpend.shape
    rw [if_neg (fun hne => hcode.1 hne hok), if_pos hok]
    cases hw : q.want with
    | control setup buf len =>
      simp only [hw, Want.len] at hshape hres hlen
      obtain ⟨hpos, ⟨t, ht, hsetup⟩, u, hu, hu'⟩ := hshape
      obtain ⟨t', ht', rfl⟩ := h.deref_kept hr ht hlate
      obtain ⟨u', hd, rfl⟩ := h.deref_kept hr hu (by omega)
      have hget := h.lookup hq (by rw [hw]; rfl) hr hpos
      have hsetup' : ∀ m, Device.deref { s.dev with setupStageMap := m } (r'.place (q.first % (r'.size - 1))) = some t' :=
        fun _ => ht'
      rw [SetupStageTRB.setupData_setCycleBit] at hsetup
      simp only [TRB.trbType_setCycleBit, TRB.pointer_setCycleBit, DataStageTRB.trbTransferLength_setCycleBit] at hu'
      rcases hu' with ⟨htype, hptr, hlength⟩ | ⟨htype, rfl, rfl⟩
      · simp [hd, hget, hsetup', htype, hptr, hlength, hsetup, hok, Want.isControl, Want.outcome,
          transferLength_eq hlen hres, DataStageTRB.type, NormalTRB.type]
      · simp [hd, hget, hsetup', htype, hsetup, hok, Want.isControl, Want.outcome, DataStageTRB.type, NormalTRB.type,
          StatusStageTRB.type]
    | interrupt buf len =>
      simp only [hw, Want.len] at hshape hres hlen
      obtain ⟨hpos, u, hu, htype, hptr, hlength⟩ := hshape
      obtain ⟨u', hd, rfl⟩ := h.deref_kept hr hu (by omega)
      simp only [TRB.trbType_setCycleBit, TRB.pointer_setCycleBit, NormalTRB.trbTransferLength_setCycleBit]
        at htype hptr hlength
      simp [hd, htype, hptr, hlength, Want.isControl, Want.outcome, transferLength_eq hlen hres]
  · rw [if_pos (hcode.2 hok), if_neg hok]
    simp [hok]

/-! ## The steps -/

/-- The rings are at the same places. -/
structure SameRings (d d' : Device) : Prop where
  old : ∀ i r', d'.rings i = some r' → ∃ r, d.rings i = some r ∧ r'.base = r.base ∧ r'.size = r.size
  new : ∀ i r, d.rings i = some r → ∃ r', d'.rings i = some r' ∧ r'.base = r.base ∧ r'.size = r.size

theorem inRing_congr {r r' : Ring} (hb : r'.base = r.base) (hs : r'.size = r.size) {p : Ptr} : inRing r' p ↔ inRing r p := by
  rw [inRing, inRing, hb, hs]

theorem sameRings_update {d d' : Device} {i : Nat} {r r' : Ring} (hr : d.rings i = some r) (hb : r'.base = r.base)
    (hs : r'.size = r.size) (hd : d'.rings = Function.update d.rings i (some r')) : SameRings d d' where
  old j r1 hj := by
    rw [hd] at hj
    by_cases he : j = i
    · subst he
      rw [Function.update_self] at hj
      cases hj
      exact ⟨r, hr, hb, hs⟩
    · rw [Function.update_of_ne he] at hj
      exact ⟨r1, hj, rfl, rfl⟩
  new j r1 hj := by
    rw [hd]
    by_cases he : j = i
    · subst he
      obtain rfl : r = r1 := Option.some.inj (hr.symm.trans hj)
      exact ⟨r', Function.update_self .., hb, hs⟩
    · exact ⟨r1, (Function.update_of_ne he ..).trans hj, rfl, rfl⟩

/-- **A transfer is issued.** Its TRBs are behind those of its ring, and a control transfer has one more entry in the map. -/
theorem Inv.issued (h : Inv s) {ep : EndpointID} {trbs : List TRB} {pos : Nat} {want : Want} {d : Device} {r r' : Ring}
    (hr : s.dev.rings ep.address = some r) (hb : r'.base = r.base) (hsize : r'.size = r.size)
    (hd : d.rings = Function.update s.dev.rings ep.address (some r')) (hholds : r'.Holds (s.pushed ep.address ++ trbs))
    (hroom : ∀ q ∈ s.outstanding, q.endpoint.address = ep.address →
      (s.pushed ep.address).length + trbs.length < q.first + r.size)
    (hslots : d.setupStageMap.length = 16)
    (hmap : (entries d.setupStageMap).Perm (if want.isControl then
      (r.place (((s.pushed ep.address).length + 1) % (r.size - 1)), r.place ((s.pushed ep.address).length % (r.size - 1))) ::
        entries s.dev.setupStageMap else entries s.dev.setupStageMap))
    (hpos : want.isControl → pos = 1)
    (hnew : Request.Pending ⟨ep, (s.pushed ep.address).length, (s.pushed ep.address).length + pos, want⟩ r'
      (s.pushed ep.address ++ trbs)) :
    Inv (s.issue ep trbs pos want (.kSuccess, d)) := by
  have hsame : SameRings s.dev d := sameRings_update hr hb hsize hd
  have hself : d.rings ep.address = some r' := by rw [hd, Function.update_self]
  have hmem : ∀ e ∈ entries s.dev.setupStageMap, e ∈ entries d.setupStageMap := fun e he => hmap.mem_iff.2 (by
    split
    · exact List.mem_cons_of_mem _ he
    · exact he)
  simp only [issue, if_true]
  constructor
  · intro i r1 hi
    by_cases he : i = ep.address
    · subst he
      obtain rfl : r' = r1 := Option.some.inj (hself.symm.trans hi)
      exact ⟨(h.rings _ r hr).1, by simpa only [Function.update_self] using hholds⟩
    · simp only [hd, Function.update_of_ne he] at hi ⊢
      exact h.rings i r1 hi
  · intro i j r1 r2 hi hj p h1 h2
    obtain ⟨r1', hi', hb1, hs1⟩ := hsame.old i r1 hi
    obtain ⟨r2', hj', hb2, hs2⟩ := hsame.old j r2 hj
    exact h.apart i j r1' r2' hi' hj' p ((inRing_congr hb1 hs1).1 h1) ((inRing_congr hb2 hs2).1 h2)
  · intro e he
    have hcases := hmap.mem_iff.1 he
    have hold : ∀ e ∈ entries s.dev.setupStageMap, ∃ i r k, d.rings i = some r ∧
        e.1 = r.place ((k + 1) % (r.size - 1)) ∧ e.2 = r.place (k % (r.size - 1)) := by
      intro e he
      obtain ⟨i, r1, k, hi, h1, h2⟩ := h.stages e he
      obtain ⟨r2, hi2, hb2, hs2⟩ := hsame.new i r1 hi
      refine ⟨i, r2, k, hi2, ?_, ?_⟩
      · rw [h1, hs2, Ring.place_congr hb2]
      · rw [h2, hs2, Ring.place_congr hb2]
    split at hcases
    · rcases List.mem_cons.1 hcases with rfl | hcases
      · refine ⟨ep.address, r', (s.pushed ep.address).length, hself, ?_, ?_⟩
        · rw [hsize, Ring.place_congr hb]
        · rw [hsize, Ring.place_congr hb]
      · exact hold e hcases
    · exact hold e hcases
  · exact hslots
  · have hcount := h.count
    rw [hmap.length_eq, List.filter_append, List.length_append]
    cases hc : want.isControl
    · simp only [Bool.false_eq_true, if_false]
      omega
    · simp only [if_true, List.length_cons, hc, List.filter_cons_of_pos, List.filter_nil, List.length_nil]
      omega
  · intro q hq
    rcases List.mem_append.1 hq with hq | hq
    · obtain ⟨r1, hr1, hp⟩ := h.pending q hq
      by_cases he : q.endpoint.address = ep.address
      · obtain rfl : r = r1 := Option.some.inj (hr.symm.trans (he ▸ hr1))
        have happend := Request.Pending.append (he ▸ hp) hsize (hroom q hq he)
        exact ⟨r', he ▸ hself, by simpa only [he, Function.update_self] using happend⟩
      · have hkept : d.rings q.endpoint.address = some r1 := by rwa [hd, Function.update_of_ne he]
        exact ⟨r1, hkept, by simpa only [Function.update_of_ne he] using hp⟩
    · rw [List.mem_singleton.1 hq]
      exact ⟨r', hself, by simpa only [Function.update_self] using hnew⟩
  · intro q hq hc
    rcases List.mem_append.1 hq with hq | hq
    · obtain ⟨p, v, ⟨r1, hr1, rfl⟩, hpv⟩ := h.keyed q hq hc
      obtain ⟨r2, hr2, hb2, hs2⟩ := hsame.new _ r1 hr1
      refine ⟨_, v, ⟨r2, hr2, ?_⟩, hmem _ hpv⟩
      rw [hs2, Ring.place_congr hb2]
    · rw [List.mem_singleton.1 hq] at hc ⊢
      refine ⟨r.place (((s.pushed ep.address).length + 1) % (r.size - 1)),
        r.place ((s.pushed ep.address).length % (r.size - 1)), ⟨r', hself, ?_⟩, hmap.mem_iff.2 ?_⟩
      · rw [hsize, Ring.place_congr hb, hpos hc]
      · rw [if_pos hc]
        exact List.mem_cons_self ..
  · refine List.pairwise_append.2 ⟨h.distinct, List.pairwise_singleton .., fun a ha b hb' he => ?_⟩
    rw [List.mem_singleton.1 hb'] at he ⊢
    obtain ⟨r1, hr1, hp⟩ := h.pending a ha
    have hlt := hp.pos_lt
    simp only at he ⊢
    rw [he] at hlt
    omega

/-- Two transfers under way do not complete at the same address. -/
theorem Inv.keys_ne (h : Inv s) {q' : Request} (hq : q ∈ s.outstanding) (hq' : q' ∈ s.outstanding)
    (hne : q.endpoint.address = q'.endpoint.address → q.pos ≠ q'.pos) {r r' : Ring}
    (hr : s.dev.rings q.endpoint.address = some r) (hr' : s.dev.rings q'.endpoint.address = some r') :
    r.place (q.pos % (r.size - 1)) ≠ r'.place (q'.pos % (r'.size - 1)) := by
  intro hplace
  obtain ⟨-, hholds⟩ := h.rings _ r hr
  obtain ⟨-, hholds'⟩ := h.rings _ r' hr'
  have htwo := hholds.two
  have htwo' := hholds'.two
  have hlt := Nat.mod_lt q.pos (show 0 < r.size - 1 by omega)
  have hlt' := Nat.mod_lt q'.pos (show 0 < r'.size - 1 by omega)
  have hin := place_inRing (j := q.pos % (r.size - 1)) (by omega) hholds.fits
  have hin' := place_inRing (j := q'.pos % (r'.size - 1)) (by omega) hholds'.fits
  have hsame := h.apart _ _ r r' hr hr' _ hin (hplace ▸ hin')
  obtain rfl : r = r' := Option.some.inj (hr.symm.trans (hsame ▸ hr'))
  have hidx := congrArg r.index hplace
  have hfits := hholds.fits
  rw [Ring.index_place (by omega), Ring.index_place (by omega)] at hidx
  obtain ⟨r1, hr1, hp⟩ := h.pending q hq
  obtain rfl : r = r1 := Option.some.inj (hr.symm.trans hr1)
  obtain ⟨r2, hr2, hp'⟩ := h.pending q' hq'
  obtain rfl : r = r2 := Option.some.inj (hr'.symm.trans hr2)
  -- both are among the last places of the ring
  have h1 := hp.room
  have h2 := hp'.room
  have h3 := hp.first_le
  have h4 := hp'.first_le
  have h5 := hp.pos_lt
  have h6 := hp'.pos_lt
  rw [← hsame] at h2 h6
  apply hne hsame
  rcases Nat.le_total q.pos q'.pos with hle | hle
  · have hdvd := (Nat.modEq_iff_dvd' hle).1 hidx
    have := Nat.eq_zero_of_dvd_of_lt hdvd (by omega)
    omega
  · have hdvd := (Nat.modEq_iff_dvd' hle).1 hidx.symm
    have := Nat.eq_zero_of_dvd_of_lt hdvd (by omega)
    omega

/-- **A transfer is completed.** Only the entry of its own key may go. -/
theorem Inv.completed (h : Inv s) (hq : q ∈ s.outstanding) {m : SlotMap.Table Ptr Ptr} {failed : Nat}
    (hm : m = s.dev.setupStageMap ∧ (q.want.isControl → failed = s.failed + 1) ∨
      q.want.isControl ∧ failed = s.failed ∧ ∃ r v, s.dev.rings q.endpoint.address = some r ∧
        SlotMap.get s.dev.setupStageMap (r.place (q.pos % (r.size - 1))) = some v ∧
        m = SlotMap.delete s.dev.setupStageMap (r.place (q.pos % (r.size - 1))))
    (hfailed : s.failed ≤ failed) :
    Inv { s with dev := { s.dev with setupStageMap := m }, outstanding := s.outstanding.erase q, failed := failed } := by
  have hperm := List.perm_cons_erase hq
  have hsub : ∀ q' ∈ s.outstanding.erase q, q' ∈ s.outstanding := fun q' hq' => List.mem_of_mem_erase hq'
  have hothers : ∀ q' ∈ s.outstanding.erase q, q.endpoint.address = q'.endpoint.address → q.pos ≠ q'.pos := by
    have hall := (hperm.pairwise_iff fun hab he => (hab he.symm).symm).1 h.distinct
    exact (List.pairwise_cons.1 hall).1
  have hcontrols : (s.outstanding.filter fun q => q.want.isControl).length =
      ((s.outstanding.erase q).filter fun q => q.want.isControl).length + if q.want.isControl then 1 else 0 := by
    rw [(hperm.filter _).length_eq, List.filter_cons]
    cases q.want.isControl <;> simp
  have hcount := h.count
  constructor
  · exact h.rings
  · exact h.apart
  · intro e he
    rcases hm with ⟨rfl, -⟩ | ⟨-, -, r, v, -, hget, rfl⟩
    · exact h.stages e he
    · exact h.stages e ((entries_delete hget).mem_iff.2 (List.mem_cons_of_mem _ he))
  · rcases hm with ⟨rfl, -⟩ | ⟨-, -, r, v, -, hget, rfl⟩
    · exact h.slots
    · simpa using h.slots
  · rcases hm with ⟨rfl, hinc⟩ | ⟨hc, rfl, r, v, -, hget, rfl⟩
    · cases hc : q.want.isControl
      · simp only [hc, Bool.false_eq_true, if_false] at hcontrols
        simp only
        omega
      · have := hinc hc
        simp only [hc, if_true] at hcontrols
        simp only
        omega
    · have hlen := (entries_delete hget).length_eq
      simp only [hc, if_true, List.length_cons] at hcontrols hlen
      simp only
      omega
  · exact fun q' hq' => h.pending q' (hsub q' hq')
  · intro q' hq' hc'
    obtain ⟨p, v, ⟨r', hr', rfl⟩, hpv⟩ := h.keyed q' (hsub q' hq') hc'
    refine ⟨_, v, ⟨r', hr', rfl⟩, ?_⟩
    rcases hm with ⟨rfl, -⟩ | ⟨-, -, r, u, hr, -, rfl⟩
    · exact hpv
    · exact mem_delete hpv (h.keys_ne hq (hsub q' hq') (hothers q' hq') hr hr').symm
  · exact h.distinct.sublist (List.erase_sublist ..)

/-- **`ControlIn` and `ControlOut` with room succeed.** -/
theorem Inv.control_eq (h : Inv s) {dirIn : Bool} {ep : EndpointID} {setup : SetupData} {buf : Ptr} {len : Nat}
    {issuer : Option Nat} {r : Ring} (hr : s.dev.rings ep.address = some r) {stages : Ring × Ptr × Ptr}
    (hstages : controlStages (if dirIn then SetupStageTRB.kInDataStage else SetupStageTRB.kOutDataStage)
      dirIn r setup buf len =
      stages) :
    (if dirIn then s.dev.controlIn else s.dev.controlOut) ep setup buf len issuer =
      (.kSuccess, { s.dev.setRing ep.address stages.1 with
        setupStageMap := SlotMap.put s.dev.setupStageMap stages.2.1 stages.2.2
        eventWaiters := (s.dev.addWaiter setup issuer).eventWaiters
        rung := s.dev.rung ++ [ep.address] }) := by
  obtain ⟨hi, -⟩ := h.rings _ r hr
  have hnum : ¬ 15 < ep.number := by
    rw [EndpointID.number]
    omega
  have hwaiter : s.dev.addWaiter setup issuer =
      { s.dev with eventWaiters := (s.dev.addWaiter setup issuer).eventWaiters } := by
    cases issuer <;> rfl
  have hcontrol : (if dirIn then s.dev.controlIn else s.dev.controlOut) =
      Device.control (if dirIn then SetupStageTRB.kInDataStage else SetupStageTRB.kOutDataStage) dirIn s.dev := by
    cases dirIn <;> rfl
  rw [hcontrol, Device.control, hwaiter]
  simp only [hnum, if_false, hr, hstages, setRing]

theorem Inv.control (h : Inv s) {dirIn : Bool} {ep : EndpointID} {setup : SetupData} {buf : Ptr} {len : Nat}
    {issuer : Option Nat} (hroom : Room s (.control dirIn ep setup buf len issuer)) :
    Inv (s.issue ep (controlTRBs dirIn setup buf len) 1 (.control setup buf (if buf = 0 then 0 else len))
      ((if dirIn then s.dev.controlIn else s.dev.controlOut) ep setup buf len issuer)) := by
  obtain ⟨⟨r, hr, hfit, hkept⟩, hlen, hmap⟩ := hroom
  obtain ⟨-, hholds⟩ := h.rings _ r hr
  obtain ⟨hstages, hb, hsize, hptrs⟩ := controlStages_spec hholds dirIn setup buf len
  have htwo : 2 ≤ (controlTRBs dirIn setup buf len).length := length_controlTRBs_pos
  have hfull : (entries s.dev.setupStageMap).length < s.dev.setupStageMap.length := by
    rw [h.slots]
    exact Nat.lt_of_le_of_lt h.count hmap
  generalize hst : controlStages (if dirIn then SetupStageTRB.kInDataStage else SetupStageTRB.kOutDataStage)
    dirIn r setup buf
    len = stages at hstages hb hsize hptrs
  rw [h.control_eq hr hst]
  refine h.issued hr hb hsize rfl hstages hkept ?_ ?_ (fun _ => rfl) ?_
  · simpa using h.slots
  · have hput := entries_put hfull (k := stages.2.1) (v := stages.2.2)
    simpa only [hptrs, Want.isControl, if_true] using hput
  · refine ⟨?_, ?_, ?_⟩
    · simp only [List.length_append, hsize]
      omega
    · refine ⟨rfl, ?_⟩
      by_cases hbuf : buf = 0
      · subst hbuf
        simp [controlTRBs]
      · have hne : ¬ buf = 0#64 := hbuf
        simp [controlTRBs, hne]
    · simp only [Want.len]
      split
      · decide
      · exact hlen

theorem Inv.interruptIn (h : Inv s) {ep : EndpointID} {buf : Ptr} {len : Nat} (hroom : Room s (.interruptIn ep buf len)) :
    Inv (s.issue ep [(NormalTRB.new buf len).setCycleBit false] 0 (.interrupt buf len) (s.dev.interruptIn ep buf len)) := by
  obtain ⟨⟨r, hr, hfit, hkept⟩, hlen⟩ := hroom
  obtain ⟨-, hholds⟩ := h.rings _ r hr
  rw [Device.interruptIn, hr]
  refine h.issued hr Ring.push_base Ring.push_size rfl (hholds.push _) hkept h.slots (.refl _) (fun hc => by cases hc) ?_
  refine ⟨?_, ?_, hlen⟩
  · simp only [List.length_append, List.length_singleton, Ring.push_size]
    omega
  · simp

theorem Inv.next {s' : Session} {e : Event} (h : Inv s) (hroom : Room s e) (he : s.next e = some s') : Inv s' := by
  cases e with
  | control dirIn ep setup buf len issuer =>
    cases he
    exact h.control hroom
  | interruptIn ep buf len =>
    cases he
    exact h.interruptIn hroom
  | complete q residual code =>
    simp only [Session.next] at he
    split at he
    · next hq =>
      cases he
      obtain ⟨r, hr, hp⟩ := h.pending q hq
      rw [h.receive hq hroom code hr]
      cases hc : q.want.isControl
      · simp only [Bool.and_false, Bool.false_eq_true, if_false, Bool.false_and]
        exact h.completed hq (.inl ⟨rfl, fun hc' => absurd hc' (by simp [hc])⟩) (Nat.le_refl _)
      · cases hok : succeeds code
        · simp only [Bool.false_and, Bool.false_eq_true, if_false, Bool.not_false, Bool.and_self, if_true]
          exact h.completed hq (.inl ⟨rfl, fun _ => rfl⟩) (Nat.le_succ _)
        · have hshape := hp.shape
          have hpos : q.pos = q.first + 1 := by
            cases hw : q.want with
            | control setup buf len =>
              simp only [hw] at hshape
              exact hshape.1
            | interrupt buf len =>
              rw [hw] at hc
              cases hc
          simp only [Bool.and_self, if_true, Bool.not_true, Bool.and_false, Bool.false_eq_true, if_false]
          exact h.completed hq (.inr ⟨hc, rfl, r, _, hr, h.lookup hq hc hr hpos, rfl⟩) (Nat.le_refl _)
    · cases he

/-- A device with new rings beside each other. -/
structure Ready (rings : Nat → Option Ring) : Prop where
  fresh : ∀ i r, rings i = some r → i < 32 ∧ r.Holds []
  apart : ∀ i j r r', rings i = some r → rings j = some r' → ∀ p, inRing r p → inRing r' p → i = j

def start (slotId : BitVec 8) (rings : Nat → Option Ring) : Session := ⟨Device.new slotId rings, fun _ => [], [], 0⟩

theorem inv_start {slotId : BitVec 8} {rings : Nat → Option Ring} (h : Ready rings) : Inv (start slotId rings) where
  rings := h.fresh
  apart := h.apart
  stages e he := absurd he (by simp [start, Device.new])
  slots := by simp [start, Device.new, SlotMap.empty]
  count := by simp [start, Device.new]
  pending q hq := absurd hq (by simp [start])
  keyed q hq := absurd hq (by simp [start])
  distinct := .nil

/-- **A completion is handed to the right callback**: in every state of a run in which transfers are issued only with
room for them, whichever of the transfers under way completes, the callback gets the endpoint, the request and the
buffer that this transfer was issued with, and the number of bytes that were transferred; and a failure is one. -/
theorem completions_answer_requests {slotId : BitVec 8} {rings : Nat → Option Ring} (hready : Ready rings) {es : List Event}
    (hroom : Along next Room (start slotId rings) es) :
    States next (fun s => ∀ q ∈ s.outstanding, ∀ (residual : BitVec 24) (code : BitVec 8), residual.toNat ≤ q.want.len →
      (s.dev.onTransferEventReceived (s.completion q residual code)).1 =
        if succeeds code then q.want.outcome q.endpoint residual.toNat else .error .kTransferFailed)
      (start slotId rings) es := by
  refine (hroom.states (fun _ _ _ hi hp hn => hi.next hp hn) es (inv_start hready)).mono (fun s h => ?_) es
  intro q hq residual code hres
  obtain ⟨r, hr, -⟩ := h.pending q hq
  rw [h.receive hq hres code hr]

instance (s : Session) (i n : Nat) : Decidable (s.HasRoom i n) :=
  match h : s.dev.rings i with
  | none => isFalse fun ⟨r, hr, _⟩ => by rw [h] at hr; cases hr
  | some r =>
    decidable_of_iff (n < r.size ∧ ∀ q ∈ s.outstanding, q.endpoint.address = i → (s.pushed i).length + n < q.first + r.size)
      ⟨fun hroom => ⟨r, h, hroom⟩, fun ⟨r', hr', hroom⟩ => by rw [h] at hr'; cases hr'; exact hroom⟩

instance (s : Session) : ∀ e, Decidable (Room s e)
  | .control .. => inferInstanceAs (Decidable (_ ∧ _))
  | .interruptIn .. => inferInstanceAs (Decidable (_ ∧ _))
  | .complete .. => inferInstanceAs (Decidable (_ ≤ _))

/-- The default control pipe and an interrupt endpoint. -/
def twoRings (i : Nat) : Option Ring :=
  if i = 1 then some (Ring.initialized 0x1000 32) else if i = 3 then some (Ring.initialized 0x2000 32) else none

theorem ready_twoRings : Ready twoRings where
  fresh i r hr := by
    simp only [twoRings] at hr
    split at hr
    · cases hr
      exact ⟨by omega, Ring.holds_initialized (by decide) (by decide) (by decide)⟩
    · split at hr
      · cases hr
        exact ⟨by omega, Ring.holds_initialized (by decide) (by decide) (by decide)⟩
      · cases hr
  apart i j r r' hr hr' p hp hp' := by
    have hcases : ∀ {i r}, twoRings i = some r → inRing r p →
        i = 1 ∧ (p - 0x1000).toNat < 512 ∨ i = 3 ∧ (p - 0x2000).toNat < 512 := by
      intro i r hr hp
      simp only [twoRings] at hr
      split at hr
      · cases hr
        exact .inl ⟨by assumption, hp.1⟩
      · split at hr
        · cases hr
          exact .inr ⟨by assumption, hp.1⟩
        · cases hr
    rcases hcases hr hp with ⟨rfl, h1⟩ | ⟨rfl, h1⟩ <;> rcases hcases hr' hp' with ⟨rfl, h2⟩ | ⟨rfl, h2⟩
    · rfl
    · bv_omega
    · bv_omega
    · rfl

/-- `GetDescriptor` of 18 bytes, after it an interrupt transfer that fails. -/
def descriptorRun : List Event :=
  [.control true kDefaultControlPipeID ⟨0x80, 6, 0x100, 0, 18⟩ 0x5000 18 none, .interruptIn (.new 1 true) 0x6000 8,
    .complete ⟨.new 1 true, 0, 0, .interrupt 0x6000 8⟩ 8 4]

theorem completions_answer_requests_descriptor : ∃ s, exec next (start 1 twoRings) descriptorRun = some s ∧
    (s.dev.onTransferEventReceived
      (s.completion ⟨kDefaultControlPipeID, 0, 1, .control ⟨0x80, 6, 0x100, 0, 18⟩ 0x5000 18⟩ 10 13)).1 =
        .controlCompleted kDefaultControlPipeID ⟨0x80, 6, 0x100, 0, 18⟩ 0x5000 8 :=
  ⟨_, rfl, (completions_answer_requests ready_twoRings
    (by decide : Along next Room (start 1 twoRings) descriptorRun)).last rfl
    _ (by decide) 10 13 (by decide)⟩

end Session

end KinOS.Usb.Xhci
