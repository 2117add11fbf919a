import KinOS.Lib.CycleRing
import KinOS.Lib.TransitionSystem
import KinOS.Usb.Trb

/-!
# The event ring

| here | there |
| --- | --- |
| `EventRing`, `initialized`, `hasFront`, `front`, `pop` | `usb::xhci::EventRing` (`kernel/usb/xhci/ring.hpp:67-99`, `ring.cpp:56-114`) |
| `EventRing.erdp`, `readDequeuePointer`, `writeDequeuePointer` | `ERDP_Bitmap` (`registers.hpp:318-333`), `ring.cpp:95-99` |
| `processEvent`, `processEvents` | `ProcessEvent`, `ProcessEvents` (`xhci.cpp:512-529, 594-601`); `onEvent` stands for the handlers of the three types |
| `Writer`        | the controller's end of the ring |

The ring has no link: at the segment's end both ends go back to its start and turn their cycle state. `EventRing` keeps no
index, the place to read next is in the register.
-/

open BitField CycleRing TransitionSystem

namespace KinOS.Usb.Xhci

/-- `usb::xhci::EventRing`: `base` and `size` are those of `erst_[0]`, and `buf i` is the TRB at `base + 16 i`. -/
structure EventRing where
  base : Ptr
  size : BitVec 16
  buf : Nat → TRB
  cycleBit : Bool
  erdp : BitVec 64

namespace EventRing

def readDequeuePointer (r : EventRing) : Ptr := get r.erdp 4 60 ++ 0#4

def writeDequeuePointer (r : EventRing) (p : Ptr) : EventRing := { r with erdp := put r.erdp 4 (get p 4 60) }

/-- `Initialize` with the memory `AllocArray` gave and what `ERDP` held. -/
def initialized (base : Ptr) (bufSize : Nat) (erdp : BitVec 64) : EventRing :=
  writeDequeuePointer ⟨base, BitVec.ofNat 16 bufSize, fun _ => 0, true, erdp⟩ base

def place (r : EventRing) (i : Nat) : Ptr := r.base + BitVec.ofNat 64 (16 * i)

def index (r : EventRing) (p : Ptr) : Nat := (p - r.base).toNat / 16

def front (r : EventRing) : TRB := r.buf (r.index r.readDequeuePointer)

def hasFront (r : EventRing) : Bool := r.front.cycleBit == r.cycleBit

def pop (r : EventRing) : EventRing :=
  let p := r.readDequeuePointer + 16#64
  if p = r.place r.size.toNat then { r with cycleBit := !r.cycleBit }.writeDequeuePointer r.base
  else r.writeDequeuePointer p

/-! ## The handlers -/

/-- The handler that `ProcessEvent` picks; a TRB of another type is `kNotImplemented`. -/
inductive Kind
  | transfer
  | portStatusChange
  | commandCompletion
  | notImplemented
deriving DecidableEq, Repr

def kind (t : TRB) : Kind :=
  if t.trbType = TransferEventTRB.type then .transfer
  else if t.trbType = PortStatusChangeEventTRB.type then .portStatusChange
  else if t.trbType = CommandCompletionEventTRB.type then .commandCompletion
  else .notImplemented

variable {σ : Type} (onEvent : σ → Kind → TRB → σ)

def processEvent (x : σ) (r : EventRing) : σ × EventRing :=
  if r.hasFront then (onEvent x (kind r.front) r.front, r.pop) else (x, r)

/-- `none` where the fuel was not enough. -/
def processEvents (x : σ) (r : EventRing) : Nat → Option (σ × EventRing)
  | 0 => none
  | fuel + 1 =>
    if r.hasFront then processEvents (processEvent onEvent x r).1 (processEvent onEvent x r).2 fuel else some (x, r)

/-! ## What is in the ring -/

section
variable {r : EventRing} {p : Ptr} {i : Nat}

@[simp] theorem writeDequeuePointer_base : (r.writeDequeuePointer p).base = r.base := rfl

@[simp] theorem writeDequeuePointer_size : (r.writeDequeuePointer p).size = r.size := rfl

@[simp] theorem writeDequeuePointer_buf : (r.writeDequeuePointer p).buf = r.buf := rfl

@[simp] theorem writeDequeuePointer_cycleBit : (r.writeDequeuePointer p).cycleBit = r.cycleBit := rfl

@[simp] theorem pop_base : r.pop.base = r.base := by
  simp only [pop]
  split <;> rfl

@[simp] theorem pop_size : r.pop.size = r.size := by
  simp only [pop]
  split <;> rfl

@[simp] theorem pop_buf : r.pop.buf = r.buf := by
  simp only [pop]
  split <;> rfl

theorem readDequeuePointer_write (h : get p 0 4 = 0) : (r.writeDequeuePointer p).readDequeuePointer = p := by
  rw [readDequeuePointer, writeDequeuePointer, get_put (by decide), append_zero h]

theorem get_low_eq_zero : get p 0 4 = 0 ↔ p.toNat % 16 = 0 := by
  rw [BitField.get, ← BitVec.toNat_inj, BitVec.extractLsb'_toNat]
  simp

theorem place_aligned (h : get r.base 0 4 = 0) (i : Nat) : get (r.place i) 0 4 = 0 := by
  rw [get_low_eq_zero] at h ⊢
  rw [place, BitVec.toNat_add, BitVec.toNat_ofNat]
  omega

theorem size_lt : r.size.toNat < 2 ^ 16 := r.size.isLt

theorem index_place (h : i < 2 ^ 16) : r.index (r.place i) = i := by
  rw [index, place, BitVec.add_comm, BitVec.add_sub_cancel, BitVec.toNat_ofNat, Nat.mod_eq_of_lt (by omega)]
  omega

theorem place_inj {j : Nat} (hi : i < 2 ^ 16) (hj : j < 2 ^ 16) (h : r.place i = r.place j) : i = j := by
  rw [← index_place (r := r) hi, h, index_place hj]

theorem place_succ : r.place i + 16#64 = r.place (i + 1) := by
  rw [place, place, BitVec.add_assoc, ← BitVec.ofNat_add, Nat.mul_succ]

theorem place_zero : r.place 0 = r.base := by
  simp [place]

end

def entries (r : EventRing) (i : Nat) : Bool × TRB := ((r.buf i).cycleBit, (r.buf i).setCycleBit false)

/-- The events `w` were posted, with the cycle bits of their rounds, and `k` of them are handled. -/
structure Holds (r : EventRing) (w : List TRB) (k : Nat) : Prop where
  pos : 0 < r.size.toNat
  aligned : get r.base 0 4 = 0
  kept : CycleRing.Holds r.size.toNat r.entries (w.map fun t => t.setCycleBit false)
  bits : ∀ i (h : i < w.length), w[i].cycleBit = cycle r.size.toNat i
  dequeue : r.readDequeuePointer = r.place (k % r.size.toNat)
  cycleBit : r.cycleBit = cycle r.size.toNat k
  le : k ≤ w.length
  room : w.length ≤ k + r.size.toNat

variable {r : EventRing} {w : List TRB} {k : Nat}

theorem holds_initialized {base : Ptr} {bufSize : Nat} {erdp : BitVec 64} (hpos : 0 < bufSize) (hlt : bufSize < 2 ^ 16)
    (halign : get base 0 4 = 0) : Holds (initialized base bufSize erdp) [] 0 := by
  have hsize : (initialized base bufSize erdp).size.toNat = bufSize := by
    simp only [initialized, writeDequeuePointer_size, BitVec.toNat_ofNat, Nat.mod_eq_of_lt hlt]
  constructor
  · rwa [hsize]
  · exact halign
  · exact holds_nil fun _ _ => by simp only [entries, initialized, writeDequeuePointer_buf, TRB.cycleBit_zero]
  · intro i hi
    cases hi
  · rw [initialized, readDequeuePointer_write halign, Nat.zero_mod, place_zero]
    rfl
  · rw [cycle_first (by rwa [hsize])]
    rfl
  · exact Nat.le_refl _
  · exact Nat.zero_le _

theorem Holds.front_eq (h : Holds r w k) : r.front = r.buf (k % r.size.toNat) := by
  have := Nat.mod_lt k h.pos
  rw [front, h.dequeue, index_place (by have := size_lt (r := r); omega)]

/-- **`HasFront` is true exactly when an event is left.** -/
theorem Holds.hasFront_iff (h : Holds r w k) : r.hasFront = true ↔ k < w.length := by
  have hnext := h.kept.next_iff h.pos (by simpa using h.le) (by simpa using h.room)
  simpa [hasFront, h.front_eq, h.cycleBit, entries] using hnext

/-- **`Front` is the first event that is left.** -/
theorem Holds.front (h : Holds r w k) (hk : k < w.length) : r.front = w[k] := by
  have hbit : r.front.cycleBit = w[k].cycleBit := by
    have hfront := (h.hasFront_iff.2 hk)
    rw [hasFront, beq_iff_eq] at hfront
    rw [hfront, h.cycleBit, h.bits k hk]
  have hrest : r.front.setCycleBit false = w[k].setCycleBit false := by
    have hnext := h.kept.next_eq (r := k) (by simpa using hk) (by simpa using h.room)
    simpa [entries, h.front_eq] using hnext
  calc r.front = (r.front.setCycleBit false).setCycleBit r.front.cycleBit := by
        rw [TRB.setCycleBit_setCycleBit, TRB.setCycleBit_self]
    _ = w[k] := by rw [hrest, hbit, TRB.setCycleBit_setCycleBit, TRB.setCycleBit_self]

/-- **`Pop` goes on to the next event**, around the ring's end. -/
theorem Holds.pop (h : Holds r w k) (hk : k < w.length) : Holds r.pop w (k + 1) := by
  have hlt := Nat.mod_lt k h.pos
  have hsize := size_lt (r := r)
  have hnext : r.readDequeuePointer + 16#64 = r.place (k % r.size.toNat + 1) := by rw [h.dequeue, place_succ]
  have hcond : r.place (k % r.size.toNat + 1) = r.place r.size.toNat ↔ k % r.size.toNat + 1 = r.size.toNat :=
    ⟨place_inj (by omega) hsize, congrArg r.place⟩
  have hmoved : r.pop.readDequeuePointer = r.place ((k + 1) % r.size.toNat) ∧
    r.pop.cycleBit = cycle r.size.toNat (k + 1) := by
    rw [EventRing.pop, hnext]
    by_cases hwrap : k % r.size.toNat + 1 = r.size.toNat
    · rw [if_pos (hcond.2 hwrap), readDequeuePointer_write h.aligned, mod_wrap hwrap, place_zero,
        writeDequeuePointer_cycleBit, cycle_wrap h.pos hwrap, h.cycleBit]
      exact ⟨rfl, rfl⟩
    · rw [if_neg (mt hcond.1 hwrap), readDequeuePointer_write (place_aligned h.aligned _),
        writeDequeuePointer_cycleBit, mod_succ h.pos (by omega), cycle_succ h.pos (by omega), h.cycleBit]
      exact ⟨rfl, rfl⟩
  have hplace : r.pop.place = r.place := by
    funext i
    rw [place, place, pop_base]
  have hentries : r.pop.entries = r.entries := by
    funext i
    rw [entries, entries, pop_buf]
  constructor
  · rw [pop_size]
    exact h.pos
  · rw [pop_base]
    exact h.aligned
  · rw [pop_size, hentries]
    exact h.kept
  · rw [pop_size]
    exact h.bits
  · rw [pop_size, hplace, hmoved.1]
  · rw [pop_size, hmoved.2]
  · exact hk
  · rw [pop_size]
    have := h.room
    omega

/-- **The loop handles what is left, in order, and stops.** -/
theorem Holds.processEvents : ∀ (left : Nat) {r : EventRing} {k : Nat} (x : σ), Holds r w k → w.length - k = left →
    ∃ r', EventRing.processEvents onEvent x r (left + 1) =
        some ((w.drop k).foldl (fun x t => onEvent x (kind t) t) x, r') ∧ Holds r' w w.length
  | 0, r, k, x, h, hleft => by
    obtain rfl : k = w.length := by have := h.le; omega
    have hstop : r.hasFront = false := by
      rw [← Bool.not_eq_true, h.hasFront_iff]
      omega
    exact ⟨r, by simp [EventRing.processEvents, hstop], h⟩
  | left + 1, r, k, x, h, hleft => by
    have hk : k < w.length := by omega
    have hgo := h.hasFront_iff.2 hk
    obtain ⟨r', hrest, hr'⟩ := Holds.processEvents left (onEvent x (kind r.front) r.front) (h.pop hk) (by omega)
    refine ⟨r', ?_, hr'⟩
    rw [EventRing.processEvents, if_pos hgo, processEvent, if_pos hgo, hrest, List.drop_eq_getElem_cons hk,
      List.foldl_cons, h.front hk]

end EventRing

/-! ## Controller and driver -/

/-- The place the controller writes to next, and its cycle state. -/
structure Writer where
  index : Nat
  pcs : Bool
deriving DecidableEq, Repr

/-- An event ring between its two ends, with the events that were posted and those that were handled. -/
structure EventChannel where
  ring : EventRing
  writer : Writer
  posted : List TRB
  handled : List TRB

namespace EventChannel

inductive Event
  /-- the controller reports -/
  | post (t : TRB)
  /-- one round of the loop in `ProcessEvents` -/
  | handle

def start (base : Ptr) (bufSize : Nat) (erdp : BitVec 64) : EventChannel :=
  ⟨EventRing.initialized base bufSize erdp, ⟨0, true⟩, [], []⟩

def next (s : EventChannel) : Event → Option EventChannel
  | .post t =>
    let written := t.setCycleBit s.writer.pcs
    some { s with
      ring := { s.ring with buf := Function.update s.ring.buf s.writer.index written }
      writer := if s.writer.index + 1 = s.ring.size.toNat then ⟨0, !s.writer.pcs⟩ else ⟨s.writer.index + 1, s.writer.pcs⟩
      posted := s.posted ++ [written] }
  | .handle =>
    if s.ring.hasFront then some { s with ring := s.ring.pop, handled := s.handled ++ [s.ring.front] } else none

/-- The controller posts only where the ring has room. -/
def Room (s : EventChannel) : Event → Prop
  | .post _ => s.posted.length < s.handled.length + s.ring.size.toNat
  | .handle => True

structure Inv (s : EventChannel) : Prop where
  ring : s.ring.Holds s.posted s.handled.length
  writer : s.writer = ⟨s.posted.length % s.ring.size.toNat, cycle s.ring.size.toNat s.posted.length⟩
  prefixed : s.handled <+: s.posted

theorem inv_start {base : Ptr} {bufSize : Nat} {erdp : BitVec 64} (hpos : 0 < bufSize) (hlt : bufSize < 2 ^ 16)
    (halign : get base 0 4 = 0) : Inv (start base bufSize erdp) where
  ring := EventRing.holds_initialized hpos hlt halign
  writer := by
    have hring : (start base bufSize erdp).ring.Holds [] 0 := EventRing.holds_initialized hpos hlt halign
    have hcycle : cycle (start base bufSize erdp).ring.size.toNat 0 = true := cycle_first hring.pos
    change (⟨0, true⟩ : Writer) = ⟨0 % _, cycle (start base bufSize erdp).ring.size.toNat 0⟩
    rw [Nat.zero_mod, hcycle]
  prefixed := List.prefix_rfl

theorem Inv.post {s : EventChannel} (h : Inv s) {t : TRB} (hroom : Room s (.post t)) :
    ∀ s' ∈ s.next (.post t), Inv s' := by
  rintro s' ⟨⟩
  have hw := h.writer
  constructor
  · constructor
    · exact h.ring.pos
    · exact h.ring.aligned
    · have hpush := h.ring.kept.push (t.setCycleBit false)
      have heq : ({ s.ring with buf := Function.update s.ring.buf s.writer.index (t.setCycleBit s.writer.pcs) } :
        EventRing).entries
          = Function.update s.ring.entries (s.posted.length % s.ring.size.toNat)
            (cycle s.ring.size.toNat s.posted.length, t.setCycleBit false) := by
        funext i
        by_cases hi : i = s.writer.index
        · subst hi
          simp [EventRing.entries, hw]
        · rw [Function.update_of_ne (by simpa [hw] using hi)]
          simp [EventRing.entries, hi]
      rw [heq]
      simpa using hpush
    · intro i hi
      rw [List.length_append, List.length_singleton] at hi
      by_cases hlast : i = s.posted.length
      · subst hlast
        rw [List.getElem_concat_length rfl, TRB.cycleBit_setCycleBit, hw]
      · rw [List.getElem_append_left (by omega)]
        exact h.ring.bits i (by omega)
    · exact h.ring.dequeue
    · exact h.ring.cycleBit
    · have := h.ring.le
      simp only [List.length_append, List.length_singleton]
      omega
    · simp only [Room] at hroom
      simp only [List.length_append, List.length_singleton]
      omega
  · have hlt := Nat.mod_lt s.posted.length h.ring.pos
    simp only [List.length_append, List.length_singleton, hw]
    split
    · next hwrap => rw [mod_wrap hwrap, cycle_wrap h.ring.pos hwrap]
    · next hwrap => rw [mod_succ h.ring.pos (by omega), cycle_succ h.ring.pos (by omega)]
  · exact h.prefixed.trans (List.prefix_append ..)

theorem Inv.handle {s : EventChannel} (h : Inv s) : ∀ s' ∈ s.next .handle, Inv s' := by
  intro s' he
  simp only [next] at he
  split at he
  · next hfront =>
    cases he
    have hk := h.ring.hasFront_iff.1 hfront
    have heq : s.handled ++ [s.ring.front] = s.posted.take (s.handled.length + 1) := by
      rw [List.take_add_one, ← List.prefix_iff_eq_take.1 h.prefixed, List.getElem?_eq_getElem hk, h.ring.front hk,
        Option.toList_some]
    constructor
    · simpa using h.ring.pop hk
    · simpa using h.writer
    · rw [heq]
      exact List.take_prefix ..
  · cases he

theorem Inv.next {s s' : EventChannel} {e : Event} (h : Inv s) (hroom : Room s e) (he : s.next e = some s') : Inv s' := by
  cases e with
  | post t => exact h.post hroom s' he
  | handle => exact h.handle s' he

/-- **Every event is handled once, and in order**: over any run in which the controller posts only where there is room,
the events that were handled are the first of those that were posted, and from there `ProcessEvents` ends after it has
handled exactly the others. -/
theorem events_handled_once {base : Ptr} {bufSize : Nat} {erdp : BitVec 64} (hpos : 0 < bufSize) (hlt : bufSize < 2 ^ 16)
    (halign : get base 0 4 = 0) {es : List Event} {s : EventChannel} (hroom : Along next Room (start base bufSize erdp) es)
    (he : exec next (start base bufSize erdp) es = some s) {σ : Type} (onEvent : σ → EventRing.Kind → TRB → σ) (x : σ) :
    ∃ left r', s.handled ++ left = s.posted ∧
      EventRing.processEvents onEvent x s.ring (left.length + 1) =
        some (left.foldl (fun x t => onEvent x (EventRing.kind t) t) x, r') ∧
      r'.hasFront = false := by
  have hinv : Inv s := (hroom.states (fun _ _ _ hi hp hn => hi.next hp hn) es (inv_start hpos hlt halign)).last he
  obtain ⟨left, hleft⟩ := hinv.prefixed
  have hlen : s.posted.length - s.handled.length = left.length := by
    rw [← hleft, List.length_append]
    omega
  obtain ⟨r', hrun, hr'⟩ := hinv.ring.processEvents onEvent _ x hlen
  refine ⟨left, r', hleft, ?_, ?_⟩
  · rw [hrun, ← hleft, List.drop_left]
  · rw [← Bool.not_eq_true, hr'.hasFront_iff]
    omega

instance (s : EventChannel) : ∀ e, Decidable (Room s e)
  | .post _ => inferInstanceAs (Decidable (_ < _))
  | .handle => isTrue trivial

/-- Three events through a ring of two places, the last one left over. -/
def roundRun : List Event :=
  [.post (TransferEventTRB.new 64 0 1 3 1), .handle, .post (TransferEventTRB.new 80 0 1 3 1), .handle,
    .post (TransferEventTRB.new 96 0 1 3 1)]

theorem events_handled_once_round : ∃ s left r', exec next (start 64 2 8) roundRun = some s ∧ s.handled.length = 2 ∧
    s.handled ++ left = s.posted ∧
    EventRing.processEvents (fun n _ _ => n + 1) 2 s.ring (left.length + 1) = some (left.foldl (fun n _ => n + 1) 2, r') ∧
    r'.hasFront = false := by
  have hroom : Along next Room (start 64 2 8) roundRun := by decide
  obtain ⟨left, r', h⟩ := events_handled_once (by decide : 0 < 2) (by decide) (by decide : get (64 : Ptr) 0 4 = 0) hroom rfl
    (fun n _ _ => n + 1) 2
  exact ⟨_, left, r', rfl, by decide, h⟩

end EventChannel

end KinOS.Usb.Xhci
