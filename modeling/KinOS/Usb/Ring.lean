import KinOS.Lib.CycleRing
import KinOS.Lib.TransitionSystem
import KinOS.Usb.Trb

/-!
# The rings the driver writes

| here | there |
| --- | --- |
| `Ring`, `initialized`, `copyToLast`, `push` | `usb::xhci::Ring` (`kernel/usb/xhci/ring.hpp:11-54`, `ring.cpp:6-55`) |
| `Reader`        | the controller's end of such a ring: a dequeue pointer and a cycle state |
| `Channel.next`  | driver and controller, each step by one of them |

`Push` has no index of the reader to look at: it overwrites whatever stands in the place. With at most `buf_size - 2`
entries unread that is never an unread one, and the reader gets every entry once and in order (`push_fifo`). One entry more
is too many even where the place is free: the reader may still stand at the link.
-/

open BitField CycleRing TransitionSystem

namespace KinOS.Usb.Xhci

/-- `usb::xhci::Ring`; `buf i` is `buf_[i]`, which stands at `base + 16 i`. -/
structure Ring where
  base : Ptr
  size : Nat
  buf : Nat → TRB
  cycleBit : Bool
  writeIndex : Nat

namespace Ring

/-- `Initialize` with the memory `AllocArray` gave. -/
def initialized (base : Ptr) (size : Nat) : Ring := ⟨base, size, fun _ => 0, true, 0⟩

/-- `&buf_[i]`. -/
def place (r : Ring) (i : Nat) : Ptr := r.base + BitVec.ofNat 64 (16 * i)

/-- The index of the TRB at an address. -/
def index (r : Ring) (p : Ptr) : Nat := (p - r.base).toNat / 16

def copyToLast (r : Ring) (t : TRB) : Ring :=
  { r with buf := Function.update r.buf r.writeIndex (t.setCycleBit r.cycleBit) }

/-- The `LinkTRB` at the ring's end. -/
def link (r : Ring) : TRB := LinkTRB.setToggleCycle (LinkTRB.new r.base) true

def push (r : Ring) (t : TRB) : Ptr × Ring :=
  let r1 := { r.copyToLast t with writeIndex := r.writeIndex + 1 }
  if r1.writeIndex = r.size - 1 then
    (r.place r.writeIndex, { r1.copyToLast r1.link with writeIndex := 0, cycleBit := !r.cycleBit })
  else
    (r.place r.writeIndex, r1)

section
variable {r : Ring} {t : TRB}

@[simp] theorem copyToLast_size : (r.copyToLast t).size = r.size := rfl

@[simp] theorem copyToLast_base : (r.copyToLast t).base = r.base := rfl

@[simp] theorem push_base : (r.push t).2.base = r.base := by
  simp only [push]
  split <;> rfl

@[simp] theorem push_size : (r.push t).2.size = r.size := by
  simp only [push]
  split <;> rfl

@[simp] theorem push_ptr : (r.push t).1 = r.place r.writeIndex := by
  simp only [push]
  split <;> rfl

theorem place_congr {r' : Ring} (h : r'.base = r.base) (i : Nat) : r'.place i = r.place i := by
  rw [place, place, h]

theorem index_place {i : Nat} (h : 16 * i < 2 ^ 64) : r.index (r.place i) = i := by
  rw [index, place, BitVec.add_comm, BitVec.add_sub_cancel, BitVec.toNat_ofNat, Nat.mod_eq_of_lt h]
  omega

theorem place_succ (i : Nat) : r.place i + 16#64 = r.place (i + 1) := by
  rw [place, place, BitVec.add_assoc, ← BitVec.ofNat_add, Nat.mul_succ]

theorem place_zero : r.place 0 = r.base := by
  simp [place]

end

/-! ## What is in the ring -/

/-- The cycle bit of a place and what else it holds. -/
def entries (r : Ring) (i : Nat) : Bool × TRB := ((r.buf i).cycleBit, (r.buf i).setCycleBit false)

/-- The entries `w`, without their cycle bits, were pushed. -/
structure Holds (r : Ring) (w : List TRB) : Prop where
  two : 2 ≤ r.size
  fits : 16 * r.size ≤ 2 ^ 64
  aligned : get r.base 0 4 = 0
  kept : CycleRing.Holds (r.size - 1) r.entries w
  writeIndex : r.writeIndex = w.length % (r.size - 1)
  cycleBit : r.cycleBit = cycle (r.size - 1) w.length
  /-- the last place has the bit of the round before -/
  linkBit : (r.buf (r.size - 1)).cycleBit = !cycle (r.size - 1) w.length
  linked : r.size - 1 ≤ w.length → (r.buf (r.size - 1)).setCycleBit false = r.link.setCycleBit false

theorem holds_initialized {base : Ptr} {size : Nat} (htwo : 2 ≤ size) (hfits : 16 * size ≤ 2 ^ 64)
    (halign : get base 0 4 = 0) :
    Holds (initialized base size) [] where
  two := htwo
  fits := hfits
  aligned := halign
  kept := holds_nil fun _ _ => by simp only [entries, initialized, TRB.cycleBit_zero]
  writeIndex := by simp [initialized]
  cycleBit := (cycle_first (by simp [initialized]; omega)).symm
  linkBit := by
    rw [List.length_nil, cycle_first (by simp [initialized]; omega)]
    simp only [initialized, TRB.cycleBit_zero, Bool.not_true]
  linked h := absurd h (by simp [initialized]; omega)

/-- What `CopyToLast` does to the entries. -/
theorem entries_copyToLast (r : Ring) (t : TRB) :
    (r.copyToLast t).entries = Function.update r.entries r.writeIndex (r.cycleBit, t.setCycleBit false) := by
  funext i
  by_cases h : i = r.writeIndex
  · subst h
    simp [entries, copyToLast]
  · simp [entries, copyToLast, h]

/-- **`Push` adds one entry behind the others**, whether it wraps or not. -/
theorem Holds.push {r : Ring} {w : List TRB} (h : Holds r w)
    (t : TRB) : Holds (r.push t).2 (w ++ [t.setCycleBit false]) := by
  have hn : 0 < r.size - 1 := by have := h.two; omega
  have hlt : r.writeIndex < r.size - 1 := h.writeIndex ▸ Nat.mod_lt _ hn
  have hkept : CycleRing.Holds (r.size - 1) (r.copyToLast t).entries (w ++ [t.setCycleBit false]) := by
    rw [entries_copyToLast, h.writeIndex, h.cycleBit]
    exact h.kept.push _
  by_cases hwrap : r.writeIndex + 1 = r.size - 1
  · have hround : w.length % (r.size - 1) + 1 = r.size - 1 := h.writeIndex ▸ hwrap
    have hcycle := cycle_wrap hn hround
    have heq : (r.push t).2 = { ({ r.copyToLast t with writeIndex := r.size - 1 } : Ring).copyToLast r.link with
        writeIndex := 0, cycleBit := !r.cycleBit } := by
      simp [Ring.push, hwrap, link, copyToLast]
    rw [heq]
    constructor
    · exact h.two
    · exact h.fits
    · exact h.aligned
    · refine hkept.congr hn fun i hi => ?_
      have hne : i ≠ r.size - 1 := by omega
      simp [entries, copyToLast, hne]
    · simpa using (mod_wrap hround).symm
    · simpa [h.cycleBit] using hcycle.symm
    · simp [copyToLast, h.cycleBit, hcycle]
    · intro _
      simp [copyToLast, link]
  · have hround : w.length % (r.size - 1) + 1 < r.size - 1 := by have := h.writeIndex; omega
    have hcycle := cycle_succ hn hround
    have heq : (r.push t).2 = { r.copyToLast t with writeIndex := r.writeIndex + 1 } := by
      simp [Ring.push, hwrap]
    have hlast : (r.copyToLast t).buf (r.size - 1) = r.buf (r.size - 1) := by
      simp [copyToLast, show r.size - 1 ≠ r.writeIndex by omega]
    rw [heq]
    constructor
    · exact h.two
    · exact h.fits
    · exact h.aligned
    · exact hkept
    · simpa [h.writeIndex] using (mod_succ hn hround).symm
    · simpa [copyToLast, h.cycleBit] using hcycle.symm
    · simpa [hlast, hcycle] using h.linkBit
    · intro hlen
      have hold : r.size - 1 ≤ w.length := by
        by_contra hshort
        have hmod := Nat.mod_eq_of_lt (Nat.not_le.1 hshort)
        simp only [List.length_append, List.length_singleton, copyToLast_size] at hlen
        omega
      simpa [hlast, link] using h.linked hold

/-- The place `Push` returns. -/
theorem Holds.push_ptr {r : Ring} {w : List TRB} (h : Holds r w) (t : TRB) :
    (r.push t).1 = r.place (w.length % (r.size - 1)) := by
  rw [Ring.push_ptr, h.writeIndex]

/-- **What stands at an address a `Push` returned**, as long as fewer than `buf_size - 1` entries were pushed since. -/
theorem Holds.at_place {r : Ring} {w : List TRB} (h : Holds r w) {k : Nat} (hk : k < w.length)
    (hlast : w.length ≤ k + (r.size - 1)) :
    (r.buf (r.index (r.place (k % (r.size - 1))))).setCycleBit false = w[k] := by
  have hn : 0 < r.size - 1 := by have := h.two; omega
  have hlt := Nat.mod_lt k hn
  rw [index_place (by have := h.fits; omega)]
  exact congrArg Prod.snd (h.kept.kept k hk hlast)

end Ring

/-! ## The other end -/

/-- The dequeue pointer and the consumer's cycle state. -/
structure Reader where
  dequeue : Ptr
  ccs : Bool
deriving DecidableEq, Repr

namespace Reader

/-- One step, if the entry at the dequeue pointer is the reader's: a link is followed, any other entry is taken. -/
def step (c : Reader) (r : Ring) : Option (Option TRB × Reader) :=
  let t := r.buf (r.index c.dequeue)
  if t.cycleBit = c.ccs then
    if t.trbType = LinkTRB.type then some (none, ⟨t.pointer16, if LinkTRB.toggleCycle t then !c.ccs else c.ccs⟩)
    else some (some t, ⟨c.dequeue + 16#64, c.ccs⟩)
  else none

/-- The reader of `r` has taken `k` entries; at the ring's end it may not have followed the link yet. -/
inductive At (r : Ring) (k : Nat) : Reader → Prop
  | entry : At r k ⟨r.place (k % (r.size - 1)), cycle (r.size - 1) k⟩
  | link : 0 < k → k % (r.size - 1) = 0 → At r k ⟨r.place (r.size - 1), !cycle (r.size - 1) k⟩

theorem At.congr {r r' : Ring} {k : Nat} {c : Reader} (h : At r k c) (hb : r'.base = r.base) (hs : r'.size = r.size) :
    At r' k c := by
  cases h with
  | entry =>
    rw [← Ring.place_congr hb, ← hs]
    exact .entry
  | link hpos hmod =>
    rw [← Ring.place_congr hb, ← hs]
    exact .link hpos (hs ▸ hmod)

variable {r : Ring} {w : List TRB} {k : Nat} {c : Reader}

/-- The reader moves on to the next place, which may be that of the link. -/
theorem At.taken (h : Ring.Holds r w) : At r (k + 1) ⟨r.place (k % (r.size - 1)) + 16#64, cycle (r.size - 1) k⟩ := by
  have hn : 0 < r.size - 1 := by have := h.two; omega
  have hlt := Nat.mod_lt k hn
  rw [Ring.place_succ]
  rcases Nat.lt_or_eq_of_le (show k % (r.size - 1) + 1 ≤ r.size - 1 by omega) with hround | hround
  · rw [← cycle_succ hn hround, ← mod_succ hn hround]
    exact .entry
  · have hcycle := cycle_wrap hn hround
    rw [hround, show cycle (r.size - 1) k = !cycle (r.size - 1) (k + 1) by rw [hcycle, Bool.not_not]]
    exact .link (by omega) (mod_wrap hround)

/-- **One step of the reader**: it follows the link, takes the next entry, or has all of them. -/
theorem At.step_cases (hc : At r k c) (h : Ring.Holds r w) (hw : ∀ t ∈ w, t.trbType ≠ LinkTRB.type) (hk : k ≤ w.length)
    (hroom : w.length + 1 ≤ k + (r.size - 1)) :
    (∃ c', c.step r = some (none, c') ∧ At r k c') ∨
      (∃ (hlt : k < w.length) (c' : Reader) (t : TRB), c.step r = some (some t, c') ∧ t.setCycleBit false = w[k] ∧
        At r (k + 1) c') ∨
      (k = w.length ∧ c.step r = none) := by
  have hn : 0 < r.size - 1 := by have := h.two; omega
  cases hc with
  | entry =>
    have hlt := Nat.mod_lt k hn
    have hidx : r.index (r.place (k % (r.size - 1))) = k % (r.size - 1) := Ring.index_place (by have := h.fits; omega)
    have hnext := h.kept.next_iff hn hk (by omega)
    rcases Nat.lt_or_eq_of_le hk with hlt | heq
    · have hbit := hnext.2 hlt
      have hentry := h.kept.next_eq hlt (by omega)
      have htype : (r.buf (k % (r.size - 1))).trbType ≠ LinkTRB.type := by
        have := hw _ (List.getElem_mem hlt)
        rwa [← hentry, Ring.entries, TRB.trbType_setCycleBit] at this
      refine .inr (.inl ⟨hlt, ⟨_, _⟩, _, ?_, hentry, At.taken h⟩)
      simp only [Ring.entries] at hbit
      simp [step, hidx, hbit, htype]
    · refine .inr (.inr ⟨heq, ?_⟩)
      have hbit : (r.buf (k % (r.size - 1))).cycleBit ≠ cycle (r.size - 1) k := fun he => by
        have := hnext.1 he
        omega
      simp [step, hidx, hbit]
  | link hpos hmod =>
    refine .inl ⟨⟨r.place (k % (r.size - 1)), cycle (r.size - 1) k⟩, ?_, .entry⟩
    have hidx : r.index (r.place (r.size - 1)) = r.size - 1 := Ring.index_place (by have := h.fits; omega)
    -- the writer is in the round the reader waits for
    have hsame : cycle (r.size - 1) w.length = cycle (r.size - 1) k := by
      have hdiv : w.length / (r.size - 1) = k / (r.size - 1) := by
        have hkd := Nat.div_add_mod k (r.size - 1)
        apply Nat.div_eq_of_lt_le
        · calc k / (r.size - 1) * (r.size - 1) ≤ k := Nat.div_mul_le_self _ _
            _ ≤ w.length := hk
        · rw [Nat.add_mul, Nat.one_mul, Nat.mul_comm]
          omega
      rw [cycle, cycle, hdiv]
    have hlen : r.size - 1 ≤ w.length := by
      have := Nat.le_of_dvd hpos (Nat.dvd_of_mod_eq_zero hmod)
      omega
    have hlinked := h.linked hlen
    have htype : (r.buf (r.size - 1)).trbType = LinkTRB.type := by
      rw [← TRB.trbType_setCycleBit (b := false), hlinked, TRB.trbType_setCycleBit, Ring.link, trbType_link]
    have hbit : (r.buf (r.size - 1)).cycleBit = !cycle (r.size - 1) k := by rw [h.linkBit, hsame]
    have hwhole : r.buf (r.size - 1) = r.link.setCycleBit (!cycle (r.size - 1) k) := by
      calc r.buf (r.size - 1) = ((r.buf (r.size - 1)).setCycleBit false).setCycleBit (!cycle (r.size - 1) k) := by
            rw [TRB.setCycleBit_setCycleBit, ← hbit, TRB.setCycleBit_self]
        _ = r.link.setCycleBit (!cycle (r.size - 1) k) := by rw [hlinked, TRB.setCycleBit_setCycleBit]
    have htoggle : LinkTRB.toggleCycle (r.buf (r.size - 1)) = true := by rw [hwhole, Ring.link, toggleCycle_link]
    have hptr : (r.buf (r.size - 1)).pointer16 = r.base := by
      rw [hwhole, TRB.pointer16_setCycleBit, Ring.link, pointer16_link h.aligned]
    simp [step, hidx, htype, hbit, htoggle, hptr, hmod, Ring.place_zero]

end Reader

/-! ## Driver and controller -/

/-- A ring between its two ends, with what was pushed into it and what was taken out. -/
structure Channel where
  ring : Ring
  reader : Reader
  pushed : List TRB
  taken : List TRB

namespace Channel

inductive Event
  | push (t : TRB)
  | read

def start (base : Ptr) (size : Nat) : Channel := ⟨Ring.initialized base size, ⟨base, true⟩, [], []⟩

/-- `taken` and `pushed` are kept without their cycle bits. -/
def next (s : Channel) : Event → Option Channel
  | .push t => some { s with ring := (s.ring.push t).2, pushed := s.pushed ++ [t.setCycleBit false] }
  | .read => (s.reader.step s.ring).map fun (t, c) =>
      { s with reader := c, taken := s.taken ++ (t.map fun t => t.setCycleBit false).toList }

/-- A push comes when at most `buf_size - 3` entries are unread, and is none of a `LinkTRB`. -/
def Room (s : Channel) : Event → Prop
  | .push t => s.pushed.length - s.taken.length + 3 ≤ s.ring.size ∧ t.trbType ≠ LinkTRB.type
  | .read => True

structure Inv (s : Channel) : Prop where
  ring : s.ring.Holds s.pushed
  reader : s.reader.At s.ring s.taken.length
  plain : ∀ t ∈ s.pushed, t.trbType ≠ LinkTRB.type
  prefixed : s.taken <+: s.pushed
  room : s.pushed.length + 2 ≤ s.taken.length + s.ring.size

theorem inv_start {base : Ptr} {size : Nat} (htwo : 2 ≤ size) (hfits : 16 * size ≤ 2 ^ 64) (halign : get base 0 4 = 0) :
    Inv (start base size) where
  ring := Ring.holds_initialized htwo hfits halign
  reader := by
    have h : (start base size).reader = ⟨(Ring.initialized base size).place (0 % (size - 1)), cycle (size - 1) 0⟩ := by
      have hcycle := cycle_first (n := size - 1) (k := 0) (by omega)
      simp [start, Ring.place_zero, Ring.initialized, hcycle]
    rw [h]
    exact .entry
  plain t ht := absurd ht (by simp [start])
  prefixed := List.prefix_rfl
  room := by simpa [start, Ring.initialized] using htwo

theorem Inv.push {s : Channel} (h : Inv s) {t : TRB} (hroom : Room s (.push t)) :
    Inv { s with ring := (s.ring.push t).2, pushed := s.pushed ++ [t.setCycleBit false] } where
  ring := h.ring.push t
  reader := h.reader.congr Ring.push_base Ring.push_size
  plain u hu := by
    rcases List.mem_append.1 hu with hu | hu
    · exact h.plain u hu
    · rw [List.mem_singleton.1 hu, TRB.trbType_setCycleBit]
      exact hroom.2
  prefixed := h.prefixed.trans (List.prefix_append ..)
  room := by
    have := hroom.1
    have := h.prefixed.length_le
    simp only [List.length_append, List.length_singleton, Ring.push_size]
    omega

/-- What the reader does in a reachable state. -/
theorem Inv.read_cases {s : Channel} (h : Inv s) :
    (∃ c, s.reader.step s.ring = some (none, c) ∧ c.At s.ring s.taken.length) ∨
      (∃ (hlt : s.taken.length < s.pushed.length) (c : Reader) (t : TRB), s.reader.step s.ring = some (some t, c) ∧
        t.setCycleBit false = s.pushed[s.taken.length] ∧ c.At s.ring (s.taken.length + 1)) ∨
      (s.taken.length = s.pushed.length ∧ s.reader.step s.ring = none) :=
  h.reader.step_cases h.ring h.plain h.prefixed.length_le (by have := h.room; have := h.ring.two; omega)

theorem Inv.next {s s' : Channel} {e : Event} (h : Inv s) (hroom : Room s e) (he : s.next e = some s') : Inv s' := by
  cases e with
  | push t =>
    cases he
    exact h.push hroom
  | read =>
    obtain ⟨c, hstep, hc⟩ | ⟨hlt, c, t, hstep, ht, hc⟩ | ⟨-, hstep⟩ := h.read_cases
    · simp only [Channel.next, hstep, Option.map_some, Option.map_none, Option.toList_none, List.append_nil,
        Option.some.injEq] at he
      subst he
      exact ⟨h.ring, hc, h.plain, h.prefixed, h.room⟩
    · simp only [Channel.next, hstep, Option.map_some, Option.toList_some, Option.some.injEq] at he
      subst he
      refine ⟨h.ring, ?_, h.plain, ?_, ?_⟩
      · simpa using hc
      · have htake := List.prefix_iff_eq_take.1 h.prefixed
        have heq : s.taken ++ [t.setCycleBit false] = s.pushed.take (s.taken.length + 1) := by
          rw [List.take_add_one, ← htake, List.getElem?_eq_getElem hlt, ht, Option.toList_some]
        rw [heq]
        exact List.take_prefix ..
      · have := h.room
        simp only [List.length_append, List.length_singleton]
        omega
    · simp [Channel.next, hstep] at he

/-- **The ring is a queue**: over any run in which no push finds more than `buf_size - 3` unread entries, the reader has
taken what was pushed first, once and in order, and where it stops it has taken everything. -/
theorem push_fifo {base : Ptr} {size : Nat} (htwo : 2 ≤ size) (hfits : 16 * size ≤ 2 ^ 64) (halign : get base 0 4 = 0)
    {es : List Event} {s : Channel} (hroom : Along next Room (start base size) es)
    (he : exec next (start base size) es = some s) :
    s.taken <+: s.pushed ∧ (s.reader.step s.ring = none → s.taken = s.pushed) := by
  have hinv : Inv s := (hroom.states (fun _ _ _ hi hp hn => hi.next hp hn) es (inv_start htwo hfits halign)).last he
  refine ⟨hinv.prefixed, fun hstop => ?_⟩
  obtain ⟨c, hstep, -⟩ | ⟨-, c, t, hstep, -⟩ | ⟨hlen, -⟩ := hinv.read_cases
  · rw [hstep] at hstop
    cases hstop
  · rw [hstep] at hstop
    cases hstop
  · exact hinv.prefixed.eq_of_length hlen

instance (s : Channel) : ∀ e, Decidable (Room s e)
  | .push _ => inferInstanceAs (Decidable (_ ∧ _))
  | .read => isTrue trivial

/-- Four commands through a ring of three places and a link. -/
def aroundRun : List Event :=
  [.push EnableSlotCommandTRB.new, .push (AddressDeviceCommandTRB.new 128 1), .read,
    .push (ConfigureEndpointCommandTRB.new 128 1), .read, .read, .read, .push EnableSlotCommandTRB.new, .read]

theorem push_fifo_around : ∃ s, exec next (start 64 4) aroundRun = some s ∧ s.taken.length = 4 ∧ s.taken = s.pushed :=
  ⟨_, rfl, by decide, (push_fifo (by decide : 2 ≤ 4) (by decide) (by decide : get (64 : Ptr) 0 4 = 0)
    (by decide : Along next Room (start 64 4) aroundRun) rfl).2 (by decide)⟩

end Channel

end KinOS.Usb.Xhci
