import KinOS.Usb.Transfer

/-!
# Configuration descriptors

| here | there |
| --- | --- |
| `InterfaceDescriptor`, `EndpointDescriptor` | the structs (`kernel/usb/descriptor.hpp:40-76`), the bytes after `descriptor_type` |
| `ConfigurationDescriptorReader`             | the class (`kernel/usb/device.cpp:12-41`) |
| `makeEPConfig`, `newClassDriver`            | `MakeEPConfig`, `NewClassDriver` (`device.cpp:43-73`) |
| `readEndpoints`, `readConfiguration`        | the loops of `InitializePhase2` (`device.cpp:210-235`) |
| `Descriptor`, `encode`, `configuration`     | what the bytes are to say |

A descriptor starts with its length and its type. `Next` goes by the length and looks at nothing else. Where the reader
is at the end, it returns `nullptr`; the loop over the endpoints goes on to read the type through it (`nullDescriptor`).
The array of endpoints has 16 places and no check (`overflow`).
-/

namespace KinOS.Usb

/-- The bytes from an address on. -/
abbrev Bytes := Nat → UInt8

structure InterfaceDescriptor where
  interfaceNumber : UInt8
  alternateSetting : UInt8
  numEndpoints : UInt8
  interfaceClass : UInt8
  interfaceSubClass : UInt8
  interfaceProtocol : UInt8
  interfaceId : UInt8
deriving DecidableEq, Repr

/-- `max_packet_size` is given by its two bytes, the low one first. -/
structure EndpointDescriptor where
  endpointAddress : UInt8
  attributes : UInt8
  maxPacketSize : UInt8 × UInt8
  interval : UInt8
deriving DecidableEq, Repr

def InterfaceDescriptor.kType : UInt8 := 4
def EndpointDescriptor.kType : UInt8 := 5

def readInterface (m : Bytes) (p : Nat) : InterfaceDescriptor :=
  ⟨m (p + 2), m (p + 3), m (p + 4), m (p + 5), m (p + 6), m (p + 7), m (p + 8)⟩

def readEndpoint (m : Bytes) (p : Nat) : EndpointDescriptor := ⟨m (p + 2), m (p + 3), (m (p + 4), m (p + 5)), m (p + 6)⟩

inductive EndpointType
  | kControl
  | kIsochronous
  | kBulk
  | kInterrupt
deriving DecidableEq, Repr

/-- The cast of a field of two bits. -/
def EndpointType.ofBits (n : UInt8) : EndpointType :=
  if n = 0 then kControl else if n = 1 then kIsochronous else if n = 2 then kBulk else kInterrupt

structure EndpointConfig where
  epId : EndpointID
  epType : EndpointType
  maxPacketSize : Nat
  interval : Nat
deriving DecidableEq, Repr

def makeEPConfig (e : EndpointDescriptor) : EndpointConfig where
  epId := .new (e.endpointAddress &&& 0x0f).toNat (e.endpointAddress >>> 7 == 1)
  epType := .ofBits (e.attributes &&& 3)
  maxPacketSize := e.maxPacketSize.1.toNat + 256 * e.maxPacketSize.2.toNat
  interval := e.interval.toNat

inductive HidKind
  | keyboard
  | mouse
deriving DecidableEq, Repr

/-- A driver for the HID boot interfaces of keyboard and mouse. -/
def newClassDriver (i : InterfaceDescriptor) : Option HidKind :=
  if i.interfaceClass = 3 ∧ i.interfaceSubClass = 1 then
    if i.interfaceProtocol = 1 then some .keyboard
    else if i.interfaceProtocol = 2 then some .mouse
    else none
  else none

/-- `p_` and `desc_buf_len_`; the buffer is at 0. -/
structure ConfigurationDescriptorReader where
  p : Nat
  len : Nat
deriving DecidableEq, Repr

/-- `Next`; `none` is `nullptr`. -/
def ConfigurationDescriptorReader.next (r : ConfigurationDescriptorReader) (m : Bytes) :
    Option Nat × ConfigurationDescriptorReader :=
  let p := r.p + (m r.p).toNat
  (if p < r.len then some p else none, { r with p := p })

inductive Endpoints
  | read (eps : List EndpointConfig)
  | nullDescriptor
  | overflow
deriving DecidableEq, Repr

/-- The inner loop, until `n` endpoints were found. Without fuel, `none`: over a descriptor of length 0 it stands still. -/
def readEndpoints (m : Bytes) (n : Nat) : Nat → ConfigurationDescriptorReader → List EndpointConfig → Option Endpoints
  | fuel, r, eps =>
    if n ≤ eps.length then some (.read eps)
    else
      match fuel with
      | 0 => none
      | fuel + 1 =>
        match (r.next m).1 with
        | none => some .nullDescriptor
        | some p =>
          if m (p + 1) = EndpointDescriptor.kType then
            if eps.length = 16 then some .overflow
            else readEndpoints m n fuel (r.next m).2 (eps ++ [makeEPConfig (readEndpoint m p)])
          else readEndpoints m n fuel (r.next m).2 eps

/-- The first interface with a driver, and its endpoints. -/
inductive Configuration
  | unsupported
  | driver (i : InterfaceDescriptor) (kind : HidKind) (eps : Endpoints)
deriving DecidableEq, Repr

/-- The outer loop, each round one call of `Next`. -/
def readConfiguration (m : Bytes) : Nat → ConfigurationDescriptorReader → Option Configuration
  | 0, _ => none
  | fuel + 1, r =>
    match (r.next m).1 with
    | none => some .unsupported
    | some p =>
      if m (p + 1) = InterfaceDescriptor.kType then
        match newClassDriver (readInterface m p) with
        | none => readConfiguration m fuel (r.next m).2
        | some kind =>
          (readEndpoints m (readInterface m p).numEndpoints.toNat fuel (r.next m).2 []).map
            (.driver (readInterface m p) kind)
      else readConfiguration m fuel (r.next m).2

/-! ## What the bytes say -/

inductive Descriptor
  | interface (i : InterfaceDescriptor) (extra : List UInt8)
  | endpoint (e : EndpointDescriptor) (extra : List UInt8)
  | other (type : UInt8) (payload : List UInt8)
deriving DecidableEq, Repr

namespace Descriptor

/-- `length` and `descriptor_type`, and the rest. -/
def encode : Descriptor → List UInt8
  | interface i extra =>
    [UInt8.ofNat (9 + extra.length), InterfaceDescriptor.kType, i.interfaceNumber, i.alternateSetting, i.numEndpoints,
      i.interfaceClass, i.interfaceSubClass, i.interfaceProtocol, i.interfaceId] ++ extra
  | endpoint e extra =>
    [UInt8.ofNat (7 + extra.length), EndpointDescriptor.kType, e.endpointAddress, e.attributes, e.maxPacketSize.1,
      e.maxPacketSize.2, e.interval] ++ extra
  | other type payload => [UInt8.ofNat (2 + payload.length), type] ++ payload

/-- The length fits its byte, and the type is that of the descriptor. -/
def Valid (d : Descriptor) : Prop :=
  d.encode.length < 256 ∧ match d with
    | other type _ => type ≠ InterfaceDescriptor.kType ∧ type ≠ EndpointDescriptor.kType
    | _ => True

def config? : Descriptor → Option EndpointConfig
  | endpoint e _ => some (makeEPConfig e)
  | _ => none

/-- The first `n` of the endpoints there are. -/
def endpoints (n : Nat) (eps : List EndpointConfig) : Endpoints :=
  if 16 < min n eps.length then .overflow
  else if eps.length < n then .nullDescriptor
  else .read (eps.take n)

/-- The first interface with a driver, and its endpoints. -/
def configuration : List Descriptor → Configuration
  | [] => .unsupported
  | interface i _ :: ds =>
    match newClassDriver i with
    | none => configuration ds
    | some kind => .driver i kind (endpoints i.numEndpoints.toNat (ds.filterMap config?))
  | _ :: ds => configuration ds

end Descriptor

/-! ## Reading them back -/

/-- The bytes `bs` are at `p`. -/
def BytesAt (m : Bytes) (p : Nat) (bs : List UInt8) : Prop := ∀ i (h : i < bs.length), m (p + i) = bs[i]

theorem BytesAt.left {m : Bytes} {p : Nat} {bs cs : List UInt8} (h : BytesAt m p (bs ++ cs)) : BytesAt m p bs := by
  intro i hi
  rw [h i (by simp; omega), List.getElem_append_left hi]

theorem BytesAt.right {m : Bytes} {p : Nat} {bs cs : List UInt8} (h : BytesAt m p (bs ++ cs)) :
    BytesAt m (p + bs.length) cs := by
  intro i hi
  have hget := h (bs.length + i) (by simp; omega)
  rw [List.getElem_append_right (by omega)] at hget
  simpa [Nat.add_assoc] using hget

namespace Descriptor

variable {m : Bytes} {p : Nat} {d : Descriptor} {ds : List Descriptor}

theorem two_le_length : 2 ≤ d.encode.length := by
  cases d <;> simp [encode]

theorem length_at (h : BytesAt m p d.encode) (hd : d.Valid) : (m p).toNat = d.encode.length := by
  have hlen := hd.1
  have h0 := h 0 (by have := two_le_length (d := d); omega)
  rw [Nat.add_zero] at h0
  rw [h0]
  cases d with
  | interface i extra =>
    simp only [encode, List.cons_append, List.nil_append, List.length_cons] at hlen ⊢
    simp
    omega
  | endpoint e extra =>
    simp only [encode, List.cons_append, List.nil_append, List.length_cons] at hlen ⊢
    simp
    omega
  | other type payload =>
    simp only [encode, List.cons_append, List.nil_append, List.length_cons] at hlen ⊢
    simp
    omega

/-- The reader stands at the first of the descriptors, with all of them in the buffer. -/
structure Reads (m : Bytes) (r : ConfigurationDescriptorReader) (ds : List Descriptor) : Prop where
  bytes : BytesAt m r.p (ds.flatMap encode)
  valid : ∀ d ∈ ds, d.Valid
  len : r.len = r.p + (ds.flatMap encode).length

variable {r : ConfigurationDescriptorReader}

/-- **`Next` comes to the next descriptor**, and to the end after the last one. -/
theorem Reads.next (h : Reads m r (d :: ds)) :
    (r.next m).1 = (if ds = [] then none else some (r.next m).2.p) ∧ Reads m (r.next m).2 ds := by
  have hbytes := h.bytes
  rw [List.flatMap_cons] at hbytes
  have hlen := h.len
  rw [List.flatMap_cons, List.length_append] at hlen
  have hstep := length_at hbytes.left (h.valid d (List.mem_cons_self ..))
  have hp : (r.next m).2 = ⟨r.p + d.encode.length, r.len⟩ := by
    simp only [ConfigurationDescriptorReader.next, hstep]
  refine ⟨?_, ?_⟩
  · simp only [ConfigurationDescriptorReader.next, hstep]
    cases ds with
    | nil =>
      simp only [List.flatMap_nil, List.length_nil] at hlen
      simp [hlen]
    | cons e ds =>
      have := two_le_length (d := e)
      rw [List.flatMap_cons, List.length_append] at hlen
      rw [if_pos (by omega), if_neg (by simp)]
  · rw [hp]
    exact ⟨hbytes.right, fun e he => h.valid e (List.mem_cons_of_mem _ he), by simp only; omega⟩

/-- The first descriptor is at the reader. -/
theorem Reads.head (h : Reads m r (d :: ds)) : BytesAt m r.p d.encode := by
  have hbytes := h.bytes
  rw [List.flatMap_cons] at hbytes
  exact hbytes.left

theorem type_interface {i : InterfaceDescriptor} {extra : List UInt8} (h : BytesAt m p (interface i extra).encode) :
    m (p + 1) = InterfaceDescriptor.kType ∧ readInterface m p = i := by
  have hget : ∀ k, k < 9 → m (p + k) = ((interface i extra).encode)[k]! := fun k hk => by
    rw [h k (by simp [encode]; omega), getElem!_pos]
  refine ⟨?_, ?_⟩
  · rw [hget 1 (by omega)]
    rfl
  · simp [readInterface, hget, encode]

theorem type_endpoint {e : EndpointDescriptor} {extra : List UInt8} (h : BytesAt m p (endpoint e extra).encode) :
    m (p + 1) = EndpointDescriptor.kType ∧ readEndpoint m p = e := by
  have hget : ∀ k, k < 7 → m (p + k) = ((endpoint e extra).encode)[k]! := fun k hk => by
    rw [h k (by simp [encode]; omega), getElem!_pos]
  refine ⟨?_, ?_⟩
  · rw [hget 1 (by omega)]
    rfl
  · simp [readEndpoint, hget, encode]

theorem type_other {type : UInt8} {payload : List UInt8} (h : BytesAt m p (other type payload).encode) :
    m (p + 1) = type := by
  simpa [encode] using h 1 (by simp [encode])

theorem endpoints_done {n : Nat} {eps : List EndpointConfig} (hn : eps.length = n) (h16 : eps.length ≤ 16)
    (rest : List EndpointConfig) : endpoints n (eps ++ rest) = .read eps := by
  rw [endpoints, if_neg (by omega), if_neg (by simp; omega), ← hn, List.take_left]

/-- **The endpoints are read as they were written**, or the loop runs out of the buffer or of the array. -/
theorem readEndpoints_eq (n : Nat) : ∀ (ds : List Descriptor) {d : Descriptor} {r : ConfigurationDescriptorReader}
    (fuel : Nat) (eps : List EndpointConfig), Reads m r (d :: ds) → ds.length < fuel → eps.length ≤ 16 → eps.length ≤ n →
      readEndpoints m n fuel r eps = some (endpoints n (eps ++ ds.filterMap config?))
  | ds, d, r, 0, eps, _, hfuel, _, _ => absurd hfuel (by omega)
  | [], d, r, fuel + 1, eps, h, _, h16, hn => by
    obtain ⟨hnext, -⟩ := h.next
    rw [if_pos rfl] at hnext
    rw [readEndpoints]
    by_cases hdone : n ≤ eps.length
    · rw [if_pos hdone, endpoints_done (by omega) h16]
    · rw [if_neg hdone, hnext, List.filterMap_nil, List.append_nil, endpoints, if_neg (by omega), if_pos (by omega)]
  | e :: ds, d, r, fuel + 1, eps, h, hfuel, h16, hn => by
    obtain ⟨hnext, hrest⟩ := h.next
    rw [if_neg (by simp)] at hnext
    have hfuel' : ds.length < fuel := by simpa using hfuel
    rw [readEndpoints]
    by_cases hdone : n ≤ eps.length
    · rw [if_pos hdone, endpoints_done (by omega) h16]
    rw [if_neg hdone, hnext]
    simp only []
    cases e with
    | interface i extra =>
      rw [(type_interface hrest.head).1, if_neg (by decide), readEndpoints_eq n ds fuel eps hrest hfuel' h16 hn]
      rfl
    | other type payload =>
      obtain ⟨-, htype⟩ := hrest.valid _ (List.mem_cons_self ..)
      rw [type_other hrest.head, if_neg htype.2, readEndpoints_eq n ds fuel eps hrest hfuel' h16 hn]
      rfl
    | endpoint e extra =>
      obtain ⟨htype, hread⟩ := type_endpoint hrest.head
      have hcons : (endpoint e extra :: ds).filterMap config? = makeEPConfig e :: ds.filterMap config? := rfl
      rw [htype, if_pos rfl, hread, hcons]
      by_cases hfull : eps.length = 16
      · -- the seventeenth endpoint is written behind the array
        rw [if_pos hfull, endpoints, if_pos (by simp; omega)]
      · rw [if_neg hfull, readEndpoints_eq n ds fuel _ hrest hfuel' (by simp; omega) (by simp; omega), List.append_assoc]
        rfl

/-- **`InitializePhase2` finds what the descriptors say**: the first interface with a driver, and the endpoints that
follow it. It passes the end of the array where both the interface counts and the buffer holds more than 16 of them, and
reads through a null pointer where the buffer holds fewer than the interface counts. -/
theorem readConfiguration_eq : ∀ (ds : List Descriptor) {d : Descriptor} {r : ConfigurationDescriptorReader} (fuel : Nat),
    Reads m r (d :: ds) → ds.length + 1 < fuel → readConfiguration m fuel r = some (configuration ds)
  | ds, d, r, 0, _, hfuel => absurd hfuel (by omega)
  | [], d, r, fuel + 1, h, _ => by
    obtain ⟨hnext, -⟩ := h.next
    rw [if_pos rfl] at hnext
    rw [readConfiguration, hnext]
    rfl
  | e :: ds, d, r, fuel + 1, h, hfuel => by
    obtain ⟨hnext, hrest⟩ := h.next
    rw [if_neg (by simp)] at hnext
    have hfuel' : ds.length + 1 < fuel := by simpa using hfuel
    rw [readConfiguration, hnext]
    simp only []
    cases e with
    | interface i extra =>
      obtain ⟨htype, hread⟩ := type_interface hrest.head
      rw [htype, if_pos rfl, hread, configuration]
      cases newClassDriver i with
      | none => exact readConfiguration_eq ds fuel hrest hfuel'
      | some kind =>
        simp only []
        rw [readEndpoints_eq _ ds fuel [] hrest (by omega) (by simp) (by simp)]
        rfl
    | other type payload =>
      obtain ⟨-, htype⟩ := hrest.valid _ (List.mem_cons_self ..)
      rw [type_other hrest.head, if_neg htype.1]
      exact readConfiguration_eq ds fuel hrest hfuel'
    | endpoint e extra =>
      rw [(type_endpoint hrest.head).1, if_neg (by decide)]
      exact readConfiguration_eq ds fuel hrest hfuel'

/-- A boot keyboard: its configuration, the interface, the HID descriptor and the endpoint. -/
def bootKeyboard : List Descriptor :=
  [.other 2 [34, 0, 1, 1, 0, 0xa0, 50], .interface ⟨0, 0, 1, 3, 1, 1, 0⟩ [], .other 33 [0x11, 1, 0, 1, 34, 63, 0],
    .endpoint ⟨0x81, 3, (8, 0), 10⟩ []]

theorem readConfiguration_bootKeyboard :
    readConfiguration (fun p => (bootKeyboard.flatMap encode).getD p 0) 5 ⟨0, 34⟩ =
      some (.driver ⟨0, 0, 1, 3, 1, 1, 0⟩ .keyboard (.read [⟨⟨3⟩, .kInterrupt, 8, 10⟩])) :=
  readConfiguration_eq (bootKeyboard.drop 1) (d := .other 2 [34, 0, 1, 1, 0, 0xa0, 50]) 5
    { bytes := by
        show BytesAt _ 0 (bootKeyboard.flatMap encode)
        intro i hi
        show (bootKeyboard.flatMap encode).getD (0 + i) 0 = _
        rw [Nat.zero_add, List.getD_eq_getElem _ _ hi]
      valid := by
        show ∀ d ∈ bootKeyboard, d.Valid
        simp [bootKeyboard, Valid, encode, InterfaceDescriptor.kType, EndpointDescriptor.kType]
      len := by decide }
    (by decide)

end Descriptor

/-! ## Any bytes -/

/-- The loops over a buffer of `len` bytes. A round moves the reader on, or is one of at most 17 that it stands still in;
or it stands still forever (`parse_eq_none`). -/
def parse (m : Bytes) (len : Nat) : Option Configuration := readConfiguration m (len + 17) ⟨0, len⟩

/-- Over these bytes the loops never come to an end, read through a null pointer or pass the end of the array. -/
def Derails (m : Bytes) (len : Nat) : Prop :=
  (∀ fuel, readConfiguration m fuel ⟨0, len⟩ = none) ∨ ∃ fuel i kind e,
    readConfiguration m fuel ⟨0, len⟩ = some (.driver i kind e) ∧ (e = .nullDescriptor ∨ e = .overflow)

section AnyBytes

variable {m : Bytes} {r : ConfigurationDescriptorReader}

theorem ConfigurationDescriptorReader.next_some {p : Nat} (h : (r.next m).1 = some p) :
    (r.next m).2 = ⟨p, r.len⟩ ∧ p < r.len ∧ p = r.p + (m r.p).toNat := by
  simp only [next] at h ⊢
  split at h
  · rename_i hlt
    obtain rfl := Option.some.inj h
    exact ⟨rfl, hlt, rfl⟩
  · simp at h

/-- The reader moves on, or it stays at a descriptor of length 0. -/
theorem ConfigurationDescriptorReader.next_cases {p : Nat} (h : (r.next m).1 = some p) :
    (r.next m).2 = ⟨p, r.len⟩ ∧ r.p < p ∧ p < r.len ∨ p = r.p ∧ r.p < r.len ∧ r.next m = (some r.p, r) := by
  obtain ⟨hnext, hlt, hstep⟩ := next_some h
  rcases Nat.eq_zero_or_pos (m r.p).toNat with h0 | h0
  · obtain rfl : p = r.p := by omega
    exact .inr ⟨rfl, hlt, Prod.ext h hnext⟩
  · exact .inl ⟨hnext, by omega, hlt⟩

theorem readEndpoints_done {n : Nat} {eps : List EndpointConfig} (hn : n ≤ eps.length) {fuel : Nat} :
    readEndpoints m n fuel r eps = some (.read eps) := by
  cases fuel <;> rw [readEndpoints, if_pos hn]

/-- **A descriptor of length 0 that is no endpoint is never passed** by the inner loop. -/
theorem readEndpoints_stuck {n : Nat} {eps : List EndpointConfig} (hnext : r.next m = (some r.p, r))
    (htype : m (r.p + 1) ≠ EndpointDescriptor.kType) (hn : ¬ n ≤ eps.length) :
    ∀ fuel, readEndpoints m n fuel r eps = none
  | 0 => by rw [readEndpoints, if_neg hn]
  | fuel + 1 => by
    rw [readEndpoints, if_neg hn, hnext]
    simp only []
    rw [if_neg htype]
    exact readEndpoints_stuck hnext htype hn fuel

/-- **Enough rounds for the inner loop**, if any number is: one for each byte left and for each place of the array, and one
to find that there is none left. -/
theorem readEndpoints_enough {n : Nat} : ∀ (fuel fuel' : Nat) (r : ConfigurationDescriptorReader)
    (eps : List EndpointConfig) {e : Endpoints}, eps.length ≤ 16 → readEndpoints m n fuel r eps = some e →
      r.len - r.p + (17 - eps.length) ≤ fuel' → readEndpoints m n fuel' r eps = some e
  | fuel, 0, r, eps, _, h16, _, hle => absurd hle (by omega)
  | 0, fuel' + 1, r, eps, e, h16, he, hle => by
    by_cases hdone : n ≤ eps.length
    · rwa [readEndpoints_done hdone] at he ⊢
    · rw [readEndpoints, if_neg hdone] at he
      cases he
  | fuel + 1, fuel' + 1, r, eps, e, h16, he, hle => by
    by_cases hdone : n ≤ eps.length
    · rwa [readEndpoints_done hdone] at he ⊢
    have hstuck := he
    rw [readEndpoints, if_neg hdone] at he ⊢
    cases hp : (r.next m).1 with
    | none =>
      rw [hp] at he
      exact he
    | some p =>
      rw [hp] at he
      simp only [] at he ⊢
      have hmove := ConfigurationDescriptorReader.next_cases hp
      obtain ⟨hnext, hlt, hstep⟩ := ConfigurationDescriptorReader.next_some hp
      by_cases htype : m (p + 1) = EndpointDescriptor.kType
      · rw [if_pos htype] at he ⊢
        by_cases hfull : eps.length = 16
        · rwa [if_pos hfull] at he ⊢
        · rw [if_neg hfull, hnext] at he ⊢
          refine readEndpoints_enough fuel fuel' _ _ (by simp; omega) he ?_
          simp only [List.length_append, List.length_singleton]
          omega
      · rw [if_neg htype, hnext] at he ⊢
        rcases hmove with ⟨-, hmove, -⟩ | ⟨rfl, -, hstay⟩
        · exact readEndpoints_enough fuel fuel' _ _ h16 he (by simp only; omega)
        · rw [readEndpoints_stuck hstay htype hdone] at hstuck
          cases hstuck

/-- **A descriptor of length 0 that is no interface with a driver is never passed** by the outer loop. -/
theorem readConfiguration_stuck (hnext : r.next m = (some r.p, r))
    (htype : m (r.p + 1) = InterfaceDescriptor.kType → newClassDriver (readInterface m r.p) = none) :
    ∀ fuel, readConfiguration m fuel r = none
  | 0 => rfl
  | fuel + 1 => by
    rw [readConfiguration, hnext]
    simp only []
    split
    · rename_i hi
      rw [htype hi]
      exact readConfiguration_stuck hnext htype fuel
    · exact readConfiguration_stuck hnext htype fuel

/-- **Enough rounds for both loops**, if any number is. -/
theorem readConfiguration_enough : ∀ (fuel fuel' : Nat) (r : ConfigurationDescriptorReader) {c : Configuration},
    readConfiguration m fuel r = some c → r.len - r.p + 17 ≤ fuel' → readConfiguration m fuel' r = some c
  | _, 0, r, _, _, hle => absurd hle (by omega)
  | 0, _ + 1, _, _, h, _ => by cases h
  | fuel + 1, fuel' + 1, r, c, h, hle => by
    have hstuck := h
    rw [readConfiguration] at h ⊢
    cases hp : (r.next m).1 with
    | none =>
      rw [hp] at h
      exact h
    | some p =>
      rw [hp] at h
      simp only [] at h ⊢
      have hmove := ConfigurationDescriptorReader.next_cases hp
      obtain ⟨hnext, hlt, hstep⟩ := ConfigurationDescriptorReader.next_some hp
      -- the next round of the outer loop, where there is no driver at `p`
      have hon : (m (p + 1) = InterfaceDescriptor.kType → newClassDriver (readInterface m p) = none) →
          readConfiguration m fuel ⟨p, r.len⟩ = some c → readConfiguration m fuel' ⟨p, r.len⟩ = some c := by
        intro hno hrest
        rcases hmove with ⟨-, hmove, -⟩ | ⟨rfl, -, hstay⟩
        · exact readConfiguration_enough fuel fuel' _ hrest (by simp only; omega)
        · rw [readConfiguration_stuck hstay hno] at hstuck
          cases hstuck
      rw [hnext] at h ⊢
      by_cases htype : m (p + 1) = InterfaceDescriptor.kType
      · rw [if_pos htype] at h ⊢
        cases hdriver : newClassDriver (readInterface m p) with
        | none =>
          simp only [hdriver] at h ⊢
          exact hon (fun _ => hdriver) h
        | some kind =>
          simp only [hdriver] at h ⊢
          obtain ⟨e, hread, rfl⟩ := Option.map_eq_some_iff.1 h
          refine Option.map_eq_some_iff.2 ⟨e, ?_, rfl⟩
          rcases hmove with ⟨-, hmove, -⟩ | ⟨rfl, -, hstay⟩
          · exact readEndpoints_enough fuel fuel' _ [] (by simp) hread (by simp only [List.length_nil]; omega)
          · -- an interface is no endpoint: the inner loop has nothing to find, or stands still
            have hother : m (r.p + 1) ≠ EndpointDescriptor.kType := by
              rw [htype]
              decide
            by_cases hn : (readInterface m r.p).numEndpoints.toNat ≤ ([] : List EndpointConfig).length
            · rw [readEndpoints_done hn] at hread ⊢
              exact hread
            · have hstay' : ConfigurationDescriptorReader.next ⟨r.p, r.len⟩ m = (some r.p, ⟨r.p, r.len⟩) := hstay
              rw [readEndpoints_stuck hstay' hother hn] at hread
              cases hread
      · rw [if_neg htype] at h ⊢
        exact hon (fun hi => absurd hi htype) h

/-- **The bound of `parse` is none**: it has a result wherever any number of rounds has one. -/
theorem parse_eq_none {len : Nat} : parse m len = none ↔ ∀ fuel, readConfiguration m fuel ⟨0, len⟩ = none := by
  refine ⟨fun h fuel => ?_, fun h => h _⟩
  cases hc : readConfiguration m fuel ⟨0, len⟩ with
  | none => rfl
  | some c =>
    have henough := readConfiguration_enough fuel (len + 17) _ hc (by simp)
    rw [← parse, h] at henough
    cases henough

/-- An endpoint descriptor of length 0 is read as often as the interface counts. -/
example : parse (fun p => [1, 2, 4, 0, 5, 16, 3, 1, 1].getD p 0) 4 =
    some (.driver ⟨0, 5, 16, 3, 1, 1, 0⟩ .keyboard (.read (List.replicate 16 ⟨⟨0⟩, .kInterrupt, 257, 0⟩))) := by decide

/-! ## The endpoints of any bytes -/

/-- The address of an endpoint is one of 32. -/
theorem address_makeEPConfig (e : EndpointDescriptor) : (makeEPConfig e).epId.address < 32 := by
  have hand : (e.endpointAddress &&& 0x0f).toNat ≤ 15 := by
    rw [UInt8.toNat_and]
    exact Nat.and_le_right
  have hbit := Bool.toNat_le (e.endpointAddress >>> 7 == 1)
  simp only [makeEPConfig, EndpointID.new]
  omega

theorem readEndpoints_address {n : Nat} : ∀ (fuel : Nat) (r : ConfigurationDescriptorReader)
    (eps : List EndpointConfig) {eps' : List EndpointConfig}, (∀ c ∈ eps, c.epId.address < 32) →
      readEndpoints m n fuel r eps = some (.read eps') → ∀ c ∈ eps', c.epId.address < 32
  | 0, r, eps, eps', heps, he => by
    rw [readEndpoints] at he
    split at he
    · cases he
      exact heps
    · cases he
  | fuel + 1, r, eps, eps', heps, he => by
    rw [readEndpoints] at he
    split at he
    · cases he
      exact heps
    · split at he
      · cases he
      · split at he
        · split at he
          · cases he
          · refine readEndpoints_address fuel _ _ (fun c hc => ?_) he
            rcases List.mem_append.1 hc with hc | hc
            · exact heps c hc
            · rw [List.mem_singleton.1 hc]
              exact address_makeEPConfig _
        · exact readEndpoints_address fuel _ _ heps he

theorem readConfiguration_address : ∀ (fuel : Nat) (r : ConfigurationDescriptorReader) {i : InterfaceDescriptor}
    {kind : HidKind} {eps : List EndpointConfig}, readConfiguration m fuel r = some (.driver i kind (.read eps)) →
      ∀ c ∈ eps, c.epId.address < 32
  | 0, r, _, _, _, he => by
    cases he
  | fuel + 1, r, i, kind, eps, he => by
    rw [readConfiguration] at he
    split at he
    · cases he
    · split at he
      · split at he
        · exact readConfiguration_address fuel _ he
        · obtain ⟨e, hread, heq⟩ := Option.map_eq_some_iff.1 he
          cases heq
          exact readEndpoints_address fuel _ [] (by simp) hread
      · exact readConfiguration_address fuel _ he

end AnyBytes

end KinOS.Usb
