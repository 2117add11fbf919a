import KinOS.Lib.Toggles
import KinOS.Usb.Descriptor

/-!
# Keyboards and mice

| here | there |
| --- | --- |
| `HIDBaseDriver`      | `HIDBaseDriver` and what the two classes derived from it add (`kernel/usb/classdriver/hid.hpp:5-32`) |
| `setEndpoint`        | `SetEndpoint` (`hid.cpp:18-25`) |
| `onDataReceived`     | the function of this name of the keyboard (`keyboard.cpp:13-27`) and of the mouse (`mouse.cpp:13-20`) |
| `dataReceived`       | `OnInterruptCompleted` (`hid.cpp:53-61`), up to the next transfer |
| `Notification`       | the arguments of `NotifyKeyPush` and `NotifyMouseMove` |

`buf_` is written by the controller. What it does not write stays there from the report before, in `previous_buf_` too.
-/

namespace KinOS.Usb

open Xhci Toggles

/-- What the observers are called with. -/
inductive Notification
  | keyPush (modifier keycode : UInt8) (press : Bool)
  | mouseMove (buttons : UInt8) (displacementX displacementY : Int8)
deriving DecidableEq, Repr

/-- A driver. `bufPtr` is the address of `buf_`, `notified` all that the observers were told. -/
structure HIDBaseDriver where
  kind : HidKind
  interfaceIndex : UInt8
  bufPtr : Ptr
  buf : Bytes
  previousBuf : Bytes
  epInterruptIn : EndpointID
  epInterruptOut : EndpointID
  initializePhase : Nat
  notified : List Notification

def kBufferSize : Nat := 1024

/-- `in_packet_size_` -/
def HidKind.inPacketSize : HidKind → Nat
  | keyboard => 8
  | mouse => 3

/-- The first `n` bytes are written. -/
def overwrite (m : Bytes) (n : Nat) (data : Bytes) : Bytes := fun i => if i < n then data i else m i

/-- The set of keys of a report. -/
def reported (m : Bytes) (k : UInt8) : Bool := (List.range' 2 6).any fun i => m i == k

/-- `1..255` -/
def keycodes : List UInt8 := (List.range' 1 255).map UInt8.ofNat

namespace HIDBaseDriver

def new (kind : HidKind) (interfaceIndex : UInt8) (bufPtr : Ptr) : HIDBaseDriver where
  kind := kind
  interfaceIndex := interfaceIndex
  bufPtr := bufPtr
  buf := fun _ => 0
  previousBuf := fun _ => 0
  epInterruptIn := ⟨0⟩
  epInterruptOut := ⟨0⟩
  initializePhase := 0
  notified := []

def setEndpoint (h : HIDBaseDriver) (config : EndpointConfig) : HIDBaseDriver :=
  if config.epType = .kInterrupt ∧ config.epId.isIn then { h with epInterruptIn := config.epId }
  else if config.epType = .kInterrupt ∧ ¬ config.epId.isIn then { h with epInterruptOut := config.epId }
  else h

def onDataReceived (h : HIDBaseDriver) : List Notification :=
  match h.kind with
  | .keyboard =>
    (changes keycodes (reported h.previousBuf) (reported h.buf)).map fun e => .keyPush (h.buf 0) e.1 e.2
  | .mouse => [.mouseMove (h.buf 0) (h.buf 1).toInt8 (h.buf 2).toInt8]

def dataReceived (h : HIDBaseDriver) (len : Nat) : HIDBaseDriver :=
  { h with notified := h.notified ++ h.onDataReceived, previousBuf := overwrite h.previousBuf len h.buf }

/-- The controller writes into `buf_`. -/
def dma (h : HIDBaseDriver) (n : Nat) (data : Bytes) : HIDBaseDriver := { h with buf := overwrite h.buf n data }

end HIDBaseDriver

/-! ## What a keyboard reports -/

namespace Notification

/-- The change of the set of pressed keys that is told. -/
def keyChange? : Notification → Option (UInt8 × Bool)
  | keyPush _ k press => some (k, press)
  | mouseMove .. => none

end Notification

theorem nodup_keycodes : keycodes.Nodup := by
  refine List.Nodup.map_on (fun a ha b hb he => ?_) List.nodup_range'
  obtain ⟨-, ha⟩ := List.mem_range'_1.1 ha
  obtain ⟨-, hb⟩ := List.mem_range'_1.1 hb
  have hn := congrArg UInt8.toNat he
  rwa [UInt8.toNat_ofNat', UInt8.toNat_ofNat', Nat.mod_eq_of_lt (by omega), Nat.mod_eq_of_lt (by omega)] at hn

theorem mem_keycodes (k : UInt8) : k ∈ keycodes ↔ k ≠ 0 := by
  have hk := k.toNat_lt
  simp only [keycodes, List.mem_map, List.mem_range'_1]
  refine ⟨?_, fun h => ⟨k.toNat, ⟨?_, by omega⟩, UInt8.ofNat_toNat⟩⟩
  · rintro ⟨n, ⟨h1, h2⟩, rfl⟩ h0
    have hn := congrArg UInt8.toNat h0
    rw [UInt8.toNat_ofNat', Nat.mod_eq_of_lt (by omega), UInt8.toNat_zero] at hn
    omega
  · have hne : k.toNat ≠ 0 := fun h0 => h (UInt8.toNat_inj.1 h0)
    omega

theorem overwrite_overwrite {m data : Bytes} {n : Nat} : overwrite m n (overwrite m n data) = overwrite m n data := by
  funext i
  by_cases h : i < n <;> simp [overwrite, h]

namespace HIDBaseDriver

variable {h : HIDBaseDriver}

/-- What was told of the keys. -/
def keyChanges (h : HIDBaseDriver) : List (UInt8 × Bool) := h.notified.filterMap Notification.keyChange?

/-- The keys that were told to be down and not yet to be up. -/
def pressed (h : HIDBaseDriver) : UInt8 → Bool := after (fun _ => false) h.keyChanges

/-- The observers of a keyboard know which keys were down at the last report. -/
structure Told (h : HIDBaseDriver) : Prop where
  alternating : Alternating (fun _ => false) h.keyChanges
  pressed : h.kind = .keyboard → ∀ k, h.pressed k = (k != 0 && reported h.previousBuf k)

theorem told_new {kind : HidKind} {interfaceIndex : UInt8} {bufPtr : Ptr} : Told (new kind interfaceIndex bufPtr) where
  alternating := trivial
  pressed _ k := by
    have hzero : (k != 0 && reported (fun _ => 0) k) = false := by
      by_cases hk : k = 0
      · simp [hk]
      · have hne : ¬ (0 : UInt8) = k := fun he => hk he.symm
        simp [reported, hne]
    exact hzero.symm

theorem keyChanges_dataReceived {len : Nat} : (h.dataReceived len).keyChanges = h.keyChanges ++
    match h.kind with
    | .keyboard => changes keycodes (reported h.previousBuf) (reported h.buf)
    | .mouse => [] := by
  rw [keyChanges, dataReceived, List.filterMap_append, keyChanges]
  cases hk : h.kind with
  | mouse => simp [onDataReceived, hk, Notification.keyChange?]
  | keyboard =>
    have hmap : (fun e : UInt8 × Bool => Notification.keyChange? (.keyPush (h.buf 0) e.1 e.2)) = some := rfl
    simp only [onDataReceived, hk, List.filterMap_map, Function.comp_def, hmap, List.filterMap_some]

/-- A set of keys without the code 0, and the set itself, change in the same way. -/
theorem changes_keycodes {s s' t : UInt8 → Bool} (hs : ∀ k, k ≠ 0 → s k = s' k) :
    changes keycodes s t = changes keycodes s' t := by
  have hsame : ∀ k ∈ keycodes, (s k != t k) = (s' k != t k) := fun k hk => by rw [hs k ((mem_keycodes k).1 hk)]
  rw [changes, changes, List.filter_congr hsame]

/-- **A report adds the changes since the last one**: no key comes that is down, and none goes that is not. -/
theorem Told.dataReceived (ht : Told h) {len : Nat} (hbuf : overwrite h.previousBuf len h.buf = h.buf) :
    Told (h.dataReceived len) := by
  have hchanges : (h.dataReceived len).keyChanges = _ := keyChanges_dataReceived
  cases hk : h.kind with
  | mouse =>
    simp only [hk, List.append_nil] at hchanges
    refine ⟨hchanges ▸ ht.alternating, fun hkey => ?_⟩
    exact absurd (hk.symm.trans hkey) (by decide)
  | keyboard =>
    have hdown := ht.pressed hk
    have hsame : changes keycodes (reported h.previousBuf) (reported h.buf) =
        changes keycodes h.pressed (reported h.buf) :=
      changes_keycodes fun k hne => by simp [hdown k, hne]
    rw [hk] at hchanges
    simp only [hsame] at hchanges
    refine ⟨?_, fun _ k => ?_⟩
    · rw [hchanges, alternating_append]
      exact ⟨ht.alternating, alternating_changes nodup_keycodes⟩
    · show after _ (h.dataReceived len).keyChanges k = (k != 0 && reported (overwrite h.previousBuf len h.buf) k)
      rw [hchanges, after_append, hbuf]
      show after h.pressed _ k = _
      rw [after_changes nodup_keycodes, hdown k]
      by_cases h0 : k = 0
      · simp [h0, mem_keycodes]
      · simp [h0, mem_keycodes]

/-- The report of an interrupt transfer, and all that follows from it. -/
def receive (h : HIDBaseDriver) (report : List UInt8) : HIDBaseDriver :=
  (h.dma report.length fun i => report.getD i 0).dataReceived report.length

theorem receive_bufs (hb : h.previousBuf = h.buf) (report : List UInt8) :
    (h.receive report).previousBuf = (h.receive report).buf ∧
      overwrite h.previousBuf report.length (h.receive report).buf = (h.receive report).buf := by
  have hover : overwrite h.previousBuf report.length (overwrite h.buf report.length fun i => report.getD i 0) =
      overwrite h.buf report.length fun i => report.getD i 0 := by
    rw [hb, overwrite_overwrite]
  exact ⟨hover, hover⟩

/-- **Over any reports the observers of a keyboard follow its keys**: presses and releases of a key alternate, and the keys
that are down are those of the last report, whatever its length. -/
theorem told_reports (kind : HidKind) (interfaceIndex : UInt8) (bufPtr : Ptr) (reports : List (List UInt8)) :
    Told (reports.foldl receive (new kind interfaceIndex bufPtr)) := by
  suffices hboth : ∀ h : HIDBaseDriver, Told h → h.previousBuf = h.buf → Told (reports.foldl receive h) from
    hboth _ told_new rfl
  induction reports with
  | nil => exact fun h ht _ => ht
  | cons report reports ih =>
    intro h ht hb
    obtain ⟨hsame, hover⟩ := receive_bufs hb report
    have htold : Told (h.dma report.length fun i => report.getD i 0) := ⟨ht.alternating, ht.pressed⟩
    exact ih _ (htold.dataReceived hover) hsame

end HIDBaseDriver

end KinOS.Usb
