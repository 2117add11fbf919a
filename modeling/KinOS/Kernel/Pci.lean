import KinOS.Lib.After

/-!
# The PCI scan

| here | there |
| --- | --- |
| `ConfigSpace`, `makeAddress`, `read…` | the configuration space behind `CONFIG_ADDRESS` and `CONFIG_DATA` (`kernel/pci.cpp:10-20, 148-191`) |
| `Table`, `addDevice`           | `devices`, `num_device`, `AddDevice` (`pci.hpp:61-62`, `pci.cpp:23-31`) |
| `scanFunction`, `scanDevice`, `scanBus`, `scanAllBus` | the functions of these names (`pci.cpp:38-82, 193-210`) |
| `Reaches`, `Reachable`         | the functions of the machine that the rules of the scan lead to |

`ScanFunction` calls `ScanBus` and nothing remembers the buses that were scanned. `scanBus` counts how deeply it may be
nested. A nested scan starts after one more entry of `devices` was filled, so 33 levels are never used up
(`scanBus_spec`): where bridges lead back to a bus, the scan ends because the table is full.
-/

namespace KinOS.Pci

/-- What `CONFIG_DATA` reads after an address was written to `CONFIG_ADDRESS`. -/
abbrev ConfigSpace := UInt32 → UInt32

def makeAddress (bus device function regAddr : UInt8) : UInt32 :=
  (1 : UInt32) <<< 31 ||| bus.toUInt32 <<< 16 ||| device.toUInt32 <<< 11 ||| function.toUInt32 <<< 8 |||
    (regAddr.toUInt32 &&& 0xfc)

structure ClassCode where
  base : UInt8
  sub : UInt8
  interface : UInt8
deriving DecidableEq, Repr, Inhabited

structure Device where
  bus : UInt8
  device : UInt8
  function : UInt8
  headerType : UInt8
  classCode : ClassCode
deriving DecidableEq, Repr, Inhabited

/-- The globals `devices` and `num_device`. -/
structure Table where
  devices : Vector Device 32
  numDevice : Nat

inductive Stop
  /-- `kFull` -/
  | full
  /-- the scans are nested more deeply than was allowed -/
  | deep
deriving DecidableEq, Repr

abbrev PciM := EStateM Stop Table

section
variable (cs : ConfigSpace) (bus device function : UInt8)

def readVendorId : UInt16 := (cs (makeAddress bus device function 0x00) &&& 0xffff).toUInt16

def readHeaderType : UInt8 := (cs (makeAddress bus device function 0x0c) >>> 16 &&& 0xff).toUInt8

def readClassCode : ClassCode :=
  let reg := cs (makeAddress bus device function 0x08)
  ⟨(reg >>> 24 &&& 0xff).toUInt8, (reg >>> 16 &&& 0xff).toUInt8, (reg >>> 8 &&& 0xff).toUInt8⟩

def readBusNumbers : UInt32 := cs (makeAddress bus device function 0x18)

def secondaryBus : UInt8 := (readBusNumbers cs bus device function >>> 8 &&& 0xff).toUInt8

/-- The entry for a function. -/
def deviceAt : Device := ⟨bus, device, function, readHeaderType cs bus device function, readClassCode cs bus device function⟩

end

def isSingleFunctionDevice (headerType : UInt8) : Bool := headerType &&& 0x80 = 0

/-- `Match(0x06u, 0x04u)`: a standard PCI-PCI bridge. -/
def ClassCode.isBridge (c : ClassCode) : Bool := c.base = 0x06 ∧ c.sub = 0x04

/-! ## The scan -/

def addDevice (dev : Device) : PciM Unit := do
  let t ← get
  if t.numDevice = 32 then throw .full
  else set (⟨t.devices.setIfInBounds t.numDevice dev, t.numDevice + 1⟩ : Table)

section
variable (cs : ConfigSpace) (rec : UInt8 → PciM Unit)

/-- `ScanFunction`; `rec` is `ScanBus`. -/
def scanFunction (bus device function : UInt8) : PciM Unit := do
  addDevice (deviceAt cs bus device function)
  if (readClassCode cs bus device function).isBridge then rec (secondaryBus cs bus device function)
  else pure ()

/-- What the loops over functions and over devices do with an absent one. -/
def unlessAbsent (bus device function : UInt8) (x : PciM Unit) : PciM Unit :=
  if readVendorId cs bus device function = 0xffff then pure () else x

def scanDevice (bus device : UInt8) : PciM Unit := do
  scanFunction cs rec bus device 0
  if isSingleFunctionDevice (readHeaderType cs bus device 0) then pure ()
  else (List.range' 1 7).forM fun function =>
    unlessAbsent cs bus device (.ofNat function) (scanFunction cs rec bus device (.ofNat function))

def scanDevices (bus : UInt8) : PciM Unit :=
  (List.range 32).forM fun device => unlessAbsent cs bus (.ofNat device) 0 (scanDevice cs rec bus (.ofNat device))

end

/-- `ScanBus`, nested at most so many times. -/
def scanBus (cs : ConfigSpace) : Nat → UInt8 → PciM Unit
  | 0, _ => throw .deep
  | depth + 1, bus => scanDevices cs (scanBus cs depth) bus

def scanAllBus (cs : ConfigSpace) (depth : Nat) : PciM Unit := do
  modify fun t => { t with numDevice := 0 }
  if isSingleFunctionDevice (readHeaderType cs 0 0 0) then scanBus cs depth 0
  else (List.range 8).forM fun function => unlessAbsent cs 0 0 (.ofNat function) (scanBus cs depth (.ofNat function))

/-! ## What the scan should find -/

/-- The functions a scan of the bus looks at: function 0 of each present device, and the present ones of a
multi-function device. -/
structure OnBus (cs : ConfigSpace) (bus : UInt8) (d f : Nat) : Prop where
  device : d < 32
  present : readVendorId cs bus (.ofNat d) 0 ≠ 0xffff
  function : f = 0 ∨ f < 8 ∧ isSingleFunctionDevice (readHeaderType cs bus (.ofNat d) 0) = false ∧
    readVendorId cs bus (.ofNat d) (.ofNat f) ≠ 0xffff

/-- From a bus to a function of the machine: on this bus, or behind a bridge of it. -/
inductive Reaches (cs : ConfigSpace) : UInt8 → Device → Prop
  | here {bus : UInt8} {d f : Nat} : OnBus cs bus d f → Reaches cs bus (deviceAt cs bus (.ofNat d) (.ofNat f))
  | behind {bus : UInt8} {d f : Nat} {x : Device} : OnBus cs bus d f →
      (readClassCode cs bus (.ofNat d) (.ofNat f)).isBridge → Reaches cs (secondaryBus cs bus (.ofNat d) (.ofNat f)) x →
      Reaches cs bus x

/-- The buses behind the host bridge: bus 0, or the one with the number of each of its functions. -/
inductive Root (cs : ConfigSpace) : UInt8 → Prop
  | single : isSingleFunctionDevice (readHeaderType cs 0 0 0) → Root cs 0
  | multi {f : Nat} : isSingleFunctionDevice (readHeaderType cs 0 0 0) = false → f < 8 →
      readVendorId cs 0 0 (.ofNat f) ≠ 0xffff → Root cs (.ofNat f)

def Reachable (cs : ConfigSpace) (x : Device) : Prop := ∃ bus, Root cs bus ∧ Reaches cs bus x

/-! ## The table -/

namespace Table

/-- The function has an entry among the first `num_device`. -/
def Lists (t : Table) (x : Device) : Prop := ∃ i < t.numDevice, t.devices[i]? = some x

/-- Entries are added, within the table. -/
structure Extends (t t' : Table) : Prop where
  le : t.numDevice ≤ t'.numDevice
  bound : t'.numDevice ≤ 32
  kept : ∀ i < t.numDevice, t'.devices[i]? = t.devices[i]?

variable {t t' t'' : Table} {x : Device}

theorem Extends.refl (h : t.numDevice ≤ 32) : t.Extends t := ⟨Nat.le_refl _, h, fun _ _ => rfl⟩

theorem Extends.trans (h : t.Extends t') (h' : t'.Extends t'') : t.Extends t'' where
  le := Nat.le_trans h.le h'.le
  bound := h'.bound
  kept i hi := (h'.kept i (Nat.lt_of_lt_of_le hi h.le)).trans (h.kept i hi)

theorem Lists.mono (h : t.Lists x) (he : t.Extends t') : t'.Lists x := by
  obtain ⟨i, hi, hx⟩ := h
  exact ⟨i, Nat.lt_of_lt_of_le hi he.le, (he.kept i hi).trans hx⟩

end Table

open Table

variable {cs : ConfigSpace} {t : Table}

/-- How a part of the scan may end: with more entries and `Q`, or because the table is full. -/
def Fills (t : Table) (x : PciM Unit) (Q : Table → Prop) : Prop :=
  After x t (fun _ t' => t.Extends t' ∧ Q t') fun e t' => e = .full ∧ t'.numDevice ≤ 32

theorem addDevice_fills (h : t.numDevice ≤ 32) (dev : Device) :
    Fills t (addDevice dev) fun t' => t'.Lists dev ∧ t.numDevice < t'.numDevice := by
  refine .get_bind (.ite (fun hfull => .throw ⟨rfl, h⟩) fun hroom => ?_)
  have hlt : t.numDevice < 32 := by omega
  refine ⟨⟨Nat.le_succ _, hlt, fun i hi => ?_⟩, ⟨t.numDevice, Nat.lt_succ_self _, ?_⟩, Nat.lt_succ_self _⟩
  · simp only [Vector.getElem?_setIfInBounds]
    rw [if_neg (by omega)]
  · simp only [Vector.getElem?_setIfInBounds, if_pos hlt, if_true]

/-- A loop over a list, each element of which brings about a fact that more entries do not undo. -/
theorem Fills.forM {β : Type} {f : β → PciM Unit} {Q : β → Table → Prop} {l : List β} (h : t.numDevice ≤ 32)
    (hmono : ∀ b ∈ l, ∀ s s' : Table, s.Extends s' → Q b s → Q b s')
    (hstep : ∀ b ∈ l, ∀ s : Table, t.Extends s → Fills s (f b) (Q b)) :
    Fills t (l.forM f) fun t' => ∀ b ∈ l, Q b t' := by
  induction l generalizing t with
  | nil => exact After.pure ⟨.refl h, fun b hb => by cases hb⟩
  | cons b l ih =>
    refine After.bind (hstep b (List.mem_cons_self ..) t (.refl h)) fun _ s ⟨hs, hb⟩ => ?_
    have hrest := ih hs.bound (fun c hc => hmono c (List.mem_cons_of_mem _ hc)) fun c hc s' hs' =>
      hstep c (List.mem_cons_of_mem _ hc) s' (hs.trans hs')
    refine hrest.imp (fun _ s' ⟨hs', hl⟩ => ⟨hs.trans hs', ?_⟩) fun _ _ he => he
    intro c hc
    rcases List.mem_cons.1 hc with rfl | hc
    · exact hmono c (List.mem_cons_self ..) s s' hs' hb
    · exact hl c hc

/-! ## One level of the scan -/

/-- A function and everything behind it are listed. -/
def Covered (cs : ConfigSpace) (bus device function : UInt8) (t : Table) : Prop :=
  t.Lists (deviceAt cs bus device function) ∧ ((readClassCode cs bus device function).isBridge →
    ∀ x, Reaches cs (secondaryBus cs bus device function) x → t.Lists x)

theorem Covered.mono {bus device function : UInt8} {s s' : Table} (he : s.Extends s')
    (h : Covered cs bus device function s) :
    Covered cs bus device function s' := ⟨h.1.mono he, fun hb x hx => (h.2 hb x hx).mono he⟩

section
variable {rec : UInt8 → PciM Unit} (h : t.numDevice ≤ 32)
  (hrec : ∀ s : Table, t.numDevice < s.numDevice → s.numDevice ≤ 32 → ∀ bus,
    Fills s (rec bus) fun t' => ∀ x, Reaches cs bus x → t'.Lists x)

include h hrec

theorem scanFunction_fills (bus device function : UInt8) :
    Fills t (scanFunction cs rec bus device function) (Covered cs bus device function) := by
  refine After.bind (addDevice_fills h _) fun _ s ⟨hs, hl, hlt⟩ => .ite (fun hb => ?_) fun hb => ?_
  · refine (hrec s hlt hs.bound _).imp (fun _ s' ⟨hs', hx⟩ => ?_) fun _ _ he => he
    exact ⟨hs.trans hs', hl.mono hs', fun _ => hx⟩
  · exact .pure ⟨hs, hl, fun hb' => absurd hb' hb⟩

theorem scanDevice_fills (bus device : UInt8) : Fills t (scanDevice cs rec bus device) fun t' =>
    Covered cs bus device 0 t' ∧ (isSingleFunctionDevice (readHeaderType cs bus device 0) = false →
      ∀ f < 8, readVendorId cs bus device (.ofNat f) ≠ 0xffff → Covered cs bus device (.ofNat f) t') := by
  refine After.bind (scanFunction_fills h hrec bus device 0) fun _ s ⟨hs, h0⟩ => .ite (fun hone => ?_) fun hone => ?_
  · exact .pure ⟨hs, h0, fun hm => absurd hone (by simp [hm])⟩
  · have hloop := Fills.forM (t := s) (l := List.range' 1 7)
      (f := fun f => unlessAbsent cs bus device (.ofNat f) (scanFunction cs rec bus device (.ofNat f)))
      (Q := fun f t' => readVendorId cs bus device (.ofNat f) ≠ 0xffff → Covered cs bus device (.ofNat f) t') hs.bound
      (fun _ _ s s' he hq hp => (hq hp).mono he) fun f _ s' hs' => .ite
        (fun ha => .pure ⟨.refl hs'.bound, fun hp => absurd ha hp⟩) fun _ => ?_
    · refine hloop.imp (fun _ s' ⟨hs', hl⟩ => ⟨hs.trans hs', h0.mono hs', fun _ f hf hp => ?_⟩) fun _ _ he => he
      cases f with
      | zero => exact h0.mono hs'
      | succ f => exact hl (f + 1) (by simp; omega) hp
    · refine (scanFunction_fills hs'.bound (fun u hu => hrec u ?_) ..).imp (fun _ _ hq => ⟨hq.1, fun _ => hq.2⟩)
        fun _ _ he => he
      exact Nat.lt_of_le_of_lt (Nat.le_trans hs.le hs'.le) hu

theorem scanDevices_fills (bus : UInt8) :
    Fills t (scanDevices cs rec bus) fun t' => ∀ x, Reaches cs bus x → t'.Lists x := by
  have hloop := Fills.forM (t := t) (l := List.range 32)
    (f := fun d => unlessAbsent cs bus (.ofNat d) 0 (scanDevice cs rec bus (.ofNat d)))
    (Q := fun d t' => ∀ f, OnBus cs bus d f → Covered cs bus (.ofNat d) (.ofNat f) t') h
    (fun _ _ s s' he hq f hf => (hq f hf).mono he) fun d _ s hs => .ite
      (fun ha => .pure ⟨.refl hs.bound, fun f hf => absurd ha hf.present⟩) fun _ => ?_
  · refine hloop.imp (fun _ s ⟨hs, hl⟩ => ⟨hs, fun x hx => ?_⟩) fun _ _ he => he
    cases hx with
    | here hf => exact (hl _ (List.mem_range.2 hf.device) _ hf).1
    | behind hf hb hx => exact (hl _ (List.mem_range.2 hf.device) _ hf).2 hb x hx
  · refine (scanDevice_fills hs.bound (fun u hu => hrec u (Nat.lt_of_le_of_lt hs.le hu)) ..).imp
      (fun _ s' ⟨hs', h0, hm⟩ => ⟨hs', fun f hf => ?_⟩) fun _ _ he => he
    rcases hf.function with rfl | ⟨hlt, hmulti, hp⟩
    · exact h0
    · exact hm hmulti f hlt hp

end

/-! ## Every level -/

/-- **The scan of a bus**, when its depth and the entries it starts with come to more than 32: it ends, and if the table
is not full then everything behind the bus is listed. -/
theorem scanBus_spec (cs : ConfigSpace) : ∀ (depth : Nat) (t : Table), t.numDevice ≤ 32 → 32 < depth + t.numDevice →
    ∀ bus, Fills t (scanBus cs depth bus) fun t' => ∀ x, Reaches cs bus x → t'.Lists x
  | 0, t, h, hd => by omega
  | depth + 1, t, h, hd => scanDevices_fills h fun s hlt hs => scanBus_spec cs depth s hs (by omega)

/-- **Enumeration ends and is complete**: it never nests more than 33 scans, the entries fit the table, and it stops early
only because the table is full. -/
theorem scanAllBus_complete (cs : ConfigSpace) (t : Table) (more : Nat) :
    After (scanAllBus cs (33 + more)) t (fun _ t' => t'.numDevice ≤ 32 ∧ ∀ x, Reachable cs x → t'.Lists x)
      fun e t' => e = .full ∧ t'.numDevice ≤ 32 := by
  refine .modify_bind (.ite (fun hone => ?_) fun hmulti => ?_)
  · refine (scanBus_spec cs (33 + more) _ (Nat.zero_le _) (by simp; omega) 0).imp (fun _ s ⟨hs, hl⟩ => ?_) fun _ _ he => he
    refine ⟨hs.bound, fun x ⟨bus, hroot, hx⟩ => ?_⟩
    cases hroot with
    | single => exact hl x hx
    | multi hm => exact absurd hone (by simp [hm])
  · have hloop := Fills.forM (t := { t with numDevice := 0 }) (l := List.range 8)
      (f := fun f => unlessAbsent cs 0 0 (.ofNat f) (scanBus cs (33 + more) (.ofNat f)))
      (Q := fun f t' => readVendorId cs 0 0 (.ofNat f) ≠ 0xffff → ∀ x, Reaches cs (.ofNat f) x → t'.Lists x) (Nat.zero_le _)
      (fun _ _ s s' he hq hp x hx => (hq hp x hx).mono he) fun f _ s hs => .ite
        (fun ha => .pure ⟨.refl hs.bound, fun hp => absurd ha hp⟩) fun _ =>
        (scanBus_spec cs (33 + more) s hs.bound (by omega) _).imp (fun _ _ hq => ⟨hq.1, fun _ => hq.2⟩) fun _ _ he => he
    refine hloop.imp (fun _ s ⟨hs, hl⟩ => ⟨hs.bound, fun x ⟨bus, hroot, hx⟩ => ?_⟩) fun _ _ he => he
    cases hroot with
    | single hone => exact absurd hone hmulti
    | multi _ hlt hp => exact hl _ (List.mem_range.2 hlt) hp x hx

/-- Device 0 of every bus is a bridge that leads back to bus 0. -/
def looped : ConfigSpace := fun address => if address &&& 0xfc = 0x08 then 0x06040000 else 0

example : (match scanAllBus looped 33 ⟨.replicate 32 default, 0⟩ with
    | .error e t => e == .full && t.numDevice == 32
    | .ok _ _ => false) = true := by
  decide +kernel

end KinOS.Pci
