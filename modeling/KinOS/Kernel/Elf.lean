import KinOS.Lib.Bytes
import KinOS.Kernel.PageRange

/-!
# The ELF loader

| here | there |
| --- | --- |
| `PageMapEntry.data`, `byte` | a word of memory as `uint64_t` and as bytes |
| `writeByte`, `memcpy`, `memset` | stores of the kernel through the current page maps |
| `Elf.field`          | the members of `Elf64_Ehdr` and `Elf64_Phdr` (`kernel/elf.hpp:16-31`, `39-48`) |
| `setupPML4`          | `SetupPML4` (`kernel/system.cpp:120-133`) |
| `getFirstLoadAddress` | `GetFirstLoadAddress` (`system.cpp:73-80`) |
| `copyLoadSegments`   | `CopyLoadSegments` (`system.cpp:84-105`) |
| `loadELF`, `loadApp` | `LoadELF`, `LoadApp` (`system.cpp:107-118`, `151-181`) |

A file is what stands from `elf_header` on, `size` bytes of it the file's own. It lies in frames that are taken and is read
through its own mapping, so it is kept apart from the machine; an offset into it goes round at `2 ^ 64` as the pointer does.
The log has every range of the file that is read and every range that is mapped or written, before the access is tried. A
store to an address that is not canonical or not mapped ends the run in `Stop.fault`.
-/

namespace KinOS.Paging

namespace PageMapEntry

/-- The word. -/
def data (e : PageMapEntry) : BitVec 64 :=
  e.high ++ e.addr ++ e.avail ++ BitVec.ofBool e.global ++ BitVec.ofBool e.hugePage ++ BitVec.ofBool e.dirty ++
    BitVec.ofBool e.accessed ++ BitVec.ofBool e.cacheDisable ++ BitVec.ofBool e.writeThrough ++ BitVec.ofBool e.user ++
    BitVec.ofBool e.writable ++ BitVec.ofBool e.present

def ofData (d : BitVec 64) : PageMapEntry where
  present := d[0]
  writable := d[1]
  user := d[2]
  writeThrough := d[3]
  cacheDisable := d[4]
  accessed := d[5]
  dirty := d[6]
  hugePage := d[7]
  global := d[8]
  avail := d.extractLsb' 9 3
  addr := d.extractLsb' 12 40
  high := d.extractLsb' 52 12

theorem data_ofData (d : BitVec 64) : (ofData d).data = d := by
  apply BitVec.eq_of_getLsbD_eq
  intro i hi
  simp only [data, ofData, BitVec.getLsbD_append, BitVec.getLsbD_ofBool, BitVec.getLsbD_extractLsb']
  interval_cases i <;> simp

/-- Byte `k` of the word, the lowest first. -/
def byte (e : PageMapEntry) (k : Nat) : UInt8 := ⟨e.data.extractLsb' (8 * k) 8⟩

def setByte (e : PageMapEntry) (k : Nat) (c : UInt8) : PageMapEntry :=
  ofData (e.data &&& ~~~ (0xff#64 <<< (8 * k)) ||| (c.toBitVec.setWidth 64 <<< (8 * k)))

theorem ones_getLsbD (i : Nat) : (0xff#64).getLsbD i = decide (i < 8) := by
  have h : 0xff#64 = (BitVec.allOnes 8).setWidth 64 := by decide
  rw [h, BitVec.getLsbD_setWidth, BitVec.getLsbD_allOnes]
  by_cases hi : i < 8
  · simp [hi]
    omega
  · simp [hi]

theorem byte_setByte (e : PageMapEntry) {j k : Nat} (hj : j < 8) (hk : k < 8) (c : UInt8) :
    (e.setByte k c).byte j = if j = k then c else e.byte j := by
  have hbit : ∀ i < 8, (e.setByte k c).data.getLsbD (8 * j + i) =
      if j = k then c.toBitVec.getLsbD i else e.data.getLsbD (8 * j + i) := by
    intro i hi
    have hlt : 8 * j + i < 64 := by omega
    rw [setByte, data_ofData]
    simp only [BitVec.getLsbD_or, BitVec.getLsbD_and, BitVec.getLsbD_not, BitVec.getLsbD_shiftLeft,
      BitVec.getLsbD_setWidth, ones_getLsbD, hlt, decide_true, Bool.true_and]
    split
    · next h =>
      subst h
      rw [Nat.add_sub_cancel_left]
      simp [hi]
      omega
    · next h =>
      -- bit `i` of another byte lies below the mask or above it
      by_cases hbelow : 8 * j + i < 8 * k
      · simp [hbelow]
      · have habove : ¬ 8 * j + i - 8 * k < 8 := by omega
        have hzero := BitVec.getLsbD_of_ge c.toBitVec (8 * j + i - 8 * k) (by omega)
        simp [hbelow, habove, hzero]
  apply UInt8.toBitVec_inj.mp
  apply BitVec.eq_of_getLsbD_eq
  intro i hi
  rw [byte]
  simp only [BitVec.getLsbD_extractLsb', hi, decide_true, Bool.true_and, hbit i hi]
  split
  · rfl
  · rw [byte]
    simp only [BitVec.getLsbD_extractLsb', hi, decide_true, Bool.true_and]

@[simp] theorem byte_zero (k : Nat) : zero.byte k = 0 := by
  have h : zero.data = 0#64 := by decide
  rw [byte, h]
  apply UInt8.toBitVec_inj.mp
  simp

end PageMapEntry

/-- The word of a frame that holds byte `off`. -/
def wordOf (off : Nat) : Fin 512 := Fin.ofNat 512 (off / 8)

namespace Machine

def byteAt (s : Machine) (f off : Nat) : UInt8 := (s.mem f (wordOf off)).byte (off % 8)

def setByteAt (s : Machine) (f off : Nat) (c : UInt8) : Machine :=
  s.setEntry f (wordOf off) ((s.mem f (wordOf off)).setByte (off % 8) c)

end Machine

/-- `0xffff'8000'0000'0000` -/
def upper : Nat := 0xffff800000000000

def Canonical (a : Nat) : Prop := a < 2 ^ 47 ∨ upper ≤ a

instance (a : Nat) : Decidable (Canonical a) := inferInstanceAs (Decidable (_ ∨ _))

def writeByte (a : Nat) (c : UInt8) : KernelM Unit := do
  let s ← get
  if Canonical a then
    match translate s.mem (.ofValue a) 4 s.cr3 with
    | some f => modify fun s => s.setByteAt f (a % 4096) c
    | none => throw .fault
  else throw .fault

/-- The stores of `n` bytes from `dst` on, the next one number `i`. -/
def store (dst : Nat) (src : Nat → UInt8) : Nat → Nat → KernelM Unit
  | 0, _ => return
  | n + 1, i => do
    writeByte ((dst + i) % 2 ^ 64) (src i)
    store dst src n (i + 1)

def memcpy (dst : Nat) (src : Nat → UInt8) (n : Nat) : KernelM Unit := store dst src n 0

def memset (dst : Nat) (c : UInt8) (n : Nat) : KernelM Unit := store dst (fun _ => c) n 0

def setupPML4 : KernelM Nat := do
  let pml4 ← newPageMap
  modify fun s => s.setFrame pml4 fun i => if i.val < 256 then s.mem s.cr3 i else s.mem pml4 i
  modify fun s => { s with cr3 := pml4 }
  return pml4

end KinOS.Paging

namespace KinOS.Loader

open Bytes Paging

structure Elf where
  mem : Mem
  size : Nat

inductive Access where
  | read (off len : Nat)
  /-- A call of `SetupPageMaps`. -/
  | map (addr num4kPages : Nat)
  | copy (dst src len : Nat)
  /-- The call of `memset`, with what its length is made of. -/
  | fill (dst len memsz filesz : Nat)
deriving DecidableEq

structure LoadState where
  machine : Machine
  log : List Access

abbrev LoaderM := EStateM Stop LoadState

def note (a : Access) : LoaderM Unit := modify fun s => { s with log := s.log ++ [a] }

def kernel {α : Type} (x : KernelM α) : LoaderM α := fun s =>
  match x s.machine with
  | .ok a machine => .ok a { s with machine }
  | .error e machine => .error e { s with machine }

namespace Elf

def byte (elf : Elf) (off : Nat) : UInt8 := elf.mem (off % 2 ^ 64)

/-- `w` bytes at `off`. -/
@[irreducible] def field (elf : Elf) (w off : Nat) : Nat := load w elf.byte off

def readField (elf : Elf) (w off : Nat) : LoaderM Nat := do
  note (.read (off % 2 ^ 64) w)
  return elf.field w off

def eType (elf : Elf) : Nat := elf.field 2 16
def ePhoff (elf : Elf) : Nat := elf.field 8 32
def ePhnum (elf : Elf) : Nat := elf.field 2 56

/-- `&phdr[i]`, `sizeof(Elf64_Phdr)` is 56. -/
def phdr (elf : Elf) (i : Nat) : Nat := elf.ePhoff + 56 * i

def pType (elf : Elf) (i : Nat) : Nat := elf.field 4 (elf.phdr i)
def pOffset (elf : Elf) (i : Nat) : Nat := elf.field 8 (elf.phdr i + 8)
def pVaddr (elf : Elf) (i : Nat) : Nat := elf.field 8 (elf.phdr i + 16)
def pFilesz (elf : Elf) (i : Nat) : Nat := elf.field 8 (elf.phdr i + 32)
def pMemsz (elf : Elf) (i : Nat) : Nat := elf.field 8 (elf.phdr i + 40)

end Elf

/-- `ET_EXEC` -/
def etExec : Nat := 2

/-- `PT_LOAD` -/
def ptLoad : Nat := 1

/-- The loop of `GetFirstLoadAddress` over the program headers still to come. -/
def firstLoad (elf : Elf) (phoff : Nat) : List Nat → LoaderM Nat
  | [] => return 0
  | i :: is => do
    if (← elf.readField 4 (phoff + 56 * i)) ≠ ptLoad then firstLoad elf phoff is
    else elf.readField 8 (phoff + 56 * i + 16)

def getFirstLoadAddress (elf : Elf) : LoaderM Nat := do
  let phoff ← elf.readField 8 32
  let phnum ← elf.readField 2 56
  firstLoad elf phoff (List.range phnum)

/-- `(p_memsz + 4095) / 4096` -/
def num4kPages (memsz : Nat) : Nat := (memsz + 4095) % 2 ^ 64 / 4096

/-- `p_memsz - p_filesz` -/
def fillLen (memsz filesz : Nat) : Nat := (memsz + 2 ^ 64 - filesz) % 2 ^ 64

/-- `memcpy` and `memset` of a segment. -/
def copyBytes (elf : Elf) (phdr vaddr memsz : Nat) : LoaderM Unit := do
  let offset ← elf.readField 8 (phdr + 8)
  let filesz ← elf.readField 8 (phdr + 32)
  note (.copy vaddr offset filesz)
  kernel (memcpy vaddr (fun i => elf.byte (offset + i)) filesz)
  note (.fill ((vaddr + filesz) % 2 ^ 64) (fillLen memsz filesz) memsz filesz)
  kernel (memset (vaddr + filesz) 0 (fillLen memsz filesz))

/-- A program header of type `PT_LOAD`. -/
def copySegment (elf : Elf) (phdr lastAddr : Nat) : LoaderM Nat := do
  let vaddr ← elf.readField 8 (phdr + 16)
  let memsz ← elf.readField 8 (phdr + 40)
  let lastAddr := max lastAddr ((vaddr + memsz) % 2 ^ 64)
  note (.map vaddr (num4kPages memsz))
  kernel (setupPageMaps (.ofValue vaddr) (num4kPages memsz) false)
  copyBytes elf phdr vaddr memsz
  return lastAddr

/-- The loop of `CopyLoadSegments` over the program headers still to come. -/
def copySegments (elf : Elf) (phoff : Nat) : List Nat → Nat → LoaderM Nat
  | [], lastAddr => return lastAddr
  | i :: is, lastAddr => do
    if (← elf.readField 4 (phoff + 56 * i)) ≠ ptLoad then copySegments elf phoff is lastAddr
    else
      let lastAddr ← copySegment elf (phoff + 56 * i) lastAddr
      copySegments elf phoff is lastAddr

def copyLoadSegments (elf : Elf) : LoaderM Nat := do
  let phoff ← elf.readField 8 32
  let phnum ← elf.readField 2 56
  copySegments elf phoff (List.range phnum) 0

def loadELF (elf : Elf) : LoaderM Nat := do
  if (← elf.readField 2 16) ≠ etExec then throw (.error .kInvalidFormat)
  else
    let addrFirst ← getFirstLoadAddress elf
    if addrFirst < upper then throw (.error .kInvalidFormat)
    else copyLoadSegments elf

/-- `"\x7f" "ELF"`, as `memcmp` sees it in `e_ident`. -/
def magic : Nat := 0x464c457f

structure AppLoadInfo where
  vaddrEnd : Nat
  entry : Nat
  pml4 : Nat

def loadApp (elf : Elf) : LoaderM AppLoadInfo := do
  let tempPml4 ← kernel setupPML4
  if (← elf.readField 4 0) ≠ magic then throw (.error .kInvalidFile)
  else
    let lastAddr ← loadELF elf
    let entry ← elf.readField 8 24
    let pml4 ← kernel setupPML4
    kernel (copyPageMaps 4 pml4 tempPml4 256)
    return { vaddrEnd := lastAddr, entry, pml4 }

end KinOS.Loader
