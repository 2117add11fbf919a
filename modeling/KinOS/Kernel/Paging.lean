import KinOS.Lib.After
import KinOS.Kernel.MemoryManager

/-!
# Page tables

| here | there |
| --- | --- |
| `PageMapEntry`            | `union PageMapEntry` (`kernel/paging.hpp:65-91`), in its bit-field view |
| `LinearAddress4Level`, `part`, `setPart` | `union LinearAddress4Level` (`paging.hpp:15-63`) |
| `Machine`                 | memory, `memory_manager`, CR3 and what `HandlePageFault` reads of the current task |
| `newPageMap`, `freeFrame` | `NewPageMap`, `memory_manager->Free(frame, 1)` (`paging.cpp:155-169`) |
| `setNewPageMapIfNotPresent` | `paging.cpp:42-56` |
| `setupEntry`, `setupEntries`, `setupPageMap`, `setupPageMaps` | `SetupPageMap`, `SetupPageMaps` (`paging.cpp:58-96`, `171-175`) |
| `cleanEntry`, `cleanPageMap`, `cleanPageMaps` | `CleanPageMap`, `CleanPageMaps` (`paging.cpp:98-126`, `177-180`) |
| `setPageContent`, `copyOnePage` | `paging.cpp:128-151` |
| `copyPageMaps`            | `CopyPageMaps` (`paging.cpp:182-209`) |
| `handlePageFault`         | `HandlePageFault` (`paging.cpp:211-226`) |

Memory is read and written in 64-bit words, 512 to a frame, and a word is its bit-field view whether a page table or
anything else lies there. The kernel maps physical memory one to one, so a page map is named by its frame. The kernel
runs with `CR0.WP` clear (`paging.cpp:33`): its own writes never fault on a page that is mapped.
-/

namespace KinOS.Paging

instance entriesNeZero : NeZero 512 := ⟨by decide⟩

structure PageMapEntry where
  present : Bool
  writable : Bool
  user : Bool
  writeThrough : Bool
  cacheDisable : Bool
  accessed : Bool
  dirty : Bool
  hugePage : Bool
  global : Bool
  avail : BitVec 3
  addr : BitVec 40
  high : BitVec 12
deriving DecidableEq

namespace PageMapEntry

/-- `data = 0`. -/
def zero : PageMapEntry := ⟨false, false, false, false, false, false, false, false, false, 0, 0, 0⟩

/-- The frame of `Pointer()`. -/
def pointer (e : PageMapEntry) : Nat := e.addr.toNat

/-- `SetPointer` to a frame. -/
def setPointer (e : PageMapEntry) (frame : Nat) : PageMapEntry := { e with addr := .ofNat 40 frame }

theorem pointer_setPointer {e : PageMapEntry} {f : Nat} (h : f < kFrameCount) : (e.setPointer f).pointer = f := by
  have : f < 2 ^ 40 := by
    unfold kFrameCount at h
    omega
  simpa [pointer, setPointer] using this

@[simp] theorem present_setPointer (e : PageMapEntry) (f : Nat) : (e.setPointer f).present = e.present := rfl

@[simp] theorem writable_setPointer (e : PageMapEntry) (f : Nat) : (e.setPointer f).writable = e.writable := rfl

end PageMapEntry

/-- The parts of a linear address; the bits above them repeat the top bit of `pml4`. -/
structure LinearAddress4Level where
  page : Fin 512
  dir : Fin 512
  pdp : Fin 512
  pml4 : Fin 512

namespace LinearAddress4Level

def ofValue (v : Nat) : LinearAddress4Level where
  page := Fin.ofNat 512 (v / 2 ^ 12)
  dir := Fin.ofNat 512 (v / 2 ^ 21)
  pdp := Fin.ofNat 512 (v / 2 ^ 30)
  pml4 := Fin.ofNat 512 (v / 2 ^ 39)

def part (a : LinearAddress4Level) : Nat → Fin 512
  | 1 => a.page
  | 2 => a.dir
  | 3 => a.pdp
  | 4 => a.pml4
  | _ => 0

def setPart (a : LinearAddress4Level) : Nat → Fin 512 → LinearAddress4Level
  | 1, v => { a with page := v }
  | 2, v => { a with dir := v }
  | 3, v => { a with pdp := v }
  | 4, v => { a with pml4 := v }
  | _, _ => a

/-- `for (int level = page_map_level - 1; level >= 1; --level) addr.SetPart(level, 0)`, from `level` down. -/
def clearParts (a : LinearAddress4Level) : Nat → LinearAddress4Level
  | 0 => a
  | level + 1 => (a.setPart (level + 1) 0).clearParts level

end LinearAddress4Level

abbrev Memory := Nat → Fin 512 → PageMapEntry

structure Machine where
  mem : Memory
  mgr : BitmapMemoryManager
  /-- the frame CR3 points to -/
  cr3 : Nat
  /-- `DPagingBegin` and `DPagingEnd` of the current task -/
  dpagingBegin : Nat
  dpagingEnd : Nat
  /-- ghost: the frames passed to `Free` so far -/
  frees : List Nat

/-- How a kernel function ends early: with an error of its own, or because an access of it is not mapped. -/
inductive Stop
  | error (e : Error)
  | fault
deriving DecidableEq

abbrev KernelM := EStateM Stop Machine

namespace Machine

def setFrame (s : Machine) (f : Nat) (page : Fin 512 → PageMapEntry) : Machine :=
  { s with mem := Function.update s.mem f page }

def setEntry (s : Machine) (t : Nat) (i : Fin 512) (e : PageMapEntry) : Machine :=
  s.setFrame t (Function.update (s.mem t) i e)

end Machine

/-- The indices a loop `for (int i = start; i < 512; ++i)` runs through. -/
def indicesFrom (start : Fin 512) : List (Fin 512) := (List.finRange 512).drop start

def newPageMap : KernelM Nat := fun s =>
  match s.mgr.allocate 1 with
  | (.error e, mgr) => .error (.error e) { s with mgr }
  | (.ok frame, mgr) => .ok frame ({ s with mgr }.setFrame frame fun _ => .zero)

def freeFrame (frame : Nat) : KernelM Unit :=
  modify fun s => { s with mgr := s.mgr.free frame 1, frees := s.frees ++ [frame] }

def setNewPageMapIfNotPresent (pageMap : Nat) (i : Fin 512) : KernelM Nat := do
  let entry := (← get).mem pageMap i
  if entry.present then
    return entry.pointer
  else
    let childMap ← newPageMap
    modify fun s => s.setEntry pageMap i { (s.mem pageMap i).setPointer childMap with present := true }
    return childMap

/-- One round of the `while` loop of `SetupPageMap`, up to how many pages are left; `child` is its recursive call. -/
def setupEntry (child : Nat → LinearAddress4Level → Nat → KernelM Nat) (pageMap level : Nat) (writable : Bool)
    (addr : LinearAddress4Level) (n : Nat) : KernelM Nat := do
  let i := addr.part level
  let childMap ← setNewPageMapIfNotPresent pageMap i
  modify fun s => s.setEntry pageMap i { s.mem pageMap i with user := true }
  if level = 1 then
    modify fun s => s.setEntry pageMap i { s.mem pageMap i with writable }
    return n - 1
  else
    modify fun s => s.setEntry pageMap i { s.mem pageMap i with writable := true }
    child childMap addr n

/-- The `while` loop. Each round raises the index, so no loop has more than 512 rounds. -/
def setupEntries (child : Nat → LinearAddress4Level → Nat → KernelM Nat) (pageMap level : Nat) (writable : Bool) :
    Nat → LinearAddress4Level → Nat → KernelM Nat
  | 0, _, n => return n
  | rounds + 1, addr, n =>
    if n = 0 then return 0
    else do
      let n ← setupEntry child pageMap level writable addr n
      let i := addr.part level
      if i = 511 then return n
      else setupEntries child pageMap level writable rounds ((addr.setPart level (i + 1)).clearParts (level - 1)) n

def setupPageMap (writable : Bool) : Nat → Nat → LinearAddress4Level → Nat → KernelM Nat
  | 0 => fun _ _ n => return n
  | level + 1 => fun pageMap addr n =>
    setupEntries (setupPageMap writable level) pageMap (level + 1) writable 512 addr n

def setupPageMaps (addr : LinearAddress4Level) (num4kPages : Nat) (writable : Bool) : KernelM Unit := do
  let _ ← setupPageMap writable 4 (← get).cr3 addr num4kPages

/-- One round of the loop of `CleanPageMap`; `child` is its recursive call. -/
def cleanEntry (child : Nat → KernelM Unit) (pageMap level : Nat) (i : Fin 512) : KernelM Unit := do
  let entry := (← get).mem pageMap i
  if entry.present then
    (if level > 1 then child entry.pointer else pure ())
    (if entry.writable then freeFrame entry.pointer else pure ())
    modify fun s => s.setEntry pageMap i .zero

def cleanPageMap (addr : LinearAddress4Level) : Nat → Nat → KernelM Unit
  | 0 => fun _ => return
  | level + 1 => fun pageMap =>
    (indicesFrom (addr.part (level + 1))).forM (cleanEntry (cleanPageMap addr level) pageMap (level + 1))

def cleanPageMaps (addr : LinearAddress4Level) : KernelM Unit := do
  cleanPageMap addr 4 (← get).cr3

def copyPageMaps : Nat → Nat → Nat → Fin 512 → KernelM Unit
  | 0 => fun _ _ _ => return
  | 1 => fun dest src start => (indicesFrom start).forM fun i => do
    let entry := (← get).mem src i
    if entry.present then
      modify fun s => s.setEntry dest i { entry with writable := false }
  | part + 2 => fun dest src start => (indicesFrom start).forM fun i => do
    if ((← get).mem src i).present then
      let table ← newPageMap
      modify fun s => s.setEntry dest i ((s.mem src i).setPointer table)
      copyPageMaps (part + 1) table ((← get).mem src i).pointer 0

/-- The number of the page within what an entry of level `level + 1` covers. -/
def LinearAddress4Level.pageIn (a : LinearAddress4Level) : Nat → Nat
  | 0 => 0
  | level + 1 => (a.part (level + 1)).val * 512 ^ level + a.pageIn level

/-- How the processor translates: the frame behind the address, with entries of levels 3 and 2 that map 1 GiB and
2 MiB. -/
def translate (mem : Memory) (addr : LinearAddress4Level) : Nat → Nat → Option Nat
  | 0, frame => some frame
  | level + 1, table =>
    let e := mem table (addr.part (level + 1))
    if !e.present then none
    else if e.hugePage && (level + 1 == 2 || level + 1 == 3) then
      some (e.pointer / 512 ^ level * 512 ^ level + addr.pageIn level)
    else translate mem addr level e.pointer

def setPageContent (addr : LinearAddress4Level) (content : Nat) : Nat → Nat → KernelM Unit
  | 0 => fun _ => return
  | 1 => fun table => do
    let i := addr.part 1
    modify fun s => s.setEntry table i { (s.mem table i).setPointer content with writable := true }
  | part + 2 => fun table => do
    setPageContent addr content (part + 1) ((← get).mem table (addr.part (part + 2))).pointer

def copyOnePage (causalAddr : LinearAddress4Level) : KernelM Unit := do
  let p ← newPageMap
  let s ← get
  match translate s.mem causalAddr 4 s.cr3 with
  | none => throw .fault
  | some f =>
    modify fun s => s.setFrame p (s.mem f)
    setPageContent causalAddr p 4 s.cr3

def handlePageFault (errorCode causalAddr : Nat) : KernelM Unit := do
  let task ← get
  let present := errorCode.testBit 0
  let rw := errorCode.testBit 1
  let user := errorCode.testBit 2
  if present && rw && user then
    copyOnePage (.ofValue causalAddr)
  else if present then
    throw (.error .kAlreadyAllocated)
  else if task.dpagingBegin ≤ causalAddr && causalAddr < task.dpagingEnd then
    setupPageMaps (.ofValue causalAddr) 1 true
  else
    throw (.error .kIndexOutOfRange)

end KinOS.Paging
