import KinOS.Fs.Path

/-!
# `ReadState`: one read request at the file server

| here | there |
| --- | --- |
| `readName`             | `ReadName` (`servers/fs/fs.cpp:191-202`), the base name |
| `Server.readDir`       | the directory branches of `ReadState::HandleMessage` (`serverstate.cpp:297-341`, `346-394`) |
| `Emit.push`, `readBytes` | the `for` loop of the regular-file branch (`serverstate.cpp:413-430`) |
| `Server.readClusters`  | its `while` loop (`serverstate.cpp:408-433`) |
| `Server.readState`     | `ReadState::HandleMessage` with the reply that `InitState::SendMessage` sends |

A handler returns the server and the messages it sent to the application manager, in order. `none` is a run that
does not come to a reply: out of fuel, a null entry, or an access outside a buffer.
-/

namespace KinOS.Fs

open Bytes

/-- The message `sm_` with `sm_.type = Message::kRead`. -/
def Server.readMsg (s : Server) (sm : ReadArg) : Message := ⟨.kRead, s.id, .read sm⟩

/-! ## Directories -/

/-- `base`: the first eight bytes of the name, trailing blanks made 0, and the terminator. -/
def readName (m : Mem) (a : Nat) : List UInt8 :=
  let name := (List.range 8).map (entryName m a)
  let base := (name.reverse.dropWhile (· = 0x20)).reverse
  base ++ List.replicate (9 - base.length) 0

/-- `memcpy(&sm_.arg.read.data[0], &name[0], 9)`. -/
def setData (data : Vector UInt8 16) (bytes : List UInt8) : Vector UInt8 16 :=
  Vector.ofFn fun i => bytes.getD i (data.get i)

/-- The `while (1)` of the directory branches. -/
def Server.readDirLoop (s : Server) (readCluster offset : Nat) : Nat → Nat → Option (Server × List Message)
  | 0, _ => none
  | fuel + 1, entryIndex =>
    if s.vol.bpb.entriesPerCluster ≤ entryIndex then none
    else
      let name := readName s.clusterBuf (32 * entryIndex)
      if name.headD 0 = 0 then some (s, [])
      else if name.headD 0 = 0xe5 ∨ entryAttr s.clusterBuf (32 * entryIndex) = 0x0f then
        s.readDirLoop readCluster offset fuel (entryIndex + 1)
      else
        let entryIndex := entryIndex + 1
        let len := entryIndex + s.vol.bpb.entriesPerCluster * readCluster + 2 ^ 64 - offset
        let sm := { s.sm with
          data := setData s.sm.data name
          len := UInt8.ofNat len
          cluster := UInt32.ofNat readCluster }
        some ({ s with sm }, [s.readMsg sm])

/-- `for (int i = 0; i < read_cluster; ++i) cluster = NextCluster(cluster)`. -/
def Server.skipClusters : Nat → Server → Nat → Nat × Server
  | 0, s, cluster => (cluster, s)
  | n + 1, s, cluster =>
    let (next, s) := s.nextCluster cluster
    skipClusters n s next

def Server.readDir (fuel : Nat) (s : Server) (rm : ReadArg) (cluster : Nat) : Option (Server × List Message) :=
  let (cluster, s) := Server.skipClusters rm.cluster.toNat s cluster
  let n := s.vol.bpb.entriesPerCluster
  let offset := rm.offset.toNat
  let (readCluster, entryIndex) := if n ≤ offset then (offset / n, offset % n) else (rm.cluster.toNat, offset)
  if cluster ≠ 0 ∧ cluster ≠ 0x0fffffff then
    (s.readCluster cluster).readDirLoop readCluster offset fuel entryIndex
  else some (s, [])

/-! ## Regular files -/

/-- `sm_.arg.read`, `msg_offset` and the messages already sent. -/
structure Emit where
  sm : ReadArg
  msgOffset : Nat
  out : List Message

/-- `sm_.arg.read.len = msg_offset`, then the message is sent. -/
def Emit.flush (s : Server) (e : Emit) : Emit :=
  let sm := { e.sm with len := UInt8.ofNat e.msgOffset }
  ⟨sm, 0, e.out ++ [s.readMsg sm]⟩

/-- One byte into the message; a full message goes out. -/
def Emit.push (s : Server) (e : Emit) (b : UInt8) : Emit :=
  let e := { e with sm.data := e.sm.data.setIfInBounds e.msgOffset b, msgOffset := e.msgOffset + 1 }
  if e.msgOffset = 16 then e.flush s else e

/-- `total`, `sent_bytes` and the message under construction. -/
structure ReadVars where
  total : Nat
  sent : Nat
  emit : Emit

/-- The `for` loop, with at most `k` rounds to go. `p` moves only when a byte is taken, so the bytes taken from a
cluster are its first ones, whatever was skipped before. Returns `i` and the variables. -/
def readBytes (s : Server) (remain count readOffset : Nat) : Nat → Nat → Nat → ReadVars → Nat × ReadVars
  | 0, i, _, r => (i, r)
  | k + 1, i, p, r =>
    if i < remain ∧ r.sent < count then
      if readOffset ≤ r.total then
        readBytes s remain count readOffset k (i + 1) (p + 1)
          ⟨r.total + 1, r.sent + 1, r.emit.push s (s.clusterBuf p)⟩
      else readBytes s remain count readOffset k (i + 1) p { r with total := r.total + 1 }
    else (i, r)

/-- The `while` loop over the clusters of the file. -/
def Server.readClusters (count readOffset : Nat) : Nat → Server → Nat → Nat → ReadVars → Option (Server × ReadVars)
  | 0, _, _, _, _ => none
  | fuel + 1, s, cluster, remain, r =>
    if cluster ≠ 0 ∧ cluster ≠ 0x0fffffff ∧ r.sent < count then
      let s := s.readCluster cluster
      let (i, r) := readBytes s remain count readOffset s.vol.bpb.bytesPerCluster 0 0 r
      let (next, s) := s.nextCluster cluster
      readClusters count readOffset fuel s next (remain - i) r
    else some (s, r)

/-- The regular-file branch, for the entry at index `i` of the buffer. -/
def Server.readFile (fuel : Nat) (s : Server) (rm : ReadArg) (i : Nat) : Option (Server × List Message) :=
  (s.readClusters rm.count.toNat rm.offset.toNat fuel (firstCluster s.clusterBuf (32 * i))
      (entrySize s.clusterBuf (32 * i)) ⟨0, 0, s.sm, 0, []⟩).map fun (s, r) =>
    let emit := if r.emit.msgOffset ≠ 0 then r.emit.flush s else r.emit
    ({ s with sm := emit.sm }, emit.out)

/-- `finish`: the zero-length reply, sent by `InitState::SendMessage`. -/
def Server.readFinish (s : Server) (out : List Message) : Server × List Message :=
  let sm := { s.sm with len := 0 }
  ({ s with sm }, out ++ [s.readMsg sm])

/-- `ReadState::HandleMessage` and the `SendMessage` after it. -/
def Server.readState (fuel : Nat) (s : Server) (rm : ReadArg) : Option (Server × List Message) :=
  if rm.filename = [0x2f] then
    (s.readDir fuel rm s.vol.bpb.rootCluster.toNat).map fun (s, out) => s.readFinish out
  else
    match s.findFile fuel rm.filename 0 with
    | some (s, some i, _) =>
      (if entryAttr s.clusterBuf (32 * i) = kDirectory then s.readDir fuel rm (firstCluster s.clusterBuf (32 * i))
       else s.readFile fuel rm i).map fun (s, out) => s.readFinish out
    | _ => none

end KinOS.Fs
