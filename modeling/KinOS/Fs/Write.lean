import KinOS.Fs.Path

/-!
# `WriteState`: one write message at the file server

| here | there |
| --- | --- |
| `Server.extendCluster`        | `ExtendCluster` (`servers/fs/fs.cpp:259-288`) |
| `Server.allocateClusterChain` | `AllocateClusterChain` (`fs.cpp:290-305`) |
| `rawData`                     | the bytes of a message from `arg.write.data` on (`libs/common/message.hpp:144-152`) |
| `Server.writeState`           | `WriteState::HandleMessage` (`serverstate.cpp:452-515`) |

The FAT is only ever changed by the three steps load, set, write back; `Server.putFAT` names them.
-/

namespace KinOS.Fs

open Bytes

namespace Server

/-- `j = GetFAT(cluster); fat_[j] = v; UpdateFAT(cluster)`. -/
def putFAT (s : Server) (cluster v : Nat) : Server :=
  let (j, s) := s.getFAT cluster
  (s.setFatEntry j v).updateFAT cluster

/-- The first loop of `ExtendCluster`: the last cluster of the chain. -/
def chainEnd : Nat → Server → Nat → Option (Nat × Server)
  | 0, _, _ => none
  | fuel + 1, s, cluster =>
    let (index, s) := s.getFAT cluster
    if 0x0ffffff8 ≤ s.fatEntry index then some (cluster, s) else chainEnd fuel s (s.fatEntry index)

/-- Its second loop: link `todo` free clusters, from `candidate` up, behind `current`. -/
def linkFree : Nat → Server → Nat → Nat → Nat → Option (Nat × Server)
  | 0, _, _, _, _ => none
  | fuel + 1, s, candidate, current, todo =>
    if todo = 0 then some (current, s)
    else
      let (i, s) := s.getFAT candidate
      if s.fatEntry i ≠ 0 then linkFree fuel s (candidate + 1) current todo
      else linkFree fuel (s.putFAT current candidate) (candidate + 1) candidate (todo - 1)

def extendCluster (fuel : Nat) (s : Server) (eocCluster n : Nat) : Option (Nat × Server) :=
  (s.chainEnd fuel eocCluster).bind fun (eocCluster, s) =>
    (s.linkFree fuel 2 eocCluster n).map fun (current, s) => (current, s.putFAT current 0x0fffffff)

/-- The loop of `AllocateClusterChain`, with the `UpdateFAT` after it. -/
def firstFree : Nat → Server → Nat → Option (Nat × Server)
  | 0, _, _ => none
  | fuel + 1, s, candidate =>
    let (i, s) := s.getFAT candidate
    if s.fatEntry i = 0 then some (candidate, (s.setFatEntry i 0x0fffffff).updateFAT candidate)
    else firstFree fuel s (candidate + 1)

def allocateClusterChain (fuel : Nat) (s : Server) (n : Nat) : Option (Nat × Server) :=
  (s.firstFree fuel 2).bind fun (first, s) =>
    if 1 < n then (s.extendCluster fuel first (n - 1)).map fun (_, s) => (first, s) else some (first, s)

/-- The cluster after `cluster`, a new one at the end of the chain. -/
def advance (fuel : Nat) (s : Server) (cluster : Nat) : Option (Nat × Server) :=
  let (next, s) := s.nextCluster cluster
  if next = 0x0fffffff then s.extendCluster fuel cluster 1 else some (next, s)

/-- `for (int i = 0; i < cluster_off; ++i)`. -/
def advanceBy (fuel : Nat) : Nat → Server → Nat → Option (Nat × Server)
  | 0, s, cluster => some (cluster, s)
  | n + 1, s, cluster => (s.advance fuel cluster).bind fun (cluster, s) => advanceBy fuel n s cluster

end Server

/-- The message from `arg.write.data` on: `data`, `len`, three bytes of padding, `count`, `offset`, `cluster`. -/
def rawData (w : WriteArg) : Mem := fun j =>
  if j < 16 then w.data.toList.getD j 0
  else if j = 16 then w.len
  else if j < 20 then w.pad.toList.getD (j - 17) 0
  else if j < 24 then UInt8.ofNat (w.count.toNat / 256 ^ (j - 20))
  else if j < 28 then UInt8.ofNat (w.offset.toNat / 256 ^ (j - 24))
  else if j < 32 then UInt8.ofNat (w.cluster.toNat / 256 ^ (j - 28))
  else 0

namespace Server

/-- One cluster's part of the `while (data_off < len)` loop: `n` bytes of the message from `data_off` on, at
`write_off` of the cluster. -/
def putBytes (s : Server) (raw : Mem) (cluster writeOff dataOff n : Nat) : Server :=
  let s := s.readCluster cluster
  { s with clusterBuf := copy s.clusterBuf writeOff raw dataOff n }.updateCluster cluster

/-- The `while (data_off < len)` loop. The length of a round is `min(len, bytes_per_cluster_ - write_off)`, the whole
message's `len` also when part of it has been copied. -/
def writeBytes (F : Nat) (raw : Mem) (len : Nat) : Nat → Server → Nat → Nat → Nat → Option Server
  | 0, _, _, _, _ => none
  | fuel + 1, s, cluster, writeOff, dataOff =>
    if dataOff < len then
      let size := s.vol.bpb.bytesPerCluster
      let here : Option (Nat × Server × Nat) :=
        if writeOff = size then (s.advance F cluster).map fun (c, s) => (c, s, 0) else some (cluster, s, writeOff)
      here.bind fun (cluster, s, writeOff) =>
        let n := min len (size - writeOff)
        writeBytes F raw len fuel (s.putBytes raw cluster writeOff dataOff n) cluster (writeOff + n) (dataOff + n)
    else some s

/-- The first cluster of the entry at index `i` of the buffer; a file without clusters gets a chain, and its entry is
written back with it. -/
def openChain (fuel : Nat) (s : Server) (rm : WriteArg) (i : Nat) : Option (Nat × Server) :=
  let size := s.vol.bpb.bytesPerCluster
  if firstCluster s.clusterBuf (32 * i) ≠ 0 then some (firstCluster s.clusterBuf (32 * i), s)
  else
    (s.allocateClusterChain fuel ((rm.count.toNat + size - 1) / size)).map fun (cluster, s) =>
      let buf := store 2 s.clusterBuf (32 * i + 26) (cluster &&& 0xffff)
      let buf := store 2 buf (32 * i + 20) (cluster >>> 16 &&& 0xffff)
      (cluster, { s with clusterBuf := buf }.updateCluster 0)

/-- `WriteState::HandleMessage`. -/
def writeState (fuel : Nat) (s : Server) (rm : WriteArg) : Option Server :=
  match s.findFile fuel rm.filename 0 with
  | some (s, some i, _) =>
    (s.openChain fuel rm i).bind fun (cluster, s) =>
      if rm.len = 0 then
        some ({ s with clusterBuf := store 4 s.clusterBuf (32 * i + 28) rm.offset.toNat }.updateCluster 0)
      else
        let size := s.vol.bpb.bytesPerCluster
        (s.advanceBy fuel (rm.offset.toNat / size) cluster).bind fun (cluster, s) =>
          s.writeBytes fuel (rawData rm) rm.len.toNat fuel cluster (rm.offset.toNat % size) 0
  | _ => none

/-- The same with these bytes from `arg.write.data` on. -/
def writeStateFrom (fuel : Nat) (s : Server) (rm : WriteArg) (raw : Mem) : Option Server :=
  match s.findFile fuel rm.filename 0 with
  | some (s, some i, _) =>
    (s.openChain fuel rm i).bind fun (cluster, s) =>
      if rm.len = 0 then
        some ({ s with clusterBuf := store 4 s.clusterBuf (32 * i + 28) rm.offset.toNat }.updateCluster 0)
      else
        let size := s.vol.bpb.bytesPerCluster
        (s.advanceBy fuel (rm.offset.toNat / size) cluster).bind fun (cluster, s) =>
          s.writeBytes fuel raw rm.len.toNat fuel cluster (rm.offset.toNat % size) 0
  | _ => none

theorem writeStateFrom_rawData (fuel : Nat) (s : Server) (rm : WriteArg) :
    s.writeStateFrom fuel rm (rawData rm) = s.writeState fuel rm := rfl

end Server

end KinOS.Fs
