import KinOS.Lib.Bytes
import KinOS.Kernel.Basic

/-!
# The FAT32 volume and the file server's two windows on it

The file server sees the volume through two buffers. `fat_` holds one sector of the FAT, reloaded by every
`GetFAT` and written back by `UpdateFAT`; `cluster_buf_` holds one cluster, file data and directory data alike.

| here | there |
| --- | --- |
| `readImage`, `copyToImage` | `ReadImage`, `CopyToImage` (`kernel/system.cpp:405-419`) |
| `BPB`                      | `struct BPB` (`servers/fs/fs.hpp:14-42`), the fields the code or the layout of a volume reads |
| `Server`                   | `FileSystemServer` (`fs.hpp:71-135`) with the volume image behind its system calls |
| `Server.getFAT`, `Server.updateFAT`           | `fs.cpp:64-83` |
| `Server.nextCluster`                          | `fs.cpp:85-93` |
| `Server.readCluster`, `Server.updateCluster`  | `fs.cpp:95-121` |

`fatAt` and `byteAt` are the volume as its user thinks of it: a FAT entry for each cluster and the bytes of
each cluster. Every primitive is described by what it does to these two.
-/

namespace KinOS.Fs

open Bytes

/-! ## The volume -/

/-- The fields of `struct BPB` that the server reads, and `total_sectors_32`, which bounds the data area. -/
structure BPB where
  bytesPerSector : UInt16
  sectorsPerCluster : UInt8
  reservedSectorCount : UInt16
  numFats : UInt8
  totalSectors32 : UInt32
  fatSize32 : UInt32
  rootCluster : UInt32

/-- The volume image, with the parameter block that `Initialize` read from its first sector. -/
structure Volume where
  bpb : BPB
  image : Mem

/-- `ReadImage`: `SECTOR_SIZE` is 512 whatever the volume says. -/
def readImage (image buf : Mem) (offsetBySector lenBySector : Nat) : Mem :=
  copy buf 0 image (offsetBySector * 512) (lenBySector * 512)

def copyToImage (image buf : Mem) (offsetBySector lenBySector : Nat) : Mem :=
  copy image (offsetBySector * 512) buf 0 (lenBySector * 512)

/-- `bytes_per_cluster_`. -/
def BPB.bytesPerCluster (b : BPB) : Nat := b.bytesPerSector.toNat * b.sectorsPerCluster.toNat

/-- `reserved_sector_count + num_fats * fat_size_32`, computed in 32 bits. -/
def BPB.dataSector (b : BPB) : Nat :=
  (b.reservedSectorCount.toNat + b.numFats.toNat * b.fatSize32.toNat) % 2 ^ 32

/-- `sector_offset` of a cluster: `cluster - 2` and the rest of the sum are `unsigned long`. -/
def BPB.clusterSector (b : BPB) (cluster : Nat) : Nat :=
  (b.dataSector + (cluster + 2 ^ 64 - 2) % 2 ^ 64 * b.sectorsPerCluster.toNat) % 2 ^ 64

/-! ## The server -/

/-- The file server: its task id, which the kernel stamps on what it sends, its buffers, the number of the cluster
`cluster_buf_` was last loaded with, and `sm_.arg.read`, which keeps its stale bytes from one reply to the next. -/
structure Server where
  id : UInt64
  vol : Volume
  fat : Mem
  clusterBuf : Mem
  clusterNum : Nat
  sm : ReadArg

namespace Server

/-- `sizeof(uint32_t)` entries of the FAT in a sector. -/
def fatPerSector (s : Server) : Nat := s.vol.bpb.bytesPerSector.toNat / 4

/-- `GetFAT`: loads the FAT sector of `cluster` into `fat_` and returns the entry's index there. -/
def getFAT (s : Server) (cluster : Nat) : Nat × Server :=
  let sectorOffset := cluster / s.fatPerSector
  let fat := readImage s.vol.image s.fat (s.vol.bpb.reservedSectorCount.toNat + sectorOffset) 1
  (cluster - s.fatPerSector * sectorOffset, { s with fat })

/-- `UpdateFAT`: writes `fat_` back to the sector of `cluster`. -/
def updateFAT (s : Server) (cluster : Nat) : Server :=
  let sectorOffset := cluster / s.fatPerSector
  let image := copyToImage s.vol.image s.fat (s.vol.bpb.reservedSectorCount.toNat + sectorOffset) 1
  { s with vol := { s.vol with image } }

/-- `fat_[index]`. -/
def fatEntry (s : Server) (index : Nat) : Nat := load 4 s.fat (4 * index)

/-- `fat_[index] = v`. -/
def setFatEntry (s : Server) (index v : Nat) : Server := { s with fat := store 4 s.fat (4 * index) v }

def nextCluster (s : Server) (cluster : Nat) : Nat × Server :=
  let (index, s) := s.getFAT cluster
  let next := s.fatEntry index
  (if 0x0ffffff8 ≤ next then 0x0fffffff else next, s)

def readCluster (s : Server) (cluster : Nat) : Server :=
  { s with
    clusterNum := cluster
    clusterBuf := readImage s.vol.image s.clusterBuf (s.vol.bpb.clusterSector cluster)
      s.vol.bpb.sectorsPerCluster.toNat }

/-- `UpdateCluster`: cluster 0, the default, is the one last loaded. -/
def updateCluster (s : Server) (cluster : Nat) : Server :=
  let cluster := if cluster = 0 then s.clusterNum else cluster
  let image := copyToImage s.vol.image s.clusterBuf (s.vol.bpb.clusterSector cluster)
    s.vol.bpb.sectorsPerCluster.toNat
  { s with vol := { s.vol with image } }

end Server

/-! ## The layout of a well-formed volume -/

/-- One past the last cluster number: the data area holds `top - 2` clusters. -/
def BPB.top (b : BPB) : Nat :=
  (b.totalSectors32.toNat - (b.reservedSectorCount.toNat + b.numFats.toNat * b.fatSize32.toNat)) /
    b.sectorsPerCluster.toNat + 2

/-- A FAT32 layout with 512-byte sectors: the FATs end where the data area starts, the data area lies inside the
volume, the FAT has an entry for each of its clusters and no cluster number is an end mark. -/
structure BPB.Geometry (b : BPB) : Prop where
  sector : b.bytesPerSector = 512
  cluster : 0 < b.sectorsPerCluster.toNat
  fats : 0 < b.numFats.toNat
  inside : b.reservedSectorCount.toNat + b.numFats.toNat * b.fatSize32.toNat ≤ b.totalSectors32.toNat
  entries : b.top ≤ 128 * b.fatSize32.toNat
  marks : b.top ≤ 0x0ffffff8

/-- A cluster of the data area. -/
def BPB.Valid (b : BPB) (c : Nat) : Prop := 2 ≤ c ∧ c < b.top

instance (b : BPB) (c : Nat) : Decidable (b.Valid c) := inferInstanceAs (Decidable (_ ∧ _))

def BPB.fatAddr (b : BPB) (c : Nat) : Nat := 512 * b.reservedSectorCount.toNat + 4 * c

def BPB.clusterAddr (b : BPB) (c : Nat) : Nat :=
  512 * (b.reservedSectorCount.toNat + b.numFats.toNat * b.fatSize32.toNat) + (c - 2) * b.bytesPerCluster

namespace Volume

/-- The FAT entry of a cluster. -/
def fatAt (v : Volume) (c : Nat) : Nat := load 4 v.image (v.bpb.fatAddr c)

/-- What `NextCluster` makes of it: every end mark is the same. -/
def next (v : Volume) (c : Nat) : Nat := if 0x0ffffff8 ≤ v.fatAt c then 0x0fffffff else v.fatAt c

/-- Byte `j` of a cluster. -/
def byteAt (v : Volume) (c j : Nat) : UInt8 := v.image (v.bpb.clusterAddr c + j)

/-- The volume with one FAT entry replaced. -/
def setFat (v : Volume) (c x : Nat) : Volume := { v with image := store 4 v.image (v.bpb.fatAddr c) x }

/-- The volume with one cluster replaced. -/
def setCluster (v : Volume) (c : Nat) (buf : Mem) : Volume :=
  { v with image := copy v.image (v.bpb.clusterAddr c) buf 0 v.bpb.bytesPerCluster }

end Volume

namespace BPB.Geometry

variable {b : BPB}

theorem bytesPerCluster_eq (h : b.Geometry) : b.bytesPerCluster = 512 * b.sectorsPerCluster.toNat := by
  rw [BPB.bytesPerCluster, h.sector]
  rfl

theorem bytesPerCluster_ge (h : b.Geometry) : 512 ≤ b.bytesPerCluster := by
  have := h.cluster
  rw [h.bytesPerCluster_eq]
  omega

theorem clusterSector_eq (h : b.Geometry) {c : Nat} (hc : b.Valid c) :
    b.clusterSector c * 512 = b.clusterAddr c := by
  have hin := h.inside
  have hts := b.totalSectors32.toNat_lt
  have hspc := b.sectorsPerCluster.toNat_lt
  have hm := h.marks
  obtain ⟨h2, htop⟩ := hc
  have hdata : b.dataSector = b.reservedSectorCount.toNat + b.numFats.toNat * b.fatSize32.toNat :=
    Nat.mod_eq_of_lt (by omega)
  have hsub : (c + 2 ^ 64 - 2) % 2 ^ 64 = c - 2 := by omega
  have hmul : (c - 2) * b.sectorsPerCluster.toNat ≤ 0x0ffffff8 * 256 := Nat.mul_le_mul (by omega) (by omega)
  rw [BPB.clusterSector, hsub, hdata, Nat.mod_eq_of_lt (by omega), BPB.clusterAddr, h.bytesPerCluster_eq,
    Nat.add_mul, Nat.mul_comm 512, Nat.mul_comm 512, Nat.mul_assoc]

/-- The FAT ends before the first cluster. -/
theorem fat_before (h : b.Geometry) {c : Nat} (hc : c < b.top) (c' : Nat) : b.fatAddr c + 4 ≤ b.clusterAddr c' := by
  have he := h.entries
  have hf : b.fatSize32.toNat ≤ b.numFats.toNat * b.fatSize32.toNat := Nat.le_mul_of_pos_left _ h.fats
  unfold BPB.fatAddr BPB.clusterAddr
  omega

/-- Distinct clusters do not overlap. -/
theorem clusters_apart {c c' : Nat} (hc : b.Valid c) (hc' : b.Valid c') (hne : c ≠ c') :
    b.clusterAddr c + b.bytesPerCluster ≤ b.clusterAddr c' ∨
      b.clusterAddr c' + b.bytesPerCluster ≤ b.clusterAddr c := by
  have key : ∀ x y : Nat, x < y → x * b.bytesPerCluster + b.bytesPerCluster ≤ y * b.bytesPerCluster := by
    intro x y hxy
    have := Nat.mul_le_mul_right b.bytesPerCluster (show x + 1 ≤ y from hxy)
    rwa [Nat.add_mul, Nat.one_mul] at this
  obtain ⟨h2, -⟩ := hc
  obtain ⟨h2', -⟩ := hc'
  unfold BPB.clusterAddr
  rcases Nat.lt_or_gt_of_ne hne with hlt | hgt
  · have := key (c - 2) (c' - 2) (by omega)
    omega
  · have := key (c' - 2) (c - 2) (by omega)
    omega

end BPB.Geometry

/-! ## Changing a FAT entry and changing a cluster -/

namespace Volume

variable {v : Volume}

@[simp] theorem setFat_bpb (v : Volume) (c x : Nat) : (v.setFat c x).bpb = v.bpb := rfl
@[simp] theorem setCluster_bpb (v : Volume) (c : Nat) (buf : Mem) : (v.setCluster c buf).bpb = v.bpb := rfl

theorem fatAt_setFat_self {c x : Nat} (hx : x < 2 ^ 32) : (v.setFat c x).fatAt c = x :=
  load_store_self hx

theorem fatAt_setFat_other {c c' x : Nat} (h : c' ≠ c) : (v.setFat c x).fatAt c' = v.fatAt c' := by
  refine load_store_other ?_
  simp only [setFat_bpb, BPB.fatAddr]
  omega

theorem byteAt_setFat (hg : v.bpb.Geometry) {c c' x : Nat} (hc : c < v.bpb.top) (j : Nat) :
    (v.setFat c x).byteAt c' j = v.byteAt c' j := by
  have := hg.fat_before hc c'
  exact store_outside (by simp only [setFat_bpb]; omega)

theorem fatAt_setCluster (hg : v.bpb.Geometry) {c c' : Nat} {buf : Mem} (hc' : c' < v.bpb.top) :
    (v.setCluster c buf).fatAt c' = v.fatAt c' := by
  have := hg.fat_before hc' c
  exact load_copy_outside (by simp only [setCluster_bpb]; omega)

theorem byteAt_setCluster_self {c j : Nat} {buf : Mem} (hj : j < v.bpb.bytesPerCluster) :
    (v.setCluster c buf).byteAt c j = buf j := by
  have := @copy_inside v.image buf (v.bpb.clusterAddr c) 0 _ _ hj
  rwa [Nat.zero_add] at this

theorem byteAt_setCluster_other {c c' j : Nat} {buf : Mem} (hc : v.bpb.Valid c) (hc' : v.bpb.Valid c')
    (hne : c' ≠ c) (hj : j < v.bpb.bytesPerCluster) : (v.setCluster c buf).byteAt c' j = v.byteAt c' j := by
  have := BPB.Geometry.clusters_apart hc hc' (Ne.symm hne)
  exact copy_outside (by simp only [setCluster_bpb]; omega)

end Volume

/-! ## What each primitive does -/

namespace Server

variable {s : Server}

theorem fatPerSector_eq (hg : s.vol.bpb.Geometry) : s.fatPerSector = 128 := by
  rw [fatPerSector, hg.sector]
  rfl

@[simp] theorem getFAT_vol (s : Server) (c : Nat) : (s.getFAT c).2.vol = s.vol := rfl
@[simp] theorem getFAT_clusterBuf (s : Server) (c : Nat) : (s.getFAT c).2.clusterBuf = s.clusterBuf := rfl
@[simp] theorem getFAT_clusterNum (s : Server) (c : Nat) : (s.getFAT c).2.clusterNum = s.clusterNum := rfl
@[simp] theorem getFAT_sm (s : Server) (c : Nat) : (s.getFAT c).2.sm = s.sm := rfl

theorem getFAT_index (hg : s.vol.bpb.Geometry) (c : Nat) : (s.getFAT c).1 = c % 128 := by
  simp only [getFAT, fatPerSector_eq hg]
  omega

/-- **The window shows the entry.** -/
theorem getFAT_entry (hg : s.vol.bpb.Geometry) (c : Nat) :
    (s.getFAT c).2.fatEntry (s.getFAT c).1 = s.vol.fatAt c := by
  rw [getFAT_index hg, fatEntry, Volume.fatAt]
  simp only [getFAT, readImage, fatPerSector_eq hg]
  have h := @load_copy_inside 4 s.fat s.vol.image 0 ((s.vol.bpb.reservedSectorCount.toNat + c / 128) * 512) (1 * 512)
    (4 * (c % 128)) (by omega)
  rw [Nat.zero_add] at h
  rw [h]
  congr 1
  unfold BPB.fatAddr
  omega

theorem nextCluster_fst (hg : s.vol.bpb.Geometry) (c : Nat) : (s.nextCluster c).1 = s.vol.next c := by
  simp only [nextCluster, getFAT_entry hg, Volume.next]

@[simp] theorem nextCluster_vol (s : Server) (c : Nat) : (s.nextCluster c).2.vol = s.vol := rfl
@[simp] theorem nextCluster_clusterBuf (s : Server) (c : Nat) : (s.nextCluster c).2.clusterBuf = s.clusterBuf := rfl
@[simp] theorem nextCluster_clusterNum (s : Server) (c : Nat) : (s.nextCluster c).2.clusterNum = s.clusterNum := rfl
@[simp] theorem nextCluster_sm (s : Server) (c : Nat) : (s.nextCluster c).2.sm = s.sm := rfl

/-- Load, change, write back: exactly that FAT entry changes. -/
theorem updateFAT_vol (hg : s.vol.bpb.Geometry) (c x : Nat) :
    (((s.getFAT c).2.setFatEntry (s.getFAT c).1 x).updateFAT c).vol = s.vol.setFat c x := by
  have hps : ((s.getFAT c).2.setFatEntry (s.getFAT c).1 x).fatPerSector = 128 := fatPerSector_eq hg
  have h := @copy_store_copy s.vol.image s.fat ((s.vol.bpb.reservedSectorCount.toNat + c / 128) * 512) (1 * 512) 4
    (4 * (c % 128)) x (by omega)
  rw [updateFAT, hps, setFatEntry, getFAT_index hg]
  simp only [getFAT, readImage, copyToImage, fatPerSector_eq hg, Volume.setFat, h]
  congr 2
  unfold BPB.fatAddr
  omega

@[simp] theorem readCluster_vol (s : Server) (c : Nat) : (s.readCluster c).vol = s.vol := rfl
@[simp] theorem readCluster_clusterNum (s : Server) (c : Nat) : (s.readCluster c).clusterNum = c := rfl
@[simp] theorem readCluster_sm (s : Server) (c : Nat) : (s.readCluster c).sm = s.sm := rfl

theorem readCluster_buf (hg : s.vol.bpb.Geometry) {c j : Nat} (hc : s.vol.bpb.Valid c)
    (hj : j < s.vol.bpb.bytesPerCluster) : (s.readCluster c).clusterBuf j = s.vol.byteAt c j := by
  rw [hg.bytesPerCluster_eq] at hj
  have h := @copy_inside s.clusterBuf s.vol.image 0 (s.vol.bpb.clusterSector c * 512)
    (s.vol.bpb.sectorsPerCluster.toNat * 512) j (by omega)
  rw [Nat.zero_add, hg.clusterSector_eq hc] at h
  simp only [readCluster, readImage, hg.clusterSector_eq hc, h, Volume.byteAt]

theorem updateCluster_vol (hg : s.vol.bpb.Geometry) {c : Nat} (hc : s.vol.bpb.Valid c) :
    (s.updateCluster c).vol = s.vol.setCluster c s.clusterBuf := by
  have h0 : c ≠ 0 := by
    obtain ⟨h2, -⟩ := hc
    omega
  simp only [updateCluster, if_neg h0, copyToImage, Volume.setCluster, hg.clusterSector_eq hc]
  rw [hg.bytesPerCluster_eq, Nat.mul_comm 512]

@[simp] theorem updateCluster_clusterBuf (s : Server) (c : Nat) : (s.updateCluster c).clusterBuf = s.clusterBuf := by
  rw [updateCluster]

@[simp] theorem updateCluster_clusterNum (s : Server) (c : Nat) : (s.updateCluster c).clusterNum = s.clusterNum := by
  rw [updateCluster]

/-- The default argument writes back the cluster that was loaded. -/
theorem updateCluster_zero_vol (hg : s.vol.bpb.Geometry) {c : Nat} (h : s.clusterNum = c) (hc : s.vol.bpb.Valid c) :
    (s.updateCluster 0).vol = s.vol.setCluster c s.clusterBuf := by
  subst h
  rw [← updateCluster_vol hg hc]
  simp only [updateCluster, if_true, ite_self]

end Server

/-! ## Cluster chains -/

/-- The clusters are linked in order and the last one holds an end mark. -/
def Linked (v : Volume) : List Nat → Prop
  | [] => True
  | [c] => 0x0ffffff8 ≤ v.fatAt c
  | c :: d :: cs => v.fatAt c = d ∧ Linked v (d :: cs)

/-- `cs` is the chain of a file whose entry names `first` as its first cluster; a file without clusters
names 0. -/
structure IsChain (v : Volume) (first : Nat) (cs : List Nat) : Prop where
  head : cs.headD 0 = first
  valid : ∀ c ∈ cs, v.bpb.Valid c
  nodup : cs.Nodup
  linked : Linked v cs

/-- Byte `k` along a chain. -/
def Volume.chainByte (v : Volume) (cs : List Nat) (k : Nat) : UInt8 :=
  v.byteAt (cs.getD (k / v.bpb.bytesPerCluster) 0) (k % v.bpb.bytesPerCluster)

theorem Volume.chainByte_head {v : Volume} {c : Nat} {cs : List Nat} {k : Nat} (h : k < v.bpb.bytesPerCluster) :
    v.chainByte (c :: cs) k = v.byteAt c k := by
  rw [chainByte, Nat.div_eq_of_lt h, Nat.mod_eq_of_lt h]
  rfl

theorem Volume.chainByte_tail {v : Volume} (hg : v.bpb.Geometry) (c : Nat) (cs : List Nat) (k : Nat) :
    v.chainByte (c :: cs) (v.bpb.bytesPerCluster + k) = v.chainByte cs k := by
  have := hg.bytesPerCluster_ge
  rw [chainByte, chainByte, Nat.add_div_left _ (by omega), Nat.add_mod_left, List.getD_cons_succ]

theorem Linked.tail {v : Volume} {c : Nat} : ∀ {cs : List Nat}, Linked v (c :: cs) → Linked v cs
  | [], _ => trivial
  | _ :: _, h => h.2

theorem Linked.suffix {v : Volume} {cs : List Nat} : ∀ {pre : List Nat}, Linked v (pre ++ cs) → Linked v cs
  | [], h => h
  | _ :: _, h => suffix h.tail

/-- The variable `cluster` stands at the start of this chain, or at its end if there is nothing left. -/
def Starts : Nat → List Nat → Prop
  | c, [] => c = 0 ∨ c = 0x0fffffff
  | c, d :: _ => c = d

theorem IsChain.starts {v : Volume} {first : Nat} : ∀ {cs : List Nat}, IsChain v first cs → Starts first cs
  | [], h => .inl h.head.symm
  | _ :: _, h => h.head.symm

/-- `NextCluster` moves on to the rest of the chain. -/
theorem Linked.starts_next {v : Volume} (hg : v.bpb.Geometry) {c : Nat} : ∀ {cs : List Nat}, Linked v (c :: cs) →
    (∀ d ∈ cs, v.bpb.Valid d) → Starts (v.next c) cs
  | [], h, _ => .inr (if_pos h)
  | d :: _, h, hv => by
    have hd := (hv d (List.mem_cons_self ..)).2
    have hm := hg.marks
    have hn : v.next c = v.fatAt c := if_neg (by rw [h.1]; omega)
    exact hn.trans h.1

/-- A cluster of the data area is neither of the values that stop a walk. -/
theorem BPB.Valid.ne {b : BPB} {c : Nat} (hg : b.Geometry) (h : b.Valid c) : c ≠ 0 ∧ c ≠ 0x0fffffff := by
  have := hg.marks
  obtain ⟨h2, ht⟩ := h
  omega

end KinOS.Fs
