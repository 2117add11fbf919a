import KinOS.Fs.Volume

/-!
# Directory entries and `FindFile`

| here | there |
| --- | --- |
| `entryName`, `entryAttr`, `entrySize`, `firstCluster` | `struct DirectoryEntry` (`servers/fs/fs.hpp:53-69`) |
| `nameIsEqual`      | `NameIsEqual` (`fs.cpp:123-137`) |
| `nextPathElement`  | `NextPathElement` (`fs.cpp:139-151`) |
| `Server.findFile`  | `FindFile` (`fs.cpp:153-189`) |

`FindFile` is recursive in the path and loops over the clusters of each directory. `findStart` is what a call does
before its loop, `findLoop` is the loop; a match on a directory with path left restarts it on the rest.
`lookup` is the same search on the volume alone, with the directory slots it went through: what is found is decided
by the image and not by what the buffers held.
-/

namespace KinOS.Fs

open Bytes

/-! ## Directory entries -/

/-- `dir[i].name[j]` in the entry at address `a`. -/
def entryName (m : Mem) (a j : Nat) : UInt8 := m (a + j)

def entryAttr (m : Mem) (a : Nat) : UInt8 := m (a + 11)

def entrySize (m : Mem) (a : Nat) : Nat := load 4 m (a + 28)

/-- `FirstCluster`: `first_cluster_low | first_cluster_high << 16`. -/
def firstCluster (m : Mem) (a : Nat) : Nat := load 2 m (a + 26) ||| load 2 m (a + 20) <<< 16

/-- `Attribute::kDirectory`. -/
def kDirectory : UInt8 := 0x10

/-- Entries of a directory in one cluster. -/
def BPB.entriesPerCluster (b : BPB) : Nat := b.bytesPerCluster / 32

theorem firstCluster_eq (m : Mem) (a : Nat) :
    firstCluster m a = load 2 m (a + 20) * 2 ^ 16 + load 2 m (a + 26) := by
  have h := Nat.shiftLeft_add_eq_or_of_lt (b := load 2 m (a + 26)) (i := 16) (load_lt 2 _ _) (load 2 m (a + 20))
  rw [firstCluster, Nat.or_comm, ← h, Nat.shiftLeft_eq]

/-! ## Names and paths -/

/-- `toupper` in the C locale. -/
def toupper (c : UInt8) : UInt8 := if 0x61 ≤ c ∧ c ≤ 0x7a then c - 0x20 else c

/-- The loop of `NameIsEqual`. A dot sets `i83` to 7, and the loop's own increment makes it 8. -/
def name83 : List UInt8 → Nat → List UInt8 → List UInt8
  | [], _, name => name
  | ch :: rest, i83, name =>
    if i83 < 11 then
      if ch = 0x2e then name83 rest 8 name else name83 rest (i83 + 1) (name.set i83 (toupper ch))
    else name

def nameIsEqual (m : Mem) (a : Nat) (name : List UInt8) : Bool :=
  let full := name83 name 0 (List.replicate 11 0x20)
  (List.range 11).all fun j => entryName m a j == full.getD j 0

/-- `NextPathElement`: the element before the first slash, and what follows the slash. -/
def nextPathElement (path : List UInt8) : List UInt8 × Option (List UInt8) :=
  (path.takeWhile (· ≠ 0x2f), if 0x2f ∈ path then some (path.dropWhile (· ≠ 0x2f)).tail else none)

/-- The locals of `FindFile` when its loop starts. -/
structure Cursor where
  dir : Nat
  elem : List UInt8
  nextPath : List UInt8
  pathLast : Bool
  postSlash : Bool
deriving DecidableEq

/-- `FindFile` up to its loop; `none` when the element does not fit into `char path_elem[13]`. -/
def findStart (b : BPB) (path : List UInt8) (dir : Nat) : Option Cursor :=
  let (dir, path) := match path with
    | 0x2f :: rest => (b.rootCluster.toNat, rest)
    | path => (if dir = 0 then b.rootCluster.toNat else dir, path)
  let (elem, next) := nextPathElement path
  if 12 < elem.length then none
  else some { dir, elem, nextPath := next.getD [], pathLast := next.getD [] = [], postSlash := next.isSome }

/-- The first entry of a cluster's buffer that has the name. The test `dir[i].name == 0x00` compares the address of
the array, so an end marker does not stop the scan. -/
def scanEntries (m : Mem) (n : Nat) (elem : List UInt8) : Option Nat :=
  (List.range n).find? fun i => nameIsEqual m (32 * i) elem

/-- The loop of `FindFile`. The entry found is the one at this index of `cluster_buf_`. -/
def Server.findLoop : Nat → Server → Cursor → Option (Server × Option Nat × Bool)
  | 0, _, _ => none
  | fuel + 1, s, cur =>
    if cur.dir = 0x0fffffff then some (s, none, cur.postSlash)
    else
      let s := s.readCluster cur.dir
      match scanEntries s.clusterBuf s.vol.bpb.entriesPerCluster cur.elem with
      | some i =>
        if entryAttr s.clusterBuf (32 * i) = kDirectory ∧ cur.pathLast = false then
          (findStart s.vol.bpb cur.nextPath (firstCluster s.clusterBuf (32 * i))).bind (findLoop fuel s)
        else some (s, some i, cur.postSlash)
      | none =>
        let (next, s) := s.nextCluster cur.dir
        findLoop fuel s { cur with dir := next }

def Server.findFile (fuel : Nat) (s : Server) (path : List UInt8) (dir : Nat) :
    Option (Server × Option Nat × Bool) :=
  (findStart s.vol.bpb path dir).bind (s.findLoop fuel)

/-! ## The search on the volume -/

/-- A place for a directory entry: a cluster and an index in it. -/
abbrev Slot := Nat × Nat

/-- What `ReadCluster` loads, whether or not the cluster is one of the data area. -/
def Volume.cluster (v : Volume) (c : Nat) : Mem := fun j => v.image (v.bpb.clusterSector c * 512 + j)

def Volume.attr (v : Volume) (e : Slot) : UInt8 := entryAttr (v.cluster e.1) (32 * e.2)

def Volume.first (v : Volume) (e : Slot) : Nat := firstCluster (v.cluster e.1) (32 * e.2)

def Volume.size (v : Volume) (e : Slot) : Nat := entrySize (v.cluster e.1) (32 * e.2)

/-- `FindFile` on the volume: the directories it enters and the entry it returns. -/
def lookup (v : Volume) : Nat → Cursor → Option (List Slot × Option Slot)
  | 0, _ => none
  | fuel + 1, cur =>
    if cur.dir = 0x0fffffff then some ([], none)
    else
      match scanEntries (v.cluster cur.dir) v.bpb.entriesPerCluster cur.elem with
      | some i =>
        if v.attr (cur.dir, i) = kDirectory ∧ cur.pathLast = false then
          ((findStart v.bpb cur.nextPath (v.first (cur.dir, i))).bind (lookup v fuel)).map
            fun r => ((cur.dir, i) :: r.1, r.2)
        else some ([], some (cur.dir, i))
      | none => lookup v fuel { cur with dir := v.next cur.dir }

theorem Volume.cluster_eq {v : Volume} (hg : v.bpb.Geometry) {c : Nat} (hc : v.bpb.Valid c) (j : Nat) :
    v.cluster c j = v.byteAt c j := by
  rw [Volume.cluster, hg.clusterSector_eq hc, Volume.byteAt]

/-! ## Buffers that agree show the same entries -/

theorem nameIsEqual_congr {m m' : Mem} {a : Nat} {name : List UInt8} (h : ∀ j < 11, m (a + j) = m' (a + j)) :
    nameIsEqual m a name = nameIsEqual m' a name := by
  have hj : ∀ j ∈ List.range 11, (entryName m a j == (name83 name 0 (List.replicate 11 0x20)).getD j 0) =
      (entryName m' a j == (name83 name 0 (List.replicate 11 0x20)).getD j 0) := by
    intro j hj
    rw [entryName, entryName, h j (List.mem_range.mp hj)]
  simp only [nameIsEqual]
  rw [Bool.eq_iff_iff, List.all_eq_true, List.all_eq_true]
  constructor
  · intro ha j hm
    rw [← hj j hm]
    exact ha j hm
  · intro ha j hm
    rw [hj j hm]
    exact ha j hm

theorem scanEntries_congr {m m' : Mem} {elem : List UInt8} :
    ∀ {n : Nat}, (∀ i < n, ∀ j < 11, m (32 * i + j) = m' (32 * i + j)) → scanEntries m n elem = scanEntries m' n elem
  | 0, _ => rfl
  | n + 1, h => by
    have ih := @scanEntries_congr m m' elem n fun i hi => h i (by omega)
    unfold scanEntries at ih ⊢
    rw [List.range_succ, List.find?_append, List.find?_append, ih]
    simp only [List.find?_cons, List.find?_nil, nameIsEqual_congr (h n (by omega))]

theorem scanEntries_some {m : Mem} {n i : Nat} {elem : List UInt8} (h : scanEntries m n elem = some i) :
    i < n ∧ nameIsEqual m (32 * i) elem = true :=
  ⟨List.mem_range.mp (List.mem_of_find?_eq_some h),
    List.find?_some (p := fun i => nameIsEqual m (32 * i) elem) h⟩

theorem firstCluster_congr {m m' : Mem} {a : Nat} (h : ∀ j < 32, m (a + j) = m' (a + j)) :
    firstCluster m a = firstCluster m' a := by
  have h1 : load 2 m (a + 26) = load 2 m' (a + 26) := load_congr fun i hi => by
    rw [Nat.add_assoc, h (26 + i) (by omega)]
  have h2 : load 2 m (a + 20) = load 2 m' (a + 20) := load_congr fun i hi => by
    rw [Nat.add_assoc, h (20 + i) (by omega)]
  rw [firstCluster, firstCluster, h1, h2]

theorem entrySize_congr {m m' : Mem} {a : Nat} (h : ∀ j < 32, m (a + j) = m' (a + j)) :
    entrySize m a = entrySize m' a :=
  load_congr fun i hi => by rw [Nat.add_assoc, h (28 + i) (by omega)]

/-! ## `FindFile` is `lookup` -/

/-- The buffer holds this cluster of the volume. -/
structure Server.Loaded (s : Server) (c : Nat) : Prop where
  num : s.clusterNum = c
  buf : ∀ j < s.vol.bpb.bytesPerCluster, s.clusterBuf j = s.vol.cluster c j

namespace Server

variable {s : Server}

theorem readCluster_loaded (hg : s.vol.bpb.Geometry) (c : Nat) : (s.readCluster c).Loaded c where
  num := rfl
  buf j hj := by
    rw [readCluster_vol, hg.bytesPerCluster_eq] at hj
    have h := @copy_inside s.clusterBuf s.vol.image 0 (s.vol.bpb.clusterSector c * 512)
      (s.vol.bpb.sectorsPerCluster.toNat * 512) j (by omega)
    rwa [Nat.zero_add] at h

theorem index_bound {b : BPB} {i : Nat} (h : i < b.entriesPerCluster) : 32 * i + 32 ≤ b.bytesPerCluster := by
  unfold BPB.entriesPerCluster at h
  omega

theorem Loaded.entry {c i : Nat} (hl : s.Loaded c) (hi : i < s.vol.bpb.entriesPerCluster) :
    ∀ j < 32, s.clusterBuf (32 * i + j) = s.vol.cluster c (32 * i + j) := by
  intro j hj
  refine hl.buf _ ?_
  unfold BPB.entriesPerCluster at hi
  omega

theorem Loaded.scan {c : Nat} (hl : s.Loaded c) (elem : List UInt8) :
    scanEntries s.clusterBuf s.vol.bpb.entriesPerCluster elem =
      scanEntries (s.vol.cluster c) s.vol.bpb.entriesPerCluster elem :=
  scanEntries_congr fun _ hi j hj => hl.entry hi j (by omega)

theorem Loaded.attr {c i : Nat} (hl : s.Loaded c) (hi : i < s.vol.bpb.entriesPerCluster) :
    entryAttr s.clusterBuf (32 * i) = s.vol.attr (c, i) :=
  hl.entry hi 11 (by omega)

theorem Loaded.first {c i : Nat} (hl : s.Loaded c) (hi : i < s.vol.bpb.entriesPerCluster) :
    firstCluster s.clusterBuf (32 * i) = s.vol.first (c, i) :=
  firstCluster_congr (hl.entry hi)

theorem Loaded.size {c i : Nat} (hl : s.Loaded c) (hi : i < s.vol.bpb.entriesPerCluster) :
    entrySize s.clusterBuf (32 * i) = s.vol.size (c, i) :=
  entrySize_congr (hl.entry hi)

/-- What the server is after a search: the volume and the pending reply as before, and the cluster of the entry
in the buffer. -/
structure Found (s s' : Server) (e : Slot) : Prop where
  vol : s'.vol = s.vol
  sm : s'.sm = s.sm
  loaded : s'.Loaded e.1
  index : e.2 < s.vol.bpb.entriesPerCluster

/-- The loop's result is the one the volume determines. -/
def Answers (s : Server) : Option (List Slot × Option Slot) → Option (Server × Option Nat × Bool) → Prop
  | none, r => r = none
  | some (_, none), r => ∃ s' p, r = some (s', none, p) ∧ s'.vol = s.vol ∧ s'.sm = s.sm
  | some (_, some e), r => ∃ s' p, r = some (s', some e.2, p) ∧ Found s s' e

theorem Answers.of_eq {t : Server} (hv : t.vol = s.vol) (hsm : t.sm = s.sm) :
    ∀ {l : Option (List Slot × Option Slot)} {r : Option (Server × Option Nat × Bool)}, Answers t l r → Answers s l r
  | none, _, h => h
  | some (_, none), _, ⟨s', p, he, hv', hsm'⟩ => ⟨s', p, he, hv'.trans hv, hsm'.trans hsm⟩
  | some (_, some _), _, ⟨s', p, he, hf⟩ =>
    ⟨s', p, he, hf.vol.trans hv, hf.sm.trans hsm, hf.loaded, by rw [← hv]; exact hf.index⟩

theorem Answers.enter {e : Slot} : ∀ {l : Option (List Slot × Option Slot)} {r : Option (Server × Option Nat × Bool)},
    Answers s l r → Answers s (l.map fun r => (e :: r.1, r.2)) r
  | none, _, h => h
  | some (_, none), _, h => h
  | some (_, some _), _, h => h

theorem findLoop_lookup : ∀ (fuel : Nat) {s : Server} {cur : Cursor}, s.vol.bpb.Geometry →
    Answers s (lookup s.vol fuel cur) (s.findLoop fuel cur)
  | 0, _, _, _ => rfl
  | fuel + 1, s, cur, hg => by
    rw [lookup, findLoop]
    by_cases hend : cur.dir = 0x0fffffff
    · rw [if_pos hend, if_pos hend]
      exact ⟨s, cur.postSlash, rfl, rfl, rfl⟩
    rw [if_neg hend, if_neg hend]
    have hl := readCluster_loaded hg cur.dir
    have hscan := hl.scan cur.elem
    simp only [readCluster_vol] at hscan ⊢
    rw [hscan]
    cases hm : scanEntries (s.vol.cluster cur.dir) s.vol.bpb.entriesPerCluster cur.elem with
    | none =>
      have ih := @findLoop_lookup fuel ((s.readCluster cur.dir).nextCluster cur.dir).2
        { cur with dir := s.vol.next cur.dir } hg
      have hnext : ((s.readCluster cur.dir).nextCluster cur.dir).1 = s.vol.next cur.dir := nextCluster_fst hg _
      simp only [hnext]
      exact Answers.of_eq (s := s) (t := ((s.readCluster cur.dir).nextCluster cur.dir).2) rfl rfl ih
    | some i =>
      have hi := (scanEntries_some hm).1
      have hattr := hl.attr hi
      have hfirst := hl.first hi
      simp only [readCluster_vol] at hattr hfirst
      simp only [hattr, hfirst]
      by_cases hd : s.vol.attr (cur.dir, i) = kDirectory ∧ cur.pathLast = false
      · rw [if_pos hd, if_pos hd]
        cases hst : findStart s.vol.bpb cur.nextPath (s.vol.first (cur.dir, i)) with
        | none => rfl
        | some cur' =>
          have ih := @findLoop_lookup fuel (s.readCluster cur.dir) cur' hg
          exact (Answers.of_eq (s := s) (t := s.readCluster cur.dir) rfl rfl ih).enter
      · rw [if_neg hd, if_neg hd]
        exact ⟨_, cur.postSlash, rfl, rfl, rfl, hl, hi⟩

/-- **What `FindFile` returns is on the volume.** -/
theorem findFile_lookup (hg : s.vol.bpb.Geometry) {fuel : Nat} {path : List UInt8} {cur : Cursor} {ds : List Slot}
    {e : Slot} (hs : findStart s.vol.bpb path 0 = some cur) (hl : lookup s.vol fuel cur = some (ds, some e)) :
    ∃ s' p, s.findFile fuel path 0 = some (s', some e.2, p) ∧ Found s s' e := by
  have h := @findLoop_lookup fuel s cur hg
  rw [hl] at h
  rw [findFile, hs]
  exact h

end Server

/-- More fuel changes nothing. -/
theorem lookup_mono {v : Volume} : ∀ {fuel fuel' : Nat} {cur : Cursor} {r : List Slot × Option Slot},
    lookup v fuel cur = some r → fuel ≤ fuel' → lookup v fuel' cur = some r
  | 0, _, _, _, h, _ => by simp [lookup] at h
  | fuel + 1, 0, _, _, _, hle => by omega
  | fuel + 1, fuel' + 1, cur, r, h, hle => by
    rw [lookup] at h ⊢
    by_cases hend : cur.dir = 0x0fffffff
    · rwa [if_pos hend] at h ⊢
    rw [if_neg hend] at h ⊢
    cases hm : scanEntries (v.cluster cur.dir) v.bpb.entriesPerCluster cur.elem with
    | none =>
      simp only [hm] at h ⊢
      exact lookup_mono h (by omega)
    | some i =>
      simp only [hm] at h ⊢
      by_cases hd : v.attr (cur.dir, i) = kDirectory ∧ cur.pathLast = false
      · rw [if_pos hd] at h ⊢
        obtain ⟨r', h', rfl⟩ := Option.map_eq_some_iff.mp h
        obtain ⟨cur', hst, hl⟩ := Option.bind_eq_some_iff.mp h'
        rw [hst, Option.bind_some, lookup_mono hl (by omega)]
        rfl
      · rwa [if_neg hd] at h ⊢

/-- `path` names the entry in slot `e`: what `FindFile` comes to, given time. -/
def Volume.Names (v : Volume) (path : List UInt8) (ds : List Slot) (e : Slot) : Prop :=
  ∃ fuel cur, findStart v.bpb path 0 = some cur ∧ lookup v fuel cur = some (ds, some e)

/-- **A named entry is found**, from any state of the buffers, once there is fuel enough. -/
theorem Server.findFile_names {s : Server} (hg : s.vol.bpb.Geometry) {path : List UInt8} {ds : List Slot} {e : Slot}
    (h : s.vol.Names path ds e) :
    ∃ F, ∀ fuel ≥ F, ∀ t : Server, t.vol = s.vol →
      ∃ t' p, t.findFile fuel path 0 = some (t', some e.2, p) ∧ Found t t' e := by
  obtain ⟨F, cur, hs, hl⟩ := h
  refine ⟨F, fun fuel hf t ht => ?_⟩
  have hg' : t.vol.bpb.Geometry := by rwa [ht]
  exact findFile_lookup hg' (by rw [ht]; exact hs) (by rw [ht]; exact lookup_mono hl hf)

end KinOS.Fs
