import KinOS.Kernel.Task
import KinOS.Fs.Growth

/-!
# Copying a program into a task's buffer

The file server and init load a program in the same words: one copy for each cluster of the file's chain, of a whole cluster
as long as so much of the size remains, and of the rest from then on. The chain ends the loop and the size keeps its
books, so every cluster behind the last one the size reaches is copied over the rest again. `offset` is an `int`, and
the kernel takes it as a `size_t`.

| here | there |
| --- | --- |
| `TaskManager.copyToTaskBuffer` | `CopyToTaskBuffer` (`kernel/task.cpp:206-221`, `kernel/syscall.cpp:74-84`) |
| `copyClusters`        | the loop of `CopyToBufferState::HandleMessage` (`servers/fs/serverstate.cpp:176-190`) and of `StartServers` (`servers/init/init.cpp:50-63`) |
| `Fs.Server.copyToBuffer` | `CopyToBufferState::HandleMessage` |
| `BootVolume`          | `NextCluster`, `ReadCluster` of init (`init.cpp:84-123`) |
| `resize`              | `ExpandTaskBuffer` (`task.cpp:195-204`) |
-/

namespace KinOS

open Bytes Fs

/-! ## The kernel -/

/-- A value kept in an `int`. -/
def asInt (n : Nat) : Int := if n % 2 ^ 32 < 2 ^ 31 then (n % 2 ^ 32 : Nat) else (n % 2 ^ 32 : Nat) - 2 ^ 32

/-- An `int` as a `size_t`. -/
def asSize (i : Int) : Nat := (i % 2 ^ 64).toNat

/-- `memcpy(&l[off], bytes, len)`. -/
def overwrite (l : List UInt8) (off : Nat) (bytes : List UInt8) : List UInt8 :=
  l.take off ++ bytes ++ l.drop (off + bytes.length)

/-- `none` is a copy of bytes to where the buffer is not. -/
def TaskManager.copyToTaskBuffer (tm : TaskManager) (id : UInt64) (buf : Mem) (offset len : Nat) :
    Option (TaskManager × Int) :=
  match tm.find id with
  | none => some (tm, -1)
  | some t =>
    let remainBytes := asInt ((t.buf.length + 2 ^ 64 - (offset + len) % 2 ^ 64) % 2 ^ 64)
    if remainBytes < 0 then some (tm, -1)
    else if len = 0 then some (tm, remainBytes)
    else if offset + len ≤ t.buf.length then
      some (tm.modify t.ptr fun t => { t with buf := overwrite t.buf offset ((List.range len).map buf) }, remainBytes)
    else none

/-! ## The two servers -/

/-- How a server reads the volume. -/
structure Reader (σ : Type) where
  bytesPerCluster : σ → Nat
  readCluster : σ → Nat → σ
  clusterBuf : σ → Mem
  nextCluster : σ → Nat → Nat × σ

/-- The loop: `cluster`, `remain_bytes` and `offset`. What the system call returns is not looked at. -/
def copyClusters {σ : Type} (r : Reader σ) (targetId : UInt64) :
    Nat → σ → TaskManager → Nat → Nat → Int → Option (σ × TaskManager)
  | 0, _, _, _, _, _ => none
  | fuel + 1, s, tm, cluster, remainBytes, offset =>
    if cluster ≠ 0 ∧ cluster ≠ 0x0fffffff then
      let s := r.readCluster s cluster
      let bytesPerCluster := r.bytesPerCluster s
      if bytesPerCluster ≤ remainBytes then
        (tm.copyToTaskBuffer targetId (r.clusterBuf s) (asSize offset) bytesPerCluster).bind fun (tm, _) =>
          let (next, s) := r.nextCluster s cluster
          copyClusters r targetId fuel s tm next (remainBytes - bytesPerCluster) (asInt (asSize offset + bytesPerCluster))
      else
        (tm.copyToTaskBuffer targetId (r.clusterBuf s) (asSize offset) remainBytes).bind fun (tm, _) =>
          let (next, s) := r.nextCluster s cluster
          copyClusters r targetId fuel s tm next remainBytes offset
    else some (s, tm)

def fsReader : Reader Server where
  bytesPerCluster s := s.vol.bpb.bytesPerCluster
  readCluster := Server.readCluster
  clusterBuf := Server.clusterBuf
  nextCluster := Server.nextCluster

/-- The file server, with `target_entry_` at index `i` of the buffer. -/
def Fs.Server.copyToBuffer (fuel : Nat) (s : Server) (tm : TaskManager) (targetId : UInt64) (i : Nat) :
    Option (Server × TaskManager) :=
  copyClusters fsReader targetId fuel s tm (firstCluster s.clusterBuf (32 * i)) (entrySize s.clusterBuf (32 * i)) 0

/-- What init reads the volume with: `boot_volume_image_` and its buffers. -/
structure BootVolume where
  vol : Volume
  fat : Mem
  clusterBuf : Mem

namespace BootVolume

def nextCluster (s : BootVolume) (cluster : Nat) : Nat × BootVolume :=
  let perSector := s.vol.bpb.bytesPerSector.toNat / 4
  let sectorOffset := cluster / perSector
  let fat := readImage s.vol.image s.fat (s.vol.bpb.reservedSectorCount.toNat + sectorOffset) 1
  let next := load 4 fat (4 * (cluster - perSector * sectorOffset))
  (if 0x0ffffff8 ≤ next then 0x0fffffff else next, { s with fat })

def readCluster (s : BootVolume) (cluster : Nat) : BootVolume :=
  { s with
    clusterBuf := readImage s.vol.image s.clusterBuf (s.vol.bpb.clusterSector cluster) s.vol.bpb.sectorsPerCluster.toNat }

def reader : Reader BootVolume where
  bytesPerCluster s := s.vol.bpb.bytesPerCluster
  readCluster := readCluster
  clusterBuf := clusterBuf
  nextCluster := nextCluster

/-- The copy in `StartServers`, with `file_entry` at index `i` of the buffer. -/
def startServers (fuel : Nat) (s : BootVolume) (tm : TaskManager) (targetTaskId : UInt64) (i : Nat) :
    Option (BootVolume × TaskManager) :=
  copyClusters reader targetTaskId fuel s tm (firstCluster s.clusterBuf (32 * i)) (entrySize s.clusterBuf (32 * i)) 0

end BootVolume

/-! ## `int` and `size_t` -/

theorem asSize_asInt {n : Nat} (h : n < 2 ^ 31) : asSize (asInt n) = n := by
  unfold asSize asInt
  omega

/-- From 2 GiB on an `int` is negative. -/
theorem asSize_asInt_neg {n : Nat} (h : 2 ^ 31 ≤ n) (hlt : n < 2 ^ 32) : asSize (asInt n) = n + (2 ^ 64 - 2 ^ 32) := by
  unfold asSize asInt
  omega

theorem asInt_add {n k : Nat} : asInt (asSize (asInt n) + k) = asInt (n + k) := by
  unfold asSize asInt
  omega

/-! ## One copy -/

section Copy

variable {tm : TaskManager} {id : UInt64} {t : Task} {buf : Mem} {off len : Nat}

theorem find_modify {f : Task → Task} (hid : ∀ t, (f t).id = t.id) (h : tm.find id = some t) :
    (tm.modify t.ptr f).find id = some (f t) := by
  unfold TaskManager.find TaskManager.modify at *
  have hcomp : ((fun x : Task => x.id == id) ∘ fun x => if x.ptr = t.ptr then f x else x) = fun x => x.id == id := by
    funext x
    by_cases hx : x.ptr = t.ptr
    · simp [hx, hid]
    · simp [hx]
  rw [List.find?_map, hcomp, h, Option.map_some, if_pos rfl]

theorem overwrite_length {l bytes : List UInt8} (h : off + bytes.length ≤ l.length) :
    (overwrite l off bytes).length = l.length := by
  simp only [overwrite, List.length_append, List.length_take, List.length_drop]
  omega

theorem overwrite_nil {l : List UInt8} : overwrite l off [] = l := by
  simp [overwrite, List.take_append_drop]

theorem copy_none (hf : tm.find id = none) : tm.copyToTaskBuffer id buf off len = some (tm, -1) := by
  rw [TaskManager.copyToTaskBuffer, hf]

/-- Nothing to copy, whatever the place. -/
theorem copy_nothing : ∃ r, tm.copyToTaskBuffer id buf off 0 = some (tm, r) := by
  cases hf : tm.find id with
  | none => exact ⟨-1, copy_none hf⟩
  | some t =>
    unfold TaskManager.copyToTaskBuffer
    simp only [hf, if_true]
    split
    · exact ⟨_, rfl⟩
    · exact ⟨_, rfl⟩

/-- A copy inside the buffer, with less than 2 GiB behind it. -/
theorem copy_fits (hf : tm.find id = some t) (hin : off + len ≤ t.buf.length)
    (hrest : t.buf.length - (off + len) < 2 ^ 31) : ∃ tm' r, tm.copyToTaskBuffer id buf off len = some (tm', r) ∧
      tm'.find id = some { t with buf := overwrite t.buf off ((List.range len).map buf) } := by
  by_cases hlen : len = 0
  · subst hlen
    obtain ⟨r, hr⟩ := @copy_nothing tm id buf off
    refine ⟨tm, r, hr, ?_⟩
    rw [List.range_zero, List.map_nil, overwrite_nil]
    exact hf
  · have hpos : ¬ asInt ((t.buf.length + 2 ^ 64 - (off + len) % 2 ^ 64) % 2 ^ 64) < 0 := by
      unfold asInt
      omega
    have hfind := find_modify (f := fun t => { t with buf := overwrite t.buf off ((List.range len).map buf) })
      (fun _ => rfl) hf
    have hcopy : tm.copyToTaskBuffer id buf off len = some (tm.modify t.ptr fun t =>
        { t with buf := overwrite t.buf off ((List.range len).map buf) },
        asInt ((t.buf.length + 2 ^ 64 - (off + len) % 2 ^ 64) % 2 ^ 64)) := by
      simp only [TaskManager.copyToTaskBuffer, hf, if_neg hpos, if_neg hlen, if_pos hin]
    exact ⟨_, _, hcopy, hfind⟩

/-- Whatever a copy does, the task is there with a buffer of that length. -/
theorem copy_keeps (hf : tm.find id = some t) : tm.copyToTaskBuffer id buf off len = none ∨
    ∃ tm' r t', tm.copyToTaskBuffer id buf off len = some (tm', r) ∧ tm'.find id = some t' ∧
      t'.buf.length = t.buf.length := by
  unfold TaskManager.copyToTaskBuffer
  simp only [hf]
  split
  · exact .inr ⟨tm, _, t, rfl, hf, rfl⟩
  · split
    · exact .inr ⟨tm, _, t, rfl, hf, rfl⟩
    · split
      · rename_i hin
        refine .inr ⟨_, _, _, rfl, find_modify (fun _ => rfl) hf, ?_⟩
        exact overwrite_length (by simpa using hin)
      · exact .inl rfl

/-- The last bytes of a buffer, from 2 GiB on: the place is not in the buffer. -/
theorem copy_outside_buffer (hf : tm.find id = some t) (hlt : t.buf.length < 2 ^ 32) (hoff : 2 ^ 31 ≤ off) (hlen : 0 < len)
    (hend : off + len = t.buf.length) : tm.copyToTaskBuffer id buf (asSize (asInt off)) len = none := by
  rw [asSize_asInt_neg hoff (by omega)]
  have hpos : ¬ asInt ((t.buf.length + 2 ^ 64 - (off + (2 ^ 64 - 2 ^ 32) + len) % 2 ^ 64) % 2 ^ 64) < 0 := by
    unfold asInt
    omega
  have hout : ¬ off + (2 ^ 64 - 2 ^ 32) + len ≤ t.buf.length := by omega
  simp only [TaskManager.copyToTaskBuffer, hf, if_neg hpos, if_neg (Nat.ne_of_gt hlen), if_neg hout]

end Copy

/-! ## The loop -/

/-- The reader sees the volume: in these states, a cluster read is in the buffer, and the next one is the chain's. -/
structure Reads {σ : Type} (r : Reader σ) (v : Volume) (ok : σ → Prop) : Prop where
  size : ∀ {s}, ok s → r.bytesPerCluster s = v.bpb.bytesPerCluster
  keep : ∀ {s c}, ok s → ok (r.readCluster s c)
  buf : ∀ {s c}, ok s → v.bpb.Valid c → ∀ j < v.bpb.bytesPerCluster, r.clusterBuf (r.readCluster s c) j = v.byteAt c j
  next : ∀ {s c}, ok s → (r.nextCluster s c).1 = v.next c ∧ ok (r.nextCluster s c).2

theorem fsReader_reads {v : Volume} (hg : v.bpb.Geometry) : Reads fsReader v (fun s => s.vol = v) where
  size h := by rw [← h]; rfl
  keep h := h
  buf h hc j hj := by
    subst h
    exact Server.readCluster_buf hg hc hj
  next h := by
    subst h
    exact ⟨Server.nextCluster_fst hg _, rfl⟩

/-- init reads as the file server does. -/
theorem bootVolume_reads {v : Volume} (hg : v.bpb.Geometry) : Reads BootVolume.reader v (fun s => s.vol = v) where
  size h := by rw [← h]; rfl
  keep h := h
  buf {s c} h hc j hj := by
    subst h
    exact Server.readCluster_buf (s := ⟨0, s.vol, s.fat, s.clusterBuf, 0, ⟨[], 0, Vector.replicate 16 0, 0, 0, 0, 0⟩⟩)
      hg hc hj
  next {s c} h := by
    subst h
    exact ⟨Server.nextCluster_fst (s := ⟨0, s.vol, s.fat, s.clusterBuf, 0, ⟨[], 0, Vector.replicate 16 0, 0, 0, 0, 0⟩⟩)
      hg c, rfl⟩

/-- Where the loop is: at the head of a rest of the chain, or behind its end. -/
def AtCluster (cluster : Nat) : List Nat → Prop
  | [] => cluster = 0 ∨ cluster = 0x0fffffff
  | c :: _ => cluster = c

section Loop

variable {σ : Type} {r : Reader σ} {v : Volume} {ok : σ → Prop} {id : UInt64}

theorem AtCluster.next (hg : v.bpb.Geometry) {c : Nat} {cs : List Nat} (hl : Linked v (c :: cs))
    (hv : ∀ d ∈ cs, v.bpb.Valid d) :
    AtCluster (v.next c) cs := by
  have hs := hl.starts_next hg hv
  cases cs with
  | nil => exact .inr (if_pos hl)
  | cons d cs => exact hs

/-- A round of the loop. -/
theorem copyClusters_round (hr : Reads r v ok) {fuel c : Nat} {s : σ} {tm : TaskManager} {remain : Nat} {offset : Int}
    (hg : v.bpb.Geometry) (hs : ok s) (hc : v.bpb.Valid c) : ∃ s', ok s' ∧
      copyClusters r id (fuel + 1) s tm c remain offset =
        (tm.copyToTaskBuffer id (r.clusterBuf (r.readCluster s c)) (asSize offset)
          (min v.bpb.bytesPerCluster remain)).bind fun a =>
          if v.bpb.bytesPerCluster ≤ remain then
            copyClusters r id fuel s' a.1 (v.next c) (remain - v.bpb.bytesPerCluster)
              (asInt (asSize offset + v.bpb.bytesPerCluster))
          else copyClusters r id fuel s' a.1 (v.next c) remain offset := by
  obtain ⟨hnext, hok⟩ := hr.next (c := c) (hr.keep (c := c) hs)
  refine ⟨_, hok, ?_⟩
  have hne := hc.ne hg
  rw [copyClusters, if_pos hne]
  simp only [hr.size (hr.keep (c := c) hs), hnext]
  by_cases hfull : v.bpb.bytesPerCluster ≤ remain
  · rw [if_pos hfull, Nat.min_eq_left hfull]
    simp only [if_pos hfull]
  · rw [if_neg hfull, Nat.min_eq_right (by omega)]
    simp only [if_neg hfull]

theorem copyClusters_end {fuel cluster : Nat} {s : σ} {tm : TaskManager} {remain : Nat} {offset : Int}
    (h : AtCluster cluster []) : copyClusters r id (fuel + 1) s tm cluster remain offset = some (s, tm) := by
  rw [copyClusters, if_neg]
  rintro ⟨h0, h1⟩
  exact h.elim h0 h1

theorem map_buf (hr : Reads r v ok) {s : σ} {c n : Nat} (hs : ok s) (hc : v.bpb.Valid c) (hn : n ≤ v.bpb.bytesPerCluster) :
    (List.range n).map (r.clusterBuf (r.readCluster s c)) = (List.range n).map (v.byteAt c) :=
  List.map_congr_left fun j hj => hr.buf hs hc j (by have := List.mem_range.mp hj; omega)

/-- The rounds for the rest of the size: each writes over the one before. -/
theorem copyClusters_rest (hr : Reads r v ok) (hg : v.bpb.Geometry) {q remain : Nat} (hrem : remain < v.bpb.bytesPerCluster)
    (hsmall : remain = 0 ∨ q < 2 ^ 31) :
    ∀ {post : List Nat} {fuel cluster : Nat} {s : σ} {tm : TaskManager} {t : Task}, Linked v post →
      (∀ d ∈ post, v.bpb.Valid d) → AtCluster cluster post → ok s → tm.find id = some t → t.buf.length = q + remain →
      post.length < fuel → ∃ s' tm' t', copyClusters r id fuel s tm cluster remain (asInt q) = some (s', tm') ∧
        tm'.find id = some t' ∧
        t'.buf = (post.getLast?.map fun c => t.buf.take q ++ (List.range remain).map (v.byteAt c)).getD t.buf
  | [], fuel + 1, _, s, tm, t, _, _, hat, _, hf, _, _ => ⟨s, tm, t, copyClusters_end hat, hf, rfl⟩
  | c :: post, fuel + 1, cluster, s, tm, t, hl, hv, hat, hs, hf, hlen, hfuel => by
    obtain rfl : cluster = c := hat
    have hval := hv cluster (by simp)
    have hvs : ∀ d ∈ post, v.bpb.Valid d := fun d hd => hv d (List.mem_cons_of_mem _ hd)
    obtain ⟨s1, hs1, hround⟩ := @copyClusters_round _ _ _ _ id hr fuel _ _ tm remain (asInt q) hg hs hval
    rw [Nat.min_eq_right (by omega)] at hround
    obtain ⟨tm1, x, hcopy, hf1⟩ : ∃ tm1 x, tm.copyToTaskBuffer id (r.clusterBuf (r.readCluster s cluster)) (asSize (asInt q))
        remain = some (tm1, x) ∧
        tm1.find id = some { t with buf := t.buf.take q ++ (List.range remain).map (v.byteAt cluster) } := by
      rcases hsmall with rfl | hq
      · obtain ⟨x, hx⟩ := @copy_nothing tm id (r.clusterBuf (r.readCluster s cluster)) (asSize (asInt q))
        refine ⟨tm, x, hx, ?_⟩
        rw [List.range_zero, List.map_nil, List.append_nil, List.take_of_length_le (by omega)]
        exact hf
      · rw [asSize_asInt hq]
        obtain ⟨tm1, x, hx, hfind⟩ := @copy_fits tm id t (r.clusterBuf (r.readCluster s cluster)) q remain hf
          (by omega) (by omega)
        rw [map_buf hr hs hval (by omega)] at hfind
        refine ⟨tm1, x, hx, hfind.trans ?_⟩
        rw [overwrite, List.drop_eq_nil_of_le (by simp; omega), List.append_nil]
    rw [hround, hcopy, Option.bind_some, if_neg (by omega)]
    obtain ⟨s', tm', t', hrun, hf', hbuf⟩ := copyClusters_rest hr hg hrem hsmall hl.tail hvs (AtCluster.next hg hl hvs)
      hs1 hf1 (by simp; omega) (show post.length < fuel by simpa using hfuel)
    refine ⟨s', tm', t', hrun, hf', hbuf.trans ?_⟩
    cases post with
    | nil => rfl
    | cons d post =>
      have htake : (t.buf.take q ++ (List.range remain).map (v.byteAt cluster)).take q = t.buf.take q :=
        List.take_left' (by rw [List.length_take]; omega)
      rw [List.getLast?_cons_cons]
      obtain ⟨e, he⟩ : ∃ e, (d :: post).getLast? = some e :=
        ⟨_, List.getLast?_eq_getLast_of_ne_nil (List.cons_ne_nil d post)⟩
      simp only [he, Option.map_some, Option.getD_some, htake]

/-- Where the last bytes of a file begin: the place of its last cluster. -/
def lastStart (B size : Nat) : Nat := (size - 1) / B * B

theorem lastStart_le {B size k : Nat} (hB : 0 < B) (h : k * B < size) : k * B ≤ lastStart B size := by
  have hk : k ≤ (size - 1) / B := (Nat.le_div_iff_mul_le hB).mpr (by omega)
  exact Nat.mul_le_mul_right B hk

theorem lastStart_end {B size : Nat} (hB : 0 < B) : size ≤ lastStart B size + B := by
  have h := Nat.lt_div_mul_add (a := size - 1) hB
  unfold lastStart
  omega

/-- What the buffer holds in the end: the full clusters, and the rest from the chain's last one. -/
def loaded (v : Volume) (cs : List Nat) (size : Nat) : List UInt8 :=
  (List.range (size / v.bpb.bytesPerCluster * v.bpb.bytesPerCluster)).map (v.chainByte cs) ++
    (List.range (size % v.bpb.bytesPerCluster)).map (v.byteAt (cs.getLastD 0))

/-- The first `size` bytes of the file. -/
def fileBytes (v : Volume) (cs : List Nat) (size : Nat) : List UInt8 := (List.range size).map (v.chainByte cs)

/-- The bytes of one cluster along the chain. -/
theorem chainByte_cluster (hB : 0 < v.bpb.bytesPerCluster) {pre post : List Nat} {c j : Nat}
    (hj : j < v.bpb.bytesPerCluster) :
    v.chainByte (pre ++ c :: post) (pre.length * v.bpb.bytesPerCluster + j) = v.byteAt c j := by
  have hdiv : (pre.length * v.bpb.bytesPerCluster + j) / v.bpb.bytesPerCluster = pre.length := by
    rw [Nat.mul_comm, Nat.mul_add_div hB, Nat.div_eq_of_lt hj, Nat.add_zero]
  have hmod : (pre.length * v.bpb.bytesPerCluster + j) % v.bpb.bytesPerCluster = j := by
    rw [Nat.mul_comm, Nat.mul_add_mod, Nat.mod_eq_of_lt hj]
  rw [Volume.chainByte, hdiv, hmod, List.getD_append_right _ _ _ _ (Nat.le_refl _), Nat.sub_self]
  rfl

/-- **The loop on a file whose last cluster begins below 2 GiB.** -/
theorem copyClusters_loaded (hr : Reads r v ok) (hg : v.bpb.Geometry) {size : Nat}
    (hsmall : lastStart v.bpb.bytesPerCluster size < 2 ^ 31) :
    ∀ {post pre : List Nat} {fuel cluster : Nat} {s : σ} {tm : TaskManager} {t : Task}, Linked v post →
      (∀ d ∈ post, v.bpb.Valid d) → AtCluster cluster post → ok s → tm.find id = some t → t.buf.length = size →
      pre.length * v.bpb.bytesPerCluster ≤ size → size ≤ (pre ++ post).length * v.bpb.bytesPerCluster →
      t.buf.take (pre.length * v.bpb.bytesPerCluster) =
        (List.range (pre.length * v.bpb.bytesPerCluster)).map (v.chainByte (pre ++ post)) →
      post.length < fuel → ∃ s' tm' t',
        copyClusters r id fuel s tm cluster (size - pre.length * v.bpb.bytesPerCluster)
          (asInt (pre.length * v.bpb.bytesPerCluster)) = some (s', tm') ∧
        tm'.find id = some t' ∧ t'.buf = loaded v (pre ++ post) size := by
  have hB : 0 < v.bpb.bytesPerCluster := by
    have := hg.bytesPerCluster_ge
    omega
  intro post
  induction post with
  | nil =>
    intro pre fuel cluster s tm t _ _ hat _ hf hlen hle hlong htake hfuel
    obtain ⟨fuel, rfl⟩ : ∃ k, fuel = k + 1 := ⟨fuel - 1, by simp at hfuel; omega⟩
    rw [List.append_nil] at hlong htake ⊢
    have hsize : size = pre.length * v.bpb.bytesPerCluster := Nat.le_antisymm hlong hle
    refine ⟨s, tm, t, copyClusters_end hat, hf, ?_⟩
    rw [loaded, hsize, Nat.mul_div_cancel _ hB, Nat.mul_mod_left, List.range_zero, List.map_nil, List.append_nil, ← htake,
      List.take_of_length_le (by omega)]
  | cons c post ih =>
    intro pre fuel cluster s tm t hl hv hat hs hf hlen hle hlong htake hfuel
    by_cases hfull : v.bpb.bytesPerCluster ≤ size - pre.length * v.bpb.bytesPerCluster
    · obtain rfl : cluster = c := hat
      obtain ⟨fuel, rfl⟩ : ∃ k, fuel = k + 1 := ⟨fuel - 1, by omega⟩
      have hval := hv cluster (by simp)
      have hvs : ∀ d ∈ post, v.bpb.Valid d := fun d hd => hv d (List.mem_cons_of_mem _ hd)
      have hstart := @lastStart_le _ size pre.length hB (by omega)
      have hend := @lastStart_end _ size hB
      have hoff : pre.length * v.bpb.bytesPerCluster < 2 ^ 31 := by omega
      obtain ⟨s1, hs1, hround⟩ := @copyClusters_round _ _ _ _ id hr fuel _ _ tm
        (size - pre.length * v.bpb.bytesPerCluster) (asInt (pre.length * v.bpb.bytesPerCluster)) hg hs hval
      obtain ⟨tm1, x, hcopy, hf1⟩ := @copy_fits tm id t (r.clusterBuf (r.readCluster s cluster))
        (pre.length * v.bpb.bytesPerCluster) v.bpb.bytesPerCluster hf (by omega) (by omega)
      rw [map_buf hr hs hval (Nat.le_refl _)] at hf1
      have hpre : (pre ++ [cluster]).length * v.bpb.bytesPerCluster =
          pre.length * v.bpb.bytesPerCluster + v.bpb.bytesPerCluster := by
        rw [List.length_append, List.length_singleton, Nat.succ_mul]
      rw [Nat.min_eq_left hfull, asInt_add, asSize_asInt hoff, hcopy, Option.bind_some, if_pos hfull, ← hpre,
        Nat.sub_sub, ← hpre]
        at hround
      rw [hround, List.append_cons pre cluster post]
      rw [List.append_cons pre cluster post] at hlong htake
      refine ih hl.tail hvs (AtCluster.next hg hl hvs) hs1 hf1 ?_ (by omega) hlong ?_ (by simpa using hfuel)
      · exact (overwrite_length (by simp; omega)).trans hlen
      · have hbytes : (overwrite t.buf (pre.length * v.bpb.bytesPerCluster)
            ((List.range v.bpb.bytesPerCluster).map (v.byteAt cluster))).take
              ((pre ++ [cluster]).length * v.bpb.bytesPerCluster) =
            t.buf.take (pre.length * v.bpb.bytesPerCluster) ++ (List.range v.bpb.bytesPerCluster).map
              (v.byteAt cluster) := by
          refine List.take_left' ?_
          rw [hpre]
          simp
          omega
        rw [hbytes, htake, hpre, List.range_add, List.map_append, List.map_map]
        congr 1
        refine List.map_congr_left fun j hj => ?_
        rw [← List.append_cons]
        exact (chainByte_cluster hB (List.mem_range.mp hj)).symm
    · have hdiv : size / v.bpb.bytesPerCluster = pre.length := by
        refine Nat.div_eq_of_lt_le ?_ ?_
        · exact hle
        · rw [Nat.succ_mul]
          omega
      have hmod : size % v.bpb.bytesPerCluster = size - pre.length * v.bpb.bytesPerCluster := by
        have h := Nat.div_add_mod' size v.bpb.bytesPerCluster
        rw [hdiv] at h
        omega
      have hq : size - pre.length * v.bpb.bytesPerCluster = 0 ∨ pre.length * v.bpb.bytesPerCluster < 2 ^ 31 := by
        by_cases hz : size - pre.length * v.bpb.bytesPerCluster = 0
        · exact .inl hz
        · have := @lastStart_le _ size pre.length hB (by omega)
          exact .inr (by omega)
      obtain ⟨s', tm', t', hrun, hf', hbuf⟩ := @copyClusters_rest _ r _ _ id hr hg _
        (size - pre.length * v.bpb.bytesPerCluster) (by omega) hq _ _ _ _ _ _ hl hv hat hs hf (by omega) hfuel
      refine ⟨s', tm', t', hrun, hf', hbuf.trans ?_⟩
      have hlast : (c :: post).getLast? = some ((pre ++ c :: post).getLastD 0) := by
        rw [List.getLastD_eq_getLast?, List.getLast?_append, List.getLast?_eq_getLast_of_ne_nil (List.cons_ne_nil c post)]
        rfl
      rw [hlast, Option.map_some, Option.getD_some, loaded, hdiv, hmod, htake]

/-- **From 2 GiB on the last copy goes astray.** -/
theorem copyClusters_astray (hr : Reads r v ok) (hg : v.bpb.Geometry) {size : Nat} (hlt : size < 2 ^ 32)
    (hlarge : 2 ^ 31 ≤ lastStart v.bpb.bytesPerCluster size) :
    ∀ {fuel : Nat} {post pre : List Nat} {cluster : Nat} {s : σ} {tm : TaskManager} {t : Task}, Linked v post →
      (∀ d ∈ post, v.bpb.Valid d) → AtCluster cluster post → ok s → tm.find id = some t → t.buf.length = size →
      pre.length * v.bpb.bytesPerCluster < size → size ≤ (pre ++ post).length * v.bpb.bytesPerCluster →
        copyClusters r id fuel s tm cluster (size - pre.length * v.bpb.bytesPerCluster)
          (asInt (pre.length * v.bpb.bytesPerCluster)) = none := by
  have hB : 0 < v.bpb.bytesPerCluster := by
    have := hg.bytesPerCluster_ge
    omega
  intro fuel
  induction fuel with
  | zero => exact fun _ _ _ _ _ _ _ _ => rfl
  | succ fuel ih =>
    intro post pre cluster s tm t hl hv hat hs hf hlen hle hlong
    have hstart := @lastStart_le _ size pre.length hB (by omega)
    have hend := @lastStart_end _ size hB
    cases post with
    | nil =>
      rw [List.append_nil] at hlong
      omega
    | cons c post =>
      obtain rfl : cluster = c := hat
      have hval := hv cluster (by simp)
      have hvs : ∀ d ∈ post, v.bpb.Valid d := fun d hd => hv d (List.mem_cons_of_mem _ hd)
      obtain ⟨s1, hs1, hround⟩ := @copyClusters_round _ _ _ _ id hr fuel _ _ tm
        (size - pre.length * v.bpb.bytesPerCluster) (asInt (pre.length * v.bpb.bytesPerCluster)) hg hs hval
      rw [hround]
      by_cases hmore : pre.length * v.bpb.bytesPerCluster + v.bpb.bytesPerCluster < size
      · have hfull : v.bpb.bytesPerCluster ≤ size - pre.length * v.bpb.bytesPerCluster := by omega
        rw [Nat.min_eq_left hfull]
        rcases @copy_keeps _ _ _ (r.clusterBuf (r.readCluster s cluster))
          (asSize (asInt (pre.length * v.bpb.bytesPerCluster)))
          v.bpb.bytesPerCluster hf with hnone | ⟨tm1, x, t1, hcopy, hf1, hlen1⟩
        · rw [hnone, Option.bind_none]
        · have hpre : (pre ++ [cluster]).length * v.bpb.bytesPerCluster =
              pre.length * v.bpb.bytesPerCluster + v.bpb.bytesPerCluster := by
            rw [List.length_append, List.length_singleton, Nat.succ_mul]
          rw [hcopy, Option.bind_some, if_pos hfull, asInt_add, Nat.sub_sub, ← hpre]
          rw [List.append_cons pre cluster post] at hlong
          exact ih hl.tail hvs (AtCluster.next hg hl hvs) hs1 hf1 (hlen1.trans hlen) (by omega) hlong
      · -- the copy that ends at the buffer's end
        have hplace : pre.length * v.bpb.bytesPerCluster = lastStart v.bpb.bytesPerCluster size := by
          refine Nat.le_antisymm hstart ?_
          have hk : (size - 1) / v.bpb.bytesPerCluster < pre.length + 1 := by
            rw [Nat.div_lt_iff_lt_mul hB, Nat.succ_mul]
            omega
          exact Nat.mul_le_mul_right _ (Nat.le_of_lt_succ hk)
        have hmin : min v.bpb.bytesPerCluster (size - pre.length * v.bpb.bytesPerCluster) =
            size - pre.length * v.bpb.bytesPerCluster := by omega
        rw [hmin, copy_outside_buffer hf (by omega) (by omega) (by omega) (by omega), Option.bind_none]

end Loop

/-! ## A program in its buffer -/

/-- The run ends, given time, with these bytes in the task's buffer. -/
def Loads {σ : Type} (run : Nat → Option (σ × TaskManager)) (id : UInt64) (bytes : List UInt8) : Prop :=
  ∃ F, ∀ fuel ≥ F, ∃ s tm t, run fuel = some (s, tm) ∧ tm.find id = some t ∧ t.buf = bytes

/-- The file's last cluster begins below 2 GiB, and the last cluster of the chain begins with the bytes that the one the size
ends in begins with. -/
def Whole (v : Volume) (cs : List Nat) (size : Nat) : Prop :=
  lastStart v.bpb.bytesPerCluster size < 2 ^ 31 ∧ ∀ j < size % v.bpb.bytesPerCluster,
    v.byteAt (cs.getLastD 0) j = v.byteAt (cs.getD (size / v.bpb.bytesPerCluster) 0) j

section Load

variable {σ : Type} {r : Reader σ} {v : Volume} {ok : σ → Prop} {id : UInt64} {cs : List Nat} {size first : Nat}
  {tm : TaskManager} {t : Task} {e : Slot}

theorem loaded_eq (hB : 0 < v.bpb.bytesPerCluster) : loaded v cs size = fileBytes v cs size ↔
    ∀ j < size % v.bpb.bytesPerCluster,
      v.byteAt (cs.getLastD 0) j = v.byteAt (cs.getD (size / v.bpb.bytesPerCluster) 0) j := by
  have hsplit : fileBytes v cs size = (List.range (size / v.bpb.bytesPerCluster * v.bpb.bytesPerCluster)).map
    (v.chainByte cs) ++
      (List.range (size % v.bpb.bytesPerCluster)).map (v.byteAt (cs.getD (size / v.bpb.bytesPerCluster) 0)) := by
    have hrange := List.range_add (n := size / v.bpb.bytesPerCluster * v.bpb.bytesPerCluster)
      (m := size % v.bpb.bytesPerCluster)
    rw [Nat.div_add_mod'] at hrange
    rw [fileBytes, hrange, List.map_append, List.map_map]
    congr 1
    refine List.map_congr_left fun j hj => ?_
    have hj : j < v.bpb.bytesPerCluster := (List.mem_range.mp hj).trans (Nat.mod_lt _ hB)
    show v.chainByte cs (size / v.bpb.bytesPerCluster * v.bpb.bytesPerCluster + j) = _
    rw [Volume.chainByte, Nat.mul_comm, Nat.mul_add_div hB, Nat.div_eq_of_lt hj, Nat.add_zero, Nat.mul_add_mod,
      Nat.mod_eq_of_lt hj]
  rw [loaded, hsplit, List.append_right_inj, List.map_inj_left]
  exact forall_congr' fun j => by rw [List.mem_range]

/-- The loop, from the start of the chain. -/
theorem copyClusters_loads (hr : Reads r v ok) (hg : v.bpb.Geometry) (hc : IsChain v first cs) (hlt : size < 2 ^ 32)
    (hlong : size ≤ v.bpb.bytesPerCluster * cs.length) {s : σ} (hs : ok s) (hf : tm.find id = some t)
    (hlen : t.buf.length = size) :
    Loads (fun fuel => copyClusters r id fuel s tm first size 0) id (fileBytes v cs size) ↔ Whole v cs size := by
  have hB : 0 < v.bpb.bytesPerCluster := by
    have := hg.bytesPerCluster_ge
    omega
  have hat : AtCluster first cs := by
    have hhead := hc.head
    cases cs with
    | nil => exact .inl hhead.symm
    | cons c cs => exact hhead.symm
  rw [Nat.mul_comm] at hlong
  unfold Whole
  by_cases hsmall : lastStart v.bpb.bytesPerCluster size < 2 ^ 31
  · -- the buffer ends up as `loaded` says
    have hrun : ∀ fuel > cs.length, ∃ s' tm' t', copyClusters r id fuel s tm first size 0 = some (s', tm') ∧
        tm'.find id = some t' ∧ t'.buf = loaded v cs size := by
      intro fuel hfuel
      have hrun := @copyClusters_loaded _ _ _ _ id hr hg _ hsmall _ [] fuel _ _ _ _ hc.linked hc.valid hat hs hf hlen
        (by simp) (by simpa using hlong) (by simp) hfuel
      rwa [List.length_nil, Nat.zero_mul, Nat.sub_zero, show asInt 0 = 0 from rfl, List.nil_append] at hrun
    rw [← loaded_eq hB]
    constructor
    · rintro ⟨F, hF⟩
      obtain ⟨s1, tm1, t1, hrun1, hf1, hbuf1⟩ := hF (max F (cs.length + 1)) (Nat.le_max_left ..)
      obtain ⟨s2, tm2, t2, hrun2, hf2, hbuf2⟩ := hrun (max F (cs.length + 1)) (Nat.le_max_right ..)
      obtain ⟨-, rfl⟩ := Prod.mk.inj (Option.some.inj (hrun1.symm.trans hrun2))
      obtain rfl := Option.some.inj (hf1.symm.trans hf2)
      exact ⟨hsmall, hbuf2.symm.trans hbuf1⟩
    · rintro ⟨-, heq⟩
      refine ⟨cs.length + 1, fun fuel hfuel => ?_⟩
      obtain ⟨s', tm', t', hrun', hf', hbuf⟩ := hrun fuel hfuel
      exact ⟨s', tm', t', hrun', hf', hbuf.trans heq⟩
  · refine iff_of_false ?_ fun h => hsmall h.1
    rintro ⟨F, hF⟩
    obtain ⟨s', tm', t', hrun, -⟩ := hF F (Nat.le_refl F)
    have hpos : 0 < size := by
      refine Nat.pos_of_ne_zero fun h0 => hsmall ?_
      rw [h0, lastStart, Nat.zero_sub, Nat.zero_div, Nat.zero_mul]
      decide
    have hnone := @copyClusters_astray _ _ _ _ id hr hg _ hlt (Nat.le_of_not_lt hsmall) F _ [] _ _ _ _ hc.linked hc.valid
      hat hs hf hlen (by simpa using hpos) (by simpa using hlong)
    rw [List.length_nil, Nat.zero_mul, Nat.sub_zero, show asInt 0 = 0 from rfl] at hnone
    cases hnone.symm.trans hrun

theorem find_expandTaskBuffer {n : Nat} (hn : n < 2 ^ 32) (hf : (tm.find id).isSome) :
    ∃ t, (tm.expandTaskBuffer id (UInt32.ofNat n)).1.find id = some t ∧ t.buf.length = n := by
  obtain ⟨t, ht⟩ := Option.isSome_iff_exists.mp hf
  have hfind := find_modify (f := fun t : Task => { t with buf := resize t.buf (UInt32.ofNat n).toNat }) (fun _ => rfl) ht
  refine ⟨{ t with buf := resize t.buf (UInt32.ofNat n).toNat }, ?_, ?_⟩
  · unfold TaskManager.expandTaskBuffer
    simp only [ht]
    exact hfind
  · have hnat : (UInt32.ofNat n).toNat = n := by
      rw [UInt32.toNat_ofNat']
      exact Nat.mod_eq_of_lt hn
    simp only [hnat, resize, List.length_append, List.length_take, List.length_replicate]
    omega

/-- **Loading copies the file** exactly when its last cluster begins below 2 GiB and the bytes of the last cluster of its
chain are, as far as the size goes, those of the cluster the size ends in: so if the chain is no longer than the size needs,
or the size is a number of full clusters. -/
theorem load_copies (hg : v.bpb.Geometry) (hi : e.2 < v.bpb.entriesPerCluster) (hc : IsChain v (v.first e) cs)
    (hlong : v.size e ≤ v.bpb.bytesPerCluster * cs.length) (ht : (tm.find id).isSome) :
    (∀ s : Server, s.vol = v → s.Loaded e.1 →
      (Loads (fun fuel => s.copyToBuffer fuel (tm.expandTaskBuffer id (UInt32.ofNat (v.size e))).1 id e.2) id
        (fileBytes v cs (v.size e)) ↔ Whole v cs (v.size e))) ∧
    ∀ s : BootVolume, s.vol = v → (∀ j < v.bpb.bytesPerCluster, s.clusterBuf j = v.cluster e.1 j) →
      (Loads (fun fuel => s.startServers fuel (tm.expandTaskBuffer id (UInt32.ofNat (v.size e))).1 id e.2) id
        (fileBytes v cs (v.size e)) ↔ Whole v cs (v.size e)) := by
  have hsize : v.size e < 2 ^ 32 := load_lt 4 _ _
  obtain ⟨t, hf, hlen⟩ := find_expandTaskBuffer hsize ht
  refine ⟨fun s hs hl => ?_, fun s hs hbuf => ?_⟩
  · subst hs
    have hfirst : firstCluster s.clusterBuf (32 * e.2) = s.vol.first e := hl.first hi
    have hbytes : entrySize s.clusterBuf (32 * e.2) = s.vol.size e := hl.size hi
    have hmain := copyClusters_loads (fsReader_reads hg) hg hc hsize hlong (s := s) rfl hf hlen
    rw [← hmain]
    unfold Server.copyToBuffer
    rw [hfirst, hbytes]
  · subst hs
    have hend := Server.index_bound hi
    have hentry : ∀ j < 32, s.clusterBuf (32 * e.2 + j) = s.vol.cluster e.1 (32 * e.2 + j) := fun j hj => hbuf _ (by omega)
    have hfirst : firstCluster s.clusterBuf (32 * e.2) = s.vol.first e := firstCluster_congr hentry
    have hbytes : entrySize s.clusterBuf (32 * e.2) = s.vol.size e := entrySize_congr hentry
    have hmain := copyClusters_loads (bootVolume_reads hg) hg hc hsize hlong (s := s) rfl hf hlen
    rw [← hmain]
    unfold BootVolume.startServers
    rw [hfirst, hbytes]

end Load

/-! ### The file of two bytes, and with a cluster too many -/

/-- One task, which the program is for. -/
def oneTask : TaskManager := { TaskManager.init with tasks := [{ ptr := 0, id := 7 }] }

def twoBytesBoot : BootVolume := ⟨twoBytes, fun _ => 0, twoBytes.cluster 2⟩

theorem load_copies_twoBytes :
    Loads (fun fuel => (twoBytesServer.readCluster 2).copyToBuffer fuel (oneTask.expandTaskBuffer 7 2).1 7 0) 7 [1, 2] ∧
    Loads (fun fuel => twoBytesBoot.startServers fuel (oneTask.expandTaskBuffer 7 2).1 7 0) 7 [1, 2] := by
  obtain ⟨hfs, hinit⟩ := @load_copies twoBytes 7 _ _ (2, 0) twoBytes_geometry (by decide) twoBytes_fileChain
    (by decide) (show (oneTask.find 7).isSome from rfl)
  have hwhole : Whole twoBytes [3] (twoBytes.size (2, 0)) := ⟨by decide, by decide⟩
  have hsize : UInt32.ofNat (twoBytes.size (2, 0)) = 2 := by decide
  have hbytes : fileBytes twoBytes [3] (twoBytes.size (2, 0)) = [1, 2] := by decide
  rw [hsize, hbytes] at hfs hinit
  have hloaded := Server.readCluster_loaded (s := twoBytesServer) twoBytes_geometry 2
  have hbuf : twoBytesBoot.clusterBuf = twoBytes.cluster 2 := by simp only [twoBytesBoot]
  exact ⟨(hfs (twoBytesServer.readCluster 2) rfl hloaded).mpr hwhole,
    (hinit twoBytesBoot rfl fun j _ => by rw [hbuf]).mpr hwhole⟩

/-- The volume of two bytes with a second cluster behind the file's: what a write leaves of a longer file. -/
def longVolume : Volume := twoBytes.append 3 [4]

def longServer : Server := { twoBytesServer with vol := longVolume, clusterBuf := longVolume.cluster 2 }

def longBoot : BootVolume := ⟨longVolume, fun _ => 0, longVolume.cluster 2⟩

theorem longVolume_wellFormed : WellFormed longVolume := by
  have hfree : ∀ c ∈ [4], c ∈ twoBytes.free := by decide
  obtain ⟨hev, hbytes⟩ := @Evolves.of_append (EntryField (2, 0)) _ [] _ 3 twoBytes_geometry twoBytes_fileChain.self
    (by simp) hfree
  have htree : Tree twoBytes [0x61] (2, 0) [3] := ⟨twoBytes_wellFormed, twoBytes_existing, twoBytes_fileChain⟩
  have hw : Written twoBytes longVolume (2, 0) [3] [3, 4] [] :=
    ⟨hev, by decide, Nat.zero_le _, fun k hk => absurd hk (Nat.not_lt_zero k)⟩
  obtain ⟨ns, -, hgrows⟩ := hw.grows htree
  exact hgrows.wellFormed twoBytes_wellFormed

/-- The rest of the file is overwritten with the second cluster's bytes. -/
theorem load_longVolume : WellFormed longVolume ∧ IsChain longVolume (longVolume.first (2, 0)) [3, 4] ∧
    longVolume.size (2, 0) = 2 ∧ fileBytes longVolume [3, 4] 2 = [1, 2] ∧
    (longServer.copyToBuffer 9 (oneTask.expandTaskBuffer 7 2).1 7 0).map (fun r => (r.2.find 7).map Task.buf) =
      some (some [0, 0]) ∧
    (longBoot.startServers 9 (oneTask.expandTaskBuffer 7 2).1 7 0).map (fun r => (r.2.find 7).map Task.buf) =
      some (some [0, 0]) ∧
    ¬ Loads (fun fuel => longServer.copyToBuffer fuel (oneTask.expandTaskBuffer 7 2).1 7 0) 7 [1, 2] := by
  have hchain : IsChain longVolume (longVolume.first (2, 0)) [3, 4] :=
    ⟨by decide, by decide, by decide, by decide, show 0x0ffffff8 ≤ longVolume.fatAt 4 by decide⟩
  have hbytes : fileBytes longVolume [3, 4] 2 = [1, 2] := by decide
  have hgeo : longVolume.bpb.Geometry := longVolume_wellFormed.geometry
  refine ⟨longVolume_wellFormed, hchain, by decide, hbytes, by decide, by decide, fun h => ?_⟩
  obtain ⟨t, hf, hlen⟩ := @find_expandTaskBuffer 7 oneTask 2 (by decide) rfl
  have hiff := @copyClusters_loads _ _ _ _ _ _ 2 _ _ _ (fsReader_reads hgeo) hgeo hchain (by decide) (by decide) longServer
    rfl hf hlen
  have hfirst : firstCluster longServer.clusterBuf (32 * 0) = longVolume.first (2, 0) := by decide
  have hsize : entrySize longServer.clusterBuf (32 * 0) = 2 := by decide
  unfold Server.copyToBuffer at h
  rw [hfirst, hsize, ← hbytes] at h
  have hwhole := (hiff.mp h).2 0 (by decide)
  exact absurd hwhole (by decide)

end KinOS
