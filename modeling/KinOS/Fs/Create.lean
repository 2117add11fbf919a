import KinOS.Fs.Alloc

/-!
# Creating a file

| here | there |
| --- | --- |
| `shortName`, `setFileName` | `SetFileName` (`servers/fs/fs.cpp:307-322`) |
| `Server.allocateEntry`     | `AllocateEntry` (`fs.cpp:236-257`) |
| `parentPath`, `Server.createFile` | `CreateFile` (`fs.cpp:204-234`) |

A free slot is taken with all its bytes, and `CreateFile` sets the name and the size: attributes and first cluster are the
stale ones of whatever the slot held before. Only a slot in a new cluster is cleared. `openSlot` is the search for the slot
on the volume alone.
-/

namespace KinOS.Fs

open Bytes

/-! ## Names -/

/-- `strrchr`: what is before the last occurrence, and what is after it. -/
def strrchr (xs : List UInt8) (ch : UInt8) : Option (List UInt8 × List UInt8) :=
  if ch ∈ xs then
    some ((xs.reverse.dropWhile (· ≠ ch)).tail.reverse, (xs.reverse.takeWhile (· ≠ ch)).reverse)
  else none

/-- `n` characters in upper case, padded with blanks. -/
def padded (n : Nat) (name : List UInt8) : List UInt8 :=
  let part := (name.take n).map toupper
  part ++ List.replicate (n - part.length) 0x20

/-- The eleven bytes `SetFileName` writes. -/
def shortName (name : List UInt8) : List UInt8 :=
  match strrchr name 0x2e with
  | some (base, ext) => padded 8 base ++ padded 3 ext
  | none => padded 8 name ++ padded 3 []

/-- `SetFileName` on the entry at address `a`. -/
def setFileName (m : Mem) (a : Nat) (name : List UInt8) : Mem := copy m a (fun j => (shortName name).getD j 0x20) 0 11

/-! ## The two functions -/

/-- The errors of `CreateFile`. -/
inductive Errno
  | ENOENT
  | EISDIR
  | ENOSPC
deriving DecidableEq, Repr

/-- The first slot of a cluster's buffer that is free: an end marker or a deleted entry. -/
def freeSlot (m : Mem) (n : Nat) : Option Nat := (List.range n).find? fun i => m (32 * i) = 0 ∨ m (32 * i) = 0xe5

namespace Server

/-- `ReadCluster` of a directory's new cluster, and `memset` over it. -/
def clearedCluster (s : Server) (c : Nat) : Server :=
  let s := s.readCluster c
  { s with clusterBuf := copy s.clusterBuf 0 (fun _ => 0) 0 s.vol.bpb.bytesPerCluster }

/-- `AllocateEntry`: the index of the entry in `cluster_buf_`, and its cluster. The pointer it returns is never null. -/
def allocateEntry (F : Nat) : Nat → Server → Nat → Option (Server × Option Nat × Nat)
  | 0, _, _ => none
  | fuel + 1, s, dirCluster =>
    let s := s.readCluster dirCluster
    match freeSlot s.clusterBuf s.vol.bpb.entriesPerCluster with
    | some i => some (s, some i, dirCluster)
    | none =>
      let (next, s) := s.nextCluster dirCluster
      if next = 0x0fffffff then
        (s.extendCluster F dirCluster 1).map fun (dirCluster, s) => (s.clearedCluster dirCluster, some 0, dirCluster)
      else allocateEntry F fuel s next

/-- `SetFileName(*dir, filename)`, `dir->file_size = 0` and `UpdateCluster(allocated_cluster)`. -/
def writeEntry (s : Server) (e : Slot) (filename : List UInt8) : Server :=
  { s with clusterBuf := store 4 (setFileName s.clusterBuf (32 * e.2) filename) (32 * e.2 + 28) 0 }.updateCluster e.1

/-- `CreateFile` once the parent directory is known. -/
def createIn (fuel : Nat) (s : Server) (parent : Nat) (filename : List UInt8) : Option (Server × Except Errno Slot) :=
  (s.allocateEntry fuel fuel parent).map fun (s, dir, allocated) =>
    match dir with
    | none => (s, .error .ENOSPC)
    | some i => (s.writeEntry (allocated, i) filename, .ok (allocated, i))

/-- `CreateFile`. -/
def createFile (fuel : Nat) (s : Server) (path : List UInt8) : Option (Server × Except Errno Slot) :=
  match strrchr path 0x2f with
  | none => s.createIn fuel s.vol.bpb.rootCluster.toNat path
  | some (parent, filename) =>
    if filename = [] then some (s, .error .EISDIR)
    else if parent = [] then s.createIn fuel s.vol.bpb.rootCluster.toNat filename
    else
      match s.findFile fuel parent 0 with
      | none => none
      | some (s, none, _) => some (s, .error .ENOENT)
      | some (s, some i, _) => s.createIn fuel (firstCluster s.clusterBuf (32 * i)) filename

end Server

/-! ## The search for a slot on the volume -/

/-- What `AllocateEntry` comes to: a free slot, or the last cluster of a directory that has none. -/
def openSlot (v : Volume) : Nat → Nat → Option (Slot ⊕ Nat)
  | 0, _ => none
  | fuel + 1, c =>
    match freeSlot (v.cluster c) v.bpb.entriesPerCluster with
    | some i => some (.inl (c, i))
    | none => if v.next c = 0x0fffffff then some (.inr c) else openSlot v fuel (v.next c)

theorem freeSlot_congr {m m' : Mem} {n : Nat} (h : ∀ i < n, m (32 * i) = m' (32 * i)) : freeSlot m n = freeSlot m' n := by
  unfold freeSlot
  induction n with
  | zero => rfl
  | succ n ih =>
    rw [List.range_succ, List.find?_append, List.find?_append, ih fun i hi => h i (by omega)]
    simp only [List.find?_cons, List.find?_nil, h n (by omega)]

theorem freeSlot_some {m : Mem} {n i : Nat} (h : freeSlot m n = some i) : i < n ∧ (m (32 * i) = 0 ∨ m (32 * i) = 0xe5) ∧
    ∀ j < i, m (32 * j) ≠ 0 ∧ m (32 * j) ≠ 0xe5 := by
  obtain ⟨hfree, hmem, hbefore⟩ := List.find?_range_eq_some.1 h
  exact ⟨List.mem_range.1 hmem, by simpa using hfree, fun j hj => by simpa using hbefore j hj⟩

/-! ## `AllocateEntry` takes the slot of `openSlot` -/

namespace Server

variable {s : Server}

theorem Loaded.freeSlot {c : Nat} (hl : s.Loaded c) :
    freeSlot s.clusterBuf s.vol.bpb.entriesPerCluster = freeSlot (s.vol.cluster c) s.vol.bpb.entriesPerCluster :=
  freeSlot_congr fun _ hi => hl.entry hi 0 (by decide)

/-- The loop's result is the one the volume determines. -/
def Takes (F : Nat) (s : Server) : Option (Slot ⊕ Nat) → Option (Server × Option Nat × Nat) → Prop
  | none, r => r = none
  | some (.inl e), r => ∃ s', r = some (s', some e.2, e.1) ∧ Found s s' e
  | some (.inr c), r => ∃ t : Server, t.vol = s.vol ∧ t.sm = s.sm ∧
    r = (t.extendCluster F c 1).map fun (c, s) => (s.clearedCluster c, some 0, c)

theorem Takes.of_eq {F : Nat} {t : Server} (hv : t.vol = s.vol) (hsm : t.sm = s.sm) :
    ∀ {o : Option (Slot ⊕ Nat)} {r : Option (Server × Option Nat × Nat)}, Takes F t o r → Takes F s o r
  | none, _, h => h
  | some (.inl _), _, ⟨s', he, hf⟩ => ⟨s', he, hf.vol.trans hv, hf.sm.trans hsm, hf.loaded, by rw [← hv]; exact hf.index⟩
  | some (.inr _), _, ⟨u, hu, hsm', he⟩ => ⟨u, hu.trans hv, hsm'.trans hsm, he⟩

theorem allocateEntry_openSlot {F : Nat} : ∀ (fuel : Nat) {s : Server} {c : Nat}, s.vol.bpb.Geometry →
    Takes F s (openSlot s.vol fuel c) (s.allocateEntry F fuel c)
  | 0, _, _, _ => rfl
  | fuel + 1, s, c, hg => by
    have hl := readCluster_loaded hg c
    have hfree := hl.freeSlot
    simp only [readCluster_vol] at hfree
    rw [openSlot, allocateEntry]
    simp only [readCluster_vol, hfree]
    cases hm : KinOS.Fs.freeSlot (s.vol.cluster c) s.vol.bpb.entriesPerCluster with
    | some i => exact ⟨s.readCluster c, rfl, rfl, rfl, hl, (freeSlot_some hm).1⟩
    | none =>
      have hnext : ((s.readCluster c).nextCluster c).1 = s.vol.next c := nextCluster_fst hg _
      simp only [hnext]
      by_cases hend : s.vol.next c = 0x0fffffff
      · rw [if_pos hend, if_pos hend]
        exact ⟨((s.readCluster c).nextCluster c).2, rfl, rfl, rfl⟩
      · rw [if_neg hend, if_neg hend]
        have ih := @allocateEntry_openSlot F fuel ((s.readCluster c).nextCluster c).2 (s.vol.next c) hg
        exact Takes.of_eq (s := s) (t := ((s.readCluster c).nextCluster c).2) rfl rfl ih

end Server

/-- More fuel changes nothing. -/
theorem openSlot_mono {v : Volume} : ∀ {fuel fuel' c : Nat} {r : Slot ⊕ Nat}, openSlot v fuel c = some r → fuel ≤ fuel' →
    openSlot v fuel' c = some r
  | 0, _, _, _, h, _ => by simp [openSlot] at h
  | fuel + 1, 0, _, _, h, hle => by omega
  | fuel + 1, fuel' + 1, c, r, h, hle => by
    rw [openSlot] at h ⊢
    cases hm : freeSlot (v.cluster c) v.bpb.entriesPerCluster with
    | some i => simpa only [hm] using h
    | none =>
      simp only [hm] at h ⊢
      by_cases hend : v.next c = 0x0fffffff
      · rwa [if_pos hend] at h ⊢
      · rw [if_neg hend] at h ⊢
        exact openSlot_mono h (by omega)

theorem openSlot_unique {v : Volume} {fuel fuel' c : Nat} {r r' : Slot ⊕ Nat} (h : openSlot v fuel c = some r)
    (h' : openSlot v fuel' c = some r') : r = r' := by
  have h1 := openSlot_mono h (Nat.le_max_left fuel fuel')
  have h2 := openSlot_mono h' (Nat.le_max_right fuel fuel')
  exact Option.some.inj (h1.symm.trans h2)

theorem Volume.Names.unique {v : Volume} {path : List UInt8} {ds ds' : List Slot} {e e' : Slot} (h : v.Names path ds e)
    (h' : v.Names path ds' e') : ds = ds' ∧ e = e' := by
  obtain ⟨fuel, cur, hs, hl⟩ := h
  obtain ⟨fuel', cur', hs', hl'⟩ := h'
  obtain rfl := Option.some.inj (hs.symm.trans hs')
  have h1 := lookup_mono hl (Nat.le_max_left fuel fuel')
  have h2 := lookup_mono hl' (Nat.le_max_right fuel fuel')
  simpa using h1.symm.trans h2

/-! ## Where a file is created -/

/-- The first cluster of the directory `CreateFile` puts the entry in, and the name. -/
inductive ParentOf (v : Volume) (path : List UInt8) : Nat → List UInt8 → Prop
  | plain : strrchr path 0x2f = none → ParentOf v path v.bpb.rootCluster.toNat path
  | root {filename : List UInt8} : strrchr path 0x2f = some ([], filename) → filename ≠ [] →
    ParentOf v path v.bpb.rootCluster.toNat filename
  | dir {parent filename : List UInt8} {ds : List Slot} {d : Slot} : strrchr path 0x2f = some (parent, filename) →
    filename ≠ [] → parent ≠ [] → v.Names parent ds d → ParentOf v path (v.first d) filename

theorem ParentOf.unique {v : Volume} {path : List UInt8} {c c' : Nat} {name name' : List UInt8} (h : ParentOf v path c name)
    (h' : ParentOf v path c' name') : c = c' ∧ name = name' := by
  cases h with
  | plain h =>
    cases h' with
    | plain _ => exact ⟨rfl, rfl⟩
    | root h' _ => simp [h] at h'
    | dir h' _ _ _ => simp [h] at h'
  | root h hne =>
    cases h' with
    | plain h' => simp [h] at h'
    | root h' _ =>
      obtain ⟨-, rfl⟩ := Prod.mk.inj (Option.some.inj (h.symm.trans h'))
      exact ⟨rfl, rfl⟩
    | dir h' _ hp _ =>
      obtain ⟨rfl, -⟩ := Prod.mk.inj (Option.some.inj (h.symm.trans h'))
      exact absurd rfl hp
  | dir h _ hp hn =>
    cases h' with
    | plain h' => simp [h] at h'
    | root h' _ =>
      obtain ⟨rfl, -⟩ := Prod.mk.inj (Option.some.inj (h.symm.trans h'))
      exact absurd rfl hp
    | dir h' _ _ hn' =>
      obtain ⟨rfl, rfl⟩ := Prod.mk.inj (Option.some.inj (h.symm.trans h'))
      exact ⟨by rw [(hn.unique hn').2], rfl⟩

/-- The slot `CreateFile` takes, and the name it writes there. -/
def TakesSlot (v : Volume) (path : List UInt8) (d : Slot) : Prop :=
  ∃ c name fuel, ParentOf v path c name ∧ openSlot v fuel c = some (.inl d)

theorem TakesSlot.eq {v : Volume} {path : List UInt8} {c fuel : Nat} {name : List UInt8} {r : Slot ⊕ Nat} {d : Slot}
    (h : TakesSlot v path d) (hp : ParentOf v path c name) (ho : openSlot v fuel c = some r) : r = .inl d := by
  obtain ⟨c', name', fuel', hp', ho'⟩ := h
  obtain ⟨rfl, -⟩ := hp.unique hp'
  exact openSlot_unique ho ho'

namespace Server

variable {s : Server}

/-- **`CreateFile` goes on in the parent directory**, unless the path ends in a slash or its parent is not found. -/
theorem createFile_cases {fuel : Nat} {path : List UInt8} {s' : Server} {r : Except Errno Slot} (hg : s.vol.bpb.Geometry)
    (h : s.createFile fuel path = some (s', r)) :
    (s'.vol = s.vol ∧ (r = .error .EISDIR ∨ r = .error .ENOENT)) ∨
    ∃ (c : Nat) (name : List UInt8) (t : Server), ParentOf s.vol path c name ∧ t.vol = s.vol ∧ t.sm = s.sm ∧
      t.createIn fuel c name = some (s', r) := by
  unfold createFile at h
  cases hsp : strrchr path 0x2f with
  | none =>
    simp only [hsp] at h
    exact .inr ⟨_, _, s, .plain hsp, rfl, rfl, h⟩
  | some pf =>
    obtain ⟨parent, filename⟩ := pf
    simp only [hsp] at h
    by_cases hf : filename = []
    · rw [if_pos hf] at h
      obtain ⟨rfl, rfl⟩ := Prod.mk.inj (Option.some.inj h)
      exact .inl ⟨rfl, .inl rfl⟩
    rw [if_neg hf] at h
    by_cases hp : parent = []
    · subst hp
      rw [if_pos rfl] at h
      exact .inr ⟨_, _, s, .root hsp hf, rfl, rfl, h⟩
    rw [if_neg hp] at h
    cases hst : findStart s.vol.bpb parent 0 with
    | none => simp [findFile, hst] at h
    | some cur =>
      have hans := @findLoop_lookup fuel s cur hg
      simp only [findFile, hst, Option.bind_some] at h
      cases hl : lookup s.vol fuel cur with
      | none =>
        rw [hl] at hans
        rw [show s.findLoop fuel cur = none from hans] at h
        simp at h
      | some res =>
        obtain ⟨ds, _ | d⟩ := res
        · rw [hl] at hans
          obtain ⟨t, p, he, hv, -⟩ := hans
          simp only [he, Option.some.injEq, Prod.mk.injEq] at h
          obtain ⟨rfl, rfl⟩ := h
          exact .inl ⟨hv, .inr rfl⟩
        · rw [hl] at hans
          obtain ⟨t, p, he, hfound⟩ := hans
          simp only [he] at h
          have hfirst : firstCluster t.clusterBuf (32 * d.2) = s.vol.first d := by
            rw [hfound.loaded.first (by rw [hfound.vol]; exact hfound.index), hfound.vol]
          rw [hfirst] at h
          exact .inr ⟨_, _, t, .dir hsp hf hp ⟨fuel, cur, hst, hl⟩, hfound.vol, hfound.sm, h⟩

/-- It succeeds in the parent directory. -/
theorem createFile_ok {fuel : Nat} {path : List UInt8} {s' : Server} {e : Slot} (hg : s.vol.bpb.Geometry)
    (h : s.createFile fuel path = some (s', .ok e)) :
    ∃ (c : Nat) (name : List UInt8) (t : Server), ParentOf s.vol path c name ∧ t.vol = s.vol ∧ t.sm = s.sm ∧
      t.createIn fuel c name = some (s', .ok e) := by
  rcases createFile_cases hg h with ⟨-, hr | hr⟩ | hin
  · cases hr
  · cases hr
  · exact hin

/-- It succeeds in a free slot, or in a new cluster behind the directory. -/
theorem createIn_ok {fuel c : Nat} {name : List UInt8} {s' : Server} {e : Slot} (hg : s.vol.bpb.Geometry)
    (h : s.createIn fuel c name = some (s', .ok e)) :
    (∃ t, openSlot s.vol fuel c = some (.inl e) ∧ Found s t e ∧ s' = t.writeEntry e name) ∨
    ∃ (last : Nat) (t u : Server), openSlot s.vol fuel c = some (.inr last) ∧ t.vol = s.vol ∧
      t.extendCluster fuel last 1 = some (e.1, u) ∧ e.2 = 0 ∧ s' = (u.clearedCluster e.1).writeEntry e name := by
  have htakes := @allocateEntry_openSlot fuel fuel s c hg
  unfold createIn at h
  cases ho : openSlot s.vol fuel c with
  | none =>
    rw [ho] at htakes
    rw [show s.allocateEntry fuel fuel c = none from htakes] at h
    simp at h
  | some r =>
    rw [ho] at htakes
    cases r with
    | inl d =>
      obtain ⟨t, he, hfound⟩ := htakes
      simp only [he, Option.map_some, Option.some.injEq, Prod.mk.injEq, Except.ok.injEq] at h
      obtain ⟨rfl, rfl⟩ := h
      exact .inl ⟨t, rfl, hfound, rfl⟩
    | inr last =>
      obtain ⟨t, hv, -, he⟩ := htakes
      cases hx : t.extendCluster fuel last 1 with
      | none => simp [he, hx] at h
      | some r =>
        obtain ⟨c', u⟩ := r
        rw [he, hx, Option.map_some, Option.map_some] at h
        dsimp only at h
        rw [Option.some.injEq, Prod.mk.injEq, Except.ok.injEq] at h
        obtain ⟨hs, rfl⟩ := h
        exact .inr ⟨last, t, u, rfl, hv, hx, rfl, hs.symm⟩

end Server

/-! ## The entry afterwards -/

theorem Server.updateCluster_eq (s : Server) (c : Nat) : (s.updateCluster c).vol =
    { s.vol with
      image := copyToImage s.vol.image s.clusterBuf (s.vol.bpb.clusterSector (if c = 0 then s.clusterNum else c))
        s.vol.bpb.sectorsPerCluster.toNat } := by
  unfold updateCluster
  exact Eq.refl _

@[simp] theorem Server.updateCluster_bpb (s : Server) (c : Nat) : (s.updateCluster c).vol.bpb = s.vol.bpb := by
  rw [updateCluster_eq]

/-- A cluster that is written back is read again, whatever its number. -/
theorem Server.updateCluster_cluster {s : Server} (hg : s.vol.bpb.Geometry) {c j : Nat} (hc : s.clusterNum = c)
    (hj : j < s.vol.bpb.bytesPerCluster) : (s.updateCluster c).vol.cluster c j = s.clusterBuf j := by
  have hnum : (if c = 0 then s.clusterNum else c) = c := by
    rw [hc]
    exact ite_self c
  rw [hg.bytesPerCluster_eq] at hj
  rw [updateCluster_eq, hnum]
  unfold Volume.cluster copyToImage
  dsimp only
  rw [copy_inside (by omega), Nat.zero_add]

/-- A new file's entry: it is no directory and no volume label, its size is 0 and it has no cluster. -/
structure NewFile (v : Volume) (e : Slot) : Prop where
  attr : v.attr e &&& 0x18 = 0
  size : v.size e = 0
  first : v.first e = 0

/-- What a slot must already hold for that. -/
def Clean (v : Volume) (e : Slot) : Prop := v.attr e &&& 0x18 = 0 ∧ v.first e = 0

namespace Server

variable {s : Server} {e : Slot} {name : List UInt8}

/-- The buffer with the name and the size set. -/
theorem writeEntry_cluster (hg : s.vol.bpb.Geometry) (hnum : s.clusterNum = e.1) {j : Nat}
    (hj : j < s.vol.bpb.bytesPerCluster) : (s.writeEntry e name).vol.cluster e.1 j =
      store 4 (setFileName s.clusterBuf (32 * e.2) name) (32 * e.2 + 28) 0 j :=
  updateCluster_cluster (s := { s with
    clusterBuf := store 4 (setFileName s.clusterBuf (32 * e.2) name) (32 * e.2 + 28) 0 }) hg hnum hj

/-- What is neither the name nor the size stays. -/
theorem writeEntry_kept (hg : s.vol.bpb.Geometry) (hnum : s.clusterNum = e.1) (hi : e.2 < s.vol.bpb.entriesPerCluster)
    {j : Nat} (h11 : 11 ≤ j) (h28 : j < 28) :
    (s.writeEntry e name).vol.cluster e.1 (32 * e.2 + j) = s.clusterBuf (32 * e.2 + j) := by
  have hidx := index_bound hi
  rw [writeEntry_cluster hg hnum (by omega), store_outside (by omega), setFileName, copy_outside (by omega)]

theorem writeEntry_attr (hg : s.vol.bpb.Geometry) (hnum : s.clusterNum = e.1) (hi : e.2 < s.vol.bpb.entriesPerCluster) :
    (s.writeEntry e name).vol.attr e = entryAttr s.clusterBuf (32 * e.2) :=
  writeEntry_kept hg hnum hi (by decide) (by decide)

theorem writeEntry_first (hg : s.vol.bpb.Geometry) (hnum : s.clusterNum = e.1) (hi : e.2 < s.vol.bpb.entriesPerCluster) :
    (s.writeEntry e name).vol.first e = firstCluster s.clusterBuf (32 * e.2) := by
  have hload : ∀ o, 11 ≤ o → o + 2 ≤ 28 → load 2 ((s.writeEntry e name).vol.cluster e.1) (32 * e.2 + o) =
      load 2 s.clusterBuf (32 * e.2 + o) := fun o h1 h2 => load_congr fun i hi' => by
    rw [Nat.add_assoc]
    exact writeEntry_kept hg hnum hi (by omega) (by omega)
  rw [Volume.first, firstCluster, firstCluster, hload 26 (by decide) (by decide), hload 20 (by decide) (by decide)]

theorem writeEntry_size (hg : s.vol.bpb.Geometry) (hnum : s.clusterNum = e.1) (hi : e.2 < s.vol.bpb.entriesPerCluster) :
    (s.writeEntry e name).vol.size e = 0 := by
  have hidx := index_bound hi
  rw [Volume.size, entrySize]
  refine (load_congr fun i hi' => ?_).trans (load_store_self (w := 4) (m := setFileName s.clusterBuf (32 * e.2) name)
    (a := 32 * e.2 + 28) (v := 0) (by decide))
  exact writeEntry_cluster hg hnum (by omega)

/-- The entry is a new file's if what the slot held is clean. -/
theorem writeEntry_newFile (hg : s.vol.bpb.Geometry) (hnum : s.clusterNum = e.1) (hi : e.2 < s.vol.bpb.entriesPerCluster) :
    NewFile (s.writeEntry e name).vol e ↔
      entryAttr s.clusterBuf (32 * e.2) &&& 0x18 = 0 ∧ firstCluster s.clusterBuf (32 * e.2) = 0 := by
  rw [← @writeEntry_attr s e name hg hnum hi, ← @writeEntry_first s e name hg hnum hi]
  exact ⟨fun h => ⟨h.attr, h.first⟩, fun h => ⟨h.1, writeEntry_size hg hnum hi, h.2⟩⟩

theorem putFAT_bpb (s : Server) (c x : Nat) : (s.putFAT c x).vol.bpb = s.vol.bpb := rfl

theorem chainEnd_vol : ∀ {fuel : Nat} {s t : Server} {c r : Nat}, s.chainEnd fuel c = some (r, t) → t.vol = s.vol
  | fuel + 1, s, t, c, r, h => by
    simp only [chainEnd] at h
    split at h
    · obtain ⟨-, rfl⟩ := Prod.mk.inj (Option.some.inj h)
      rfl
    · exact chainEnd_vol (s := (s.getFAT c).2) h

theorem linkFree_bpb : ∀ {fuel : Nat} {s t : Server} {cand cur todo r : Nat},
    s.linkFree fuel cand cur todo = some (r, t) → t.vol.bpb = s.vol.bpb
  | fuel + 1, s, t, cand, cur, todo, r, h => by
    simp only [linkFree] at h
    split at h
    · obtain ⟨-, rfl⟩ := Prod.mk.inj (Option.some.inj h)
      rfl
    · split at h
      · exact linkFree_bpb (s := (s.getFAT cand).2) h
      · exact (linkFree_bpb h).trans (putFAT_bpb (s.getFAT cand).2 cur cand)

theorem extendCluster_bpb {fuel c n r : Nat} {t : Server} (h : s.extendCluster fuel c n = some (r, t)) :
    t.vol.bpb = s.vol.bpb := by
  obtain ⟨⟨last, u⟩, hu, h⟩ := Option.bind_eq_some_iff.1 h
  obtain ⟨⟨cur, w⟩, hw, h⟩ := Option.map_eq_some_iff.1 h
  obtain ⟨-, rfl⟩ := Prod.mk.inj h
  exact (putFAT_bpb w cur _).trans ((linkFree_bpb hw).trans (congrArg Volume.bpb (chainEnd_vol hu)))

/-- A cleared cluster holds only zeros. -/
theorem clearedCluster_clean (s : Server) (c : Nat) (hB : 32 ≤ s.vol.bpb.bytesPerCluster) :
    entryAttr (s.clearedCluster c).clusterBuf 0 &&& 0x18 = 0 ∧ firstCluster (s.clearedCluster c).clusterBuf 0 = 0 := by
  have hzero : ∀ j < 32, (s.clearedCluster c).clusterBuf j = 0 := by
    intro j hj
    have h := @copy_inside (s.readCluster c).clusterBuf (fun _ => 0) 0 0 s.vol.bpb.bytesPerCluster j (by omega)
    rwa [Nat.zero_add] at h
  refine ⟨?_, ?_⟩
  · rw [show entryAttr (s.clearedCluster c).clusterBuf 0 = 0 from hzero 11 (by decide)]
    decide
  · rw [@firstCluster_congr _ (fun _ => 0) 0 fun j hj => by rw [Nat.zero_add]; exact hzero j hj]
    decide

end Server

/-- **What `CreateFile` returns is a new file** exactly when the slot it takes is clean. -/
theorem createFile_newFile {s s' : Server} {fuel : Nat} {path : List UInt8} {e : Slot} (hg : s.vol.bpb.Geometry)
    (h : s.createFile fuel path = some (s', .ok e)) :
    NewFile s'.vol e ↔ ∀ d, TakesSlot s.vol path d → Clean s.vol d := by
  obtain ⟨c, name, t, hpar, hv, -, hin⟩ := Server.createFile_ok hg h
  have hg' : t.vol.bpb.Geometry := by rwa [hv]
  rcases Server.createIn_ok hg' hin with ⟨u, ho, hfound, rfl⟩ | ⟨last, u, w, ho, hu, hx, he0, rfl⟩
  · have hfv := hfound.vol
    have hidx : e.2 < u.vol.bpb.entriesPerCluster := by
      rw [hfv]
      exact hfound.index
    rw [Server.writeEntry_newFile (by rwa [hfv]) hfound.loaded.num hidx, hfound.loaded.attr hidx, hfound.loaded.first hidx,
      hfv, hv]
    rw [hv] at ho
    refine ⟨fun hclean d hd => ?_, fun hall => hall e ⟨c, name, fuel, hpar, ho⟩⟩
    obtain rfl := Sum.inl.inj (hd.eq hpar ho)
    exact hclean
  · have hb : w.vol.bpb = t.vol.bpb := (Server.extendCluster_bpb hx).trans (congrArg Volume.bpb hu)
    have hgw : w.vol.bpb.Geometry := by rwa [hb]
    have hB := hgw.bytesPerCluster_ge
    have hidx : e.2 < (w.clearedCluster e.1).vol.bpb.entriesPerCluster := by
      show e.2 < w.vol.bpb.bytesPerCluster / 32
      omega
    rw [hv] at ho
    refine iff_of_true ?_ fun d hd => by cases hd.eq hpar ho
    rw [Server.writeEntry_newFile (s := w.clearedCluster e.1) hgw rfl hidx, he0]
    exact w.clearedCluster_clean e.1 (by omega)

end KinOS.Fs
