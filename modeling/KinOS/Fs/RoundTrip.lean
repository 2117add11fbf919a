import KinOS.Fs.ReadSlices
import KinOS.Fs.Tree

/-!
# What an application writes is what it reads

A call of `write` is a sequence of messages of at most 16 bytes and one of length zero. `Written` is the state after any
number of them: the bytes written so far lie at the start of the file's chain. It is kept by every data message
(`Written.data`), so by a call (`write_spec`) and by any number of calls (`writes_spec`).
-/

namespace KinOS.Fs

open Bytes

/-- Calls of `write` one after the other, each with the bytes of its buffer and what its stack held. -/
def writes (fuel : Nat) : FatFileDescriptor → Server → List (WriteArg × List UInt8) → Option (FatFileDescriptor × Server)
  | fd, s, [] => some (fd, s)
  | fd, s, (stack, buf) :: calls =>
    (write fuel fd s stack buf).bind fun (fd, s) => writes fuel fd s calls

/-! ## The messages of a call -/

/-- The first message for the bytes `buf`. -/
def firstChunk (w : WriteArg) (buf : List UInt8) : WriteArg :=
  { w with len := UInt8.ofNat (buf.take 16).length, data := setData w.data (buf.take 16) }

@[simp] theorem firstChunk_count (w : WriteArg) (buf : List UInt8) : (firstChunk w buf).count = w.count := by
  simp only [firstChunk]

theorem chunks_nil (n : Nat) (w : WriteArg) : chunks n w [] = [{ w with len := 0 }] := by
  cases n <;> simp [chunks]

theorem chunks_cons {n : Nat} {w : WriteArg} {buf : List UInt8} (h : buf ≠ []) :
    chunks (n + 1) w buf = firstChunk w buf :: chunks n (firstChunk w buf) (buf.drop 16) := by
  rw [chunks, if_neg h]
  rfl

theorem firstChunk_len {w : WriteArg} {buf : List UInt8} : (firstChunk w buf).len.toNat = min 16 buf.length := by
  simp only [firstChunk, UInt8.toNat_ofNat', List.length_take]
  omega

theorem rawData_firstChunk {fd : FatFileDescriptor} {w : WriteArg} {buf : List UInt8} {j : Nat}
    (h : j < (buf.take 16).length) : rawData (fd.stamp (firstChunk w buf)) j = (buf.take 16)[j] := by
  have h16 : j < 16 := by
    rw [List.length_take] at h
    omega
  have hget : (setData w.data (buf.take 16)).toList.getD j 0 = (buf.take 16)[j] := by
    rw [List.getD_eq_getElem _ _ (by simpa using h16), Vector.getElem_toList]
    simp only [setData, Vector.getElem_ofFn]
    exact List.getD_eq_getElem _ _ h
  simp only [rawData, FatFileDescriptor.stamp, firstChunk, if_pos h16]
  exact hget

/-! ## The state between two messages -/

/-- The bytes `data` have been written from the start of the file. -/
structure Written (v0 v : Volume) (e : Slot) (own0 own : List Nat) (data : List UInt8) : Prop where
  evolves : Evolves (EntryField e) v0 v own0 own
  first : v.first e = own.headD 0
  long : data.length ≤ v0.bpb.bytesPerCluster * own.length
  bytes : ∀ k (h : k < data.length), v.chainByte own k = data[k]

section Run

variable {v0 : Volume} {path : List UInt8} {e : Slot} {own0 : List Nat}

theorem Written.start (h : Tree v0 path e own0) : Written v0 v0 e own0 own0 [] where
  evolves := .refl h.chain.self
  first := h.chain.head.symm
  long := Nat.zero_le _
  bytes k hk := absurd hk (Nat.not_lt_zero k)

theorem Written.geometry (h : Tree v0 path e own0) {v : Volume} {own : List Nat} {data : List UInt8}
    (hw : Written v0 v e own0 own data) : v.bpb.Geometry := by
  rw [hw.evolves.bpb]
  exact h.wf.geometry

/-- The file is where it was. -/
theorem Written.target (h : Tree v0 path e own0) : ∃ F, ∀ {v : Volume} {own : List Nat} {data : List UInt8},
    Written v0 v e own0 own data → Server.Target v F path e own := by
  obtain ⟨F, cur, ds, hst, hlk⟩ := h.found
  refine ⟨F, fun {v own data} hw => ?_⟩
  have hb := hw.evolves.bpb
  have hdir := h.file.live.dirCluster
  have hapart := h.dir_stays_apart hw.evolves hdir
  refine ⟨⟨cur, ds, by rwa [hb], hlk v own hw.evolves⟩, hw.first ▸ hw.evolves.chain, by rw [hb]; exact hdir.valid, ?_,
    hapart⟩
  rw [hw.evolves.fat _ hdir.valid hapart]
  exact hdir.used

/-- A position that has been written is on the chain. -/
theorem Written.on_chain (h : Tree v0 path e own0) {v : Volume} {own : List Nat} {data : List UInt8}
    (hw : Written v0 v e own0 own data) {k : Nat} (hk : k < data.length) : k / v0.bpb.bytesPerCluster < own.length := by
  have hB := h.wf.geometry.bytesPerCluster_ge
  have := hw.long
  refine (Nat.div_lt_iff_lt_mul (by omega)).mpr ?_
  rw [Nat.mul_comm]
  omega

/-- **A data message** adds its bytes to what has been written. -/
theorem Written.data (h : Tree v0 path e own0) : ∃ F, ∀ fuel ≥ F, ∀ {s : Server} {own : List Nat} {data buf : List UInt8}
    {fd : FatFileDescriptor} {w : WriteArg}, Written v0 s.vol e own0 own data → fd.filename = path →
    fd.wrOff = data.length → buf ≠ [] → data.length + buf.length < 2 ^ 32 →
    data.length + buf.length ≤ v0.bpb.bytesPerCluster * (v0.free.length + own0.length) →
    w.count.toNat ≤ v0.bpb.bytesPerCluster * (v0.free.length + own0.length) →
    ∃ s' own', s.writeState fuel (fd.stamp (firstChunk w buf)) = some s' ∧
      Written v0 s'.vol e own0 own' (data ++ buf.take 16) := by
  obtain ⟨F, hF⟩ := Written.target h
  refine ⟨max F (v0.bpb.top + 3), fun fuel hf {s own data buf fd w} hw hname hoff hne hlt hroom hcount => ?_⟩
  have hb := hw.evolves.bpb
  have hg := hw.geometry h
  have hfree := hw.evolves.count h.chain.self
  have hpos := List.length_pos_iff.mpr hne
  have hlen : (fd.stamp (firstChunk w buf)).len.toNat = min 16 buf.length := firstChunk_len (w := w)
  have hoff32 : (fd.stamp (firstChunk w buf)).offset.toNat = data.length := by
    simp only [FatFileDescriptor.stamp, UInt32.toNat_ofNat', hoff]
    omega
  have hsame : (fd.stamp (firstChunk w buf)).count = w.count := by
    simp only [FatFileDescriptor.stamp, firstChunk_count]
  obtain ⟨s', own', hwrite, hev, hfirst, hlong, hnew, hold⟩ := @Server.writeState_data s F fuel _ _ _ _ hg
    (by rw [show (fd.stamp (firstChunk w buf)).filename = path from hname]; exact hF hw)
    hoff32 (by omega) (by rw [hb, hfree]; omega)
    (by
      rintro rfl
      rw [hb]
      rw [List.length_nil, Nat.add_zero] at hfree
      rw [hfree, hsame]
      exact hcount)
    (by omega) (by rw [hb]; omega) (by omega)
  rw [hlen, hb] at hlong
  refine ⟨s', own', hwrite, hw.evolves.trans hev, hfirst, ?_, fun k hk => ?_⟩
  · rw [List.length_append, List.length_take]
    omega
  · rw [List.length_append, List.length_take] at hk
    by_cases hkd : k < data.length
    · rw [hold k hkd (by rw [hb]; exact hw.on_chain h hkd), hw.bytes k hkd, List.getElem_append_left hkd]
    · rw [hnew k (by omega) (by omega), rawData_firstChunk (by rw [List.length_take]; omega),
        List.getElem_append_right (by omega)]

/-- **The last message of a call** sets the size. -/
theorem Written.finish (h : Tree v0 path e own0) : ∃ F, ∀ fuel ≥ F, ∀ {s : Server} {own : List Nat} {data : List UInt8}
    {fd : FatFileDescriptor} {w : WriteArg}, Written v0 s.vol e own0 own data → fd.filename = path →
    fd.wrOff = data.length → data ≠ [] → data.length < 2 ^ 32 → w.len = 0 →
    ∃ s', s.writeState fuel (fd.stamp w) = some s' ∧ Written v0 s'.vol e own0 own data ∧
      s'.vol.size e = data.length := by
  obtain ⟨F, hF⟩ := Written.target h
  refine ⟨F, fun fuel hf {s own data fd w} hw hname hoff hne hlt hlen => ?_⟩
  have hb := hw.evolves.bpb
  have hpos := List.length_pos_iff.mpr hne
  have hown : own ≠ [] := by
    rintro rfl
    have := hw.long
    simp only [List.length_nil, Nat.mul_zero] at this
    omega
  have hoff32 : (fd.stamp w).offset.toNat = data.length := by
    simp only [FatFileDescriptor.stamp, UInt32.toNat_ofNat', hoff]
    omega
  obtain ⟨s', hwrite, hev, hfirst, hsize, hold⟩ := @Server.writeState_finish s F _ _ _
    (fd.stamp w) (hw.geometry h) (by rw [show (fd.stamp w).filename = path from hname]; exact hF hw) hown hlen hf
  refine ⟨s', hwrite, ⟨hw.evolves.trans hev, hfirst, hw.long, fun k hk => ?_⟩, hsize.trans hoff32⟩
  rw [hold k (by rw [hb]; exact hw.on_chain h hk), hw.bytes k hk]

/-! ## Calls -/

/-- The messages of one call, from any point of it on. -/
theorem descriptor_write_spec (h : Tree v0 path e own0) : ∃ F, ∀ fuel ≥ F, ∀ (n : Nat) {s : Server} {own : List Nat}
    {data buf : List UInt8} {fd : FatFileDescriptor} {w : WriteArg}, Written v0 s.vol e own0 own data →
    fd.filename = path → fd.wrOff = data.length → buf ≠ [] → buf.length ≤ n → data.length + buf.length < 2 ^ 32 →
    data.length + buf.length ≤ v0.bpb.bytesPerCluster * (v0.free.length + own0.length) →
    w.count.toNat ≤ v0.bpb.bytesPerCluster * (v0.free.length + own0.length) →
    ∃ msg rest fd' s' own', chunks n w buf = msg :: rest ∧ fd.write fuel s msg rest = some (fd', s', []) ∧
      msg.len ≠ 0 ∧ Written v0 s'.vol e own0 own' (data ++ buf) ∧ fd'.filename = path ∧
      fd'.wrOff = (data ++ buf).length ∧ s'.vol.size e = (data ++ buf).length := by
  obtain ⟨F1, hdata⟩ := Written.data h
  obtain ⟨F2, hfinish⟩ := Written.finish h
  refine ⟨max F1 F2, fun fuel hf n => ?_⟩
  induction n with
  | zero =>
    intro s own data buf fd w _ _ _ hne hn
    exact absurd (List.eq_nil_of_length_eq_zero (by omega)) hne
  | succ n ih =>
    intro s own data buf fd w hw hname hoff hne hn hlt hroom hcount
    have hpos := List.length_pos_iff.mpr hne
    have hlen : (firstChunk w buf).len.toNat = min 16 buf.length := firstChunk_len
    obtain ⟨s1, own1, hw1, hwritten1⟩ := hdata fuel (by omega) hw hname hoff hne hlt hroom hcount
    have hsplit : data ++ buf.take 16 ++ buf.drop 16 = data ++ buf := by
      rw [List.append_assoc, List.take_append_drop]
    have hlensum : (data ++ buf.take 16).length + (buf.drop 16).length = data.length + buf.length := by
      rw [← List.length_append, hsplit, List.length_append]
    have hoff1 : fd.wrOff + (firstChunk w buf).len.toNat = (data ++ buf.take 16).length := by
      rw [hoff, hlen, List.length_append, List.length_take]
    have hlen0 : (firstChunk w buf).len ≠ 0 := by
      intro h0
      rw [h0] at hlen
      have : min 16 buf.length = 0 := hlen.symm
      omega
    have hne1 : data ++ buf.take 16 ≠ [] := by
      intro hnil
      have := congrArg List.length hnil
      rw [List.length_append, List.length_take, List.length_nil] at this
      omega
    rw [chunks_cons hne]
    by_cases hrest : buf.drop 16 = []
    · -- this was the last piece
      rw [hrest, List.append_nil] at hsplit
      rw [hrest, chunks_nil]
      obtain ⟨s2, hw2, hwritten2, hsize⟩ := @hfinish fuel (by omega) s1 own1 _
        { fd with wrOff := fd.wrOff + (firstChunk w buf).len.toNat } { firstChunk w buf with len := 0 }
        hwritten1 hname hoff1 hne1 (by omega) rfl
      refine ⟨_, _, { fd with wrOff := fd.wrOff + (firstChunk w buf).len.toNat }, s2, own1, rfl, ?_, hlen0,
        hsplit ▸ hwritten2, hname, ?_, hsplit ▸ hsize⟩
      · simp only [FatFileDescriptor.write, hw1, Option.bind_some, if_true, hw2, Option.map_some]
      · rw [← hsplit]
        exact hoff1
    · have hcount1 : (firstChunk w buf).count.toNat ≤ v0.bpb.bytesPerCluster * (v0.free.length + own0.length) := by
        rw [firstChunk_count]
        exact hcount
      obtain ⟨msg, rest, fd', s', own', hchunks, hwr, hmsg, hwritten', hname', hoff', hsize'⟩ := @ih s1 own1 _ _
        { fd with wrOff := fd.wrOff + (firstChunk w buf).len.toNat } (firstChunk w buf) hwritten1 hname hoff1
        hrest (by rw [List.length_drop]; omega) (by omega) (by omega) hcount1
      rw [hsplit] at hwritten' hoff' hsize'
      refine ⟨_, _, fd', s', own', rfl, ?_, hlen0, hwritten', hname', hoff', hsize'⟩
      rw [hchunks]
      simp only [FatFileDescriptor.write, hw1, Option.bind_some, if_neg hmsg, hwr]

/-- **One call of `write`.** -/
theorem write_spec (h : Tree v0 path e own0) : ∃ F, ∀ fuel ≥ F, ∀ {s : Server} {own : List Nat} {data buf : List UInt8}
    {fd : FatFileDescriptor} {stack : WriteArg}, Written v0 s.vol e own0 own data → fd.filename = path →
    fd.wrOff = data.length → buf ≠ [] → data.length + buf.length < 2 ^ 32 →
    data.length + buf.length ≤ v0.bpb.bytesPerCluster * (v0.free.length + own0.length) →
    ∃ fd' s' own', write fuel fd s stack buf = some (fd', s') ∧ Written v0 s'.vol e own0 own' (data ++ buf) ∧
      fd'.filename = path ∧ fd'.wrOff = (data ++ buf).length ∧ s'.vol.size e = (data ++ buf).length := by
  obtain ⟨F, hF⟩ := descriptor_write_spec h
  refine ⟨F, fun fuel hf {s own data buf fd stack} hw hname hoff hne hlt hroom => ?_⟩
  obtain ⟨msg, rest, fd', s', own', hchunks, hwr, -, hres⟩ := hF fuel hf buf.length
    (w := { stack with count := UInt32.ofNat buf.length }) hw hname hoff hne (Nat.le_refl _) hlt hroom
    (by simp only [UInt32.toNat_ofNat']; omega)
  refine ⟨fd', s', own', ?_, hres⟩
  simp only [write, hchunks, hwr, Option.map_some]

/-- **Any number of calls.** After at least one the size is that of everything written. -/
theorem writes_spec (h : Tree v0 path e own0) : ∃ F, ∀ fuel ≥ F, ∀ (calls : List (WriteArg × List UInt8)) {s : Server}
    {own : List Nat} {data : List UInt8} {fd : FatFileDescriptor}, Written v0 s.vol e own0 own data →
    fd.filename = path → fd.wrOff = data.length → (∀ c ∈ calls, c.2 ≠ []) → ∀ {D : List UInt8},
    D = data ++ (calls.map Prod.snd).flatten → D.length < 2 ^ 32 →
    D.length ≤ v0.bpb.bytesPerCluster * (v0.free.length + own0.length) →
    (calls = [] → s.vol.size e = data.length) →
    ∃ fd' s' own', writes fuel fd s calls = some (fd', s') ∧ Written v0 s'.vol e own0 own' D ∧
      s'.vol.size e = D.length := by
  obtain ⟨F, hF⟩ := write_spec h
  refine ⟨F, fun fuel hf calls => ?_⟩
  induction calls with
  | nil =>
    intro s own data fd hw _ _ _ D hD _ _ hsize
    obtain rfl : D = data := by simpa using hD
    exact ⟨fd, s, own, rfl, hw, hsize rfl⟩
  | cons call calls ih =>
    obtain ⟨stack, buf⟩ := call
    intro s own data fd hw hname hoff hne D hD hlt hroom _
    obtain ⟨hbuf, hne⟩ := List.forall_mem_cons.mp hne
    have hbuf : buf ≠ [] := hbuf
    have hD : D = data ++ buf ++ (calls.map Prod.snd).flatten := by
      rw [hD, List.map_cons, List.flatten_cons, List.append_assoc]
    have hlen : data.length + buf.length ≤ D.length := by
      rw [hD, List.length_append, List.length_append]
      omega
    obtain ⟨fd1, s1, own1, hw1, hwritten1, hname1, hoff1, hsize1⟩ := @hF fuel hf s own data buf fd stack hw hname hoff hbuf
      (by omega) (by omega)
    obtain ⟨fd', s', own', hws, hres⟩ := ih hwritten1 hname1 hoff1 hne hD hlt hroom fun _ => hsize1
    refine ⟨fd', s', own', ?_, hres⟩
    simp only [writes, hw1, Option.bind_some, hws]

/-! ## Reading back -/

theorem Replies.collect {out : List Message} {bs : List UInt8} (h : Replies out bs) : collect out = some bs := by
  obtain ⟨ms, z, rfl, hms, ⟨-, r, harg, hlen⟩, rfl⟩ := h
  have hz : readArg? z = some r := by simp only [readArg?, harg]
  clear harg
  induction ms with
  | nil => simp [Fs.collect, hz, hlen]
  | cons m ms ih =>
    obtain ⟨hm, hms⟩ := List.forall_mem_cons.mp hms
    obtain ⟨r', hr', h0, -⟩ := hm.readArg
    have hb : msgBytes m = payload r' := by rw [msgBytes, hr']; rfl
    rw [List.cons_append, Fs.collect, hr', Option.bind_some, if_pos h0, ih hms, List.flatMap_cons, hb]
    rfl

/-- From offset 0 nothing is shifted. -/
theorem shifted_zero (B : Nat) (f : Nat → UInt8) (n : Nat) : shifted B f 0 n = (List.range n).map f := by
  refine List.map_congr_left fun j _ => ?_
  simp only [Nat.zero_mod, Nat.sub_zero, Nat.zero_add, ite_self]

/-- A descriptor as `open` makes it. -/
def freshDescriptor (path : List UInt8) : FatFileDescriptor := ⟨path, 0, 0, 0⟩

/-- One `read` of a file from its start: as much of it as the request's 32-bit count asks for. -/
theorem read_spec {v : Volume} {cs : List Nat} (hg : v.bpb.Geometry) (h : IsFile v path e cs) :
    ∃ F, ∀ fuel ≥ F, ∀ (s : Server) (stack : ReadArg) (count : UInt64), s.vol = v →
      ∃ fd' s', read fuel (freshDescriptor path) s stack count =
        some (fd', s', (List.range (min (count.toNat % 2 ^ 32) (v.size e))).map (v.chainByte cs)) := by
  obtain ⟨F, hF⟩ := descriptor_read_spec hg h
  refine ⟨F, fun fuel hf s stack count hs => ?_⟩
  obtain ⟨fd', s', out, hread, -, -, -, hrep⟩ := hF fuel hf (freshDescriptor path) s
    { stack with count := count.toUInt32 } hs rfl (Nat.zero_le _)
  have hcount : count.toUInt32.toNat = count.toNat % 2 ^ 32 := UInt64.toNat_toUInt32 count
  rw [show (freshDescriptor path).rdOff = 0 from rfl, shifted_zero, Nat.sub_zero] at hrep
  simp only [hcount] at hrep
  refine ⟨fd', s', ?_⟩
  simp only [read, hread, Option.bind_some, hrep.collect, Option.map_some]

/-- What has been written is read back. -/
theorem Written.read (h : Tree v0 path e own0) {v : Volume} {own : List Nat} {D : List UInt8}
    (hw : Written v0 v e own0 own D) (hsize : v.size e = D.length) :
    ∃ F, ∀ fuel ≥ F, ∀ (s : Server) (stack : ReadArg) (count : UInt64), s.vol = v →
      ∃ fd' s', Fs.read fuel (freshDescriptor path) s stack count =
        some (fd', s', D.take (min (count.toNat % 2 ^ 32) D.length)) := by
  have hg := hw.geometry h
  have hb := hw.evolves.bpb
  obtain ⟨F0, cur, ds, hst, hlk⟩ := h.found
  have hdir := h.file.live.dirCluster
  have hidx := Server.index_bound (h.file.live.choose_spec.2.index)
  have hattr : v.attr e = v0.attr e := by
    rw [Volume.attr, Volume.attr, entryAttr, entryAttr, Volume.cluster_eq hg (by rw [hb]; exact hdir.valid),
      Volume.cluster_eq h.wf.geometry hdir.valid]
    refine hw.evolves.bytes _ _ hdir.valid (by omega) (h.dir_stays_apart hw.evolves hdir) ?_
    unfold EntryField
    omega
  have hfile : IsFile v path e own :=
    ⟨⟨ds, F0, cur, by rwa [hb], hlk v own hw.evolves⟩, h.file.notRoot, by rw [hattr]; exact h.file.regular,
      hw.first ▸ hw.evolves.chain, by rw [hsize, hb]; exact hw.long⟩
  obtain ⟨F, hF⟩ := read_spec hg hfile
  refine ⟨F, fun fuel hf s stack count hs => ?_⟩
  obtain ⟨fd', s', hread⟩ := hF fuel hf s stack count hs
  refine ⟨fd', s', ?_⟩
  rw [hread, hsize]
  have hmap : ∀ n, n ≤ D.length → (List.range n).map (v.chainByte own) = D.take n := by
    intro n hn
    refine List.ext_getElem (by simp; omega) fun k h1 h2 => ?_
    simp only [List.length_map, List.length_range] at h1
    rw [List.getElem_map, List.getElem_range, hw.bytes k (by omega), List.getElem_take]
  rw [hmap _ (by omega)]

/-! ## The rest of the volume -/

/-- A slot of a directory other than the file's own entry keeps all its bytes. -/
theorem Written.other_slot (h : Tree v0 path e own0) {v : Volume} {own : List Nat} {D : List UInt8}
    (hw : Written v0 v e own0 own D) {d : Slot} (hd : DirCluster v0 d.1) (hi : d.2 < v0.bpb.entriesPerCluster)
    (hne : d ≠ e) : ∀ j < 32, v.cluster d.1 (32 * d.2 + j) = v0.cluster d.1 (32 * d.2 + j) := by
  intro j hj
  have hb := hw.evolves.bpb
  have hidx := Server.index_bound hi
  rw [Volume.cluster_eq (hw.geometry h) (by rw [hb]; exact hd.valid), Volume.cluster_eq h.wf.geometry hd.valid]
  refine hw.evolves.bytes _ _ hd.valid (by omega) (h.dir_stays_apart hw.evolves hd) ?_
  rintro ⟨h1, h2⟩
  refine hne (Prod.ext h1 ?_)
  omega

/-- Any other entry keeps its chain, and a file its contents. -/
theorem Written.other_chain (h : Tree v0 path e own0) {v : Volume} {own : List Nat} {D : List UInt8}
    (hw : Written v0 v e own0 own D) {d : Slot} {cs : List Nat} (hd : Live v0 d) (hne : d ≠ e)
    (hcs : IsChain v0 (v0.first d) cs) :
    IsChain v (v.first d) cs ∧ (v0.attr d &&& 0x10 = 0 →
      ∀ k, k / v0.bpb.bytesPerCluster < cs.length → v.chainByte cs k = v0.chainByte cs k) := by
  have hb := hw.evolves.bpb
  have hfirst : v.first d = v0.first d :=
    firstCluster_congr (hw.other_slot h hd.dirCluster hd.choose_spec.2.index hne)
  have hapart : ∀ c ∈ cs, c ∉ own := fun c hc =>
    Tree.stays_apart hw.evolves (h.wf.apart hd h.file.live hne hcs h.chain hc) (hcs.linked.not_free hcs.valid c hc)
  refine ⟨⟨by rw [hfirst]; exact hcs.head, by rw [hb]; exact hcs.valid, hcs.nodup,
    hcs.linked.congr fun c hc => hw.evolves.fat c (hcs.valid c hc) (hapart c hc)⟩, fun hreg k hk => ?_⟩
  have hB := h.wf.geometry.bytesPerCluster_ge
  have hmem := mem_of_getD hk
  refine chainByte_congr hb (fun j hj => ?_) (by omega)
  refine hw.evolves.bytes _ j (hcs.valid _ hmem) hj (hapart _ hmem) ?_
  rintro ⟨h1, -⟩
  -- the entry lies in a directory's cluster, and those are no file's
  refine h.wf.dir_apart hd hreg hcs h.file.live.dirCluster ?_
  rw [← h1]
  exact hmem

end Run

/-- **Write, then read.** On a well-formed volume with room for the data, any calls of `write` on an existing regular
file leave the bytes passed to them, and only these, as the file: its size is their number, they lie along its
chain, every other entry, chain and file is as before, and a `read` whose count reaches the file server with at least
that many bytes returns them. -/
theorem write_read_round_trip {s : Server} {fd : FatFileDescriptor} {e : Slot} {own : List Nat}
    (hwf : WellFormed s.vol) (hfile : Existing s.vol fd.filename e) (hown : IsChain s.vol (s.vol.first e) own)
    (h0 : fd.wrOff = 0) {calls : List (WriteArg × List UInt8)} (hne : calls ≠ []) (hpos : ∀ c ∈ calls, c.2 ≠ [])
    {D : List UInt8} (hD : D = (calls.map Prod.snd).flatten) (hlt : D.length < 2 ^ 32)
    (hroom : D.length ≤ s.vol.bpb.bytesPerCluster * (s.vol.free.length + own.length)) :
    ∃ F, ∀ fuel ≥ F, ∃ fd' s', writes fuel fd s calls = some (fd', s') ∧
      s'.vol.size e = D.length ∧
      (∃ own', IsChain s'.vol (s'.vol.first e) own' ∧ D.length ≤ s'.vol.bpb.bytesPerCluster * own'.length ∧
        ∀ k (h : k < D.length), s'.vol.chainByte own' k = D[k]) ∧
      (∀ d, DirCluster s.vol d.1 → d.2 < s.vol.bpb.entriesPerCluster → d ≠ e →
        ∀ j < 32, s'.vol.cluster d.1 (32 * d.2 + j) = s.vol.cluster d.1 (32 * d.2 + j)) ∧
      (∀ d, Live s.vol d → d ≠ e → ∀ cs, IsChain s.vol (s.vol.first d) cs →
        IsChain s'.vol (s'.vol.first d) cs ∧ (s.vol.attr d &&& 0x10 = 0 →
          ∀ k, k / s.vol.bpb.bytesPerCluster < cs.length → s'.vol.chainByte cs k = s.vol.chainByte cs k)) ∧
      (∀ c, s.vol.bpb.Valid c → s.vol.fatAt c ≠ 0 → c ∉ own → s'.vol.fatAt c = s.vol.fatAt c) ∧
      ∀ (stack : ReadArg) (count : UInt64), D.length ≤ count.toNat % 2 ^ 32 → ∃ F', ∀ fuel' ≥ F',
        ∃ fd'' s'', read fuel' (freshDescriptor fd.filename) s' stack count = some (fd'', s'', D) := by
  have htree : Tree s.vol fd.filename e own := ⟨hwf, hfile, hown⟩
  obtain ⟨F, hF⟩ := writes_spec htree
  refine ⟨F, fun fuel hf => ?_⟩
  obtain ⟨fd', s', own', hrun, hw, hsize⟩ := hF fuel hf calls (Written.start htree) rfl h0 hpos hD hlt hroom
    fun hnil => absurd hnil hne
  refine ⟨fd', s', hrun, hsize, ⟨own', hw.first ▸ hw.evolves.chain, by rw [hw.evolves.bpb]; exact hw.long, hw.bytes⟩,
    fun d hd hi hde => hw.other_slot htree hd hi hde, fun d hd hde cs hcs => hw.other_chain htree hd hde hcs,
    fun c hc hz hm => hw.evolves.fat c hc (Tree.stays_apart hw.evolves hm hz), fun stack count hcount => ?_⟩
  obtain ⟨F', hF'⟩ := hw.read htree hsize
  refine ⟨F', fun fuel' hf' => ?_⟩
  obtain ⟨fd'', s'', hread⟩ := hF' fuel' hf' s' stack count rfl
  refine ⟨fd'', s'', ?_⟩
  rw [hread, Nat.min_eq_right hcount, List.take_length]

/-! ### One byte written to the file of two -/

theorem twoBytes_linked {first : Nat} {cs : List Nat} {c : Nat} (h : IsChain twoBytes first (c :: cs))
    (hc : 0x0ffffff8 ≤ twoBytes.fatAt c) : cs = [] := by
  cases cs with
  | nil => rfl
  | cons d cs =>
    have hd : twoBytes.fatAt c = d := h.linked.1
    have h1 := (h.valid d (by simp)).2
    have h2 := twoBytes_geometry.marks
    omega

theorem twoBytes_root {ds : List Nat} (h : IsChain twoBytes 2 ds) : ds = [2] := by
  rcases ds with - | ⟨c, cs⟩
  · exact absurd h.head (by decide)
  · obtain rfl : c = 2 := h.head
    rw [twoBytes_linked h (by decide)]

theorem twoBytes_liveIn {d : Slot} (h : LiveIn twoBytes [2] d) : d = (2, 0) := by
  obtain ⟨c, i⟩ := d
  obtain rfl : c = 2 := List.mem_singleton.mp h.mem
  obtain ⟨pre, post, -, -, hbefore⟩ := h.before
  rcases Nat.eq_zero_or_pos i with rfl | hi
  · rfl
  · exact absurd (show twoBytes.name0 (2, 1) = 0 by decide) (hbefore 1 hi)

theorem twoBytes_directory {ds : List Nat} (h : Directory twoBytes ds) : ds = [2] := by
  induction h with
  | root h => exact twoBytes_root h
  | sub hdir hin hattr hchain ih =>
    subst ih
    rw [twoBytes_liveIn hin] at hattr
    exact absurd (show twoBytes.attr (2, 0) &&& 0x10 = 0 by decide) hattr

theorem twoBytes_live {e : Slot} : Live twoBytes e → e = (2, 0)
  | ⟨ds, hdir, hin⟩ => by
    rw [twoBytes_directory hdir] at hin
    exact twoBytes_liveIn hin

theorem twoBytes_fileChain : IsChain twoBytes (twoBytes.first (2, 0)) [3] := twoBytes_isFile.chain

theorem twoBytes_rootChain : IsChain twoBytes 2 [2] :=
  ⟨rfl, by decide, by decide, show 0x0ffffff8 ≤ twoBytes.fatAt 2 by decide⟩

theorem twoBytes_entry : Live twoBytes (2, 0) :=
  ⟨[2], .root twoBytes_rootChain, by decide,
    ⟨[], [], rfl, by simp, fun i hi => by
      obtain rfl : i = 0 := Nat.le_zero.mp hi
      decide⟩, by decide, by decide⟩

theorem twoBytes_chain {cs : List Nat} (h : IsChain twoBytes (twoBytes.first (2, 0)) cs) : cs = [3] := by
  rcases cs with - | ⟨c, cs⟩
  · exact absurd h.head (by decide)
  · obtain rfl : c = 3 := h.head.trans (by decide)
    rw [twoBytes_linked h (by decide)]

theorem twoBytes_wellFormed : WellFormed twoBytes where
  geometry := twoBytes_geometry
  root := ⟨[2], by simp, twoBytes_rootChain⟩
  chains e he := by
    rw [twoBytes_live he]
    exact ⟨[3], twoBytes_fileChain, fun _ => by simp⟩
  rootApart he hr hc := by
    rw [twoBytes_live he] at hc
    rw [twoBytes_root hr, twoBytes_chain hc]
    simp
  apart he he' hne := absurd ((twoBytes_live he).trans (twoBytes_live he').symm) hne

theorem twoBytes_existing : Existing twoBytes [0x61] (2, 0) where
  names := ⟨[], ⟨1, ⟨2, [0x61], [], true, false⟩, by decide, by decide⟩, by simp⟩
  live := twoBytes_entry
  notRoot := by decide
  regular := by decide

def writeStack : WriteArg := ⟨[], 3, Vector.replicate 16 0, 0, Vector.replicate 3 0, 0, 0, 0⟩

/-- The bytes 7 and 8 are written in two calls and read back in one. -/
theorem write_read_two_bytes : ∃ F, ∀ fuel ≥ F, ∃ fd' s',
    writes fuel fdA twoBytesServer [(writeStack, [7]), (writeStack, [8])] = some (fd', s') ∧ s'.vol.size (2, 0) = 2 ∧
      ∃ F', ∀ fuel' ≥ F', ∃ fd'' s'', read fuel' (freshDescriptor [0x61]) s' (readReq 0) 5 = some (fd'', s'', [7, 8]) := by
  obtain ⟨F, hF⟩ := @write_read_round_trip twoBytesServer fdA _ _ twoBytes_wellFormed
    twoBytes_existing twoBytes_fileChain rfl [(writeStack, [7]), (writeStack, [8])] (by simp) (by simp)
    (D := [7, 8]) rfl (by decide) (by decide)
  refine ⟨F, fun fuel hf => ?_⟩
  obtain ⟨fd', s', hrun, hsize, -, -, -, -, hread⟩ := hF fuel hf
  exact ⟨fd', s', hrun, hsize, hread (readReq 0) 5 (by decide)⟩

/-- A count of 2^32 is at least the one byte written, but reaches the file server as 0: nothing is read. -/
theorem read_count_wraps : WellFormed twoBytes ∧ Existing twoBytes fdA.filename (2, 0) ∧
    IsChain twoBytes (twoBytes.first (2, 0)) [3] ∧ fdA.wrOff = 0 ∧
    (1 : Nat) ≤ twoBytes.bpb.bytesPerCluster * (twoBytes.free.length + 1) ∧ 1 ≤ (4294967296 : UInt64).toNat ∧
    ∃ F, ∀ fuel ≥ F, ∃ fd' s', writes fuel fdA twoBytesServer [(writeStack, [7])] = some (fd', s') ∧
      ∃ F', ∀ fuel' ≥ F', ∃ fd'' s'',
        read fuel' (freshDescriptor fdA.filename) s' (readReq 0) 4294967296 = some (fd'', s'', []) := by
  have htree : Tree twoBytesServer.vol fdA.filename (2, 0) [3] :=
    ⟨twoBytes_wellFormed, twoBytes_existing, twoBytes_fileChain⟩
  refine ⟨htree.wf, htree.file, htree.chain, rfl, by decide, by decide, ?_⟩
  obtain ⟨F, hF⟩ := writes_spec htree
  refine ⟨F, fun fuel hf => ?_⟩
  obtain ⟨fd', s', own', hrun, hw, hsize⟩ := hF fuel hf [(writeStack, [7])] (s := twoBytesServer)
    (Written.start htree) rfl rfl (by simp) (D := [7]) rfl (by decide) (by decide) (by simp)
  obtain ⟨F', hF'⟩ := hw.read htree hsize
  refine ⟨fd', s', hrun, F', fun fuel' hf' => ?_⟩
  obtain ⟨fd'', s'', hread⟩ := hF' fuel' hf' s' (readReq 0) 4294967296 rfl
  exact ⟨fd'', s'', hread⟩

end KinOS.Fs
