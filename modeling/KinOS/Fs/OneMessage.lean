import KinOS.Fs.Growth

/-!
# One write message, byte by byte

`WriteState::HandleMessage` copies the bytes of a message to their place along the chain. A message that goes on in the next
cluster is copied in two rounds, and the second round has the length of the whole message again
(`serverstate.cpp:504-512`): it reads bytes behind the message's own and writes them behind their place. So a message
writes exactly its bytes when it stays in one cluster (`message_exact`).
-/

namespace KinOS.Fs

open Bytes

/-- The bytes `data` are at position `off` of the file, whose chain `own` may have become longer; all other bytes of its
old clusters are as before, and so is every byte of every other cluster in use but for the file's entry. -/
structure WrittenExactly (v v' : Volume) (e : Slot) (own own' : List Nat) (off : Nat) (data : List UInt8) : Prop where
  chain : IsChain v' (v'.first e) own'
  ext : ∃ ns, own' = own ++ ns ∧ ∀ c ∈ ns, c ∈ v.free
  long : off + data.length ≤ v.bpb.bytesPerCluster * own'.length
  stored : ∀ k (h : k < data.length), v'.chainByte own' (off + k) = data[k]
  kept : ∀ k, k / v.bpb.bytesPerCluster < own.length → k < off ∨ off + data.length ≤ k →
    v'.chainByte own' k = v.chainByte own k
  others : ∀ c j, v.bpb.Valid c → v.fatAt c ≠ 0 → c ∉ own → j < v.bpb.bytesPerCluster →
    ¬ (c = e.1 ∧ 32 * e.2 ≤ j ∧ j < 32 * e.2 + 32) → v'.byteAt c j = v.byteAt c j

/-- The first `len` bytes of a message's data. -/
def messageBytes (rm : WriteArg) : List UInt8 := rm.data.toList.take rm.len.toNat

/-- A message whose memory has the same first `len` bytes leaves the same volume. -/
def ReadsOnlyData (fuel : Nat) (s : Server) (rm : WriteArg) (v' : Volume) : Prop := ∀ raw : Mem,
  (∀ j < rm.len.toNat, raw j = rawData rm j) → (s.writeStateFrom fuel rm raw).map (·.vol) = some v'

/-- The message is handled, writes exactly its bytes and reads no others. -/
def WritesExactly (fuel : Nat) (s : Server) (rm : WriteArg) (e : Slot) (own : List Nat) : Prop :=
  ∃ s' own', s.writeState fuel rm = some s' ∧
    WrittenExactly s.vol s'.vol e own own' rm.offset.toNat (messageBytes rm) ∧ ReadsOnlyData fuel s rm s'.vol

theorem length_messageBytes {rm : WriteArg} (h : rm.len.toNat ≤ 16) : (messageBytes rm).length = rm.len.toNat := by
  rw [messageBytes, List.length_take, Vector.length_toList]
  omega

theorem rawData_messageBytes {rm : WriteArg} {k : Nat} (h16 : rm.len.toNat ≤ 16) (h : k < (messageBytes rm).length) :
    rawData rm k = (messageBytes rm)[k] := by
  rw [length_messageBytes h16] at h
  have hlen : k < rm.data.toList.length := by
    rw [Vector.length_toList]
    omega
  rw [rawData, if_pos (by omega), List.getD_eq_getElem _ _ hlen]
  simp only [messageBytes, List.getElem_take]

/-- One round reads the bytes it copies. -/
theorem Server.putBytes_congr {s : Server} {raw raw' : Mem} {c writeOff n : Nat} (h : ∀ j < n, raw j = raw' j) :
    s.putBytes raw c writeOff 0 n = s.putBytes raw' c writeOff 0 n := by
  have hcopy : copy (s.readCluster c).clusterBuf writeOff raw 0 n = copy (s.readCluster c).clusterBuf writeOff raw' 0 n := by
    funext b
    unfold copy
    by_cases hb : writeOff ≤ b ∧ b < writeOff + n
    · rw [if_pos hb, if_pos hb, Nat.zero_add]
      exact h _ (by omega)
    · rw [if_neg hb, if_neg hb]
  rw [putBytes, putBytes, hcopy]

section Message

variable {s : Server} {rm : WriteArg} {e : Slot} {own : List Nat}

/-- The volume and the message of the results below: there is room for the message. -/
structure Sent (s : Server) (rm : WriteArg) (e : Slot) (own : List Nat) : Prop where
  tree : Tree s.vol rm.filename e own
  len : 1 ≤ rm.len.toNat ∧ rm.len.toNat ≤ 16
  room : rm.offset.toNat + rm.len.toNat ≤ s.vol.bpb.bytesPerCluster * (s.vol.free.length + own.length)
  count : own = [] → rm.count.toNat ≤ s.vol.bpb.bytesPerCluster * s.vol.free.length

/-- The copy loop starts at the offset's cluster. -/
theorem Sent.reaches (h : Sent s rm e own) : ∃ F, ∀ fuel ≥ F, ∃ pre c post, ∃ t : Server,
    (∀ raw, s.writeStateFrom fuel rm raw =
      t.writeBytes fuel raw rm.len.toNat fuel c (rm.offset.toNat % s.vol.bpb.bytesPerCluster) 0) ∧
    pre.length = rm.offset.toNat / s.vol.bpb.bytesPerCluster ∧
    Evolves (EntryField e) s.vol t.vol own (pre ++ c :: post) ∧ t.vol.first e = (pre ++ c :: post).headD 0 ∧
    (e.1 ∉ pre ++ c :: post ∧ s.vol.bpb.Valid e.1 ∧ e.2 < s.vol.bpb.entriesPerCluster) ∧
    (∀ k, k / s.vol.bpb.bytesPerCluster < own.length → t.vol.chainByte (pre ++ c :: post) k = s.vol.chainByte own k) ∧
    rm.offset.toNat + rm.len.toNat ≤ t.vol.bpb.bytesPerCluster * (t.vol.free.length + (pre ++ c :: post).length) ∧
    t.vol.bpb.top + 3 ≤ fuel := by
  obtain ⟨F, hF⟩ := Written.target h.tree
  refine ⟨max F (s.vol.bpb.top + 3), fun fuel hf => ?_⟩
  have hg := h.tree.wf.geometry
  have hB := hg.bytesPerCluster_ge
  have ht := hF (Written.start h.tree)
  obtain ⟨h1, h16⟩ := h.len
  have hroom := h.room
  have hlen : rm.len ≠ 0 := fun h0 => by
    rw [h0] at h1
    exact absurd h1 (by decide)
  obtain ⟨pre, c, post, t, hrun, hpre, hev, hfirst, hapart, hidx, hold⟩ :=
    @Server.writeState_reaches s F fuel e own rm _ hg ht
    rfl hlen ((Nat.div_lt_iff_lt_mul (by omega)).mpr (by rw [Nat.mul_comm]; omega)) h.count (by omega) (by omega)
  have hcount := hev.count h.tree.chain.self
  refine ⟨pre, c, post, t, hrun, hpre, hev, hfirst, ⟨hapart, ht.valid, hidx⟩, hold, ?_, by rw [hev.bpb]; omega⟩
  rw [hev.bpb, hcount]
  exact hroom

/-- **A message that stays in one cluster** writes exactly its bytes. -/
theorem Sent.exact (h : Sent s rm e own)
    (hfit : rm.offset.toNat % s.vol.bpb.bytesPerCluster + rm.len.toNat ≤ s.vol.bpb.bytesPerCluster) :
    ∃ F, ∀ fuel ≥ F, WritesExactly fuel s rm e own := by
  obtain ⟨F, hF⟩ := h.reaches
  refine ⟨F, fun fuel hf => ?_⟩
  obtain ⟨pre, c, post, t, hrun, hpre, hev, hfirst, ⟨hapart, hval, hidx⟩, hold, -, hfuel⟩ := hF fuel hf
  obtain ⟨h1, h16⟩ := h.len
  have hg := h.tree.wf.geometry
  have hB := hg.bytesPerCluster_ge
  have hb := hev.bpb
  have hgt : t.vol.bpb.Geometry := by rwa [hb]
  have hlen := length_messageBytes h16
  have hpos := Nat.div_add_mod rm.offset.toNat s.vol.bpb.bytesPerCluster
  have hwrite : ∀ raw, s.writeStateFrom fuel rm raw =
      some (t.putBytes raw c (rm.offset.toNat % s.vol.bpb.bytesPerCluster) 0 rm.len.toNat) := fun raw =>
    (hrun raw).trans (Server.writeBytes_fit hgt hev.chain h1 (by rwa [hb]) rfl (by omega)).1
  obtain ⟨-, hev', hby⟩ := @Server.writeBytes_fit t (rawData rm) pre post c
    (rm.offset.toNat % s.vol.bpb.bytesPerCluster) rm.len.toNat fuel fuel hgt hev.chain h1 (by rwa [hb]) rm.offset.toNat
    (by rw [hb, hpre, Nat.mul_comm]; exact hpos.symm) (by omega)
  rw [hb] at hby
  obtain ⟨s', hs'⟩ : ∃ s', s' = t.putBytes (rawData rm) c (rm.offset.toNat % s.vol.bpb.bytesPerCluster) 0 rm.len.toNat :=
    ⟨_, rfl⟩
  rw [← hs'] at hby hev'
  have hev2 := hev.trans (hev'.mono (Q := EntryField e) fun _ _ h => h.elim)
  -- the cluster of the offset is the last that is written
  have hlong : rm.offset.toNat + rm.len.toNat ≤ s.vol.bpb.bytesPerCluster * (pre ++ c :: post).length := by
    have hle := Nat.mul_le_mul_left s.vol.bpb.bytesPerCluster (show pre.length + 1 ≤ (pre ++ c :: post).length by simp)
    rw [hpre, Nat.mul_add] at hle
    omega
  obtain ⟨ns, hext, hfree⟩ := hev.ext
  refine ⟨s', pre ++ c :: post, ?_,
    ⟨?_, ⟨ns, hext, fun x hx => ?_⟩, by rw [hlen]; exact hlong, fun k hk => ?_, fun k hk hout => ?_,
    fun x j hx hused hxo hj hslot => ?_⟩, fun raw hraw => ?_⟩
  · rw [← Server.writeStateFrom_rawData, hwrite, hs']
  · rw [hev'.first_kept hgt (by rwa [hb]) (by rwa [hb]) hapart, hfirst]
    exact hev2.chain
  · refine Volume.mem_free.mpr ⟨?_, hfree x hx⟩
    have hv := hev.chain.valid x (by rw [hext]; exact List.mem_append_right _ hx)
    rwa [hb] at hv
  · have hk' : k < rm.len.toNat := by omega
    have hin : (rm.offset.toNat + k) / s.vol.bpb.bytesPerCluster < (pre ++ c :: post).length := by
      refine (Nat.div_lt_iff_lt_mul (by omega)).mpr ?_
      rw [Nat.mul_comm]
      omega
    rw [hby _ hin, if_pos (by omega), Nat.add_sub_cancel_left]
    exact rawData_messageBytes h16 hk
  · have hin : k / s.vol.bpb.bytesPerCluster < (pre ++ c :: post).length := by
      rw [hext, List.length_append]
      exact Nat.lt_of_lt_of_le hk (Nat.le_add_right ..)
    rw [hlen] at hout
    rw [hby k hin, if_neg (by omega)]
    exact hold k hk
  · refine hev2.bytes x j hx hj ?_ fun hf => hslot ⟨hf.1, by have := hf.2; omega⟩
    rw [hext, List.mem_append]
    exact fun hm => hm.elim hxo fun hm => hused (hfree x hm)
  · rw [hwrite raw, Option.map_some, Server.putBytes_congr hraw, hs']

/-- **A message that goes on in the next cluster** is read on behind its last byte: what lies there gets into the file. -/
theorem Sent.spills (h : Sent s rm e own)
    (hspill : s.vol.bpb.bytesPerCluster < rm.offset.toNat % s.vol.bpb.bytesPerCluster + rm.len.toNat) :
    ∃ F, ∀ fuel ≥ F, ∀ v', ¬ ReadsOnlyData fuel s rm v' := by
  obtain ⟨F, hF⟩ := h.reaches
  refine ⟨F, fun fuel hf v' hreads => ?_⟩
  obtain ⟨pre, c, post, t, hrun, hpre, hev, -, -, -, hroom, hfuel⟩ := hF fuel hf
  obtain ⟨h1, h16⟩ := h.len
  have hg := h.tree.wf.geometry
  have hB := hg.bytesPerCluster_ge
  have hb := hev.bpb
  have hgt : t.vol.bpb.Geometry := by rwa [hb]
  have hpos := Nat.div_add_mod rm.offset.toNat s.vol.bpb.bytesPerCluster
  have hmod := Nat.mod_lt rm.offset.toNat (show 0 < s.vol.bpb.bytesPerCluster by omega)
  obtain ⟨n, hn⟩ : ∃ n, n = t.vol.bpb.bytesPerCluster - rm.offset.toNat % s.vol.bpb.bytesPerCluster := ⟨_, rfl⟩
  -- with any memory behind the message, the byte behind its last place is the byte behind its last
  have hbehind : ∀ raw : Mem, (∀ j < rm.len.toNat, raw j = rawData rm j) → v'.bpb = t.vol.bpb ∧
      ∃ own', IsChain v' ((pre ++ [c]).headD 0) own' ∧
        v'.chainByte own' (rm.offset.toNat + rm.len.toNat) = raw rm.len.toNat := by
    intro raw hraw
    obtain ⟨own', s', hwrite, hev', -, hnew, -⟩ := @Server.writeBytes_spill t raw pre post c
      (rm.offset.toNat % s.vol.bpb.bytesPerCluster) rm.len.toNat fuel fuel hgt hev.chain (by omega) (by rwa [hb])
      (by rwa [hb]) rm.offset.toNat (by rw [hb, hpre, Nat.mul_comm]; exact hpos.symm) hroom (by omega) (by omega) n hn
    have hvol := hreads raw hraw
    rw [hrun raw, hwrite, Option.map_some, Option.some.injEq] at hvol
    have hhead : own'.headD 0 = (pre ++ [c]).headD 0 := by
      obtain ⟨ns, rfl, -⟩ := hev'.ext
      cases pre <;> rfl
    rw [hb] at hn
    rw [← hvol]
    refine ⟨hev'.bpb, own', by rw [← hhead]; exact hev'.chain, ?_⟩
    rw [hnew _ (by omega) (by omega), Nat.add_sub_cancel_left]
  obtain ⟨hb', own1, hc1, h1'⟩ := hbehind (rawData rm) fun _ _ => rfl
  obtain ⟨-, own2, hc2, h2'⟩ := hbehind (fun j => if j < rm.len.toNat then rawData rm j else rawData rm j + 1)
    fun j hj => if_pos hj
  rw [hc1.unique (by rwa [hb']) hc2, h2', if_neg (Nat.lt_irrefl _)] at h1'
  simp at h1'

end Message

/-- **One write message writes exactly its bytes** when it stays in one cluster, and only then. -/
theorem message_exact {s : Server} {rm : WriteArg} {e : Slot} {own : List Nat} (h : Sent s rm e own) :
    ∃ F, ∀ fuel ≥ F, (WritesExactly fuel s rm e own ↔
      rm.offset.toNat % s.vol.bpb.bytesPerCluster + rm.len.toNat ≤ s.vol.bpb.bytesPerCluster) := by
  by_cases hfit : rm.offset.toNat % s.vol.bpb.bytesPerCluster + rm.len.toNat ≤ s.vol.bpb.bytesPerCluster
  · obtain ⟨F, hF⟩ := h.exact hfit
    exact ⟨F, fun fuel hf => iff_of_true (hF fuel hf) hfit⟩
  · obtain ⟨F, hF⟩ := h.spills (by omega)
    refine ⟨F, fun fuel hf => iff_of_false ?_ hfit⟩
    rintro ⟨s', own', -, -, hreads⟩
    exact hF fuel hf _ hreads

/-- Two bytes for the file `a`, and a 9 behind them. -/
def twoAt (offset : UInt32) : WriteArg :=
  { writeStack with filename := [0x61], data := #v[1, 2, 9, 0, 0, 0, 0, 0, 0, 0, 0, 0, 0, 0, 0, 0], len := 2, offset }

theorem twoAt_sent {offset : UInt32} (h : offset.toNat ≤ 1022) : Sent twoBytesServer (twoAt offset) (2, 0) [3] where
  tree := ⟨twoBytes_wellFormed, twoBytes_existing, twoBytes_fileChain⟩
  len := ⟨show 1 ≤ (2 : UInt8).toNat by decide, show (2 : UInt8).toNat ≤ 16 by decide⟩
  room := by
    have hcap : twoBytes.bpb.bytesPerCluster * (twoBytes.free.length + [3].length) = 1024 := by decide
    have hlen : (twoAt offset).len.toNat = 2 := rfl
    exact (show offset.toNat + (twoAt offset).len.toNat ≤ 1024 by omega).trans (Nat.le_of_eq hcap.symm)
  count hnil := by cases hnil

/-- At the end of the file's cluster. -/
theorem message_exact_end : ∃ F, ∀ fuel ≥ F, WritesExactly fuel twoBytesServer (twoAt 510) (2, 0) [3] := by
  obtain ⟨F, hF⟩ := message_exact (twoAt_sent (show (510 : UInt32).toNat ≤ 1022 by decide))
  exact ⟨F, fun fuel hf => (hF fuel hf).2 (by decide)⟩

/-- One byte further, the 9 behind the message's bytes gets into the file. -/
theorem message_crosses : Sent twoBytesServer (twoAt 511) (2, 0) [3] ∧
    (twoBytesServer.writeState 9 (twoAt 511)).map
      (fun s' => (s'.vol.byteAt 3 511, s'.vol.fatAt 3, s'.vol.byteAt 4 0, s'.vol.byteAt 4 1)) = some (1, 4, 2, 9) ∧
    ∃ F, ∀ fuel ≥ F, ¬ WritesExactly fuel twoBytesServer (twoAt 511) (2, 0) [3] := by
  have hsent := twoAt_sent (show (511 : UInt32).toNat ≤ 1022 by decide)
  refine ⟨hsent, by decide, ?_⟩
  obtain ⟨F, hF⟩ := hsent.spills (by decide)
  refine ⟨F, fun fuel hf hexact => ?_⟩
  obtain ⟨s', own', -, -, hreads⟩ := hexact
  exact hF fuel hf _ hreads

end KinOS.Fs
