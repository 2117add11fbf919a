import KinOS.Fs.Descriptor

/-!
# What a sequence of reads returns

The loop of `ReadState` keeps `p` at the start of a cluster while it skips up to `read_offset`. The bytes taken from
the cluster in which the request starts are therefore its first ones and not those at the offset; from the next
cluster on the bytes are the right ones again. Their number is always right, so the descriptor's offset is too.

`shifted` is that byte sequence and `readState_spec` says a request sends it. A request sends its slice of the file
exactly when the file repeats itself there (`reads_return_slices_iff`).
-/

namespace KinOS.Fs

open Bytes

/-! ## Replies -/

/-- A data message of a reply. -/
def IsData (m : Message) : Prop := m.type = .kRead ∧ ∃ r, m.arg = .read r ∧ r.len ≠ 0 ∧ r.len.toNat ≤ 16

/-- The message that ends a reply. -/
def IsEnd (m : Message) : Prop := m.type = .kRead ∧ ∃ r, m.arg = .read r ∧ r.len = 0

def msgBytes (m : Message) : List UInt8 := ((readArg? m).map payload).getD []

/-- A reply: data messages that carry these bytes, followed by one message of length zero. -/
def Replies (out : List Message) (bytes : List UInt8) : Prop :=
  ∃ ms z, out = ms ++ [z] ∧ (∀ m ∈ ms, IsData m) ∧ IsEnd z ∧ ms.flatMap msgBytes = bytes

theorem Replies.bytes_eq {out : List Message} {bs bs' : List UInt8} (h : Replies out bs) (h' : Replies out bs') :
    bs = bs' := by
  obtain ⟨ms, z, rfl, -, -, rfl⟩ := h
  obtain ⟨ms', z', he, -, -, rfl⟩ := h'
  rw [(List.append_inj' he rfl).1]

/-- The messages so far and the bytes waiting in the next one. -/
def Emit.bytes (e : Emit) : List UInt8 := e.out.flatMap msgBytes ++ e.sm.data.toList.take e.msgOffset

structure Emit.Ok (e : Emit) : Prop where
  room : e.msgOffset < 16
  data : ∀ m ∈ e.out, IsData m

theorem isData_readMsg (s : Server) {sm : ReadArg} {n : Nat} (h0 : n ≠ 0) (h : n ≤ 16) (hlen : sm.len = UInt8.ofNat n) :
    IsData (s.readMsg sm) ∧ msgBytes (s.readMsg sm) = sm.data.toList.take n := by
  have hn : sm.len.toNat = n := by
    rw [hlen, UInt8.toNat_ofNat']
    omega
  refine ⟨⟨rfl, sm, rfl, fun h => h0 ?_, by omega⟩, ?_⟩
  · rw [← hn, h]
    rfl
  · change sm.data.toList.take sm.len.toNat = _
    rw [hn]

theorem Emit.Ok.flush {e : Emit} (s : Server) (h : ∀ m ∈ e.out, IsData m) (h0 : e.msgOffset ≠ 0)
    (h16 : e.msgOffset ≤ 16) : (e.flush s).Ok ∧ (e.flush s).bytes = e.bytes := by
  obtain ⟨hd, hb⟩ := @isData_readMsg s { e.sm with len := UInt8.ofNat e.msgOffset } _ h0 h16 rfl
  refine ⟨⟨by simp [Emit.flush], fun m hm => ?_⟩, ?_⟩
  · rcases List.mem_append.mp hm with hm | hm
    · exact h m hm
    · rw [List.mem_singleton.mp hm]
      exact hd
  · simp only [Emit.bytes, Emit.flush, List.flatMap_append, List.flatMap_singleton, hb, List.take_zero,
      List.append_nil]

/-- One byte more. -/
theorem Emit.Ok.push {e : Emit} (s : Server) (h : e.Ok) (b : UInt8) :
    (e.push s b).Ok ∧ (e.push s b).bytes = e.bytes ++ [b] := by
  have hroom := h.room
  have hbytes : Emit.bytes ⟨{ e.sm with data := e.sm.data.setIfInBounds e.msgOffset b }, e.msgOffset + 1, e.out⟩ =
      e.bytes ++ [b] := by
    have hlen : e.msgOffset < e.sm.data.toList.length := by simpa using hroom
    have : (e.sm.data.toList.set e.msgOffset b).take (e.msgOffset + 1) = e.sm.data.toList.take e.msgOffset ++ [b] := by
      rw [List.take_add_one, List.take_set_of_le (Nat.le_refl _), List.getElem?_set_self hlen]
      rfl
    simp only [Emit.bytes, Vector.toList_setIfInBounds, this, List.append_assoc]
  simp only [Emit.push]
  by_cases hfull : e.msgOffset + 1 = 16
  · rw [if_pos hfull]
    obtain ⟨hok, hb⟩ := Emit.Ok.flush s
      (e := ⟨{ e.sm with data := e.sm.data.setIfInBounds e.msgOffset b }, e.msgOffset + 1, e.out⟩) h.data
      (Nat.succ_ne_zero _) hroom
    exact ⟨hok, hb.trans hbytes⟩
  · rw [if_neg hfull]
    exact ⟨⟨by simp only; omega, h.data⟩, hbytes⟩

/-! ## One cluster -/

/-- The `n` bytes of the buffer from `p` on. -/
def taken (m : Mem) (p n : Nat) : List UInt8 := (List.range n).map fun j => m (p + j)

theorem taken_succ (m : Mem) (p n : Nat) : taken m p (n + 1) = m p :: taken m (p + 1) n := by
  rw [taken, List.range_succ_eq_map, List.map_cons, List.map_map, taken]
  congr 1
  refine List.map_congr_left fun j _ => ?_
  simp only [Function.comp_apply]
  congr 1
  omega

/-- What is left to skip and to take after a byte has been taken. -/
theorem cut_take {k remain i off total count sent L skip n : Nat} (hL : L = min (k + 1) (remain - i))
    (hs : skip = min (off - total) L) (hn : n = min (L - skip) (count - sent)) (hi : i < remain) (hoff : off ≤ total)
    (hlt : sent < count) : skip = 0 ∧ L - 1 = min k (remain - (i + 1)) ∧
      ∃ n', n = n' + 1 ∧ n' = min (L - 1 - 0) (count - (sent + 1)) := by
  obtain rfl : skip = 0 := by rw [hs, Nat.sub_eq_zero_of_le hoff, Nat.zero_min]
  clear hs
  refine ⟨rfl, by clear hn; omega, n - 1, ?_, ?_⟩
  · have hpos : 0 < L := by clear hn; omega
    omega
  · clear hL
    omega

/-- What is left after a byte has been skipped. -/
theorem cut_skip {k remain i off total count sent L skip n : Nat} (hL : L = min (k + 1) (remain - i))
    (hs : skip = min (off - total) L) (hn : n = min (L - skip) (count - sent)) (hi : i < remain) (hoff : ¬ off ≤ total) :
    0 < skip ∧ L - 1 = min k (remain - (i + 1)) ∧ skip - 1 = min (off - (total + 1)) (L - 1) ∧
      n = min (L - 1 - (skip - 1)) (count - sent) := by
  have hpos : 0 < L := by clear hs hn; omega
  have hskip : 0 < skip := by clear hL hn; omega
  refine ⟨hskip, by clear hs hn; omega, by clear hL hn; omega, ?_⟩
  have heq : L - 1 - (skip - 1) = L - skip := by clear hL hs hn; omega
  rw [heq]
  exact hn

/-- **One cluster.** The loop skips up to the offset, then takes bytes from the front of the buffer while the file, the
cluster and the request have any left. -/
theorem readBytes_spec (s : Server) (remain count off : Nat) : ∀ (k i p : Nat) (r : ReadVars), r.emit.Ok →
    r.sent < count → ∀ {L skip n : Nat}, L = min k (remain - i) → skip = min (off - r.total) L →
      n = min (L - skip) (count - r.sent) →
    ∃ r', readBytes s remain count off k i p r = (i + (skip + n), r') ∧ r'.total = r.total + (skip + n) ∧
      r'.sent = r.sent + n ∧ r'.emit.Ok ∧ r'.emit.bytes = r.emit.bytes ++ taken s.clusterBuf p n
  | 0, i, p, r, hok, _, L, skip, n, hL, hs, hn => by
    obtain rfl : L = 0 := by rw [hL, Nat.zero_min]
    obtain rfl : skip = 0 := by rw [hs, Nat.min_zero]
    obtain rfl : n = 0 := by rw [hn, Nat.sub_self, Nat.zero_min]
    exact ⟨r, rfl, rfl, rfl, hok, by simp [taken]⟩
  | k + 1, i, p, r, hok, hlt, L, skip, n, hL, hs, hn => by
    rw [readBytes]
    by_cases hi : i < remain
    · rw [if_pos ⟨hi, hlt⟩]
      by_cases hoff : off ≤ r.total
      · rw [if_pos hoff]
        obtain ⟨hok', hb⟩ := hok.push s (s.clusterBuf p)
        obtain ⟨rfl, hL', n', rfl, hn'⟩ := cut_take hL hs hn hi hoff hlt
        clear hL hs hn
        by_cases hlast : r.sent + 1 < count
        · have hs' : 0 = min (off - (r.total + 1)) (L - 1) := by
            rw [Nat.sub_eq_zero_of_le (Nat.le_succ_of_le hoff), Nat.zero_min]
          obtain ⟨r', he, ht, hse, hok'', hb'⟩ := readBytes_spec s remain count off k (i + 1) (p + 1)
            ⟨r.total + 1, r.sent + 1, r.emit.push s (s.clusterBuf p)⟩ hok' hlast hL' hs' hn'
          clear hL' hs' hn'
          refine ⟨r', ?_, by simp only at ht; omega, by simp only at hse; omega, hok'', ?_⟩
          · have hend : i + 1 + (0 + n') = i + (0 + (n' + 1)) := by omega
            rw [he, hend]
          · rw [hb', hb, taken_succ, List.append_assoc]
            rfl
        · -- the request is served: the loop condition fails on the next round
          obtain rfl : n' = 0 := by
            rw [hn', Nat.sub_eq_zero_of_le (Nat.not_lt.mp hlast), Nat.min_zero]
          refine ⟨⟨r.total + 1, r.sent + 1, r.emit.push s (s.clusterBuf p)⟩, ?_, rfl, rfl, hok', ?_⟩
          · cases k with
            | zero => rfl
            | succ k => rw [readBytes, if_neg (fun h => hlast h.2)]
          · simpa [taken] using hb
      · rw [if_neg hoff]
        obtain ⟨hpos, hL', hs', hn'⟩ := cut_skip hL hs hn hi hoff
        obtain ⟨r', he, ht, hse, hok', hb⟩ := readBytes_spec s remain count off k (i + 1) p
          { r with total := r.total + 1 } hok hlt hL' hs' hn'
        clear hL hs hn hL' hs' hn'
        refine ⟨r', ?_, by simp only at ht; omega, hse, hok', hb⟩
        have hend : i + 1 + (skip - 1 + n) = i + (skip + n) := by omega
        rw [he, hend]
    · rw [if_neg (fun h => hi h.1)]
      obtain rfl : L = 0 := by rw [hL, Nat.sub_eq_zero_of_le (Nat.not_lt.mp hi), Nat.min_zero]
      obtain rfl : skip = 0 := by rw [hs, Nat.min_zero]
      obtain rfl : n = 0 := by rw [hn, Nat.sub_self, Nat.zero_min]
      exact ⟨r, rfl, rfl, rfl, hok, by simp [taken]⟩

/-! ## The clusters of a file -/

/-- What a request for `n` bytes at offset `d` of the file `f` sends: in the cluster of `d` the bytes come from the
cluster's start. -/
def shifted (B : Nat) (f : Nat → UInt8) (d n : Nat) : List UInt8 :=
  (List.range n).map fun j => if j < B - d % B then f (d - d % B + j) else f (d + j)

theorem shifted_within {B d n : Nat} (f : Nat → UInt8) (h : d + n ≤ B) :
    shifted B f d n = (List.range n).map f := by
  refine List.map_congr_left fun j hj => ?_
  have hj := List.mem_range.mp hj
  rw [Nat.mod_eq_of_lt (show d < B by omega), if_pos (by omega), Nat.sub_self, Nat.zero_add]

/-- From the second cluster on nothing is shifted. -/
theorem shifted_across {B d n : Nat} (f : Nat → UInt8) (h : d < B) :
    shifted B f d (B - d + n) = (List.range (B - d)).map f ++ shifted B (fun j => f (B + j)) 0 n := by
  rw [shifted, List.range_add, List.map_append, List.map_map]
  congr 1
  · exact shifted_within f (by omega)
  · refine List.map_congr_left fun j _ => ?_
    simp only [Function.comp_apply, Nat.mod_eq_of_lt h, Nat.zero_mod, Nat.sub_zero, Nat.zero_add, ite_self]
    rw [if_neg (by omega)]
    congr 1
    omega

theorem shifted_skip {B d n : Nat} (f : Nat → UInt8) (h : B ≤ d) :
    shifted B f d n = shifted B (fun j => f (B + j)) (d - B) n := by
  have hmod : (d - B) % B = d % B := (Nat.mod_eq_sub_mod h).symm
  have hle : d % B ≤ d - B := hmod ▸ Nat.mod_le _ _
  refine List.map_congr_left fun j _ => ?_
  rw [hmod]
  congr 2 <;> omega

/-- A whole cluster: the bytes taken from it and what the rest of the file sends. -/
theorem shifted_cluster {B d remain count L skip n : Nat} (f : Nat → UInt8) (hL : L = min B remain)
    (hs : skip = min d L) (hn : n = L - skip) (hlt : n < count) :
    (List.range n).map f ++ shifted B (fun j => f (B + j)) (d - (skip + n))
        (min (count - n) (remain - (skip + n) - (d - (skip + n)))) =
      shifted B f d (min count (remain - d)) := by
  have hnd : n = L - d := by clear hL hlt; omega
  have hsn : skip + n = L := by clear hL hlt; omega
  have hLB : L ≤ B := hL ▸ Nat.min_le_left B remain
  clear hs hn
  rw [hsn]
  by_cases hfull : remain < B
  · obtain rfl : L = remain := by rw [hL, Nat.min_eq_right (Nat.le_of_lt hfull)]
    have hmin : min count (L - d) = n := by rw [← hnd, Nat.min_eq_right (Nat.le_of_lt hlt)]
    clear hL
    rw [Nat.sub_self, Nat.zero_sub, Nat.min_zero, hmin]
    by_cases hd : d ≤ L
    · rw [shifted_within _ (show d + n ≤ B by omega)]
      simp [shifted]
    · obtain rfl : n = 0 := by omega
      simp [shifted]
  obtain rfl : L = B := by rw [hL, Nat.min_eq_left (Nat.not_lt.mp hfull)]
  clear hL hLB
  by_cases hd : L ≤ d
  · -- the offset is not in this cluster
    obtain rfl : n = 0 := by omega
    rw [shifted_skip f hd, show remain - L - (d - L) = remain - d by omega]
    simp
  · have hdL : d - L = 0 := by omega
    have hmin : min count (remain - d) = n + min (count - n) (remain - L - (d - L)) := by
      have hrem : remain - L = remain - d - n := by omega
      have hle : n ≤ remain - d := by omega
      rw [hdL, Nat.sub_zero, hrem, Nat.sub_min_sub_right, Nat.add_sub_cancel']
      exact Nat.le_min.mpr ⟨Nat.le_of_lt hlt, hle⟩
    rw [hmin, hnd, shifted_across f (by omega), hdL]

theorem taken_eq_chain {s : Server} (hg : s.vol.bpb.Geometry) {c n : Nat} {cs : List Nat} (hc : s.vol.bpb.Valid c)
    (hn : n ≤ s.vol.bpb.bytesPerCluster) :
    taken (s.readCluster c).clusterBuf 0 n = (List.range n).map (s.vol.chainByte (c :: cs)) := by
  refine List.map_congr_left fun j hj => ?_
  have hj := List.mem_range.mp hj
  rw [Nat.zero_add, Server.readCluster_buf hg hc (by omega), Volume.chainByte_head (by omega)]

/-- A served request leaves the loop. -/
theorem readClusters_done {s : Server} {count off fuel cluster remain : Nat} {r : ReadVars} (hf : 0 < fuel)
    (h : count ≤ r.sent) : s.readClusters count off fuel cluster remain r = some (s, r) := by
  obtain ⟨fuel, rfl⟩ : ∃ f, fuel = f + 1 := ⟨fuel - 1, by omega⟩
  rw [Server.readClusters, if_neg (by omega)]

/-- The request ends in a cluster. -/
theorem cut_ends {B remain d c L skip n : Nat} (hL : min B remain = L) (hs : min d L = skip) (hn : min (L - skip) c = n)
    (hc : 0 < c) (hlast : c ≤ L - skip) : n = c ∧ d + n ≤ B ∧ min c (remain - d) = n := by
  have hnc : n = c := hn ▸ Nat.min_eq_right hlast
  have hd : d + c ≤ L := by clear hL hn; omega
  clear hs hn
  have hB : L ≤ B := hL ▸ Nat.min_le_left B remain
  have hR : L ≤ remain := hL ▸ Nat.min_le_right B remain
  clear hL
  rw [hnc]
  exact ⟨rfl, by omega, Nat.min_eq_left (by omega)⟩

/-- It goes on behind it. -/
theorem cut_goes_on {d c L skip n : Nat} (hs : min d L = skip) (hn : min (L - skip) c = n) (hlast : ¬ c ≤ L - skip) :
    n = L - skip ∧ n < c ∧ skip + n = L := by
  have hnL : n = L - skip := hn ▸ Nat.min_eq_left (by omega)
  have hle : skip ≤ L := hs ▸ Nat.min_le_right d L
  clear hs hn
  exact ⟨hnL, by omega, by omega⟩

theorem cut_rest {B remain L m : Nat} (hL : min B remain = L) (hrem : remain ≤ B * (m + 1)) : remain - L ≤ B * m := by
  rw [Nat.mul_succ] at hrem
  omega

/-- **The clusters.** What the loop sends, from any point of the chain. -/
theorem readClusters_spec {v : Volume} (hg : v.bpb.Geometry) (count off : Nat) :
    ∀ (cs : List Nat) (fuel : Nat) (s : Server) (cluster remain : Nat) (r : ReadVars), s.vol = v →
      (∀ c ∈ cs, v.bpb.Valid c) → Linked v cs → Starts cluster cs → remain ≤ v.bpb.bytesPerCluster * cs.length →
      cs.length < fuel → r.emit.Ok →
    ∃ s' r', s.readClusters count off fuel cluster remain r = some (s', r') ∧ s'.vol = v ∧ s'.id = s.id ∧ r'.emit.Ok ∧
      r'.emit.bytes = r.emit.bytes ++ shifted v.bpb.bytesPerCluster (v.chainByte cs) (off - r.total)
        (min (count - r.sent) (remain - (off - r.total)))
  | [], fuel, s, cluster, remain, r, hs, _, _, hst, hrem, hf, hok => by
    obtain ⟨fuel, rfl⟩ : ∃ f, fuel = f + 1 := ⟨fuel - 1, by omega⟩
    have hst : cluster = 0 ∨ cluster = 0x0fffffff := hst
    rw [Server.readClusters, if_neg (by omega)]
    obtain rfl : remain = 0 := by simpa using hrem
    exact ⟨s, r, rfl, hs, rfl, hok, by simp [shifted]⟩
  | c :: cs, fuel, s, cluster, remain, r, hs, hv, hlk, hst, hrem, hf, hok => by
    subst hs
    obtain rfl : cluster = c := hst
    obtain ⟨fuel, rfl⟩ : ∃ f, fuel = f + 1 := ⟨fuel - 1, by omega⟩
    rw [List.length_cons] at hf
    by_cases hsent : count ≤ r.sent
    · rw [readClusters_done (by omega) hsent, Nat.sub_eq_zero_of_le hsent, Nat.zero_min]
      exact ⟨s, r, rfl, rfl, rfl, hok, by simp [shifted]⟩
    have hB := hg.bytesPerCluster_ge
    obtain ⟨hc, hvs⟩ := List.forall_mem_cons.mp hv
    obtain ⟨hc0, hce⟩ := hc.ne hg
    rw [Server.readClusters, if_pos ⟨hc0, hce, by omega⟩]
    generalize hsize : s.vol.bpb.bytesPerCluster = B at *
    obtain ⟨r', he, ht, hse, hok', hb⟩ := readBytes_spec (s.readCluster cluster) remain count off B 0 0 r hok
      (by omega) rfl rfl rfl
    have hnext : ((s.readCluster cluster).nextCluster cluster).1 = s.vol.next cluster := Server.nextCluster_fst hg _
    rw [Nat.zero_add] at he
    simp only [Server.readCluster_vol, hsize, he, hnext]
    generalize hL : min B (remain - 0) = L at *
    generalize hsk : min (off - r.total) L = skip at *
    generalize hn : min (L - skip) (count - r.sent) = n at *
    have hLB : L ≤ B := hL ▸ Nat.min_le_left B (remain - 0)
    have hnL : n ≤ L := (hn ▸ Nat.min_le_left (L - skip) (count - r.sent)).trans (Nat.sub_le L skip)
    rw [taken_eq_chain hg hc (by rw [hsize]; exact hnL.trans hLB)] at hb
    rw [Nat.sub_zero] at hL
    by_cases hlast : count - r.sent ≤ L - skip
    · -- the request ends in this cluster
      obtain ⟨hnc, hnB, hmin⟩ := cut_ends hL hsk hn (Nat.sub_pos_of_lt (Nat.not_le.mp hsent)) hlast
      have hserved : count ≤ r'.sent := by
        rw [hse]
        exact Nat.sub_le_iff_le_add'.mp (Nat.le_of_eq hnc.symm)
      rw [readClusters_done (Nat.zero_lt_of_lt (Nat.lt_of_succ_lt_succ hf)) hserved]
      refine ⟨_, r', rfl, rfl, rfl, hok', ?_⟩
      rw [hb, hmin, shifted_within _ hnB]
    · obtain ⟨hnL', hlt, hsum⟩ := cut_goes_on hsk hn hlast
      have hstep := @shifted_cluster B (off - r.total) remain (count - r.sent) L _ n
        (s.vol.chainByte (cluster :: cs)) hL.symm hsk.symm hnL' hlt
      have hrest : remain - (skip + n) ≤ B * cs.length := hsum ▸ cut_rest hL hrem
      obtain ⟨s', r'', he', hv', hid, hok'', hb'⟩ := readClusters_spec hg count off cs fuel
        ((s.readCluster cluster).nextCluster cluster).2 (s.vol.next cluster) (remain - (skip + n)) r' rfl hvs hlk.tail
        (hlk.starts_next hg hvs) (by rw [hsize]; exact hrest) (Nat.lt_of_succ_lt_succ hf) hok'
      refine ⟨s', r'', he', hv', hid, hok'', ?_⟩
      rw [hsize] at hb'
      have htail : (fun j => s.vol.chainByte (cluster :: cs) (B + j)) = s.vol.chainByte cs := by
        funext j
        rw [← hsize, Volume.chainByte_tail hg]
      rw [htail] at hstep
      rw [hb', hb, List.append_assoc, ← hstep, ht, hse, Nat.sub_add_eq off, Nat.sub_add_eq count]

/-! ## One request -/

/-- A regular file that `path` names, with its chain: the chain is well-formed and long enough for the file. -/
structure IsFile (v : Volume) (path : List UInt8) (e : Slot) (cs : List Nat) : Prop where
  names : ∃ ds, v.Names path ds e
  notRoot : path ≠ [0x2f]
  regular : v.attr e &&& 0x18 = 0
  chain : IsChain v (v.first e) cs
  long : v.size e ≤ v.bpb.bytesPerCluster * cs.length

theorem ne_kDirectory {a : UInt8} (h : a &&& 0x18 = 0) : a ≠ kDirectory := by
  rintro rfl
  exact absurd h (by decide)

theorem size_lt (v : Volume) (e : Slot) : v.size e < 2 ^ 32 := load_lt 4 _ _

/-- **One request.** For every state of the buffers, a request at `offset` for `count` bytes is answered with as many
bytes as the file has there, those of `shifted`, and leaves the volume as it is. -/
theorem readState_spec {v : Volume} {path : List UInt8} {e : Slot} {cs : List Nat} (hg : v.bpb.Geometry)
    (h : IsFile v path e cs) : ∃ F, ∀ fuel ≥ F, ∀ (s : Server) (rm : ReadArg), s.vol = v → rm.filename = path →
      ∃ s' out, s.readState fuel rm = some (s', out) ∧ s'.vol = v ∧
        Replies out (shifted v.bpb.bytesPerCluster (v.chainByte cs) rm.offset.toNat
          (min rm.count.toNat (v.size e - rm.offset.toNat))) := by
  obtain ⟨ds, F, cur, hst, hlk⟩ := h.names
  refine ⟨max F (cs.length + 1), fun fuel hf s rm hs hpath => ?_⟩
  subst hs
  obtain ⟨s1, p, hfind, hfound⟩ := Server.findFile_lookup hg hst (lookup_mono hlk (show F ≤ fuel by omega))
  obtain ⟨hv1, -, hl1, hidx⟩ := hfound
  have hidx' : e.2 < s1.vol.bpb.entriesPerCluster := by rwa [hv1]
  have hattr := hl1.attr hidx'
  have hfirst := hl1.first hidx'
  have hsize := hl1.size hidx'
  rw [hv1] at hattr hfirst hsize
  obtain ⟨s2, r, hread, hv2, hid2, hok, hb⟩ := readClusters_spec hg rm.count.toNat rm.offset.toNat cs fuel s1
    (s.vol.first e) (s.vol.size e) ⟨0, 0, s1.sm, 0, []⟩ hv1 h.chain.valid h.chain.linked h.chain.starts h.long
    (by omega) ⟨by simp, by simp⟩
  rw [Server.readState, if_neg (by rw [hpath]; exact h.notRoot), hpath, hfind]
  simp only [hattr, if_neg (ne_kDirectory h.regular), Server.readFile, hfirst, hsize, hread, Option.map_some]
  -- the last, partly filled message
  have hlast : ∃ emit : Emit, (if r.emit.msgOffset ≠ 0 then r.emit.flush s2 else r.emit) = emit ∧
      (∀ m ∈ emit.out, IsData m) ∧ emit.out.flatMap msgBytes = r.emit.bytes := by
    have hroom := hok.room
    by_cases hm : r.emit.msgOffset ≠ 0
    · obtain ⟨hok', hb'⟩ := Emit.Ok.flush s2 hok.data hm (by omega)
      refine ⟨_, if_pos hm, hok'.data, ?_⟩
      rw [← hb', Emit.bytes, show (r.emit.flush s2).msgOffset = 0 from rfl, List.take_zero, List.append_nil]
    · refine ⟨_, if_neg hm, hok.data, ?_⟩
      rw [Emit.bytes, show r.emit.msgOffset = 0 by omega, List.take_zero, List.append_nil]
  obtain ⟨emit, hemit, hdata, hbytes⟩ := hlast
  rw [hemit]
  refine ⟨_, _, rfl, hv2, emit.out, _, rfl, hdata, ⟨rfl, _, rfl, rfl⟩, ?_⟩
  rw [hbytes, hb]
  simp [Emit.bytes]

/-! ## One descriptor -/

theorem IsData.readArg {m : Message} (h : IsData m) : ∃ r, readArg? m = some r ∧ r.len ≠ 0 ∧
    (msgBytes m).length = r.len.toNat := by
  obtain ⟨-, r, harg, h0, h16⟩ := h
  have hr : readArg? m = some r := by simp only [readArg?, harg]
  refine ⟨r, hr, h0, ?_⟩
  rw [msgBytes, hr]
  simp only [Option.map_some, Option.getD_some, payload, List.length_take, Vector.length_toList]
  omega

/-- `Read` passes a whole reply on and moves its offset by the number of data bytes. -/
theorem forward_spec : ∀ {fd : FatFileDescriptor} {ms : List Message} {z : Message}, (∀ m ∈ ms, IsData m) → IsEnd z →
    ∃ fd', fd.forward (ms ++ [z]) = some (fd', ms ++ [z], []) ∧ fd'.filename = fd.filename ∧
      fd'.rdOff = fd.rdOff + (ms.flatMap msgBytes).length
  | fd, [], z, _, ⟨_, r, harg, hlen⟩ => by
    have hr : readArg? z = some r := by simp only [readArg?, harg]
    refine ⟨fd, ?_, rfl, rfl⟩
    rw [List.nil_append, FatFileDescriptor.forward, hr, Option.bind_some, if_neg (by simp [hlen])]
  | fd, m :: ms, z, hms, hz => by
    obtain ⟨hm, hms⟩ := List.forall_mem_cons.mp hms
    obtain ⟨r, hr, h0, hlen⟩ := hm.readArg
    obtain ⟨fd', hf, hname, hoff⟩ := @forward_spec
      { fd with rdOff := fd.rdOff + r.len.toNat, rdCluster := r.cluster.toNat } ms z hms hz
    refine ⟨fd', ?_, hname, ?_⟩
    · rw [List.cons_append, FatFileDescriptor.forward, hr, Option.bind_some, if_pos h0, hf]
      rfl
    · rw [hoff, List.flatMap_cons, List.length_append, hlen]
      simp only
      omega

theorem length_shifted (B : Nat) (f : Nat → UInt8) (d n : Nat) : (shifted B f d n).length = n := by
  simp [shifted]

/-- One call of `Read` with nothing left over from earlier calls. -/
theorem descriptor_read_spec {v : Volume} {path : List UInt8} {e : Slot} {cs : List Nat} (hg : v.bpb.Geometry)
    (h : IsFile v path e cs) : ∃ F, ∀ fuel ≥ F, ∀ (fd : FatFileDescriptor) (s : Server) (msg : ReadArg), s.vol = v →
      fd.filename = path → fd.rdOff ≤ v.size e →
      ∃ fd' s' out, fd.read fuel s [] msg = some (fd', s', [], out, out) ∧ s'.vol = v ∧ fd'.filename = path ∧
        fd'.rdOff = min (fd.rdOff + msg.count.toNat) (v.size e) ∧
        Replies out (shifted v.bpb.bytesPerCluster (v.chainByte cs) fd.rdOff
          (min msg.count.toNat (v.size e - fd.rdOff))) := by
  obtain ⟨F, hF⟩ := readState_spec hg h
  refine ⟨F, fun fuel hf fd s msg hs hname hoff => ?_⟩
  obtain ⟨s', out, hread, hv, hrep⟩ := hF fuel hf s (fd.readRequest msg) hs hname
  have hsize := size_lt v e
  have hoff32 : (fd.readRequest msg).offset.toNat = fd.rdOff := by
    simp only [FatFileDescriptor.readRequest, UInt32.toNat_ofNat']
    omega
  rw [hoff32] at hrep
  obtain ⟨ms, z, rfl, hms, hz, hbytes⟩ := hrep
  obtain ⟨fd', hfw, hname', hoff'⟩ := forward_spec hms hz
  refine ⟨fd', s', ms ++ [z], ?_, hv, hname'.trans hname, ?_, ms, z, rfl, hms, hz, hbytes⟩
  · simp only [FatFileDescriptor.read, hread, Option.bind_some, List.nil_append, hfw, Option.map_some]
  · rw [hoff', hbytes, length_shifted]
    simp only [FatFileDescriptor.readRequest]
    omega

/-! ## Any sequence of requests -/

/-- Where request `k` starts: all the bytes asked for before it, or the end of the file. -/
def startOf (size : Nat) (reqs : List ReadArg) (k : Nat) : Nat :=
  min ((reqs.take k).map fun r => r.count.toNat).sum size

/-- The number of bytes delivered by the first `k` replies. -/
def delivered (outs : List (List Message)) (k : Nat) : Nat :=
  ((outs.take k).map fun out => (out.flatMap msgBytes).length).sum

/-- `file[start, stop)`. -/
def Volume.slice (v : Volume) (cs : List Nat) (start stop : Nat) : List UInt8 :=
  (List.range (stop - start)).map fun j => v.chainByte cs (start + j)

theorem startOf_le (size : Nat) (reqs : List ReadArg) (k : Nat) : startOf size reqs k ≤ size := Nat.min_le_right ..

theorem startOf_succ {size : Nat} {reqs : List ReadArg} {k : Nat} (hk : k < reqs.length) :
    startOf size reqs (k + 1) = min (startOf size reqs k + reqs[k].count.toNat) size := by
  unfold startOf
  rw [List.take_add_one, List.getElem?_eq_getElem hk, List.map_append, List.sum_append]
  simp only [Option.toList_some, List.map_cons, List.map_nil, List.sum_cons, List.sum_nil]
  omega

/-- **A run of requests.** Every request is answered, each from where the one before it stopped. -/
theorem reads_spec {v : Volume} {path : List UInt8} {e : Slot} {cs : List Nat} (hg : v.bpb.Geometry)
    (h : IsFile v path e cs) : ∃ F, ∀ fuel ≥ F, ∀ (reqs : List ReadArg) (fd : FatFileDescriptor) (s : Server)
      (start : Nat), s.vol = v → fd.filename = path → fd.rdOff = min start (v.size e) →
      ∃ fd' s' outs, fd.reads fuel s [] reqs = some (fd', s', outs) ∧ outs.length = reqs.length ∧
        ∀ k (hk : k < reqs.length) (hk' : k < outs.length), ∀ off,
          off = min (start + ((reqs.take k).map fun r => r.count.toNat).sum) (v.size e) →
          Replies outs[k] (shifted v.bpb.bytesPerCluster (v.chainByte cs) off
            (min reqs[k].count.toNat (v.size e - off))) := by
  obtain ⟨F, hF⟩ := descriptor_read_spec hg h
  refine ⟨F, fun fuel hf reqs => ?_⟩
  induction reqs with
  | nil => exact fun fd s _ _ _ _ => ⟨fd, s, [], rfl, rfl, fun k hk => absurd hk (Nat.not_lt_zero k)⟩
  | cons msg msgs ih =>
    intro fd s start hs hname hoff
    obtain ⟨fd1, s1, out, hread, hv1, hname1, hoff1, hrep⟩ := hF fuel hf fd s msg hs hname (by omega)
    obtain ⟨fd', s', outs, hreads, hlen, hall⟩ := ih fd1 s1 (start + msg.count.toNat) hv1 hname1 (by omega)
    refine ⟨fd', s', out :: outs, ?_, by simp [hlen], fun k hk hk' off hoffk => ?_⟩
    · simp only [FatFileDescriptor.reads, hread, Option.bind_some, hreads, Option.map_some]
    · cases k with
      | zero =>
        obtain rfl : off = fd.rdOff := by simpa [hoff] using hoffk
        exact hrep
      | succ k =>
        refine hall k _ _ off ?_
        rw [hoffk, List.take_succ_cons, List.map_cons, List.sum_cons, Nat.add_assoc]

theorem Replies.length {out : List Message} {bs : List UInt8} (h : Replies out bs) :
    (out.flatMap msgBytes).length = bs.length := by
  obtain ⟨ms, z, rfl, -, ⟨-, r, harg, hlen⟩, rfl⟩ := h
  have hz : msgBytes z = [] := by simp [msgBytes, readArg?, harg, payload, hlen]
  rw [List.flatMap_append, List.flatMap_singleton, hz, List.append_nil]

/-- The replies deliver as many bytes as were asked for, up to the end of the file. -/
theorem delivered_eq {B size : Nat} {f : Nat → UInt8} {reqs : List ReadArg} {outs : List (List Message)}
    (hlen : outs.length = reqs.length)
    (hall : ∀ k (hk : k < reqs.length) (hk' : k < outs.length), Replies outs[k]
      (shifted B f (startOf size reqs k) (min reqs[k].count.toNat (size - startOf size reqs k)))) :
    ∀ k ≤ reqs.length, delivered outs k = startOf size reqs k
  | 0, _ => by simp [delivered, startOf]
  | k + 1, hk => by
    have ih := delivered_eq hlen hall k (by omega)
    have hk' : k < outs.length := by omega
    have hstart := startOf_le size reqs k
    have hone := (hall k hk hk').length
    rw [length_shifted] at hone
    have hsum : delivered outs (k + 1) = delivered outs k + (outs[k].flatMap msgBytes).length := by
      unfold delivered
      rw [List.take_add_one, List.getElem?_eq_getElem hk', List.map_append, List.sum_append]
      simp
    rw [hsum, ih, hone, startOf_succ hk]
    omega

theorem shifted_eq_slice_iff {v : Volume} {cs : List Nat} {d stop n : Nat} (hn : n = stop - d) :
    shifted v.bpb.bytesPerCluster (v.chainByte cs) d n = v.slice cs d stop ↔
      ∀ j < n, j < v.bpb.bytesPerCluster - d % v.bpb.bytesPerCluster →
        v.chainByte cs (d - d % v.bpb.bytesPerCluster + j) = v.chainByte cs (d + j) := by
  rw [shifted, Volume.slice, ← hn, List.map_inj_left]
  simp only [List.mem_range]
  refine forall₂_congr fun j _ => ?_
  by_cases hj : j < v.bpb.bytesPerCluster - d % v.bpb.bytesPerCluster
  · rw [if_pos hj]
    exact ⟨fun h _ => h, fun h => h hj⟩
  · rw [if_neg hj]
    exact ⟨fun _ h => absurd h hj, fun _ => rfl⟩

/-- **When reads return the right slices.** Whatever the volume, the file and the sizes asked for, every request is
answered; and all the answers are the file's bytes from where the earlier ones stopped exactly when, for every
request that starts inside a cluster, the bytes it should send from that cluster repeat the cluster's first bytes. -/
theorem reads_return_slices_iff {s : Server} {fd : FatFileDescriptor} {e : Slot} {cs : List Nat}
    (hg : s.vol.bpb.Geometry) (hfile : IsFile s.vol fd.filename e cs) (h0 : fd.rdOff = 0) (reqs : List ReadArg) :
    ∃ F, ∀ fuel ≥ F, ∃ fd' s' outs, fd.reads fuel s [] reqs = some (fd', s', outs) ∧ outs.length = reqs.length ∧
      ((∀ k (hk : k < reqs.length) (hk' : k < outs.length), Replies outs[k]
          (s.vol.slice cs (delivered outs k) (min (delivered outs k + reqs[k].count.toNat) (s.vol.size e)))) ↔
        ∀ k (hk : k < reqs.length), ∀ d r n, d = startOf (s.vol.size e) reqs k → r = d % s.vol.bpb.bytesPerCluster →
          n = min (s.vol.bpb.bytesPerCluster - r) (min reqs[k].count.toNat (s.vol.size e - d)) →
          ∀ j < n, s.vol.chainByte cs (d - r + j) = s.vol.chainByte cs (d + j)) := by
  obtain ⟨F, hF⟩ := reads_spec hg hfile
  refine ⟨F, fun fuel hf => ?_⟩
  obtain ⟨fd', s', outs, hreads, hlen, hrun⟩ := hF fuel hf reqs fd s 0 rfl rfl (by omega)
  refine ⟨fd', s', outs, hreads, hlen, ?_⟩
  have hall : ∀ k (hk : k < reqs.length) (hk' : k < outs.length), Replies outs[k]
      (shifted s.vol.bpb.bytesPerCluster (s.vol.chainByte cs) (startOf (s.vol.size e) reqs k)
        (min reqs[k].count.toNat (s.vol.size e - startOf (s.vol.size e) reqs k))) :=
    fun k hk hk' => hrun k hk hk' _ (by rw [startOf, Nat.zero_add])
  have hdel := delivered_eq hlen hall
  constructor
  · rintro h k hk d r n rfl rfl rfl j hj
    have heq := (hall k hk (by omega)).bytes_eq (h k hk (by omega))
    rw [hdel k (by omega)] at heq
    exact (shifted_eq_slice_iff (by omega)).mp heq j (by omega) (by omega)
  · intro h k hk hk'
    rw [hdel k (by omega)]
    have heq := (@shifted_eq_slice_iff s.vol _ (startOf (s.vol.size e) reqs k)
      (min (startOf (s.vol.size e) reqs k + reqs[k].count.toNat) (s.vol.size e))
      (min reqs[k].count.toNat (s.vol.size e - startOf (s.vol.size e) reqs k)) (by omega)).mpr
      fun j hj hj' => h k hk _ _ _ rfl rfl rfl j (by omega)
    rw [← heq]
    exact hall k hk hk'

/-! ### A file of two bytes, read one byte at a time -/

/-- One-sector clusters: the boot sector, one sector of FAT, then the root directory in cluster 2 and the data area.
The root directory holds the file `A`, bytes 1 and 2 in cluster 3. -/
def twoBytes : Volume where
  bpb := ⟨512, 1, 1, 1, 5, 1, 2⟩
  image := fun a =>
    if a < 1024 then (if a < 520 ∨ 528 ≤ a then 0 else if a % 4 = 3 then 0x0f else 0xff)
    else if a = 1024 then 0x41
    else if a ≤ 1035 then 0x20
    else if a = 1050 then 3
    else if a = 1052 then 2
    else if a = 1536 then 1
    else if a = 1537 then 2
    else 0

def twoBytesServer : Server := ⟨4, twoBytes, fun _ => 0, fun _ => 0, 0, ⟨[], 0, Vector.replicate 16 0, 0, 0, 0, 0⟩⟩

/-- A descriptor on `a`. -/
def fdA : FatFileDescriptor := ⟨[0x61], 0, 0, 0⟩

def readReq (count : UInt32) : ReadArg := ⟨[], 3, Vector.replicate 16 0, 0, count, 0, 0⟩

theorem twoBytes_geometry : twoBytes.bpb.Geometry := by
  constructor <;> decide

theorem twoBytes_isFile : IsFile twoBytes [0x61] (2, 0) [3] where
  names := ⟨[], 1, ⟨2, [0x61], [], true, false⟩, by decide, by decide⟩
  notRoot := by decide
  regular := by decide
  chain := ⟨by decide, by decide, by decide, show 0x0ffffff8 ≤ twoBytes.fatAt 3 by decide⟩
  long := by decide

theorem reads_return_slices_two_bytes : ∃ F, ∀ fuel ≥ F, ∃ fd' s' outs,
    fdA.reads fuel twoBytesServer [] [readReq 1, readReq 1] = some (fd', s', outs) ∧ outs.length = 2 ∧
      ((∀ k (hk : k < [readReq 1, readReq 1].length) (hk' : k < outs.length), Replies outs[k]
          (twoBytes.slice [3] (delivered outs k)
            (min (delivered outs k + [readReq 1, readReq 1][k].count.toNat) (twoBytes.size (2, 0))))) ↔
        ∀ k (hk : k < [readReq 1, readReq 1].length), ∀ d r n, d = startOf (twoBytes.size (2, 0)) [readReq 1, readReq 1] k →
          r = d % twoBytes.bpb.bytesPerCluster →
          n = min (twoBytes.bpb.bytesPerCluster - r)
            (min [readReq 1, readReq 1][k].count.toNat (twoBytes.size (2, 0) - d)) →
          ∀ j < n, twoBytes.chainByte [3] (d - r + j) = twoBytes.chainByte [3] (d + j)) :=
  @reads_return_slices_iff twoBytesServer fdA _ _ twoBytes_geometry twoBytes_isFile rfl [readReq 1, readReq 1]

/-- The second request sends the first byte again: byte 1 where the file has byte 2. -/
theorem second_read_repeats : twoBytes.bpb.Geometry ∧ IsFile twoBytes fdA.filename (2, 0) [3] ∧ fdA.rdOff = 0 ∧
    ∃ F, ∀ fuel ≥ F, ∃ fd' s' out1 out2,
      fdA.reads fuel twoBytesServer [] [readReq 1, readReq 1] = some (fd', s', [out1, out2]) ∧
      delivered [out1, out2] 1 = 1 ∧ Replies out2 [1] ∧ twoBytes.slice [3] 1 (min (1 + 1) (twoBytes.size (2, 0))) = [2] ∧
      ¬ Replies out2 (twoBytes.slice [3] 1 (min (1 + 1) (twoBytes.size (2, 0)))) := by
  refine ⟨twoBytes_geometry, twoBytes_isFile, rfl, ?_⟩
  obtain ⟨F, hF⟩ := reads_spec twoBytes_geometry twoBytes_isFile
  refine ⟨F, fun fuel hf => ?_⟩
  obtain ⟨fd', s', outs, hreads, hlen, hrun⟩ := hF fuel hf [readReq 1, readReq 1] fdA twoBytesServer 0 rfl rfl rfl
  obtain ⟨out1, out2, rfl⟩ : ∃ out1 out2, outs = [out1, out2] := by
    exact List.length_eq_two.mp hlen
  have h1 := hrun 0 (by decide) (by simp) 0 (by decide)
  have h2 := hrun 1 (by decide) (by simp) 1 (by decide)
  have hb : shifted twoBytes.bpb.bytesPerCluster (twoBytes.chainByte [3]) 1
      (min [readReq 1, readReq 1][1].count.toNat (twoBytes.size (2, 0) - 1)) = [1] := by decide
  have hs : twoBytes.slice [3] 1 (min (1 + 1) (twoBytes.size (2, 0))) = [2] := by decide
  rw [hb] at h2
  refine ⟨fd', s', out1, out2, hreads, ?_, h2, hs, fun h => ?_⟩
  · have := h1.length
    rw [length_shifted] at this
    simp only [delivered, List.take_succ_cons, List.take_zero, List.map_cons, List.map_nil, List.sum_cons, List.sum_nil]
    exact this.trans (by decide)
  · have := h2.bytes_eq h
    rw [hs] at this
    exact absurd this (by decide)

end KinOS.Fs
