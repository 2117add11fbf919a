import KinOS.Fs.Alloc

/-!
# What one write message does

A message that crosses the end of a cluster is copied in two rounds, and the second round copies the length of the
whole message: the bytes behind the message's own come from the fields that follow `data`. They end up in the file's
next cluster, past the position the next message starts at, so what has been written stays as it was written.
`writeState_data` and `writeState_finish` are the two kinds of message.
-/

namespace KinOS.Fs

open Bytes

/-- The bytes of `first_cluster_high`, `first_cluster_low` and `file_size` in the entry at slot `e`. -/
def EntryField (e : Slot) (c j : Nat) : Prop :=
  c = e.1 ∧ (32 * e.2 + 20 ≤ j ∧ j < 32 * e.2 + 22 ∨ 32 * e.2 + 26 ≤ j ∧ j < 32 * e.2 + 32)

/-- No byte outside the chain. -/
def NoByte (_ _ : Nat) : Prop := False

theorem Evolves.mono {P Q : Nat → Nat → Prop} {v v' : Volume} {own own' : List Nat} (h : Evolves P v v' own own')
    (hPQ : ∀ c j, P c j → Q c j) : Evolves Q v v' own own' :=
  { h with bytes := fun c j hc hj hm hQ => h.bytes c j hc hj hm fun hP => hQ (hPQ c j hP) }

theorem IsChain.self {v : Volume} {first : Nat} {cs : List Nat} (h : IsChain v first cs) : IsChain v (cs.headD 0) cs :=
  { h with head := rfl }

/-! ## Bytes along a chain -/

section Chain

variable {v v' : Volume} {own own' : List Nat}

theorem chainByte_congr {k : Nat} (hb : v'.bpb = v.bpb)
    (h : ∀ j < v.bpb.bytesPerCluster, v'.byteAt (own.getD (k / v.bpb.bytesPerCluster) 0) j =
      v.byteAt (own.getD (k / v.bpb.bytesPerCluster) 0) j) (hpos : 0 < v.bpb.bytesPerCluster) :
    v'.chainByte own k = v.chainByte own k := by
  rw [Volume.chainByte, Volume.chainByte, hb]
  exact h _ (Nat.mod_lt _ hpos)

theorem mem_of_getD {k : Nat} (h : k < own.length) : own.getD k 0 ∈ own := by
  rw [List.getD_eq_getElem _ _ h]
  exact List.getElem_mem h

theorem chainByte_longer {k : Nat} (ns : List Nat) (h : k / v.bpb.bytesPerCluster < own.length) :
    v.chainByte (own ++ ns) k = v.chainByte own k := by
  rw [Volume.chainByte, Volume.chainByte, List.getD_append _ _ _ _ h]

/-- Bytes along the part of a chain that was there before it grew. -/
theorem Evolves.chainByte_eq {P : Nat → Nat → Prop} {k : Nat} (h : Evolves P v v' own own') (hs : SameBytes v v')
    (hk : k / v.bpb.bytesPerCluster < own.length) : v'.chainByte own' k = v.chainByte own k := by
  obtain ⟨ns, rfl, -⟩ := h.ext
  rw [chainByte_longer ns (by rwa [h.bpb]), Volume.chainByte, Volume.chainByte, h.bpb]
  exact hs _ _

/-- The entry keeps its first cluster when only the chain changes. -/
theorem Evolves.first_kept {e : Slot} (h : Evolves NoByte v v' own own') (hg : v.bpb.Geometry) (hval : v.bpb.Valid e.1)
    (hidx : e.2 < v.bpb.entriesPerCluster) (hm : e.1 ∉ own') : v'.first e = v.first e := by
  have hb := h.bpb
  have hbound := Server.index_bound hidx
  refine firstCluster_congr fun j hj => ?_
  rw [Volume.cluster_eq (by rwa [hb]) (by rwa [hb]), Volume.cluster_eq hg hval]
  exact h.bytes _ _ hval (by omega) hm False.elim

end Chain

/-! ## Writing a cluster back -/

namespace Server

variable {s : Server}

theorem Loaded.byteAt {c j : Nat} (hg : s.vol.bpb.Geometry) (hl : s.Loaded c) (hc : s.vol.bpb.Valid c)
    (hj : j < s.vol.bpb.bytesPerCluster) : s.clusterBuf j = s.vol.byteAt c j := by
  rw [hl.buf j hj, Volume.cluster_eq hg hc]

theorem setCluster_evolves {P : Nat → Nat → Prop} {v : Volume} {own : List Nat} {c : Nat} {buf : Mem}
    (hg : v.bpb.Geometry) (hc : v.bpb.Valid c) (hown : IsChain v (own.headD 0) own)
    (hbuf : c ∉ own → ∀ j < v.bpb.bytesPerCluster, ¬ P c j → buf j = v.byteAt c j) :
    Evolves P v (v.setCluster c buf) own own where
  bpb := rfl
  ext := ⟨[], (List.append_nil _).symm, by simp⟩
  chain := { hown with
    linked := hown.linked.congr fun d hd => Volume.fatAt_setCluster hg (hown.valid d hd).2 }
  fat d hd _ := Volume.fatAt_setCluster hg hd.2
  bytes d j hd hj hm hP := by
    by_cases he : d = c
    · subst he
      rw [Volume.byteAt_setCluster_self hj]
      exact hbuf hm j hj hP
    · exact Volume.byteAt_setCluster_other hc hd he hj

/-- One round of the copy loop: the bytes of the message go to their place along the chain. -/
theorem putBytes_spec {P : Nat → Nat → Prop} {raw : Mem} {pre post : List Nat} {c writeOff dataOff n : Nat}
    (hg : s.vol.bpb.Geometry) (hown : IsChain s.vol ((pre ++ c :: post).headD 0) (pre ++ c :: post))
    (hn : writeOff + n ≤ s.vol.bpb.bytesPerCluster) {start : Nat}
    (hstart : start = pre.length * s.vol.bpb.bytesPerCluster + writeOff) :
    Evolves P s.vol (s.putBytes raw c writeOff dataOff n).vol (pre ++ c :: post) (pre ++ c :: post) ∧
      ∀ k, k / s.vol.bpb.bytesPerCluster < (pre ++ c :: post).length →
        (s.putBytes raw c writeOff dataOff n).vol.chainByte (pre ++ c :: post) k =
          if start ≤ k ∧ k < start + n then raw (dataOff + (k - start)) else s.vol.chainByte (pre ++ c :: post) k := by
  have hB := hg.bytesPerCluster_ge
  have hmem : c ∈ pre ++ c :: post := by simp
  have hc := hown.valid c hmem
  have hvol : (s.putBytes raw c writeOff dataOff n).vol =
      s.vol.setCluster c (copy (s.readCluster c).clusterBuf writeOff raw dataOff n) :=
    updateCluster_vol (s := { s.readCluster c with
      clusterBuf := copy (s.readCluster c).clusterBuf writeOff raw dataOff n }) hg hc
  rw [hvol]
  refine ⟨setCluster_evolves hg hc hown fun hm => absurd hmem hm, fun k hk => ?_⟩
  rw [Volume.chainByte, Volume.chainByte, Volume.setCluster_bpb]
  generalize hsize : s.vol.bpb.bytesPerCluster = B at *
  have hdiv := Nat.div_add_mod k B
  have hmod := Nat.mod_lt k (show 0 < B by omega)
  rw [Nat.mul_comm] at hdiv
  by_cases hi : k / B = pre.length
  · -- the cluster written
    have hget : (pre ++ c :: post).getD (k / B) 0 = c := by simp [hi]
    rw [hget, Volume.byteAt_setCluster_self (by omega)]
    rw [hi] at hdiv
    by_cases hin : start ≤ k ∧ k < start + n
    · rw [if_pos hin]
      obtain ⟨j, hj⟩ : ∃ j, k % B = writeOff + j := ⟨k % B - writeOff, by omega⟩
      have hpos : dataOff + j = dataOff + (k - start) := by omega
      rw [hj, copy_inside (by omega), hpos]
    · rw [if_neg hin, copy_outside (by omega), readCluster_buf hg hc (by omega)]
  · have hne : (pre ++ c :: post).getD (k / B) 0 ≠ c := by
      intro he
      have hlt : pre.length < (pre ++ c :: post).length := by simp
      have hpre : (pre ++ c :: post)[pre.length] = c := by simp
      rw [List.getD_eq_getElem _ _ hk] at he
      exact hi ((hown.nodup.getElem_inj_iff).mp (he.trans hpre.symm))
    have hout : ¬ (start ≤ k ∧ k < start + n) := by
      rintro ⟨h1, h2⟩
      apply hi
      rw [hstart] at h1 h2
      exact Nat.div_eq_of_lt_le (by omega) (by rw [Nat.succ_mul]; omega)
    rw [if_neg hout]
    exact Volume.byteAt_setCluster_other hc (hown.valid _ (mem_of_getD hk)) hne (by omega)

/-- A message that fits into the cluster is copied in one round. -/
theorem writeBytes_fit {raw : Mem} {pre post : List Nat} {c writeOff len F fuel : Nat} (hg : s.vol.bpb.Geometry)
    (hown : IsChain s.vol ((pre ++ c :: post).headD 0) (pre ++ c :: post)) (h1 : 1 ≤ len)
    (hfit : writeOff + len ≤ s.vol.bpb.bytesPerCluster) {start : Nat}
    (hstart : start = pre.length * s.vol.bpb.bytesPerCluster + writeOff) (hf : 2 ≤ fuel) :
    s.writeBytes F raw len fuel c writeOff 0 = some (s.putBytes raw c writeOff 0 len) ∧
      Evolves NoByte s.vol (s.putBytes raw c writeOff 0 len).vol (pre ++ c :: post) (pre ++ c :: post) ∧
      ∀ k, k / s.vol.bpb.bytesPerCluster < (pre ++ c :: post).length →
        (s.putBytes raw c writeOff 0 len).vol.chainByte (pre ++ c :: post) k =
          if start ≤ k ∧ k < start + len then raw (k - start) else s.vol.chainByte (pre ++ c :: post) k := by
  obtain ⟨fuel, rfl⟩ : ∃ f, fuel = f + 2 := ⟨fuel - 2, by omega⟩
  obtain ⟨hev, hby⟩ := @putBytes_spec s NoByte raw pre post c writeOff 0 len hg hown hfit start hstart
  simp only [Nat.zero_add] at hby
  refine ⟨?_, hev, hby⟩
  rw [writeBytes, if_pos (by omega)]
  simp only [if_neg (show writeOff ≠ s.vol.bpb.bytesPerCluster by omega), Option.bind_some, Nat.zero_add,
    Nat.min_eq_left (show len ≤ s.vol.bpb.bytesPerCluster - writeOff by omega)]
  rw [writeBytes, if_neg (by omega)]

/-- One that goes on in the next cluster: the second round has the length of the whole message again. -/
theorem writeBytes_spill {raw : Mem} {pre post : List Nat} {c writeOff len F fuel : Nat} (hg : s.vol.bpb.Geometry)
    (hown : IsChain s.vol ((pre ++ c :: post).headD 0) (pre ++ c :: post)) (hshort : len ≤ 512)
    (hoff : writeOff < s.vol.bpb.bytesPerCluster) (hspill : s.vol.bpb.bytesPerCluster < writeOff + len) {start : Nat}
    (hstart : start = pre.length * s.vol.bpb.bytesPerCluster + writeOff)
    (hroom : start + len ≤ s.vol.bpb.bytesPerCluster * (s.vol.free.length + (pre ++ c :: post).length))
    (hF : s.vol.bpb.top < F) (hf : 3 ≤ fuel) {n : Nat} (hn : n = s.vol.bpb.bytesPerCluster - writeOff) :
    ∃ own' s', s.writeBytes F raw len fuel c writeOff 0 = some s' ∧
      Evolves NoByte s.vol s'.vol (pre ++ c :: post) own' ∧ start + n + len ≤ s.vol.bpb.bytesPerCluster * own'.length ∧
      (∀ k, start ≤ k → k < start + n + len → s'.vol.chainByte own' k = raw (k - start)) ∧
      ∀ k < start, s'.vol.chainByte own' k = s.vol.chainByte (pre ++ c :: post) k := by
  obtain ⟨fuel, rfl⟩ : ∃ f, fuel = f + 3 := ⟨fuel - 3, by omega⟩
  have hB := hg.bytesPerCluster_ge
  generalize hsize : s.vol.bpb.bytesPerCluster = B at *
  -- positions below the end of this cluster are in the chain
  have hlen : (pre ++ c :: post).length = pre.length + 1 + post.length := by simp; omega
  have hin : ∀ k, k < pre.length * B + B → k / B < (pre ++ c :: post).length := by
    intro k hk
    have : k / B < pre.length + 1 := (Nat.div_lt_iff_lt_mul (by omega)).mpr (by rw [Nat.add_mul]; omega)
    omega
  obtain ⟨hev1, hby1⟩ := @putBytes_spec _ NoByte raw pre post c writeOff 0 n hg hown
    (by rw [hsize]; omega) start (by rw [hsize]; exact hstart)
  rw [hsize] at hby1
  have hround : s.writeBytes F raw len (fuel + 3) c writeOff 0 =
      (s.putBytes raw c writeOff 0 n).writeBytes F raw len (fuel + 2) c (writeOff + n) n := by
    rw [writeBytes, if_pos (by omega)]
    simp only [hsize, if_neg (show writeOff ≠ B by omega), Option.bind_some, Nat.zero_add,
      ← hn, Nat.min_eq_right (show n ≤ len by omega)]
  generalize s.putBytes raw c writeOff 0 n = s1 at *
  have hb1 := hev1.bpb
  have hsize1 : s1.vol.bpb.bytesPerCluster = B := by rw [hb1, hsize]
  have hcount1 := hev1.count hown
  have hg1 : s1.vol.bpb.Geometry := by rwa [hb1]
  obtain ⟨d, post', s2, he2, hev2, hsame2, -⟩ := advance_spec (P := NoByte) hg1 hev1.chain
    (fun hp => by
      subst hp
      by_contra hzero
      have hlast : s.vol.free.length + (pre ++ [c]).length = pre.length + 1 := by
        simp only [List.length_nil] at hlen
        omega
      rw [hlast, Nat.mul_add, Nat.mul_comm B] at hroom
      omega)
    (by rw [hb1]; exact hF)
  have hsize2 : s2.vol.bpb.bytesPerCluster = B := by rw [hev2.bpb, hsize1]
  have hg2 : s2.vol.bpb.Geometry := by rwa [hev2.bpb]
  have hlist : pre ++ c :: d :: post' = (pre ++ [c]) ++ d :: post' := by simp
  have hchain2 : IsChain s2.vol (((pre ++ [c]) ++ d :: post').headD 0) ((pre ++ [c]) ++ d :: post') := by
    rw [← hlist]
    exact hev2.chain
  obtain ⟨hev3, hby3⟩ := @putBytes_spec _ NoByte _ _ _ _ 0 _ len hg2 hchain2
    (by rw [hsize2]; omega) (start + n)
    (by rw [hsize2, List.length_append, List.length_singleton, Nat.add_mul]; omega)
  rw [hsize2, ← hlist] at hby3
  rw [← hlist] at hev3
  have hlen2 : (pre ++ c :: d :: post').length = pre.length + 2 + post'.length := by simp; omega
  have hin2 : ∀ k, k < pre.length * B + B + B → k / B < (pre ++ c :: d :: post').length := by
    intro k hk
    have : k / B < pre.length + 2 := (Nat.div_lt_iff_lt_mul (by omega)).mpr (by rw [Nat.add_mul]; omega)
    omega
  have hcap2 : pre.length * B + B + B ≤ B * (pre ++ c :: d :: post').length := by
    have := Nat.mul_le_mul_left B (show pre.length + 2 ≤ (pre ++ c :: d :: post').length by omega)
    rw [Nat.mul_add, Nat.mul_comm B] at this
    omega
  have hold : ∀ k, k < pre.length * B + B → s2.vol.chainByte (pre ++ c :: d :: post') k =
      s1.vol.chainByte (pre ++ c :: post) k :=
    fun k hk => hev2.chainByte_eq hsame2 (by rw [hsize1]; exact hin k hk)
  refine ⟨pre ++ c :: d :: post', s2.putBytes raw d 0 n len, ?_, hev1.trans (hev2.trans hev3), by omega,
    fun k hk hk' => ?_, fun k hk => ?_⟩
  · rw [hround, writeBytes, if_pos (by omega), hsize1]
    simp only [if_pos (show writeOff + n = B by omega), he2, Option.map_some, Option.bind_some, Nat.sub_zero,
      Nat.min_eq_left (show len ≤ B by omega), Nat.zero_add]
    rw [writeBytes, if_neg (by omega)]
  · rw [hby3 k (hin2 k (by omega))]
    by_cases hfirst : k < start + n
    · rw [if_neg (by omega), hold k (by omega), hby1 k (hin k (by omega)), if_pos ⟨hk, hfirst⟩, Nat.zero_add]
    · have hpos : n + (k - (start + n)) = k - start := by omega
      rw [if_pos (by omega), hpos]
  · rw [hby3 k (hin2 k (by omega)), if_neg (by omega), hold k (by omega), hby1 k (hin k (by omega)), if_neg (by omega)]

/-- **The copy loop.** All the bytes of the message go to their place, what was before them stays, and the chain is
long enough afterwards. -/
theorem writeBytes_spec {raw : Mem} {pre post : List Nat} {c writeOff len F fuel : Nat} (hg : s.vol.bpb.Geometry)
    (hown : IsChain s.vol ((pre ++ c :: post).headD 0) (pre ++ c :: post)) (h1 : 1 ≤ len) (hshort : len ≤ 512)
    (hoff : writeOff < s.vol.bpb.bytesPerCluster) {start : Nat}
    (hstart : start = pre.length * s.vol.bpb.bytesPerCluster + writeOff)
    (hroom : start + len ≤ s.vol.bpb.bytesPerCluster * (s.vol.free.length + (pre ++ c :: post).length))
    (hF : s.vol.bpb.top < F) (hf : 3 ≤ fuel) :
    ∃ own' s', s.writeBytes F raw len fuel c writeOff 0 = some s' ∧
      Evolves NoByte s.vol s'.vol (pre ++ c :: post) own' ∧ start + len ≤ s.vol.bpb.bytesPerCluster * own'.length ∧
      (∀ k, start ≤ k → k < start + len → s'.vol.chainByte own' k = raw (k - start)) ∧
      ∀ k < start, s'.vol.chainByte own' k = s.vol.chainByte (pre ++ c :: post) k := by
  have hB := hg.bytesPerCluster_ge
  by_cases hfit : writeOff + len ≤ s.vol.bpb.bytesPerCluster
  · obtain ⟨hx, hev, hby⟩ := @writeBytes_fit s raw pre post c writeOff len F fuel hg hown h1 hfit start hstart (by omega)
    -- the cluster is on the chain
    have hend : start + len ≤ s.vol.bpb.bytesPerCluster * (pre ++ c :: post).length := by
      have hle := Nat.mul_le_mul_left s.vol.bpb.bytesPerCluster (show pre.length + 1 ≤ (pre ++ c :: post).length by simp)
      rw [Nat.mul_add, Nat.mul_comm s.vol.bpb.bytesPerCluster] at hle
      omega
    have hin : ∀ k < start + len, k / s.vol.bpb.bytesPerCluster < (pre ++ c :: post).length := by
      intro k hk
      refine (Nat.div_lt_iff_lt_mul (by omega)).mpr ?_
      rw [Nat.mul_comm]
      omega
    refine ⟨pre ++ c :: post, _, hx, hev, hend, fun k hk hk' => ?_, fun k hk => ?_⟩
    · rw [hby k (hin k hk'), if_pos ⟨hk, hk'⟩]
    · rw [hby k (hin k (by omega)), if_neg (by omega)]
  · obtain ⟨own', s', hx, hev, hlong, hnew, hold⟩ := @writeBytes_spill s raw pre post c writeOff len F fuel hg hown
      hshort hoff (by omega) start hstart hroom hF hf _ rfl
    exact ⟨own', s', hx, hev, by omega, fun k hk hk' => hnew k hk (by omega), hold⟩

/-! ## The directory entry -/

/-- The buffer holds the directory cluster of the entry at slot `e`, which is no cluster of the file. -/
structure AtEntry (s : Server) (e : Slot) (own : List Nat) : Prop where
  loaded : s.Loaded e.1
  index : e.2 < s.vol.bpb.entriesPerCluster
  valid : s.vol.bpb.Valid e.1
  apart : e.1 ∉ own

/-- The buffer with changed entry fields is written back. -/
theorem updateEntry_spec {e : Slot} {own : List Nat} {t : Server} (hg : s.vol.bpb.Geometry) (he : AtEntry s e own)
    (hown : IsChain s.vol (own.headD 0) own) (hv : t.vol = s.vol) (hn : t.clusterNum = s.clusterNum)
    (hbuf : ∀ j < s.vol.bpb.bytesPerCluster, ¬ EntryField e e.1 j → t.clusterBuf j = s.clusterBuf j) :
    Evolves (EntryField e) s.vol (t.updateCluster 0).vol own own ∧ AtEntry (t.updateCluster 0) e own ∧
      ∀ k, k / s.vol.bpb.bytesPerCluster < own.length →
        (t.updateCluster 0).vol.chainByte own k = s.vol.chainByte own k := by
  have hnum : t.clusterNum = e.1 := hn.trans he.loaded.num
  have hvol : (t.updateCluster 0).vol = s.vol.setCluster e.1 t.clusterBuf := by
    rw [← hv]
    exact updateCluster_zero_vol (by rwa [hv]) hnum (by rw [hv]; exact he.valid)
  have hev : Evolves (EntryField e) s.vol (t.updateCluster 0).vol own own := by
    rw [hvol]
    refine setCluster_evolves hg he.valid hown fun _ j hj hP => ?_
    rw [hbuf j hj hP, he.loaded.byteAt hg he.valid hj]
  have hb := hev.bpb
  refine ⟨hev, ⟨⟨by rw [updateCluster_clusterNum]; exact hnum, fun j hj => ?_⟩, by rw [hb]; exact he.index,
    by rw [hb]; exact he.valid, he.apart⟩, fun k hk => ?_⟩
  · rw [hb] at hj
    rw [Volume.cluster_eq (by rwa [hb]) (by rw [hb]; exact he.valid), updateCluster_clusterBuf, hvol,
      Volume.byteAt_setCluster_self hj]
  · refine chainByte_congr hb (fun j hj => ?_) (by have := hg.bytesPerCluster_ge; omega)
    rw [hvol]
    refine Volume.byteAt_setCluster_other he.valid (hown.valid _ (mem_of_getD hk)) (fun heq => he.apart ?_) hj
    rw [← heq]
    exact mem_of_getD hk

theorem firstCluster_store {m : Mem} {a c : Nat} (hc : c < 2 ^ 32) :
    firstCluster (store 2 (store 2 m (a + 26) (c &&& 0xffff)) (a + 20) (c >>> 16 &&& 0xffff)) a = c := by
  have hlow : c &&& 0xffff = c % 2 ^ 16 := Nat.and_two_pow_sub_one_eq_mod c 16
  have hhigh : c >>> 16 &&& 0xffff = c / 2 ^ 16 % 2 ^ 16 := by
    rw [Nat.shiftRight_eq_div_pow]
    exact Nat.and_two_pow_sub_one_eq_mod _ 16
  rw [firstCluster_eq, load_store_self (by rw [hhigh]; omega), load_store_other (by omega),
    load_store_self (by rw [hlow]; omega), hlow, hhigh]
  omega

/-- The file has a chain when the message's data is written: its own, or one the server allocates for it. -/
theorem openChain_spec {e : Slot} {own : List Nat} {rm : WriteArg} {fuel : Nat} (hg : s.vol.bpb.Geometry)
    (he : AtEntry s e own) (hown : IsChain s.vol (s.vol.first e) own) (hused : s.vol.fatAt e.1 ≠ 0)
    (hroom : own = [] → 0 < s.vol.free.length ∧
      rm.count.toNat ≤ s.vol.bpb.bytesPerCluster * s.vol.free.length)
    (hf : s.vol.bpb.top < fuel) :
    ∃ own' s', s.openChain fuel rm e.2 = some (own'.headD 0, s') ∧ own' ≠ [] ∧
      Evolves (EntryField e) s.vol s'.vol own own' ∧ s'.vol.first e = own'.headD 0 ∧ AtEntry s' e own' ∧
      ∀ k, k / s.vol.bpb.bytesPerCluster < own.length → s'.vol.chainByte own' k = s.vol.chainByte own k := by
  have hB := hg.bytesPerCluster_ge
  have hfirst := he.loaded.first he.index
  have hidx := index_bound he.index
  unfold openChain
  rw [hfirst]
  by_cases hnil : own = []
  · subst hnil
    obtain ⟨hpos, hcount⟩ := hroom rfl
    have hfirst0 : s.vol.first e = 0 := hown.head.symm
    have hneed : (rm.count.toNat + s.vol.bpb.bytesPerCluster - 1) / s.vol.bpb.bytesPerCluster ≤ s.vol.free.length := by
      refine Nat.le_of_lt_succ ((Nat.div_lt_iff_lt_mul (by omega)).mpr ?_)
      rw [Nat.succ_mul, Nat.mul_comm]
      omega
    obtain ⟨first, own', s1, hal, rfl, hne', hev1, hsame1, hbuf1⟩ :=
      allocateClusterChain_spec (P := EntryField e) hg hpos hneed hf
    have hb1 := hev1.bpb
    have hg1 : s1.vol.bpb.Geometry := by rwa [hb1]
    have hmem : own'.headD 0 ∈ own' := by
      obtain ⟨f, fs, rfl⟩ := List.exists_cons_of_ne_nil hne'
      simp
    have hlt : own'.headD 0 < 2 ^ 32 := by
      have h1 := (hev1.chain.valid _ hmem).2
      have h2 := hg1.marks
      omega
    -- the directory cluster is in use, so the allocator did not take it
    have hapart : e.1 ∉ own' := by
      obtain ⟨ns, hns, hz⟩ := hev1.ext
      rw [List.nil_append] at hns
      exact fun hm => hused (hz _ (hns ▸ hm))
    have he1 : AtEntry s1 e own' := by
      refine ⟨⟨hbuf1.num.trans he.loaded.num, fun j hj => ?_⟩, by rw [hb1]; exact he.index,
        by rw [hb1]; exact he.valid, hapart⟩
      rw [hb1] at hj
      rw [hbuf1.buf, he.loaded.byteAt hg he.valid hj, Volume.cluster_eq hg1 (by rw [hb1]; exact he.valid), hsame1]
    obtain ⟨hev2, he2, hby2⟩ := updateEntry_spec (t := { s1 with
        clusterBuf := store 2 (store 2 s1.clusterBuf (32 * e.2 + 26) (own'.headD 0 &&& 0xffff)) (32 * e.2 + 20)
          (own'.headD 0 >>> 16 &&& 0xffff) }) hg1 he1 hev1.chain rfl rfl
      (fun j _ hP => by
        simp only [EntryField, true_and] at hP
        exact (store_outside (by omega)).trans (store_outside (by omega)))
    rw [if_neg (by simp [hfirst0]), hal]
    refine ⟨own', _, rfl, hne', hev1.trans hev2, ?_, he2, fun k hk => absurd hk (Nat.not_lt_zero _)⟩
    have := he2.loaded.first he2.index
    exact this.symm.trans (by rw [updateCluster_clusterBuf, firstCluster_store hlt])
  · obtain ⟨f, fs, rfl⟩ := List.exists_cons_of_ne_nil hnil
    have hne0 := ((hown.valid f (by simp)).ne hg).1
    have hf : s.vol.first e = f := hown.head.symm
    rw [if_pos (by rw [hf]; exact hne0), hf]
    exact ⟨f :: fs, s, rfl, hnil, .refl hown.self, hf, he, fun _ _ => rfl⟩

/-! ## The two kinds of message -/

/-- What the search of a message needs: the path leads to the entry, and the entry's cluster is in use and none of the
file's. -/
structure Target (v : Volume) (F : Nat) (path : List UInt8) (e : Slot) (own : List Nat) : Prop where
  found : ∃ cur ds, findStart v.bpb path 0 = some cur ∧ lookup v F cur = some (ds, some e)
  chain : IsChain v (v.first e) own
  valid : v.bpb.Valid e.1
  used : v.fatAt e.1 ≠ 0
  apart : e.1 ∉ own

theorem Target.find {F fuel : Nat} {path : List UInt8} {e : Slot} {own : List Nat} (hg : s.vol.bpb.Geometry)
    (h : Target s.vol F path e own) (hF : F ≤ fuel) :
    ∃ s' p, s.findFile fuel path 0 = some (s', some e.2, p) ∧ s'.vol = s.vol ∧ AtEntry s' e own := by
  obtain ⟨cur, ds, hst, hlk⟩ := h.found
  obtain ⟨s', p, hfind, hfound⟩ := findFile_lookup hg hst (lookup_mono hlk hF)
  have hv := hfound.vol
  exact ⟨s', p, hfind, hv, hfound.loaded, by rw [hv]; exact hfound.index, by rw [hv]; exact h.valid, h.apart⟩

/-- Before the copy loop: the chain reaches the cluster of the message's offset, and the entry names its first cluster. -/
theorem writeState_reaches {F fuel : Nat} {e : Slot} {own : List Nat} {rm : WriteArg} {off : Nat}
    (hg : s.vol.bpb.Geometry) (ht : Target s.vol F rm.filename e own) (hoff : rm.offset.toNat = off) (hlen : rm.len ≠ 0)
    (hreach : off / s.vol.bpb.bytesPerCluster < s.vol.free.length + own.length)
    (hcount : own = [] → rm.count.toNat ≤ s.vol.bpb.bytesPerCluster * s.vol.free.length)
    (hF : F ≤ fuel) (htop : s.vol.bpb.top < fuel) :
    ∃ pre c post, ∃ t : Server, (∀ raw, s.writeStateFrom fuel rm raw =
        t.writeBytes fuel raw rm.len.toNat fuel c (off % s.vol.bpb.bytesPerCluster) 0) ∧
      pre.length = off / s.vol.bpb.bytesPerCluster ∧ Evolves (EntryField e) s.vol t.vol own (pre ++ c :: post) ∧
      t.vol.first e = (pre ++ c :: post).headD 0 ∧ e.1 ∉ pre ++ c :: post ∧ e.2 < s.vol.bpb.entriesPerCluster ∧
      ∀ k, k / s.vol.bpb.bytesPerCluster < own.length → t.vol.chainByte (pre ++ c :: post) k = s.vol.chainByte own k := by
  obtain ⟨s1, p, hfind, hv1, he1⟩ := ht.find hg hF
  rw [← hv1] at hg ht hreach hcount htop ⊢
  have hpos : own = [] → 0 < s1.vol.free.length := by
    rintro rfl
    rw [List.length_nil, Nat.add_zero] at hreach
    exact Nat.lt_of_le_of_lt (Nat.zero_le _) hreach
  obtain ⟨own2, s2, hopen, hne2, hev2, hfirst2, he2, hby2⟩ := openChain_spec hg he1 ht.chain ht.used
    (fun hn => ⟨hpos hn, hcount hn⟩) htop
  have hb2 := hev2.bpb
  have hg2 : s2.vol.bpb.Geometry := by rwa [hb2]
  have hcount2 := hev2.count ht.chain.self
  obtain ⟨f, fs, rfl⟩ := List.exists_cons_of_ne_nil hne2
  obtain ⟨d, pre, post, s3, hadv, hev3, hsame3, hlen3, -⟩ := @advanceBy_spec NoByte _ hg2 _
    (by rw [hb2]; exact htop) (off / s1.vol.bpb.bytesPerCluster) _ _ [] _ rfl hev2.chain
    (by simp only [List.length_nil, Nat.zero_add, List.nil_append]; omega)
  rw [List.nil_append] at hev3
  rw [List.length_nil, Nat.zero_add] at hlen3
  have hev := hev2.trans (hev3.mono (Q := EntryField e) fun _ _ h => h.elim)
  -- the entry's cluster is in use, so it has not got on the chain
  have hapart : e.1 ∉ pre ++ d :: post := by
    obtain ⟨ns, hns, hz⟩ := hev.ext
    rw [hns, List.mem_append]
    exact fun hm => hm.elim ht.apart fun hm => ht.used (hz _ hm)
  refine ⟨pre, d, post, s3, fun raw => ?_, hlen3, hev, ?_, hapart, he1.index, fun k hk => ?_⟩
  · simp only [writeStateFrom, hfind, hopen, Option.bind_some, if_neg hlen, hb2, hoff, List.headD_cons, hadv]
  · rw [hev3.first_kept hg2 he2.valid he2.index hapart, hfirst2]
    obtain ⟨ns, hns, -⟩ := hev3.ext
    rw [hns]
    rfl
  · have hk2 : k / s2.vol.bpb.bytesPerCluster < (f :: fs).length := by
      obtain ⟨ns, hns, -⟩ := hev2.ext
      rw [hns, List.length_append, hb2]
      exact Nat.lt_of_lt_of_le hk (Nat.le_add_right ..)
    rw [hev3.chainByte_eq hsame3 hk2]
    exact hby2 k hk

/-- **A message with data**: its bytes are along the chain at the message's offset, and the bytes before them are as
they were. -/
theorem writeState_data {F fuel : Nat} {e : Slot} {own : List Nat} {rm : WriteArg} {off : Nat}
    (hg : s.vol.bpb.Geometry) (ht : Target s.vol F rm.filename e own) (hoff : rm.offset.toNat = off)
    (h1 : 1 ≤ rm.len.toNat)
    (hroom : off + rm.len.toNat ≤ s.vol.bpb.bytesPerCluster * (s.vol.free.length + own.length))
    (hcount : own = [] → rm.count.toNat ≤ s.vol.bpb.bytesPerCluster * s.vol.free.length)
    (hF : F ≤ fuel) (htop : s.vol.bpb.top < fuel) (h3 : 3 ≤ fuel) :
    ∃ s' own', s.writeState fuel rm = some s' ∧ Evolves (EntryField e) s.vol s'.vol own own' ∧
      s'.vol.first e = own'.headD 0 ∧ off + rm.len.toNat ≤ s.vol.bpb.bytesPerCluster * own'.length ∧
      (∀ k, off ≤ k → k < off + rm.len.toNat → s'.vol.chainByte own' k = rawData rm (k - off)) ∧
      ∀ k < off, k / s.vol.bpb.bytesPerCluster < own.length → s'.vol.chainByte own' k = s.vol.chainByte own k := by
  have hB := hg.bytesPerCluster_ge
  have hlen : rm.len ≠ 0 := fun h => by
    rw [h] at h1
    exact absurd h1 (by decide)
  obtain ⟨pre, c, post, t, hrun, hpre, hev, hfirst, hapart, hidx, hold⟩ :=
    @writeState_reaches s F fuel e own rm off hg ht hoff hlen
    ((Nat.div_lt_iff_lt_mul (by omega)).mpr (by rw [Nat.mul_comm]; omega)) hcount hF htop
  have hb := hev.bpb
  have hgt : t.vol.bpb.Geometry := by rwa [hb]
  have hcount' := hev.count ht.chain.self
  obtain ⟨own', s', hwrite, hev', hlong, hdata, hbefore⟩ := @writeBytes_spec t (rawData rm) pre post c
    (off % s.vol.bpb.bytesPerCluster) rm.len.toNat fuel fuel hgt hev.chain h1 (by have := rm.len.toNat_lt; omega)
    (by rw [hb]; exact Nat.mod_lt _ (by omega)) off
    (by rw [hb, hpre, Nat.mul_comm]; exact (Nat.div_add_mod ..).symm)
    (by rw [hb, hcount']; exact hroom) (by rw [hb]; exact htop) h3
  rw [hb] at hlong
  have hapart' : e.1 ∉ own' := by
    obtain ⟨ns, hns, hz⟩ := hev'.ext
    rw [hns, List.mem_append]
    refine fun hm => hm.elim hapart fun hm => ht.used ?_
    rw [← hev.fat _ ht.valid hapart]
    exact hz _ hm
  refine ⟨s', own', (hrun (rawData rm)).trans hwrite, hev.trans (hev'.mono fun _ _ h => h.elim), ?_, hlong, hdata,
    fun k hk hk' => ?_⟩
  · rw [hev'.first_kept hgt (by rw [hb]; exact ht.valid) (by rw [hb]; exact hidx) hapart', hfirst]
    obtain ⟨ns, rfl, -⟩ := hev'.ext
    cases pre <;> rfl
  · rw [hbefore k hk]
    exact hold k hk'

/-- The size in the buffer is set and the buffer is written back. -/
theorem setSize_spec {e : Slot} {own : List Nat} {x : UInt32} (hg : s.vol.bpb.Geometry) (he : AtEntry s e own)
    (hown : IsChain s.vol (s.vol.first e) own) {t : Server}
    (ht : t = { s with clusterBuf := store 4 s.clusterBuf (32 * e.2 + 28) x.toNat }.updateCluster 0) :
    Evolves (EntryField e) s.vol t.vol own own ∧ t.vol.first e = own.headD 0 ∧ t.vol.size e = x.toNat ∧
      ∀ k, k / s.vol.bpb.bytesPerCluster < own.length → t.vol.chainByte own k = s.vol.chainByte own k := by
  subst ht
  obtain ⟨hev, he', hby⟩ := updateEntry_spec
    (t := { s with clusterBuf := store 4 s.clusterBuf (32 * e.2 + 28) x.toNat }) hg he hown.self rfl rfl
    (fun j _ hP => by
      simp only [EntryField, true_and] at hP
      exact store_outside (by omega))
  refine ⟨hev, ?_, ?_, hby⟩
  · rw [← he'.loaded.first he'.index, updateCluster_clusterBuf, firstCluster, load_store_other (by omega),
      load_store_other (by omega), hown.head]
    exact he.loaded.first he.index
  · rw [← he'.loaded.size he'.index, updateCluster_clusterBuf]
    exact load_store_self x.toNat_lt

/-- **The message of length zero**: the file's size becomes the offset. -/
theorem writeState_finish {F fuel : Nat} {e : Slot} {own : List Nat} {rm : WriteArg} (hg : s.vol.bpb.Geometry)
    (ht : Target s.vol F rm.filename e own) (hne : own ≠ []) (hlen : rm.len = 0) (hF : F ≤ fuel) :
    ∃ s', s.writeState fuel rm = some s' ∧ Evolves (EntryField e) s.vol s'.vol own own ∧
      s'.vol.first e = own.headD 0 ∧ s'.vol.size e = rm.offset.toNat ∧
      ∀ k, k / s.vol.bpb.bytesPerCluster < own.length → s'.vol.chainByte own k = s.vol.chainByte own k := by
  obtain ⟨s1, p, hfind, hv1, he1⟩ := ht.find hg hF
  rw [← hv1] at hg ht ⊢
  obtain ⟨f, fs, rfl⟩ := List.exists_cons_of_ne_nil hne
  have hne0 := ((ht.chain.valid f (by simp)).ne hg).1
  have hf : s1.vol.first e = f := ht.chain.head.symm
  have hfirst := he1.loaded.first he1.index
  rw [hf] at hfirst
  refine ⟨_, ?_, setSize_spec hg he1 ht.chain rfl⟩
  simp only [writeState, hfind, openChain, hfirst, if_pos hne0, Option.bind_some, hlen, if_true]

/-- For a file without clusters it allocates the chain first. -/
theorem writeState_finish_new {F fuel : Nat} {e : Slot} {rm : WriteArg} (hg : s.vol.bpb.Geometry)
    (ht : Target s.vol F rm.filename e []) (hlen : rm.len = 0) (hpos : 0 < s.vol.free.length)
    (hcount : rm.count.toNat ≤ s.vol.bpb.bytesPerCluster * s.vol.free.length) (hF : F ≤ fuel)
    (htop : s.vol.bpb.top < fuel) :
    ∃ s' own', s.writeState fuel rm = some s' ∧ Evolves (EntryField e) s.vol s'.vol [] own' ∧
      s'.vol.first e = own'.headD 0 ∧ s'.vol.size e = rm.offset.toNat := by
  obtain ⟨s1, p, hfind, hv1, he1⟩ := ht.find hg hF
  rw [← hv1] at hg ht hpos hcount htop ⊢
  obtain ⟨own', s2, hopen, -, hev2, hfirst2, he2, -⟩ := openChain_spec hg he1 ht.chain ht.used
    (fun _ => ⟨hpos, hcount⟩) htop
  have hg2 : s2.vol.bpb.Geometry := by rwa [hev2.bpb]
  obtain ⟨hev3, hfirst3, hsize3, -⟩ := setSize_spec (x := rm.offset) hg2 he2 (by rw [hfirst2]; exact hev2.chain) rfl
  refine ⟨_, own', ?_, hev2.trans hev3, hfirst3, hsize3⟩
  simp only [writeState, hfind, hopen, Option.bind_some, hlen, if_true]

end Server

end KinOS.Fs
